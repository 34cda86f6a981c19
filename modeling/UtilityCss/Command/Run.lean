import UtilityCss.Build.Session
import UtilityCss.Command.Project
import UtilityCss.Command.Streams
import UtilityCss.Diagnostic.Render
import UtilityCss.Report.Encode
import UtilityCss.Stylesheet.Printer
import UtilityCss.Text.Utf8

/-!
# Running the command

`runOn` is the whole command as a function: from the arguments, the files and the streams of a run to
the exit code, what got out on both outputs, and the file that was written.  `run` is the case in which
standard input can be read and all of the result is written.

* `build` loads the project, reads the stylesheet, builds it and writes the result; diagnostics
  follow.  A failure is reported as an error diagnostic together with the warnings before it, and
  nothing is written.  Input that cannot be read and a result that cannot be written in full end a run
  with a plain message.
* `scan` writes the candidates of the project's content.

The exit code is 0 without errors, 1 with an error, and 2 for arguments that make no sense.
-/

namespace UtilityCss.Command

/-- What a run comes to. -/
structure Outcome where
  code : Nat
  /-- What got out on standard output. -/
  printed : ByteArray := .empty
  stderr : String := ""
  /-- The file that is written, with its path as given. -/
  written : Option (String × ByteArray) := none
  files : Workspace

/-- What got out on standard output as text, whatever it was cut off in. -/
def Outcome.stdout (r : Outcome) : String :=
  (String.fromUTF8? r.printed).getD (Text.decodeLossy r.printed)

/-! ## Diagnostics -/

/-- How diagnostics are shown. -/
structure Display where
  quiet : Bool
  coloured : Bool
  format : Format

/-- How the arguments want diagnostics shown. -/
def Arguments.display (args : Arguments) (terminal : Bool) : Display :=
  { quiet := args.quiet
    coloured := args.color = .always ∨ (args.color = .auto ∧ terminal)
    format := args.format }

/-- The text of diagnostics, each followed by an empty line, or a report of them all.  Where there is
no rendering the excerpt is left out; in a source shorter than `Span.offsetBound` there always is. -/
def Display.report (display : Display) (lib : Library) (ds : List Diagnostic) : String :=
  let shown := ds.filter fun d => !display.quiet || d.severity = .error
  if shown.isEmpty then ""
  else
    match display.format with
    | .text => String.join (shown.map fun d =>
      (d.render? display.coloured lib).getD (d.header display.coloured ++ d.remarks) ++ "\n")
    | .json => (Json.array (shown.map Diagnostic.toJson)).print ++ "\n"

/-- The number of errors and warnings, if there are any. -/
def Display.summary (display : Display) (sink : Sink) : String :=
  if display.quiet || sink.errors + sink.warnings == 0 then ""
  else "   Result: " ++ toString sink.errors ++ " error(s), " ++ toString sink.warnings ++
    " warning(s)\n"

/-- What is written at the end of a run. -/
def Display.finish (display : Display) (lib : Library) (sink : Sink) : String :=
  display.report lib sink.held ++ display.summary sink

def exitCode (sink : Sink) : Nat := if sink.hasErrors then 1 else 0

/-! ## Stages of a build -/

/-- Why a build has no result. -/
inductive BuildFailure where
  /-- The input cannot be read, or the result not be written. -/
  | file (cause : FileError)
  /-- A stage failed, after these diagnostics about these sources. -/
  | stage (e : BuildError) (lib : Library) (sink : Sink)

/-- The stylesheet of a run, as the only source. -/
def readInput (ws : Workspace) (stdin : Except FileError ByteArray) (input : Option String) :
    Except FileError (Library × Nat) := do
  match input with
  | some path => return Library.empty.add path (← ws.readText path)
  | none =>
    match String.fromUTF8? (← stdin) with
    | some text => return Library.empty.add "<stdin>" text
    | none => throw .notText

/-- The built stylesheet with its source and the diagnostics. -/
def buildNodes (args : Arguments) (ws : Workspace) (stdin : Except FileError ByteArray) :
    Except BuildFailure (List Node × Library × Sink) :=
  match Project.load ws args.config with
  | .error e => .error (.stage (.settings e) .empty .empty)
  | .ok project =>
    match readInput ws stdin args.input with
    | .error cause => .error (.file cause)
    | .ok (lib, file) =>
      match Pipeline.ofSettings ws project.settings project.root with
      | .error e => .error (.stage e lib .empty)
      | .ok pipeline =>
        let session := Session.start project.settings.options.lineCapacity
        match compile ws lib pipeline file ⟨session, .empty⟩ with
        | (.error e, state) => .error (.stage e lib state.sink)
        | (.ok nodes, state) => .ok (nodes, lib, state.sink)

/-- The text of a built stylesheet. -/
def printNodes (args : Arguments) (nodes : List Node) : String :=
  if args.ast then (Json.array (Node.toJsonAll nodes)).print
  else printStylesheet (if args.minify then .minified else .pretty) nodes

/-- The outcome of an error that has no diagnostic. -/
def plainError (ws : Workspace) (message : String) : Outcome :=
  { code := 1, stderr := "error: " ++ message ++ "\n", files := ws }

/-- The outcome of a stage that failed. -/
def stageError (ws : Workspace) (display : Display) (e : BuildError) (lib : Library) (sink : Sink) :
    Outcome :=
  let sink := sink.emit e.diagnostic
  { code := exitCode sink, stderr := display.finish lib sink, files := ws }

/-- Writes what was built, to standard output or to the file that the arguments name, and ends the run.
A result that is not written in full is an error, and the diagnostics are not reported then. -/
def deliver (args : Arguments) (ws : Workspace) (outlet : Outlet) (text : String)
    (code : Nat) (stderr : String) : Outcome :=
  match args.output with
  | none =>
    let sent := outlet.sendLine text
    match sent.failure with
    | none => { code, printed := sent.bytes, stderr, files := ws }
    | some message => { plainError ws message with printed := sent.bytes }
  | some path =>
    let sent := outlet.send text.toUTF8
    match ws.write path sent.bytes with
    | .error cause => plainError ws cause.message
    | .ok files =>
      let written := some (path, sent.bytes)
      match sent.failure with
      | none => { code, stderr, written, files }
      | some message => { plainError files message with written }

def runBuild (args : Arguments) (ws : Workspace) (streams : Streams) : Outcome :=
  let display := args.display streams.terminal
  match buildNodes args ws streams.stdin with
  | .error (.file cause) => plainError ws cause.message
  | .error (.stage e lib sink) => stageError ws display e lib sink
  | .ok (nodes, lib, sink) =>
    deliver args ws streams.result (printNodes args nodes) (exitCode sink) (display.finish lib sink)

/-! ## Scanning -/

/-- The candidates of the project's content. -/
def scanProject (args : Arguments) (ws : Workspace) : Except BuildError (List String) := do
  let project ← (Project.load ws args.config).mapError .settings
  let pipeline ← Pipeline.ofSettings ws project.settings project.root
  let state := ScanState.start project.settings.options.lineCapacity
  (scan ws pipeline.handlers pipeline.batchSize pipeline.content state).1.mapError .scan

def printCandidates (format : Format) (found : List String) : String :=
  match format with
  | .text => String.join (found.map (· ++ "\n"))
  | .json => (Json.array (found.map .text)).print ++ "\n"

/-- The exit code of a run that breaks down. -/
def brokenDown : Nat := 101

/-- Lists the candidates of the project's content.  The run breaks down if they cannot all be written. -/
def runScan (args : Arguments) (ws : Workspace) (streams : Streams) : Outcome :=
  match scanProject args ws with
  | .error e => stageError ws (args.display streams.terminal) e .empty .empty
  | .ok found =>
    let sent := streams.result.send (printCandidates args.format found).toUTF8
    match sent.failure with
    | some message =>
      { code := brokenDown
        printed := sent.bytes
        stderr := "failed printing to stdout: " ++ message ++ "\n"
        files := ws }
    | none =>
      { code := 0
        printed := sent.bytes
        stderr := if args.quiet then ""
          else "   Found " ++ toString found.length ++ " candidate(s)\n"
        files := ws }

/-! ## The command -/

def versionText : String := "tack 0.1.0\n"

/-- How the command is called. -/
def helpText : String :=
  "Utility-first CSS compiler\n\nUsage: tack [OPTIONS] <COMMAND>\n\nCommands:\n" ++
    "  build  Compile a stylesheet\n" ++
    "  scan   List the candidates found in the configured content\n"

/-- The whole command. -/
def runOn (streams : Streams) (args : List String) (ws : Workspace) : Outcome :=
  match Arguments.read args with
  | .error .usage => { code := 2, stderr := "error: invalid arguments\n", files := ws }
  | .error .help => { code := 0, printed := (streams.result.send helpText.toUTF8).bytes, files := ws }
  | .error .version =>
    { code := 0, printed := (streams.result.send versionText.toUTF8).bytes, files := ws }
  | .ok args =>
    match args.verb with
    | .build => runBuild args ws streams
    | .scan => runScan args ws streams

/-- The whole command, if nothing is in the way of its input and output; `terminal` says whether standard
error is a terminal. -/
def run (args : List String) (ws : Workspace) (stdin : ByteArray) (terminal : Bool) : Outcome :=
  runOn { stdin := .ok stdin, terminal } args ws

end UtilityCss.Command
