import UtilityCss.Build.Pipeline
import UtilityCss.Directive.Merge
import UtilityCss.Source.Text

/-!
# Building a stylesheet

`compile` reads a stylesheet, checks its directives and replaces them by generated rules.  What a
later build can use again is kept in a `Session`: the state of the scanner, the rules generated, and
every candidate ever found.  A session only grows, so a build that scans changed files only still
has the rules of all others.

A stylesheet without directives is answered as it was read, and nothing is scanned for it.  If a
stage fails, the stages behind it are not reached; warnings emitted before that stay emitted.
-/

namespace UtilityCss

/-- What is kept from build to build. -/
structure Session where
  scanner : ScanState
  rules : RuleCache
  /-- Every candidate found, ascending. -/
  candidates : List String

namespace Session

/-- The session before the first build, with room for a number of lines. -/
def start (lineCapacity : Nat) : Session :=
  ⟨.start lineCapacity, .empty, []⟩

/-- The session before the first build without settings. -/
def default : Session := start ({} : Options).lineCapacity

end Session

/-- A session, and the diagnostics of the run. -/
structure BuildState where
  session : Session
  sink : Sink

namespace Session

/-- Scans content and adds what was found to the candidates. -/
def collect (s : Session) (ws : Workspace) (p : Pipeline) : Except ScanError Unit × Session :=
  let (result, scanner) := scan ws p.handlers p.batchSize p.content s.scanner
  match result with
  | .error e => (.error e, { s with scanner })
  | .ok found =>
    (.ok (), { s with
      scanner
      candidates := Names.insert Candidate.always (Names.insertAll found s.candidates) })

/-- The sheet of all candidates. -/
def generate (s : Session) (resolve : Resolver) : Sheet × Session :=
  let (sheet, rules) := s.rules.generate resolve s.candidates
  (sheet, { s with rules })

end Session

/-- Replaces the directives of a document by the rules of all candidates. -/
def expand (ws : Workspace) (p : Pipeline) (nodes : List Node) (state : BuildState) :
    Except ScanError (List Node) × BuildState :=
  if (Directive.Sites.find nodes).isEmpty then (.ok nodes, state)
  else
    match state.session.collect ws p with
    | (.error e, session) => (.error e, { state with session })
    | (.ok (), session) =>
      let (sheet, session) := session.generate p.resolve
      (.ok (Directive.merge nodes sheet),
        { session, sink := Directive.warnIfEmpty nodes sheet state.sink })

/-- Builds the stylesheet with a number. -/
def compile (ws : Workspace) (lib : Library) (p : Pipeline) (file : Nat) (state : BuildState) :
    Except BuildError (List Node) × BuildState :=
  match lib.get? file with
  | none => (.error (.unknownSource file), state)
  | some source =>
    match readStylesheet file source.content with
    | .error e => (.error (.read e), state)
    | .ok nodes =>
      match Directive.normalize nodes state.sink with
      | (.error e, sink) => (.error (.directive e), { state with sink })
      | (.ok (_, nodes), sink) =>
        let (result, state) := expand ws p nodes { state with sink }
        (result.mapError .scan, state)

end UtilityCss
