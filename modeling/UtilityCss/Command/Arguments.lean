/-!
# Arguments of the command

The command has two verbs, `build` and `scan`.  Options of the whole command may stand in front of
the verb or behind it, options of the verb only behind it.

* A long option takes its value behind `=` or from the next argument; a short one takes what is left
  of the argument, with or without `=`, or the next argument.  Short flags can be joined.
* The next argument is no value if it starts with a hyphen, unless it is a single one.
* An option may be given once in front of the verb and once behind it; what stands behind counts.
* Arguments are read from left to right, and the first that is wrong, or that asks for help or the
  version, decides.

`Arguments.read` answers what is to be done; `Arguments.Stop.usage` stands for arguments that make
no sense.
-/

namespace UtilityCss.Command

/-- What the command does. -/
inductive Verb where
  | build
  | scan
  deriving DecidableEq, Repr

/-- When output is coloured. -/
inductive ColorChoice where
  | auto
  | always
  | never
  deriving DecidableEq, Repr

/-- How diagnostics and lists are written. -/
inductive Format where
  | text
  | json
  deriving DecidableEq, Repr

/-- An option of the command. -/
inductive Opt where
  | quiet
  | verbose
  | color
  | config
  | input
  | output
  | format
  | ast
  | minify
  | help
  | version
  deriving DecidableEq, Repr

namespace Opt

def all : List Opt :=
  [.quiet, .verbose, .color, .config, .input, .output, .format, .ast, .minify, .help, .version]

def long : Opt → String
  | .quiet => "quiet"
  | .verbose => "verbose"
  | .color => "color"
  | .config => "config"
  | .input => "input"
  | .output => "output"
  | .format => "format"
  | .ast => "ast"
  | .minify => "minify"
  | .help => "help"
  | .version => "version"

def short? : Opt → Option Char
  | .quiet => some 'q'
  | .verbose => some 'v'
  | .input => some 'i'
  | .output => some 'o'
  | .format => some 'f'
  | .help => some 'h'
  | .version => some 'V'
  | _ => none

def takesValue : Opt → Bool
  | .color => true
  | .config => true
  | .input => true
  | .output => true
  | .format => true
  | _ => false

/-- Whether an option may stand behind a verb, or, without one, in front of it. -/
def allowedAt (verb : Option Verb) : Opt → Bool
  | .quiet => true
  | .verbose => true
  | .color => true
  | .config => true
  | .help => true
  | .version => verb.isNone
  | .format => verb.isSome
  | .input => verb == some .build
  | .output => verb == some .build
  | .ast => verb == some .build
  | .minify => verb == some .build

/-- Whether a value is one that an option has. -/
def accepts (value : String) : Opt → Bool
  | .color => ["auto", "always", "never"].contains value
  | .format => ["text", "json"].contains value
  | _ => true

end Opt

/-- Why arguments do not lead to a verb. -/
inductive Stop where
  | usage
  | help
  | version
  deriving DecidableEq, Repr

/-- Options given at one level, with their values; a flag has an empty one. -/
abbrev Given := List (Opt × String)

/-- Adds an option to those of its level. -/
def give (given : Given) (o : Opt) (value : String) : Except Stop Given :=
  if (given.lookup o).isSome then .error .usage
  else if !o.accepts value then .error .usage
  else if o = .help then .error .help
  else if o = .version then .error .version
  else .ok ((o, value) :: given)

def longOption? (verb : Option Verb) (name : List Char) : Option Opt :=
  Opt.all.find? fun o => o.allowedAt verb && o.long.toList == name

def shortOption? (verb : Option Verb) (name : Char) : Option Opt :=
  Opt.all.find? fun o => o.allowedAt verb && o.short? == some name

/-- Whether an argument can be the value of the option in front of it. -/
def isValue (arg : String) : Bool :=
  match arg.toList with
  | '-' :: _ :: _ => false
  | _ => true

/-- Reads the short options of one argument.  The last may wait for its value. -/
def readShort (verb : Option Verb) : Given → List Char → Except Stop (Given × Option Opt)
  | given, [] => .ok (given, none)
  | given, c :: rest =>
    match shortOption? verb c with
    | none => .error .usage
    | some o =>
      if o.takesValue then
        match rest with
        | [] => .ok (given, some o)
        | '=' :: value => return (← give given o (String.ofList value), none)
        | value => return (← give given o (String.ofList value), none)
      else do
        readShort verb (← give given o "") rest

/-- Reads the long option of one argument.  It may wait for its value. -/
def readLong (verb : Option Verb) (given : Given) (arg : List Char) :
    Except Stop (Given × Option Opt) :=
  let name := arg.takeWhile (· != '=')
  match longOption? verb name, arg.dropWhile (· != '=') with
  | none, _ => .error .usage
  | some o, [] =>
    if o.takesValue then .ok (given, some o) else return (← give given o "", none)
  | some o, _ :: value =>
    if o.takesValue then return (← give given o (String.ofList value), none) else .error .usage

/-- What arguments at one level come to. -/
inductive Level where
  | finished (given : Given)
  | word (given : Given) (arg : String) (rest : List String)

/-- Reads the options of a level up to the first word; `waiting` is the option whose value is next. -/
def readLevel (verb : Option Verb) : (waiting : Option Opt) → Given → List String →
    Except Stop Level
  | none, given, [] => .ok (.finished given)
  | some _, _, [] => .error .usage
  | some o, given, arg :: rest =>
    if isValue arg then do
      readLevel verb none (← give given o arg) rest
    else .error .usage
  | none, given, arg :: rest =>
    match arg.toList with
    | ['-', '-'] => if rest.isEmpty then .ok (.finished given) else .error .usage
    | '-' :: '-' :: long => do
      let (given, waiting) ← readLong verb given long
      readLevel verb waiting given rest
    | '-' :: c :: short => do
      let (given, waiting) ← readShort verb given (c :: short)
      readLevel verb waiting given rest
    | _ => .ok (.word given arg rest)

def verb? (word : String) : Option Verb :=
  if word = "build" then some .build else if word = "scan" then some .scan else none

/-- What is to be done, and how. -/
structure Arguments where
  verb : Verb
  quiet : Bool
  color : ColorChoice
  config : Option String
  /-- The stylesheet to read; standard input without one. -/
  input : Option String
  /-- The file to write; standard output without one. -/
  output : Option String
  format : Format
  /-- Whether the tree is written instead of a stylesheet. -/
  ast : Bool
  /-- Whether the stylesheet is written without optional blanks. -/
  minify : Bool
  deriving DecidableEq, Repr

namespace Arguments

def colorOf (value : Option String) : ColorChoice :=
  if value = some "always" then .always else if value = some "never" then .never else .auto

def formatOf (value : Option String) : Format :=
  if value = some "json" then .json else .text

/-- The arguments of a verb with options given in front of it and behind it. -/
def ofGiven (verb : Verb) (front back : Given) : Arguments :=
  let value := fun o => (back.lookup o).or (front.lookup o)
  { verb
    quiet := (value .quiet).isSome
    color := colorOf (value .color)
    config := value .config
    input := value .input
    output := value .output
    format := formatOf (value .format)
    ast := (value .ast).isSome
    minify := (value .minify).isSome }

def read (args : List String) : Except Stop Arguments := do
  match ← readLevel none none [] args with
  | .finished _ => .error .usage
  | .word front arg rest =>
    match verb? arg with
    | some verb =>
      match ← readLevel (some verb) none [] rest with
      | .finished back => return ofGiven verb front back
      | .word .. => .error .usage
    | none =>
      if arg = "help" ∧ [[], ["build"], ["scan"], ["help"]].contains rest then .error .help
      else .error .usage

end Arguments

end UtilityCss.Command
