import PascalTokens.Command.Grammar
import PascalTokens.Command.Log

/-!
# Invocations

What the command line asks for. There are two commands: `analyze` classifies a source and
`export` copies one. The options before the command set how much is logged.

## Main definitions

* `Invocation` is a request with its verbosity.
* `Invocation.ofArguments` reads the arguments, or says that only help was asked for or that
  they are misused.
-/

namespace PascalTokens

namespace Command

/-- How a result is written. -/
inductive Format where
  | table
  | json
  deriving DecidableEq, Repr

/-- Classify the source in a file, or on standard input if there is none. -/
structure AnalyzeRequest where
  file : Option Text := none
  strict : Bool := false
  rejectUnrecognized : Bool := false
  format : Format := .table
  exportTo : Option Text := none
  deriving DecidableEq, Repr

/-- What is asked for. The destination of a copy is missing if a pair of dashes stands in its
place. -/
inductive Request where
  | analyze (request : AnalyzeRequest)
  | copy (source : Text) (destination : Option Text)
  deriving DecidableEq, Repr

inductive GeneralOption where
  | help
  | verbose
  | quiet
  deriving DecidableEq, Repr

inductive AnalyzeOption where
  | help
  | strict
  | rejectUnrecognized
  | format
  | exportTo
  deriving DecidableEq, Repr

inductive ExportOption where
  | help
  deriving DecidableEq, Repr

def generalGrammar : Grammar GeneralOption where
  spellings :=
    [("-h".toList, .help), ("--help".toList, .help), ("-v".toList, .verbose),
      ("--verbose".toList, .verbose), ("-q".toList, .quiet), ("--quiet".toList, .quiet)]
  takesValue _ := false

def analyzeGrammar : Grammar AnalyzeOption where
  spellings :=
    [("-h".toList, .help), ("--help".toList, .help), ("--strict".toList, .strict),
      ("--reject-unrecognized".toList, .rejectUnrecognized), ("--format".toList, .format),
      ("--export".toList, .exportTo)]
  takesValue o := o = .format || o = .exportTo

def exportGrammar : Grammar ExportOption where
  spellings := [("-h".toList, .help), ("--help".toList, .help)]
  takesValue _ := false

/-- What the last argument means for the next one. -/
inductive Standing where
  /-- It means nothing. -/
  | apart
  /-- It was taken as an operand, and a pair of dashes after it goes with it. -/
  | afterOperand
  /-- It was a pair of dashes that goes with the next operand. -/
  | afterDashes
  deriving DecidableEq, Repr

/-- The arguments of a command as far as they are read. -/
structure Reading (σ : Type) where
  settings : σ
  operands : List (Option Text) := []
  /-- Something was found that no option or operand of the command takes. -/
  stray : Bool := false
  standing : Standing := .apart

namespace Reading

variable {σ : Type}

/-- Pass over an argument that nothing takes. -/
def pass (r : Reading σ) : Reading σ := { r with stray := true, standing := .apart }

/-- Take an argument as the next operand. The first pair of dashes of an operand is dropped, be it
the one that stood before it or the operand itself. -/
def take (r : Reading σ) (t : Text) : Reading σ :=
  let operand := if r.standing = .afterDashes then some t else given t
  { r with operands := r.operands ++ [operand], standing := .afterOperand }

/-- Read the pair of dashes that ends the options. It goes with the operand before it or after
it. -/
def separate (r : Reading σ) (capacity : Nat) : Reading σ :=
  if r.standing = .afterOperand then { r with standing := .apart }
  else if r.operands.length < capacity then { r with standing := .afterDashes }
  else r.pass

/-- Go on with other settings after an option. -/
def adopt (r : Reading σ) (settings : σ) : Reading σ :=
  { r with settings := settings, standing := .apart }

end Reading

/-- How the options of a command change its settings. -/
abbrev Effect (α σ : Type) := σ → α → Option Text → Except Stop σ

/-- Apply options without a value in turn. -/
def applyAll {α σ : Type} (effect : Effect α σ) (settings : σ) : List α → Except Stop σ
  | [] => .ok settings
  | o :: rest => do
    let settings ← effect settings o none
    applyAll effect settings rest

/-- Read the arguments of a command that takes at most `capacity` operands. -/
def readItems {α σ : Type} (g : Grammar α) (effect : Effect α σ) (capacity : Nat)
    (r : Reading σ) : List (Item α) → Except Stop (Reading σ)
  | [] => .ok r
  | .operand t :: rest =>
    readItems g effect capacity
      (if r.operands.length < capacity then r.take t else r.pass) rest
  | .separator :: rest => readItems g effect capacity (r.separate capacity) rest
  | .unknown :: rest => readItems g effect capacity r.pass rest
  | .option o long attached :: rest =>
    if g.takesValue o then
      match attached, rest with
      | some v, rest => do
        let settings ← effect r.settings o (given v)
        readItems g effect capacity (r.adopt settings) rest
      | none, .operand v :: rest => do
        let settings ← effect r.settings o (given v)
        readItems g effect capacity (r.adopt settings) rest
      | none, _ => .error .usage
    else do
      let options ← g.expand o long attached
      let settings ← applyAll effect r.settings options
      readItems g effect capacity (r.adopt settings) rest

def Format.ofName? (t : Text) : Option Format :=
  [("table".toList, table), ("json".toList, json)].lookup t

/-- An option that takes a value and is given none goes back to what holds without it. -/
def analyzeEffect : Effect AnalyzeOption AnalyzeRequest := fun request o value =>
  match o with
  | .help => .error .help
  | .strict => .ok { request with strict := true }
  | .rejectUnrecognized => .ok { request with rejectUnrecognized := true }
  | .format =>
    match value.map Format.ofName? with
    | none => .ok { request with format := .table }
    | some none => .error .usage
    | some (some format) => .ok { request with format := format }
  | .exportTo => .ok { request with exportTo := value }

def exportEffect : Effect ExportOption Unit := fun _ o _ =>
  match o with
  | .help => .error .help

/-- Read the arguments of the `analyze` command. -/
def readAnalyze (arguments : List Text) : Except Stop Request := do
  let items ← analyzeGrammar.classify arguments
  let r ← readItems analyzeGrammar analyzeEffect 1 { settings := {} } items
  if r.stray then throw .usage
  return .analyze { r.settings with file := r.operands.head?.join }

/-- Read the arguments of the `export` command. -/
def readExport (arguments : List Text) : Except Stop Request := do
  let items ← exportGrammar.classify arguments
  let r ← readItems exportGrammar exportEffect 2 { settings := () } items
  match r.stray, r.operands with
  | false, [some source, destination] => return .copy source destination
  | _, _ => throw .usage

/-- Read the name of a command and the arguments after it. -/
def readCommand (name : Text) (arguments : List Text) : Except Stop Request :=
  if name = "analyze".toList then readAnalyze arguments
  else if name = "export".toList then readExport arguments
  else .error .usage

/-- Set the verbosity; the two ways to set it exclude each other. -/
def generalEffect : Effect GeneralOption Log.Verbosity := fun verbosity o _ =>
  match o, verbosity with
  | .help, _ => .error .help
  | .verbose, .quiet => .error .usage
  | .quiet, .verbose => .error .usage
  | .verbose, _ => .ok .verbose
  | .quiet, _ => .ok .quiet

/-- A request with its verbosity. -/
structure Invocation where
  verbosity : Log.Verbosity
  request : Request
  deriving DecidableEq, Repr

namespace Invocation

/-- Read the options before the command and then the command. An unknown option is reported only
after the command has been read. -/
def readFrom (verbosity : Log.Verbosity) (stray : Bool) :
    List (Item GeneralOption × Text) → Except Stop Invocation
  | [] => .error .usage
  | (.operand name, _) :: rest => do
    let request ← readCommand name (rest.map (·.2))
    if stray then throw .usage
    return ⟨verbosity, request⟩
  | (.separator, _) :: _ => .error .usage
  | (.unknown, _) :: rest => readFrom verbosity true rest
  | (.option o long attached, _) :: rest => do
    let options ← generalGrammar.expand o long attached
    let verbosity ← applyAll generalEffect verbosity options
    readFrom verbosity stray rest

def ofArguments (arguments : List Text) : Except Stop Invocation := do
  let items ← generalGrammar.classify arguments
  readFrom .standard false (items.zip arguments)

end Invocation

end Command

end PascalTokens
