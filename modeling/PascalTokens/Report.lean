import PascalTokens.Analysis
import PascalTokens.Json.Display
import PascalTokens.Json.Printer
import PascalTokens.Json.Reader

/-!
# Reports

A report is an analysis in the form in which it is written and read back. Reading checks the
kind of the report and the class of every token; all other values are taken as they are.

## Main definitions

* `Report.ofAnalysis` and `Report.toJson` lead from an analysis to its JSON form.
* `Report.ofJson` reads that form, or says what is wrong with it first.
* `Report.print` and `Report.parse` do the same for JSON text.
-/

namespace PascalTokens

/-- A token of a report. -/
structure Entry where
  lexeme : Json
  tokenClass : TokenClass
  line : Json

inductive Report where
  | tokens (entries : List Entry) (elapsed : Json)
  | failure (message elapsed line : Json)

/-- Why a value is not a report. -/
inductive RestoreFault where
  | malformedText
  | notAnObject
  | missingType
  | unknownType (v : Json)
  | notIterable
  | classNotScalar
  | unknownClass (v : Json)
  | missingKey (key : Text)

/-- The message of a fault that a check of the report finds. The others come up where a value is
used as what it is not, and have none of their own. -/
def RestoreFault.message? : RestoreFault → Option Text
  | missingType => some "Missing '_type' field in serialized result".toList
  | unknownType v => some ("Unknown result type: ".toList ++ v.shown)
  | unknownClass v => some ("Unknown token class: ".toList ++ v.shown)
  | missingKey key => some key.quoted
  | _ => none

namespace Entry

def ofToken (t : Token) : Entry := ⟨.str t.lexeme, t.tokenClass, .int t.line⟩

def toJson (e : Entry) : Json :=
  .obj [("lexeme".toList, e.lexeme), ("token_class".toList, .str e.tokenClass.name),
    ("label".toList, .str e.tokenClass.label), ("line".toList, e.line)]

/-- The class that a value names. -/
def classOf (v : Json) : Except RestoreFault TokenClass :=
  match v with
  | .str t =>
    match TokenClass.ofName? t with
    | some c => .ok c
    | none => .error (.unknownClass v)
  | .arr _ => .error .classNotScalar
  | .obj _ => .error .classNotScalar
  | _ => .error (.unknownClass v)

def require (key : Text) (fields : Json.Fields) : Except RestoreFault Json :=
  match Json.fieldOf key fields with
  | some v => .ok v
  | none => .error (.missingKey key)

/-- The entry that a value describes. The class is looked at first, then the lexeme, then the
line. -/
def ofJson (v : Json) : Except RestoreFault Entry :=
  match v with
  | .obj fields => do
    let tokenClass ← classOf ((Json.fieldOf "token_class".toList fields).getD .null)
    let lexeme ← require "lexeme".toList fields
    let line ← require "line".toList fields
    return ⟨lexeme, tokenClass, line⟩
  | _ => .error .notAnObject

def sameValue (a b : Entry) : Bool :=
  a.lexeme.sameValue b.lexeme && a.tokenClass = b.tokenClass && a.line.sameValue b.line

/-- A lexeme cut to `keep` characters and an ellipsis if it is longer than `most`. There is none
for a value that has no length, or that is too long and not text. -/
def shortened? (most keep : Nat) : Json → Option Json
  | .str t => some (.str (if most < t.length then t.take keep ++ "...".toList else t))
  | .arr items => if most < items.length then none else some (.arr items)
  | .obj fields => if most < fields.length then none else some (.obj fields)
  | _ => none

/-- The entry on one line, with a long lexeme cut short, if its lexeme can be. -/
def shown? (e : Entry) : Option Text :=
  (shortened? 20 17 e.lexeme).map fun lexeme =>
    "Token(".toList ++ e.tokenClass.name ++ ", ".toList ++ lexeme.shown ++ ", ".toList ++
      e.line.plain ++ [')']

end Entry

namespace Report

def ofAnalysis : Analysis → Report
  | .success found elapsed => tokens (found.map Entry.ofToken) (.double elapsed)
  | .failure e elapsed => failure (.str e.text) (.double elapsed) (.int e.line)

def toJson : Report → Json
  | tokens entries elapsed =>
    .obj [("_type".toList, .str "Analysis".toList),
      ("tokens".toList, .arr (entries.map Entry.toJson)), ("elapsed_ms".toList, elapsed)]
  | failure message elapsed line =>
    .obj [("_type".toList, .str "AnalysisFailure".toList), ("message".toList, message),
      ("lineno".toList, line), ("elapsed_ms".toList, elapsed)]

/-- The entries that a value lists. The elements of a text are texts and those of an object its
keys, so either has an element that is no entry unless it is empty. -/
def entriesOf : Json → Except RestoreFault (List Entry)
  | .arr items => items.mapM Entry.ofJson
  | .str t => if t.isEmpty then .ok [] else .error .notAnObject
  | .obj fields => if fields.isEmpty then .ok [] else .error .notAnObject
  | _ => .error .notIterable

/-- The milliseconds named in a report; zero where they are missing. -/
def elapsedOf (fields : Json.Fields) : Json :=
  (Json.fieldOf "elapsed_ms".toList fields).getD (.double .zero)

/-- The kinds of report. -/
inductive Kind where
  | analysis
  | failure
  deriving DecidableEq, Repr

def kindOf (fields : Json.Fields) : Except RestoreFault Kind :=
  match Json.fieldOf "_type".toList fields with
  | none => .error .missingType
  | some .null => .error .missingType
  | some (.str t) =>
    if t = "Analysis".toList then .ok .analysis
    else if t = "AnalysisFailure".toList then .ok .failure
    else .error (.unknownType (.str t))
  | some v => .error (.unknownType v)

/-- The report that a value describes. -/
def ofJson : Json → Except RestoreFault Report
  | .obj fields => do
    match ← kindOf fields with
    | .analysis =>
      let entries ← entriesOf ((Json.fieldOf "tokens".toList fields).getD (.arr []))
      return tokens entries (elapsedOf fields)
    | .failure =>
      let message ← Entry.require "message".toList fields
      return failure message (elapsedOf fields)
        ((Json.fieldOf "lineno".toList fields).getD .null)
  | _ => .error .notAnObject

/-- A report of a successful analysis. -/
def succeeded : Report → Bool
  | tokens .. => true
  | failure .. => false

/-- The JSON text of a report. -/
def print (indent : Option Nat) (r : Report) : Text := Json.print indent r.toJson

/-- The report that a JSON text describes. -/
def parse (t : Text) : Except RestoreFault Report :=
  match Json.parse? t with
  | some v => ofJson v
  | none => .error .malformedText

def sameEntries : List Entry → List Entry → Bool
  | [], [] => true
  | a :: as, b :: bs => a.sameValue b && sameEntries as bs
  | _, _ => false

/-- Equality of reports by the values they hold. -/
def sameValue : Report → Report → Bool
  | tokens as x, tokens bs y => sameEntries as bs && x.sameValue y
  | failure a x m, failure b y n => a.sameValue b && x.sameValue y && m.sameValue n
  | _, _ => false

end Report

end PascalTokens
