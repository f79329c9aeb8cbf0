import PascalTokens.Report
import PascalTokens.Text.Blank

/-!
# Tables

A report as an aligned text table: a header, a rule of dashes, one row for each token, and the
elapsed time. Each column is as wide as its widest cell. The report of a failure is one line.
-/

namespace PascalTokens

/-- Why a value cannot stand in a table. -/
inductive TableFault where
  | noLength
  | noPadding
  | elapsedText
  | elapsedNotNumber
  | elapsedTooLarge
  deriving DecidableEq, Repr

/-- The message about an elapsed time that is given as text. -/
def TableFault.message? : TableFault → Option Text
  | elapsedText => some "Unknown format code 'f' for object of type 'str'".toList
  | _ => none

namespace Table

structure Row where
  lexeme : Text
  label : Text
  line : Text
  deriving DecidableEq, Repr

structure Widths where
  lexeme : Nat
  label : Nat
  line : Nat
  deriving DecidableEq, Repr

namespace Row

def headers : Row := ⟨"Lexeme".toList, "Token Class".toList, "Line".toList⟩

def dashes (w : Widths) : Row :=
  ⟨List.replicate w.lexeme '-', List.replicate w.label '-', List.replicate w.line '-'⟩

/-- The cells padded to their columns, two blanks between columns and none at the end. -/
def text (w : Widths) (r : Row) : Text :=
  Text.trimEnd (Text.join [' ', ' ']
    [Text.padEnd w.lexeme r.lexeme, Text.padEnd w.label r.label, Text.padEnd w.line r.line])

end Row

/-- Columns wide enough for one more row. -/
def Widths.cover (w : Widths) (r : Row) : Widths :=
  ⟨max w.lexeme r.lexeme.length, max w.label r.label.length, max w.line r.line.length⟩

/-- The least widths that hold the headers and all rows. -/
def widths (rows : List Row) : Widths :=
  rows.foldl Widths.cover (Widths.cover ⟨0, 0, 0⟩ Row.headers)

/-- A number with three places. A truth value counts as zero or one, and an integer as the
double nearest to it. -/
def milliseconds : Json → Except TableFault Text
  | .double x => .ok (x.fixed 3)
  | .bool b => .ok ((Double.ofInt (if b then 1 else 0)).fixed 3)
  | .int n =>
    match Double.ofInt n with
    | .finite negative rank => .ok ((Double.finite negative rank).fixed 3)
    | _ => .error .elapsedTooLarge
  | .str _ => .error .elapsedText
  | _ => .error .elapsedNotNumber

/-- The footer. -/
def elapsedLine (elapsed : Json) : Except TableFault Text :=
  (milliseconds elapsed).map fun t => "Elapsed Time: ".toList ++ t ++ " ms".toList

/-- Text, arrays and objects can be measured; of these only text can be padded. -/
def hasLength : Json → Bool
  | .str _ => true
  | .arr _ => true
  | .obj _ => true
  | _ => false

def row (e : Entry) : Except TableFault Row :=
  match e.lexeme with
  | .str t => .ok ⟨t, e.tokenClass.label, e.line.plain⟩
  | _ => .error .noPadding

/-- The rows of a table. All lexemes are measured before the first one is padded. -/
def rows (entries : List Entry) : Except TableFault (List Row) :=
  if entries.all fun e => hasLength e.lexeme then entries.mapM row else .error .noLength

/-- The lines above the footer. -/
def body (rows : List Row) : List Text :=
  let w := widths rows
  Row.headers.text w :: (Row.dashes w).text w :: rows.map (Row.text w)

/-- The lines, each ended by a line feed. -/
def ended (lines : List Text) : Text := lines.flatMap fun line => line ++ ['\n']

/-- The one line for a failure. -/
def failureText (message : Json) : Text := ended ["Lexical Error: ".toList ++ message.plain]

def render : Report → Except TableFault Text
  | .failure message _ _ => .ok (failureText message)
  | .tokens entries elapsed => do
    let rows ← rows entries
    let footer ← elapsedLine elapsed
    return ended (body rows ++ [footer])

end Table

end PascalTokens
