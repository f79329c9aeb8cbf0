import PascalTokens.Double.Decimal
import PascalTokens.Json.Basic
import PascalTokens.Text.Quoted

/-!
# Values in messages

The form in which messages and table cells show a JSON value. Text that stands alone is shown as
it is; inside another value it is quoted.
-/

namespace PascalTokens

namespace Json

mutual

/-- A value with its texts quoted. -/
def shown : Json → Text
  | null => "None".toList
  | bool true => "True".toList
  | bool false => "False".toList
  | int n => Text.ofInt n
  | double x => x.text
  | str t => t.quoted
  | arr items => '[' :: Text.join ", ".toList (shownItems items) ++ [']']
  | obj fields => '\x7b' :: Text.join ", ".toList (shownFields fields) ++ ['\x7d']

def shownItems : List Json → List Text
  | [] => []
  | v :: rest => shown v :: shownItems rest

def shownFields : Fields → List Text
  | [] => []
  | (key, v) :: rest => (key.quoted ++ ": ".toList ++ shown v) :: shownFields rest

end

/-- A value as it stands alone. -/
def plain : Json → Text
  | str t => t
  | v => shown v

end Json

end PascalTokens
