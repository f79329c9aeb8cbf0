import PascalTokens.Text.Digit

/-!
# Options and operands

The general rules by which the arguments of a command are told apart. An argument that begins
with a dash is an option unless it is a lone dash, looks like a negative number, or holds a
blank; a long option may be cut short as long as it stays unique, and takes a value after an
equals sign; short options without a value may be joined, with an equals sign after the first of
them or without. After a pair of dashes every argument is an operand.

## Main definitions

* `Grammar` lists the options of a command.
* `Grammar.classify` sorts the arguments into options and operands.
* `Grammar.expand` resolves the short options joined in one argument.
* `given` is the text that an argument gives to an option or an operand.
-/

namespace PascalTokens

namespace Command

/-- Why the arguments do not lead to a run. -/
inductive Stop where
  | help
  | usage
  deriving DecidableEq, Repr

/-- The spellings of the options of a command, each with the option it stands for, and the
options that take a value. -/
structure Grammar (α : Type) where
  spellings : List (Text × α)
  takesValue : α → Bool

/-- An argument by its form. Attached to an option is what follows it in the same argument: the
text after an equals sign, or the rest of joined letters. -/
inductive Item (α : Type) where
  | operand (t : Text)
  | separator
  | option (o : α) (long : Bool) (attached : Option Text)
  | unknown
  deriving DecidableEq, Repr

def dash : Char := '-'

/-- What ends the options. -/
def dashes : Text := [dash, dash]

/-- The text that an argument gives: a pair of dashes gives none. -/
def given (t : Text) : Option Text := if t = dashes then none else some t

/-- Digits, or digits and a point and digits, after a dash. A line feed at the end is not looked
at. -/
def looksNegative (t : Text) : Bool :=
  match Text.dropFinal '\n' t with
  | '-' :: rest =>
    let fraction := rest.dropWhile Text.isDecimalDigit
    match fraction with
    | [] => !rest.isEmpty
    | '.' :: places => !places.isEmpty && places.all Text.isDecimalDigit
    | _ => false
  | _ => false

/-- The text before and after the first equals sign. -/
def splitValue (t : Text) : Text × Option Text :=
  match Text.cut? ['='] t with
  | some (name, value) => (name, some value)
  | none => (t, none)

namespace Grammar

variable {α : Type}

def lookup (g : Grammar α) (spelling : Text) : Option α := g.spellings.lookup spelling

def isLong (t : Text) : Bool := dashes.isPrefixOf t

/-- The options that a spelling could be short for: a long option by its beginning, a short one
by its first letter. -/
def candidates (g : Grammar α) (t : Text) : List (Item α) :=
  if isLong t then
    let (name, attached) := splitValue t
    g.spellings.filterMap fun (spelling, o) =>
      if name.isPrefixOf spelling then some (.option o true attached) else none
  else
    g.spellings.filterMap fun (spelling, o) =>
      if spelling = t.take 2 then some (.option o false (some (t.drop 2))) else none

/-- The form of an argument that stands before any pair of dashes. -/
def itemOf (g : Grammar α) (t : Text) : Except Stop (Item α) :=
  if t.head? ≠ some dash then .ok (.operand t)
  else
    match g.lookup t with
    | some o => .ok (.option o (isLong t) none)
    | none =>
      if t.length = 1 then .ok (.operand t)
      else
        let (name, attached) := splitValue t
        match attached, g.lookup name with
        | some _, some o => .ok (.option o (isLong t) attached)
        | _, _ =>
          match g.candidates t with
          | [item] => .ok item
          | _ :: _ :: _ => .error .usage
          | [] =>
            if looksNegative t || t.contains ' ' then .ok (.operand t) else .ok .unknown

/-- Sort the arguments of a command. -/
def classify (g : Grammar α) : List Text → Except Stop (List (Item α))
  | [] => .ok []
  | t :: rest =>
    if t = dashes then .ok (.separator :: rest.map .operand)
    else do
      let item ← g.itemOf t
      let items ← g.classify rest
      return item :: items

/-- The options of joined letters. -/
def ofLetters (g : Grammar α) : Text → Except Stop (List α)
  | [] => .ok []
  | c :: rest =>
    match g.lookup [dash, c] with
    | none => .error .usage
    | some o => do
      let options ← g.ofLetters rest
      return o :: options

/-- The options in one argument that takes no value. What is attached to a short one is more
letters. -/
def expand (g : Grammar α) (o : α) (long : Bool) : Option Text → Except Stop (List α)
  | none => .ok [o]
  | some letters =>
    if long || letters.isEmpty then .error .usage
    else do
      let options ← g.ofLetters letters
      return o :: options

end Grammar

end Command

end PascalTokens
