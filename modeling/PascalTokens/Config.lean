import PascalTokens.Json.Basic

/-!
# Configuration

Two options decide where an analysis fails. Their values are kept as they were given; only
whether they are truthy matters to the scan.
-/

namespace PascalTokens

structure Config where
  strict : Json := .bool false
  rejectUnrecognized : Json := .bool false

namespace Config

/-- Absorb everything that is malformed. -/
def permissive : Config := {}

def ofFlags (strict rejectUnrecognized : Bool) : Config := ⟨.bool strict, .bool rejectUnrecognized⟩

/-- Fail on a construct that is still open at the end of the input. -/
def isStrict (c : Config) : Bool := c.strict.isTruthy

/-- Fail on a word that is neither a token nor a symbol. -/
def rejects (c : Config) : Bool := c.rejectUnrecognized.isTruthy

@[simp] theorem isStrict_permissive : permissive.isStrict = false := rfl

@[simp] theorem rejects_permissive : permissive.rejects = false := rfl

@[simp] theorem isStrict_ofFlags (strict rejectUnrecognized : Bool) :
    (ofFlags strict rejectUnrecognized).isStrict = strict := rfl

@[simp] theorem rejects_ofFlags (strict rejectUnrecognized : Bool) :
    (ofFlags strict rejectUnrecognized).rejects = rejectUnrecognized := rfl

/-- The options named in an object; other keys are ignored. Only an object gives options. -/
def ofJson? : Json → Option Config
  | .obj fields =>
    some {
      strict := (Json.fieldOf "strict".toList fields).getD (.bool false)
      rejectUnrecognized := (Json.fieldOf "reject_unrecognized".toList fields).getD (.bool false) }
  | _ => none

def toJson (c : Config) : Json :=
  .obj [("strict".toList, c.strict), ("reject_unrecognized".toList, c.rejectUnrecognized)]

/-- Both options have a value equal to false. -/
def isDefault (c : Config) : Bool :=
  c.strict.sameValue (.bool false) && c.rejectUnrecognized.sameValue (.bool false)

end Config

end PascalTokens
