import PascalTokens.Text.Utf8

/-!
# Paths

The names that lead to a file. Empty parts and single dots mean nothing and are dropped; what is
left is a path in its one written form.
-/

namespace PascalTokens

/-- The slashes that a path starts at, none for the working directory, and its parts. -/
structure Path where
  root : Text
  parts : List Text
  deriving DecidableEq, Repr

namespace Path

/-- The root that a path names by its leading slashes: exactly two of them are kept apart. -/
def rootOf (t : Text) : Text :=
  match t with
  | '/' :: '/' :: '/' :: _ => ['/']
  | '/' :: '/' :: _ => ['/', '/']
  | '/' :: _ => ['/']
  | _ => []

def ofText (t : Text) : Path :=
  ⟨rootOf t, (List.splitOn '/' t).filter fun part => part ≠ [] ∧ part ≠ ['.']⟩

/-- The written form; the working directory itself is a dot. -/
def text (p : Path) : Text :=
  if p.root.isEmpty && p.parts.isEmpty then ['.'] else p.root ++ Text.join ['/'] p.parts

/-- How many bytes a name takes in a file system. -/
def byteLength (t : Text) : Nat := (Utf8.encode t).length

end Path

end PascalTokens
