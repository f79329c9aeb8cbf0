import PascalTokens.Text.Basic

/-!
# Fragments

A text under construction, kept as the pieces appended so far. Empty pieces are not kept, so
there are no pieces exactly when the text is empty.
-/

namespace PascalTokens

structure Fragments where
  newestFirst : List Text
  ne_nil : ∀ piece ∈ newestFirst, piece ≠ []
  deriving DecidableEq

namespace Fragments

def empty : Fragments := ⟨[], by simp⟩

/-- The pieces in the order in which they were appended. -/
def pieces (f : Fragments) : List Text := f.newestFirst.reverse

def text (f : Fragments) : Text := f.pieces.flatten

def size (f : Fragments) : Nat := f.newestFirst.length

def isEmpty (f : Fragments) : Bool := f.newestFirst.isEmpty

def append (f : Fragments) (t : Text) : Fragments :=
  if h : t = [] then f
  else ⟨t :: f.newestFirst, fun piece hp => (List.mem_cons.1 hp).elim (· ▸ h) (f.ne_nil piece)⟩

/-- Append a text and a line feed. -/
def appendLine (f : Fragments) (t : Text) : Fragments := (f.append t).append ['\n']

@[simp] theorem text_empty : empty.text = [] := rfl

@[simp] theorem text_append (f : Fragments) (t : Text) : (f.append t).text = f.text ++ t := by
  unfold append
  split
  · next h => simp [h]
  · simp [text, pieces]

@[simp] theorem text_appendLine (f : Fragments) (t : Text) :
    (f.appendLine t).text = f.text ++ t ++ ['\n'] := by simp [appendLine]

theorem isEmpty_iff (f : Fragments) : f.isEmpty = true ↔ f.text = [] := by
  obtain ⟨pieces, h⟩ := f
  cases pieces with
  | nil => simp [isEmpty, text, Fragments.pieces]
  | cons piece rest => simp [isEmpty, text, Fragments.pieces, h piece (by simp)]

end Fragments

end PascalTokens
