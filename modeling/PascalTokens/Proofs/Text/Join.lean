import PascalTokens.Proofs.Text.Words

/-!
# Joined texts

What joins texts is a single character here, a space or a line feed. If the texts do not have it,
nothing reaches across it, and the texts are found again.

## Main statements

* `Text.words_join`: joined by spaces, the words are those of the texts.
* `Text.lines_join`: joined by line feeds, the lines are the texts.
-/

namespace PascalTokens

namespace Text

variable {c d : Char} {p : Text} {ts : List Text}

@[simp] theorem join_nil (sep : Text) : join sep [] = [] := rfl

@[simp] theorem join_singleton (sep t : Text) : join sep [t] = t := List.intercalate_singleton

theorem join_cons (sep t : Text) (h : ts ≠ []) :
    join sep (t :: ts) = t ++ (sep ++ join sep ts) := by
  rw [join, List.intercalate_cons_of_ne_nil h, List.append_assoc]
  rfl

theorem join_cons_of_ne_nil (c : Char) (t : Text) (h : ts ≠ []) :
    join [c] (t :: ts) = t ++ c :: join [c] ts :=
  join_cons [c] t h

theorem join_cons_cons (c : Char) (t u : Text) (ts : List Text) :
    join [c] (t :: u :: ts) = t ++ c :: join [c] (u :: ts) :=
  join_cons_of_ne_nil c t (List.cons_ne_nil u ts)

theorem join_cons_cons_left (sep : Text) (c : Char) (t : Text) (ts : List Text) :
    join sep ((c :: t) :: ts) = c :: join sep (t :: ts) :=
  List.intercalate_cons_cons_left

theorem join_concat_append (c : Char) (ts : List Text) (t u : Text) :
    join [c] (ts ++ [t ++ u]) = join [c] (ts ++ [t]) ++ u := by
  induction ts with
  | nil => simp
  | cons v ts ih => simp [join_cons_of_ne_nil, ih]

theorem join_concat_nil (c : Char) (h : ts ≠ []) : join [c] (ts ++ [[]]) = join [c] ts ++ [c] := by
  induction ts with
  | nil => contradiction
  | cons t ts ih =>
    cases ts with
    | nil => simp [join_cons_of_ne_nil]
    | cons u ts =>
      rw [List.cons_append, join_cons_of_ne_nil c t (by simp), ih (by simp), join_cons_cons,
        List.append_assoc, List.cons_append]

theorem join_concat (c : Char) (h : ts ≠ []) (u : Text) :
    join [c] (ts ++ [u]) = join [c] ts ++ c :: u := by
  have happend := join_concat_append c ts [] u
  rw [List.nil_append] at happend
  rw [happend, join_concat_nil c h, List.append_assoc, List.singleton_append]

theorem notMem_join (hd : d ≠ c) (h : ∀ t ∈ ts, d ∉ t) : d ∉ join [c] ts := by
  induction ts with
  | nil => simp
  | cons t ts ih =>
    obtain ⟨ht, h⟩ := List.forall_mem_cons.1 h
    cases ts with
    | nil => simpa using ht
    | cons u ts =>
      rw [join_cons_cons, List.mem_append, List.mem_cons, not_or, not_or]
      exact ⟨ht, hd, ih h⟩

theorem not_infix_join (hp : p ≠ []) (hc : c ∉ p) (h : ∀ t ∈ ts, ¬ p <:+: t) :
    ¬ p <:+: join [c] ts := by
  induction ts with
  | nil => simpa using hp
  | cons t ts ih =>
    obtain ⟨ht, h⟩ := List.forall_mem_cons.1 h
    cases ts with
    | nil => simpa using ht
    | cons u ts =>
      rw [join_cons_cons, infix_append_cons hp hc, not_or]
      exact ⟨ht, ih h⟩

theorem words_join (ts : List Text) : words (join [' '] ts) = ts.flatMap words := by
  induction ts with
  | nil => simp
  | cons t ts ih =>
    cases ts with
    | nil => simp
    | cons u ts =>
      rw [List.flatMap_cons, ← ih, join_cons_cons, words_append_blank _ _ (by decide)]

theorem words_join_of_isWord (h : ∀ w ∈ ts, IsWord w) : words (join [' '] ts) = ts := by
  rw [words_join]
  induction ts with
  | nil => rfl
  | cons w ts ih =>
    obtain ⟨hw, h⟩ := List.forall_mem_cons.1 h
    rw [List.flatMap_cons, hw.words_eq, ih h]
    rfl

theorem lines_join (hne : ts ≠ []) (h : ∀ t ∈ ts, '\n' ∉ t) : lines (join ['\n'] ts) = ts :=
  List.splitOn_intercalate '\n' h hne

end Text

end PascalTokens
