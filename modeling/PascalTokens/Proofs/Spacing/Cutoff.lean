import PascalTokens.Proofs.Spacing.Words

/-!
# A line that is cut off

Where a word of the spaced line begins, the line may be cut off: what stands before gives the words
before this one. Neither the quotes nor the symbols of a line look ahead any further than to the
end of a symbol, and a word begins where one has ended.

## Main statements

* `Piece.cut_flatMap_text`: the first pieces of a line are the pieces of their text.
* `Spacing.exists_append_of_words_eq`: each word of a line stands behind the text of the words
  before it.
-/

namespace PascalTokens

theorem Text.Solid.words_append_eq {run w : Text} {l ws vs : List Text} (hrun : Solid run)
    (h : words run ++ l = ws ++ w :: vs) :
    ws = [] ∧ w = run ∨ ∃ us, ws = words run ++ us ∧ l = us ++ w :: vs := by
  rw [hrun.words_eq] at h ⊢
  split at h
  · next hnil => exact .inr ⟨ws, by simp [hnil], h⟩
  · next hne =>
    cases ws with
    | nil => exact .inl ⟨rfl, (List.cons.inj h).1.symm⟩
    | cons v us =>
      obtain ⟨rfl, hl⟩ := List.cons.inj h
      exact .inr ⟨us, by simp [hne], hl⟩

namespace Piece

variable {q : Quotes} {t w run : Text} {ps : List Piece} {ws vs : List Text}

/-- The first pieces of a line are found again if the line is cut off behind them. -/
theorem cut_flatMap_text (h : ps <+: cut q t) : cut q (ps.flatMap text) = ps := by
  fun_induction cut q t generalizing ps with
  | case1 q =>
    obtain rfl := List.prefix_nil.1 h
    rfl
  | case2 q c =>
    rcases List.prefix_cons_iff.1 h with rfl | ⟨ps, rfl, hps⟩
    · rfl
    · obtain rfl := List.prefix_nil.1 hps
      simp [cut]
  | case3 q c d rest hc ih =>
    rcases List.prefix_cons_iff.1 h with rfl | ⟨ps, rfl, hps⟩
    · rfl
    · simp only [List.flatMap_cons, text, List.cons_append, List.nil_append, cut, hc, if_true,
        ih hps]
  | case4 q c d rest hc ih =>
    rcases List.prefix_cons_iff.1 h with rfl | ⟨ps, rfl, hps⟩
    · rfl
    · have hcut := ih hps
      -- What is left of the line goes on with the same character, so no symbol appears.
      have hprefix : ps.flatMap text <+: d :: rest := by
        obtain ⟨others, hothers⟩ := hps
        exact ⟨others.flatMap text, by rw [← List.flatMap_append, hothers, flatMap_text_cut]⟩
      rw [List.flatMap_cons, text_single, List.singleton_append]
      rcases List.prefix_cons_iff.1 hprefix with hnil | ⟨x, hx, -⟩
      · rw [hnil] at hcut ⊢
        rw [← hcut]
        rfl
      · rw [hx] at hcut ⊢
        rw [cut, if_neg hc, hcut]

/-- A word of the pieces is what the run in front of them goes on with, or it begins with one of
them, and then those before it give the words before it. -/
theorem exists_append_of_wordsFrom_eq (hrun : Text.Solid run)
    (h : wordsFrom run ps = ws ++ w :: vs) :
    ws = [] ∧ w <+: run ++ ps.flatMap text ∨
      ∃ a b, ps = a ++ b ∧ wordsFrom run a = ws ∧ w <+: b.flatMap text := by
  fun_induction wordsFrom run ps generalizing ws with
  | case1 run =>
    obtain ⟨rfl, rfl⟩ | ⟨us, -, hus⟩ := hrun.words_append_eq (l := []) (by simpa using h)
    · exact .inl ⟨rfl, by simp⟩
    · simp at hus
  | case2 run c rest hc ih =>
    obtain ⟨rfl, rfl⟩ | ⟨us, rfl, hrest⟩ := hrun.words_append_eq h
    · exact .inl ⟨rfl, List.prefix_append _ _⟩
    · obtain ⟨rfl, hw⟩ | ⟨a, b, rfl, rfl, hw⟩ := ih Text.solid_nil hrest
      · exact .inr ⟨[plain c], rest, rfl, by simp [wordsFrom, hc], hw⟩
      · exact .inr ⟨plain c :: a, b, rfl, by simp [wordsFrom, hc], hw⟩
  | case3 run c rest hc ih =>
    obtain ⟨rfl, hw⟩ | ⟨a, b, rfl, rfl, hw⟩ := ih (by simp [hrun, hc]) h
    · exact .inl ⟨rfl, by simpa [text] using hw⟩
    · exact .inr ⟨plain c :: a, b, rfl, by simp [wordsFrom, hc], hw⟩
  | case4 run s rest ih =>
    obtain ⟨rfl, rfl⟩ | ⟨us, rfl, hrest⟩ := hrun.words_append_eq h
    · exact .inl ⟨rfl, List.prefix_append _ _⟩
    · cases us with
      | nil =>
        obtain ⟨rfl, -⟩ := List.cons.inj hrest
        exact .inr ⟨[], symbol s :: rest, rfl, by simp [wordsFrom], by simp [text]⟩
      | cons v us =>
        obtain ⟨rfl, hus⟩ := List.cons.inj hrest
        obtain ⟨rfl, hw⟩ | ⟨a, b, rfl, rfl, hw⟩ := ih Text.solid_nil hus
        · exact .inr ⟨[symbol s], rest, rfl, by simp [wordsFrom], hw⟩
        · exact .inr ⟨symbol s :: a, b, rfl, by simp [wordsFrom], hw⟩

end Piece

namespace Spacing

/-- Each word of a line stands behind the text of the words before it. -/
theorem exists_append_of_words_eq {inString : Bool} {line w : Text} {ws vs : List Text}
    (h : Text.words (pad inString line) = ws ++ w :: vs) :
    ∃ a b, line = a ++ b ∧ Text.words (pad inString a) = ws ∧ w <+: b := by
  rw [words_pad] at h
  obtain ⟨rfl, hw⟩ | ⟨a, b, hcut, hwords, hw⟩ :=
    Piece.exists_append_of_wordsFrom_eq Text.solid_nil h
  · rw [List.nil_append, Piece.flatMap_text_cut] at hw
    exact ⟨[], line, rfl, rfl, hw⟩
  · refine ⟨a.flatMap Piece.text, b.flatMap Piece.text, ?_, ?_, hw⟩
    · rw [← List.flatMap_append, ← hcut, Piece.flatMap_text_cut]
    · rw [words_pad, Piece.cut_flatMap_text ⟨b, hcut.symm⟩, hwords]

end Spacing

end PascalTokens
