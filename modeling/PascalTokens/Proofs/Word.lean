import PascalTokens.Proofs.Text.Words
import PascalTokens.Word

/-!
# Symbols and classified words

A symbol is made of punctuation. A word that has a class is a symbol or it is made of ASCII letters
and digits. So it has no blank, no quote and no line comment in it.

## Main statements

* `Symbol.mem_punctuation_of_mem_all`: the characters of symbols.
* `Word.mem_all_or_alphanumeric`: the words that have a class.
-/

namespace PascalTokens

namespace Symbol

variable {c : Char} {s : Text}

/-- Every symbol. -/
def all : List Text := compounds ++ punctuation.map fun c => [c]

theorem mem_all_of_mem_compounds (hs : s ∈ compounds) : s ∈ all := List.mem_append_left _ hs

theorem mem_punctuation_of_mem_all (hs : s ∈ all) (hc : c ∈ s) : c ∈ punctuation := by
  have h : all.all (·.all punctuation.contains) := by decide
  simpa using List.all_eq_true.1 (List.all_eq_true.1 h s hs) c hc

theorem isBlank_of_mem_punctuation (hc : c ∈ punctuation) : Text.isBlank c = false := by
  have h : punctuation.all (!Text.isBlank ·) := by decide
  simpa using List.all_eq_true.1 h c hc

theorem notMem_punctuation_of_isBlank (hc : Text.isBlank c) : c ∉ punctuation := by
  intro hm
  rw [isBlank_of_mem_punctuation hm] at hc
  contradiction

theorem isWord_of_mem_all (hs : s ∈ all) : Text.IsWord s where
  ne_nil := (by decide : ∀ s ∈ all, s ≠ []) s hs
  solid _ hc := isBlank_of_mem_punctuation (mem_punctuation_of_mem_all hs hc)

end Symbol

namespace Word

variable {w : Text} {c : Char} {tokenClass : TokenClass}

/-- The word is made of ASCII letters and digits. -/
def Alphanumeric (w : Text) : Prop := w ≠ [] ∧ ∀ c ∈ w, c.isAlphanum

theorem isLower_iff : c.isLower ↔ 97 ≤ c.toNat ∧ c.toNat ≤ 122 := by
  have h : c.isLower = (decide (97 ≤ c.val) && decide (c.val ≤ 122)) := rfl
  simp [h, UInt32.le_iff_toNat_le]

/-- The ranges of ASCII digits and letters. -/
theorem isAlphanum_iff : c.isAlphanum ↔ 48 ≤ c.toNat ∧ c.toNat ≤ 57 ∨
    65 ≤ c.toNat ∧ c.toNat ≤ 90 ∨ 97 ≤ c.toNat ∧ c.toNat ≤ 122 := by
  have h : c.isAlphanum = ((decide (65 ≤ c.val ∧ c.val ≤ 90) || c.isLower) ||
      (decide (48 ≤ c.val) && decide (c.val ≤ 57))) := rfl
  rw [h]
  simp only [Bool.or_eq_true, Bool.and_eq_true, decide_eq_true_eq, isLower_iff,
    UInt32.le_iff_toNat_le, Char.toNat_val]
  simp
  omega

theorem isBlank_of_isAlphanum (h : c.isAlphanum) : Text.isBlank c = false := by
  rw [isAlphanum_iff] at h
  simp only [Text.isBlank, Bool.or_eq_false_iff, Bool.and_eq_false_iff, decide_eq_false_iff_not,
    beq_eq_false_iff_ne]
  omega

theorem isAlphanum_of_isLower_toLower (h : c.toLower.isLower) : c.isAlphanum := by
  rw [isAlphanum_iff]
  unfold Char.toLower at h
  split at h
  · next hupper =>
    have hbounds : 65 ≤ c.toNat ∧ c.toNat ≤ 90 := by
      simpa [UInt32.le_iff_toNat_le] using hupper
    omega
  · rw [isLower_iff] at h
    omega

theorem notMem_punctuation_of_isAlphanum (h : c.isAlphanum) : c ∉ Symbol.punctuation := by
  have hall : Symbol.punctuation.all (!·.isAlphanum) := by decide
  intro hm
  simpa [h] using List.all_eq_true.1 hall c hm

theorem Alphanumeric.isWord (h : Alphanumeric w) : Text.IsWord w :=
  ⟨h.1, fun c hc => isBlank_of_isAlphanum (h.2 c hc)⟩

theorem Alphanumeric.notMem_punctuation (h : Alphanumeric w) : ∀ c ∈ w, c ∉ Symbol.punctuation :=
  fun c hc => notMem_punctuation_of_isAlphanum (h.2 c hc)

theorem alphanumeric_of_isKeyword (h : isKeyword w) : Alphanumeric w := by
  have hmem : w.map Char.toLower ∈ Symbol.keywords := by simpa [isKeyword] using h
  have hall : Symbol.keywords.all fun k => !k.isEmpty && k.all Char.isLower := by decide
  have hkeyword : w ≠ [] ∧ ∀ c ∈ w, c.toLower.isLower := by
    simpa using List.all_eq_true.1 hall _ hmem
  exact ⟨hkeyword.1, fun c hc => isAlphanum_of_isLower_toLower (hkeyword.2 c hc)⟩

theorem mem_all_or_alphanumeric_of_isRelational (h : isRelational w) :
    w ∈ Symbol.all ∨ Alphanumeric w := by
  have hmem : w ∈ Symbol.relational := by simpa [isRelational] using h
  have hall : Symbol.relational.all fun w =>
      Symbol.all.contains w || !w.isEmpty && w.all Char.isAlphanum := by decide
  simpa [Alphanumeric] using List.all_eq_true.1 hall w hmem

/-- The class of a word is the class of a test that holds of it. -/
theorem exists_rule {rules : List ((Text → Bool) × TokenClass)}
    (h : classifyBy rules w = some tokenClass) : ∃ r ∈ rules, r.1 w ∧ r.2 = tokenClass := by
  obtain ⟨r, hr, hclass⟩ := Option.map_eq_some_iff.1 h
  exact ⟨r, List.mem_of_find?_eq_some hr, by simpa using List.find?_some hr, hclass⟩

/-- A word that has a class is a symbol, or it is made of letters and digits. -/
theorem mem_all_or_alphanumeric (h : classify w = some tokenClass) :
    w ∈ Symbol.all ∨ Alphanumeric w := by
  obtain ⟨rule, hmem, htest, -⟩ := exists_rule h
  simp only [order, List.mem_cons, List.not_mem_nil, or_false] at hmem
  rcases hmem with rfl | rfl | rfl | rfl | rfl
  · exact .inr (alphanumeric_of_isKeyword htest)
  · exact mem_all_or_alphanumeric_of_isRelational htest
  · exact .inl ((by decide : ∀ w ∈ Symbol.arithmetic, w ∈ Symbol.all)
      w (by simpa [isArithmetic] using htest))
  · cases w with
    | nil => simp [isIdentifier] at htest
    | cons c rest =>
      have hletters : c.isAlpha ∧ ∀ d ∈ rest, d.isAlphanum := by simpa [isIdentifier] using htest
      have hhead : c.isAlphanum := by simp [Char.isAlphanum, hletters.1]
      exact .inr ⟨by simp, List.forall_mem_cons.2 ⟨hhead, hletters.2⟩⟩
  · have hdigits : w ≠ [] ∧ ∀ c ∈ w, c.isDigit := by simpa [isNumber] using htest
    exact .inr ⟨hdigits.1, fun c hc => by simp [Char.isAlphanum, hdigits.2 c hc]⟩

theorem ne_stringLiteral_of_classify (h : classify w = some tokenClass) :
    tokenClass ≠ .stringLiteral := by
  rintro rfl
  obtain ⟨rule, hmem, -, hclass⟩ := exists_rule h
  simp only [order, List.mem_cons, List.not_mem_nil, or_false] at hmem
  rcases hmem with rfl | rfl | rfl | rfl | rfl <;> cases hclass

theorem isWord_of_classify (h : classify w = some tokenClass) : Text.IsWord w := by
  rcases mem_all_or_alphanumeric h with h | h
  · exact Symbol.isWord_of_mem_all h
  · exact h.isWord

theorem stringQuote_notMem_of_classify (h : classify w = some tokenClass) :
    Symbol.stringQuote ∉ w := by
  rcases mem_all_or_alphanumeric h with h | h
  · exact (by decide : ∀ s ∈ Symbol.all, Symbol.stringQuote ∉ s) w h
  · intro hm
    exact absurd (h.2 _ hm) (by decide)

theorem not_lineComment_infix_of_classify (h : classify w = some tokenClass) :
    ¬ Symbol.lineComment <:+: w := by
  rcases mem_all_or_alphanumeric h with h | h
  · exact (by decide : ∀ s ∈ Symbol.all, ¬ Symbol.lineComment <:+: s) w h
  · intro hm
    exact h.notMem_punctuation '/' (hm.subset (by decide)) (by decide)

end Word

end PascalTokens
