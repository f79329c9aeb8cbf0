import PascalTokens.Proofs.Scan.Progress
import PascalTokens.Proofs.Word.Order

/-!
# What becomes of a word

Between constructs, a scan agrees with the class that a word has on its own: a word with a class is
a token of this class, and the scan stays what it was. A word without a class meets exactly one of
five fates. Its two ends and the options decide on it, and the state of the scan does not.

## Main definitions

* `Fate` lists what can become of a word without a class.
* `Fate.Fits` says which words meet a fate, and `Fate.outcome` what a scan makes of them.

## Main statements

* `Fate.plain_of_classify`: a word that has a class begins neither a literal nor a comment.
* `Fate.existsUnique_fits`: exactly one fate fits a word.
* `State.scanNormal_of_fits`: a word without a class meets the fate that fits it.
* `scanNormal_classifies`: what a scan makes of any word, and which orders of the tests agree on
  that.
-/

namespace PascalTokens

namespace Scan

/-- What can become of a word that has no class. -/
inductive Fate where
  /-- The word begins a string literal. -/
  | opensString
  /-- The word begins a block comment. -/
  | opensComment
  /-- The word begins a block comment and ends it. -/
  | comment
  /-- The word is passed over. -/
  | dropped
  /-- The scan fails. -/
  | rejected
  deriving DecidableEq, Repr

namespace Fate

variable {config : Config} {w : Text} {fate other : Fate}

/-- The word begins neither a string literal nor a block comment. A word in quotes begins none. -/
def Plain (w : Text) : Prop :=
  ([Symbol.stringQuote] <+: w → [Symbol.stringQuote] <:+ w) ∧ ¬ Symbol.commentOpening <+: w

/-- The words that meet a fate. In a comment of three characters the two marks share the star. -/
def Fits (config : Config) (w : Text) : Fate → Prop
  | opensString => [Symbol.stringQuote] <+: w ∧ ¬ [Symbol.stringQuote] <:+ w
  | opensComment => Symbol.commentOpening <+: w ∧ ¬ Symbol.commentClosing <:+ w
  | comment => Symbol.commentOpening <+: w ∧ Symbol.commentClosing <:+ w
  | dropped => Plain w ∧ (config.rejects → w ∈ Symbol.all)
  | rejected => Plain w ∧ config.rejects ∧ w ∉ Symbol.all

/-- The state of a scan after a word that meets a fate, and what the scan gives for it. -/
def outcome (setting : Setting) (s : State) (w : Text) : Fate → State × Emission
  | opensString =>
    ({ s with mode := .string, buffer := s.buffer.append w.tail, stringStart := s.line }, .nothing)
  | opensComment => ({ s with mode := .comment, commentStart := s.line }, .nothing)
  | comment => (s, .nothing)
  | dropped => (s, .nothing)
  | rejected => (s, .failure ⟨.unrecognized w, s.line, setting.file⟩)

/-- A word that begins with the quote does not begin with the opening mark of a comment. -/
theorem notOpening_of_stringQuote (h : [Symbol.stringQuote] <+: w) :
    ¬ Symbol.commentOpening <+: w := by
  obtain ⟨t, rfl⟩ := h
  simp [Symbol.commentOpening, Symbol.stringQuote]

/-- A word that has a class begins nothing, so it does not matter which is asked first. -/
theorem plain_of_classify {tokenClass : TokenClass} (h : Word.classify w = some tokenClass) :
    Plain w := by
  refine ⟨fun hquote => ?_, fun hopening => ?_⟩
  · exact absurd (hquote.subset (by simp)) (Word.stringQuote_notMem_of_classify h)
  · rcases Word.mem_all_or_alphanumeric h with hw | hw
    · have hall : ∀ s ∈ Symbol.all, Symbol.commentOpening <+: s → Word.classify s = none := by
        decide
      simp [hall w hw hopening] at h
    · exact hw.notMem_punctuation '/' (hopening.subset (by decide)) (by decide)

theorem opensString_iff :
    Word.opensString w ↔ [Symbol.stringQuote] <+: w ∧ ¬ [Symbol.stringQuote] <:+ w := by
  have hhead : w.head? = some Symbol.stringQuote ↔ [Symbol.stringQuote] <+: w := by
    rw [List.head?_eq_some_iff]
    simp only [List.IsPrefix, List.singleton_append, eq_comm]
  have hlast : w.getLast? = some Symbol.stringQuote ↔ [Symbol.stringQuote] <:+ w := by
    rw [List.getLast?_eq_some_iff]
    simp only [List.IsSuffix, eq_comm]
  simp [Word.opensString, hhead, hlast]

theorem exists_fits (config : Config) (w : Text) : ∃ fate : Fate, fate.Fits config w := by
  by_cases hcomment : Symbol.commentOpening <+: w
  · by_cases hclosing : Symbol.commentClosing <:+ w
    · exact ⟨comment, hcomment, hclosing⟩
    · exact ⟨opensComment, hcomment, hclosing⟩
  by_cases hstring : [Symbol.stringQuote] <+: w → [Symbol.stringQuote] <:+ w
  · by_cases hrejects : config.rejects → w ∈ Symbol.all
    · exact ⟨dropped, ⟨hstring, hcomment⟩, hrejects⟩
    · exact ⟨rejected, ⟨hstring, hcomment⟩, Classical.not_imp.1 hrejects⟩
  · exact ⟨opensString, Classical.not_imp.1 hstring⟩

theorem Fits.unique (h : fate.Fits config w) (h' : other.Fits config w) : fate = other := by
  have hmark := @notOpening_of_stringQuote w
  cases fate <;> cases other <;> simp only [Fits, Plain] at h h' <;> tauto

/-- Exactly one fate fits a word. -/
theorem existsUnique_fits (config : Config) (w : Text) : ∃! fate : Fate, fate.Fits config w := by
  obtain ⟨fate, hfate⟩ := exists_fits config w
  exact ⟨fate, hfate, fun _ hother => hother.unique hfate⟩

end Fate

namespace State

variable {setting : Setting} {s : State} {w : Text}

theorem scanNormal_of_classify {tokenClass : TokenClass} (h : Word.classify w = some tokenClass) :
    s.scanNormal setting w = (s, .token ⟨w, tokenClass, s.line⟩) := by
  rw [scanNormal, tokenClass?_eq_classify, h]
  rfl

theorem scanNormal_of_classify_eq_none (h : Word.classify w = none) :
    s.scanNormal setting w =
      if Word.opensString w then (s.openString w.tail, .nothing)
      else if Word.opensComment w then
        (if Word.closesComment w then s else s.openComment, .nothing)
      else if setting.config.rejects && !Word.isPunctuation w then
        (s, .failure (fail setting (.unrecognized w) s.line))
      else (s, .nothing) := by
  rw [scanNormal, tokenClass?_eq_classify, h]
  simp only [Word.stringSeed?, Word.commentLeftOpen?, List.drop_one]
  split_ifs <;> simp_all

/-- A word without a class meets the fate that fits it. -/
theorem scanNormal_of_fits {fate : Fate} (hclass : Word.classify w = none)
    (h : fate.Fits setting.config w) : s.scanNormal setting w = fate.outcome setting s w := by
  have hnotString (hne : fate ≠ .opensString) : ¬ Word.opensString w := fun hopens =>
    hne (h.unique (Fate.opensString_iff.1 hopens))
  have hcomment : Word.opensComment w ↔ Symbol.commentOpening <+: w := List.isPrefixOf_iff_prefix
  have hcloses : Word.closesComment w ↔ Symbol.commentClosing <:+ w := List.isSuffixOf_iff_suffix
  rw [scanNormal_of_classify_eq_none hclass]
  cases fate with
  | opensString =>
    rw [if_pos (Fate.opensString_iff.2 h)]
    rfl
  | opensComment =>
    obtain ⟨hopening, hclosing⟩ := h
    rw [if_neg (hnotString (by simp)), if_pos (hcomment.2 hopening), if_neg (mt hcloses.1 hclosing)]
    rfl
  | comment =>
    obtain ⟨hopening, hclosing⟩ := h
    rw [if_neg (hnotString (by simp)), if_pos (hcomment.2 hopening), if_pos (hcloses.2 hclosing)]
    rfl
  | dropped =>
    obtain ⟨⟨-, hopening⟩, hrejects⟩ := h
    have hkept : ¬ (setting.config.rejects && !Word.isPunctuation w) := by
      simpa [Word.isPunctuation_iff] using hrejects
    rw [if_neg (hnotString (by simp)), if_neg (mt hcomment.1 hopening), if_neg hkept]
    rfl
  | rejected =>
    obtain ⟨⟨-, hopening⟩, hrejects, hsymbol⟩ := h
    have hword : Word.isPunctuation w = false :=
      Bool.eq_false_iff.2 (mt Word.isPunctuation_iff.1 hsymbol)
    have hfails : setting.config.rejects && !Word.isPunctuation w := by simp [hrejects, hword]
    rw [if_neg (hnotString (by simp)), if_neg (mt hcomment.1 hopening), if_pos hfails]
    rfl

end State

/-- Whatever the options and the state, a word between constructs is a token just when it has a
class on its own. It is then the word itself, with this class and on the current line, the state
stays what it was, and the word begins nothing. For a word without a class exactly one fate fits,
and the word meets it. Two tests hold of one word only where a reserved word or a letter operator is
an identifier as well, so an order of the tests gives every word its class just when it keeps these
two before the identifiers. -/
theorem scanNormal_classifies (setting : Setting) (s : State) (w : Text) :
    ((∃ t, (s.scanNormal setting w).2 = .token t) ↔ Word.classify w ≠ none) ∧
    (∀ tokenClass, Word.classify w = some tokenClass →
      s.scanNormal setting w = (s, .token ⟨w, tokenClass, s.line⟩) ∧ Fate.Plain w) ∧
    (Word.classify w = none →
      (∃! fate : Fate, fate.Fits setting.config w) ∧
      ∀ fate : Fate, fate.Fits setting.config w →
        s.scanNormal setting w = fate.outcome setting s w) ∧
    (Word.order.Pairwise fun r r' => r.1 w ∧ r'.1 w ↔ Word.Overlap w r.2 r'.2) ∧
    ∀ rules : List ((Text → Bool) × TokenClass), rules.Perm Word.order →
      ((∀ v, Word.classifyBy rules v = Word.classify v) ↔
        Word.Precedes rules .reservedKeyword .identifier ∧
          Word.Precedes rules .relationalOperator .identifier) := by
  refine ⟨⟨?_, ?_⟩, fun _ hclass => ?_, fun hclass => ?_, Word.pairwise_overlap w,
    fun _ => Word.forall_classifyBy_eq_iff⟩
  · rintro ⟨t, ht⟩ hclass
    obtain ⟨fate, hfate⟩ := Fate.exists_fits setting.config w
    rw [State.scanNormal_of_fits hclass hfate] at ht
    cases fate <;> cases ht
  · intro hclass
    obtain ⟨tokenClass, hclass⟩ := Option.ne_none_iff_exists'.1 hclass
    rw [State.scanNormal_of_classify hclass]
    exact ⟨_, rfl⟩
  · exact ⟨State.scanNormal_of_classify hclass, Fate.plain_of_classify hclass⟩
  · exact ⟨Fate.existsUnique_fits setting.config w, fun _ => State.scanNormal_of_fits hclass⟩

/-- An operator in capitals, a word that opens a literal and ends like a comment, a comment of three
characters, and a word that is rejected. Numbers may be tested first, but not everything the other
way round. -/
theorem scanNormal_classifies_words :
    let setting : Setting := ⟨.ofFlags false true, none⟩
    let s : State := ⟨.normal, 2, .empty, 1, 1⟩
    let early := Word.order.drop 4 ++ Word.order.take 4
    (Word.classify "OR".toList = some .identifier ∧
      s.scanNormal setting "OR".toList = (s, .token ⟨"OR".toList, .identifier, 2⟩)) ∧
    (Word.classify "'x*/".toList = none ∧ Fate.opensString.Fits setting.config "'x*/".toList ∧
      s.scanNormal setting "'x*/".toList =
        (⟨.string, 2, Fragments.empty.append "x*/".toList, 2, 1⟩, .nothing)) ∧
    (Word.classify "/*/".toList = none ∧ Fate.comment.Fits setting.config "/*/".toList ∧
      s.scanNormal setting "/*/".toList = (s, .nothing)) ∧
    (Word.classify "_x".toList = none ∧ Fate.rejected.Fits setting.config "_x".toList ∧
      s.scanNormal setting "_x".toList = (s, .failure ⟨.unrecognized "_x".toList, 2, none⟩)) ∧
    (early.Perm Word.order ∧ ∀ v, Word.classifyBy early v = Word.classify v) ∧
    (Word.order.reverse.Perm Word.order ∧
      ¬ ∀ v, Word.classifyBy Word.order.reverse v = Word.classify v) := by
  intro setting s early
  have hstring : Fate.opensString.Fits setting.config "'x*/".toList := by
    refine ⟨?_, ?_⟩ <;> decide
  have hcomment : Fate.comment.Fits setting.config "/*/".toList := by
    refine ⟨?_, ?_⟩ <;> decide
  have hrejected : Fate.rejected.Fits setting.config "_x".toList := by
    refine ⟨⟨?_, ?_⟩, ?_, ?_⟩ <;> decide
  have hearly : early.Perm Word.order := List.perm_append_comm
  have hreverse : Word.order.reverse.Perm Word.order := List.reverse_perm _
  obtain ⟨-, hword, -, -, horder⟩ := scanNormal_classifies setting s "OR".toList
  obtain ⟨-, -, hquote, -⟩ := scanNormal_classifies setting s "'x*/".toList
  obtain ⟨-, -, hmark, -⟩ := scanNormal_classifies setting s "/*/".toList
  obtain ⟨-, -, hline, -⟩ := scanNormal_classifies setting s "_x".toList
  refine ⟨⟨by decide, (hword _ (by decide)).1⟩,
    ⟨by decide, hstring, (hquote (by decide)).2 _ hstring⟩,
    ⟨by decide, hcomment, (hmark (by decide)).2 _ hcomment⟩,
    ⟨by decide, hrejected, (hline (by decide)).2 _ hrejected⟩,
    ⟨hearly, (horder _ hearly).2 ⟨?_, ?_⟩⟩, hreverse, fun h => ?_⟩
  · decide
  · decide
  · exact absurd ((horder _ hreverse).1 h).1 (by decide)

end Scan

end PascalTokens
