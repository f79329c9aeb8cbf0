import Mathlib
import PascalTokens.Proofs.Word

/-!
# Letter case

Only ASCII letters have a case. What looks for characters that are no letters finds them in a text
and in the same text in lower case at the same places, so lines, words and cuts of a text are those
of the text in lower case, up to case.

## Main definitions

* `Text.lower` puts a text in lower case.
* `Text.Recased` relates texts that differ in the case of letters only.
* `Text.Caseless` says that a text has no letters.

## Main statements

* `Text.recased_iff`: texts that differ in case only are the same in lower case.
* `Text.Recased.lines`, `Text.Recased.words`, `Text.Recased.before` and `Text.Recased.after?`: cuts.
* `Text.Recased.quoted`: texts that differ in case only are quoted alike.
-/

namespace PascalTokens

namespace Text

/-- The text with its ASCII letters in lower case. -/
def lower (t : Text) : Text := t.map Char.toLower

/-- The second text is the first one with any of its ASCII letters in the other case. -/
def Recased (s t : Text) : Prop :=
  List.Forall₂ (fun c d => d = c ∨ d = c.toLower ∨ d = c.toUpper) s t

/-- The text has no ASCII letters. -/
def Caseless (t : Text) : Prop := ∀ c ∈ t, c.isAlpha = false

instance (t : Text) : Decidable (Caseless t) :=
  decidable_of_iff (t.all fun c => !c.isAlpha) (by simp [Caseless])

variable {a b p s t : Text} {c d : Char}

/-! ## Characters -/

theorem toLower_eq_self (hc : c.isAlpha = false) : c.toLower = c := by
  refine Char.toLower_eq_of_not_isUpper fun hupper => ?_
  simp [Char.isAlpha, hupper] at hc

theorem toLower_eq_iff (hd : d.isAlpha = false) : c.toLower = d ↔ c = d := by
  constructor
  · rintro rfl
    exact (toLower_eq_self (by simpa using hd)).symm
  · rintro rfl
    exact toLower_eq_self hd

theorem map_toLower_eq_some_iff {o : Option Char} (hd : d.isAlpha = false) :
    o.map Char.toLower = some d ↔ o = some d := by
  cases o <;> simp [toLower_eq_iff hd]

theorem toLower_eq_toLower_iff :
    c.toLower = d.toLower ↔ d = c ∨ d = c.toLower ∨ d = c.toUpper := by
  constructor
  · intro h
    by_cases hd : d.isUpper
    · have hupper : d = c.toUpper := by
        rw [← Char.toUpper_toLower_eq_toUpper c, h, Char.toUpper_toLower_eq_toUpper,
          Char.toUpper_eq_of_not_isLower (Char.not_isLower_of_isUpper hd)]
      exact .inr (.inr hupper)
    · rw [Char.toLower_eq_of_not_isUpper hd] at h
      exact .inr (.inl h.symm)
  · rintro (rfl | rfl | rfl) <;> simp

/-- What does not hold of letters does not depend on case. -/
theorem apply_toLower {f : Char → Bool} (hf : ∀ c, c.isAlpha → f c = false) (c : Char) :
    f c.toLower = f c := by
  cases hc : c.isAlpha with
  | true => rw [hf c hc, hf c.toLower (by simpa using hc)]
  | false => rw [toLower_eq_self hc]

theorem isAlphanum_of_isAlpha (hc : c.isAlpha) : c.isAlphanum := by simp [Char.isAlphanum, hc]

theorem isBlank_toLower (c : Char) : isBlank c.toLower = isBlank c := by
  refine apply_toLower (f := isBlank) (fun c hc => ?_) c
  exact Word.isBlank_of_isAlphanum (isAlphanum_of_isAlpha hc)

theorem isPrintable_of_isAlpha (hc : c.isAlpha) : isPrintable c := by
  have hranges := Word.isAlphanum_iff.1 (isAlphanum_of_isAlpha hc)
  have houtside : unprintable.all fun range => range.2 < 48 || 122 < range.1 := by decide +kernel
  have hnone : ∀ range ∈ unprintable, ¬ (range.1 ≤ c.toNat ∧ c.toNat ≤ range.2) := by
    intro range hrange
    have hout : range.2 < 48 ∨ 122 < range.1 := by
      simpa using List.all_eq_true.1 houtside range hrange
    omega
  simpa [isPrintable] using hnone

/-! ## Lower case -/

@[simp] theorem lower_nil : lower [] = [] := rfl

@[simp] theorem lower_cons : lower (c :: t) = c.toLower :: lower t := rfl

@[simp] theorem lower_append : lower (a ++ b) = lower a ++ lower b := List.map_append

@[simp] theorem lower_eq_nil : lower t = [] ↔ t = [] := List.map_eq_nil_iff

@[simp] theorem lower_lower (t : Text) : lower (lower t) = lower t := by simp [lower]

/-- Texts that differ in case only are the same in lower case. -/
theorem recased_iff : Recased s t ↔ lower s = lower t := by
  rw [Recased, lower, lower, ← List.forall₂_eq_eq_eq, List.forall₂_map_left_iff,
    List.forall₂_map_right_iff]
  simp only [toLower_eq_toLower_iff]

theorem recased_refl (t : Text) : Recased t t := recased_iff.2 rfl

theorem forall₂_recased_iff {ws vs : List Text} :
    List.Forall₂ Recased ws vs ↔ ws.map lower = vs.map lower := by
  have hrecased : Recased = fun s t => lower s = lower t := funext₂ fun _ _ => propext recased_iff
  rw [← List.forall₂_eq_eq_eq, List.forall₂_map_left_iff, List.forall₂_map_right_iff, hrecased]

theorem rel_recased_of_map_eq {o o' : Option Text} (h : o.map lower = o'.map lower) :
    Option.Rel Recased o o' := by
  cases o <;> cases o' <;> simp only [Option.map_none, Option.map_some, reduceCtorEq] at h
  · exact .none
  · exact .some (recased_iff.2 (Option.some.inj h))

/-- What is the same of a text and of the text in lower case does not depend on case. -/
theorem Recased.apply_eq {α : Type} {f : Text → α} (h : Recased s t)
    (hf : ∀ t, f (lower t) = f t) : f s = f t := by
  rw [← hf s, recased_iff.1 h, hf]

theorem Recased.append {u v : Text} (h : Recased s t) (h' : Recased u v) :
    Recased (s ++ u) (t ++ v) := by
  rw [recased_iff] at *
  rw [lower_append, lower_append, h, h']

theorem Recased.getLast?_eq_some_iff (h : Recased s t) (hd : d.isAlpha = false) :
    s.getLast? = some d ↔ t.getLast? = some d := by
  have hlower := congrArg List.getLast? (recased_iff.1 h)
  rw [lower, lower, List.getLast?_map, List.getLast?_map] at hlower
  rw [← map_toLower_eq_some_iff hd, hlower, map_toLower_eq_some_iff hd]

theorem Recased.dropLast (h : Recased s t) : Recased s.dropLast t.dropLast := by
  rw [recased_iff, lower, lower] at *
  rw [List.map_dropLast, List.map_dropLast, h]

theorem Caseless.lower_eq (h : Caseless t) : lower t = t :=
  (List.map_congr_left fun c hc => toLower_eq_self (h c hc)).trans (List.map_id t)

@[simp] theorem caseless_lower : Caseless (lower t) ↔ Caseless t := by simp [Caseless, lower]

/-- A text without letters is not another text in lower case. -/
theorem Caseless.lower_eq_iff (hp : Caseless p) : lower t = p ↔ t = p := by
  constructor
  · rintro rfl
    exact (caseless_lower.1 hp).lower_eq.symm
  · rintro rfl
    exact hp.lower_eq

theorem Caseless.toLower_mem_iff (hp : Caseless p) : c.toLower ∈ p ↔ c ∈ p := by
  constructor
  · intro h
    rwa [← (toLower_eq_iff (hp _ h)).1 rfl] at h
  · intro h
    rwa [toLower_eq_self (hp c h)]

theorem lower_mem_iff {texts : List Text} (h : ∀ p ∈ texts, Caseless p) :
    lower t ∈ texts ↔ t ∈ texts := by
  constructor
  · intro ht
    rwa [← (h _ ht).lower_eq_iff.1 rfl] at ht
  · intro ht
    rwa [(h t ht).lower_eq]

theorem Caseless.prefix_lower_iff (hp : Caseless p) : p <+: lower t ↔ p <+: t := by
  rw [lower, List.prefix_map_iff]
  constructor
  · rintro ⟨l, hl, heq⟩
    rwa [← hp.lower_eq_iff.1 heq.symm]
  · exact fun h => ⟨p, h, hp.lower_eq.symm⟩

theorem Caseless.suffix_lower_iff (hp : Caseless p) : p <:+ lower t ↔ p <:+ t := by
  rw [lower, List.suffix_map_iff]
  constructor
  · rintro ⟨l, hl, heq⟩
    rwa [← hp.lower_eq_iff.1 heq.symm]
  · exact fun h => ⟨p, h, hp.lower_eq.symm⟩

/-! ## Cuts -/

theorem before_lower (hp : Caseless p) (t : Text) : before p (lower t) = lower (before p t) := by
  induction t with
  | nil => rfl
  | cons c t ih =>
    have hc : p <+: c.toLower :: lower t ↔ p <+: c :: t := hp.prefix_lower_iff (t := c :: t)
    rw [lower_cons, before_cons, before_cons, ih]
    by_cases h : p <+: c :: t
    · rw [if_pos (hc.2 h), if_pos h, lower_nil]
    · rw [if_neg (mt hc.1 h), if_neg h, lower_cons]

theorem Recased.before (hp : Caseless p) (h : Recased s t) :
    Recased (before p s) (before p t) := by
  rw [recased_iff] at *
  rw [← before_lower hp, h, before_lower hp]

theorem after?_lower (hp : Caseless p) (t : Text) :
    after? p (lower t) = (after? p t).map lower := by
  induction t with
  | nil => rfl
  | cons c t ih =>
    have hc : p <+: c.toLower :: lower t ↔ p <+: c :: t := hp.prefix_lower_iff (t := c :: t)
    rw [lower_cons, after?_cons, after?_cons, ih]
    by_cases h : p <+: c :: t
    · rw [if_pos (hc.2 h), if_pos h, ← lower_cons, Option.map_some, lower, lower, List.map_drop]
    · rw [if_neg (mt hc.1 h), if_neg h]

theorem Recased.after? (hp : Caseless p) (h : Recased s t) :
    Option.Rel Recased (after? p s) (after? p t) := by
  refine rel_recased_of_map_eq ?_
  rw [← after?_lower hp, recased_iff.1 h, after?_lower hp]

theorem lines_lower (t : Text) : lines (lower t) = (lines t).map lower := by
  have hkept (a : Text) (ha : '\n' ∉ a) : '\n' ∉ lower a := by
    intro h
    obtain ⟨c, hc, heq⟩ := List.mem_map.1 h
    rw [toLower_eq_iff (by decide)] at heq
    exact ha (heq ▸ hc)
  induction t using line_induction with
  | last a ha => rw [lines_eq_singleton ha, lines_eq_singleton (hkept a ha), List.map_singleton]
  | step a t ha ih =>
    have hbreak : lower (a ++ '\n' :: t) = lower a ++ '\n' :: lower t := by simp
    rw [hbreak, lines_append_newline (hkept a ha), lines_append_newline ha, ih, List.map_cons]

theorem Recased.lines (h : Recased s t) : List.Forall₂ Recased (lines s) (lines t) := by
  rw [forall₂_recased_iff, ← lines_lower, recased_iff.1 h, lines_lower]

theorem solid_lower : Solid (lower t) ↔ Solid t := by simp [Solid, lower, isBlank_toLower]

theorem words_lower (t : Text) : words (lower t) = (words t).map lower := by
  induction t using blank_induction with
  | solid w hw =>
    rw [hw.words_eq, (solid_lower.2 hw).words_eq]
    by_cases h : w = [] <;> simp [h]
  | step w c t hw hc ih =>
    have hc' : isBlank c.toLower := by rwa [isBlank_toLower]
    have hblank : lower (w ++ c :: t) = lower w ++ c.toLower :: lower t := by simp
    rw [hblank, words_append_blank _ _ hc', words_append_blank w t hc, ih, List.map_append,
      hw.words_eq, (solid_lower.2 hw).words_eq]
    by_cases h : w = [] <;> simp [h]

theorem Recased.words (h : Recased s t) : List.Forall₂ Recased (words s) (words t) := by
  rw [forall₂_recased_iff, ← words_lower, recased_iff.1 h, words_lower]

/-! ## Quoting -/

theorem quoteFor_lower (t : Text) : quoteFor (lower t) = quoteFor t := by
  have hmem (q : Char) (hq : q.isAlpha = false) : (lower t).contains q = t.contains q := by
    rw [Bool.eq_iff_iff, List.contains_iff_mem, List.contains_iff_mem, lower, List.mem_map]
    simp [toLower_eq_iff hq]
  rw [quoteFor, quoteFor, hmem singleQuote (by decide), hmem doubleQuote (by decide)]

/-- A letter is quoted as it is. -/
theorem escaped_of_isAlpha {quote : Char} (hquote : quote.isAlpha = false) (hc : c.isAlpha) :
    escaped quote c = [c] := by
  have hne (d : Char) (hd : d.isAlpha = false) : c ≠ d := by
    rintro rfl
    simp [hc] at hd
  simp [escaped, hne quote hquote, hne '\\' (by decide), hne '\n' (by decide), hne '\r' (by decide),
    hne '\t' (by decide), isPrintable_of_isAlpha hc]

theorem lower_escaped_toLower {quote : Char} (hquote : quote.isAlpha = false) (c : Char) :
    lower (escaped quote c.toLower) = lower (escaped quote c) := by
  cases hc : c.isAlpha with
  | true =>
    rw [escaped_of_isAlpha hquote hc, escaped_of_isAlpha hquote (by simpa using hc)]
    simp
  | false => rw [toLower_eq_self hc]

theorem lower_flatMap_escaped {quote : Char} (hquote : quote.isAlpha = false) (t : Text) :
    lower ((lower t).flatMap (escaped quote)) = lower (t.flatMap (escaped quote)) := by
  induction t with
  | nil => rfl
  | cons c t ih =>
    rw [lower_cons, List.flatMap_cons, List.flatMap_cons, lower_append, lower_append, ih,
      lower_escaped_toLower hquote]

theorem lower_quoted_lower (t : Text) : lower (quoted (lower t)) = lower (quoted t) := by
  have hquote : (quoteFor t).isAlpha = false := by
    rw [quoteFor]
    split <;> decide
  simp [quoted, quoteFor_lower, lower_flatMap_escaped hquote]

/-- Texts that differ in case only are quoted alike. -/
theorem Recased.quoted (h : Recased s t) : Recased s.quoted t.quoted :=
  recased_iff.2 (h.apply_eq (f := fun t => lower t.quoted) lower_quoted_lower)

end Text

end PascalTokens
