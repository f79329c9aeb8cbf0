import PascalTokens.Proofs.Spacing.Case

/-!
# The order of the tests

The first test that holds of a word gives the word its class. Two tests hold of one word only where
the later of them is the test for identifiers: of the reserved words, and of the operators that are
written with letters. So the order of these two pairs matters, and no other.

## Main definitions

* `Word.Overlap` says of which words two tests hold.
* `Word.Precedes` says that the test for one class stands before the test for another.

## Main statements

* `Word.pairwise_overlap`: two tests hold of the words of their overlap, and of no others.
* `Word.forall_classifyBy_eq_iff`: the orders of the tests that give every word its class.
-/

namespace PascalTokens

namespace Word

variable {w : Text} {a b : TokenClass} {r : (Text → Bool) × TokenClass}
  {rules : List ((Text → Bool) × TokenClass)}

/-! ## Words of which two tests hold -/

/-- The words of which the tests for two classes hold. -/
def Overlap (w : Text) : TokenClass → TokenClass → Prop
  | .reservedKeyword, .identifier => isKeyword w
  | .relationalOperator, .identifier => w ∈ letterOperators
  | _, _ => False

/-- An identifier begins with a letter, and a number with a digit. -/
theorem isNumber_of_isIdentifier (h : isIdentifier w) : isNumber w = false := by
  cases w with
  | nil => simp [isIdentifier] at h
  | cons c rest =>
    have hletter : c.isAlpha := by
      simp only [isIdentifier, Bool.and_eq_true] at h
      exact h.1
    simp [isNumber, isDigit_of_isAlpha hletter]

/-- Reserved words fold in case, and so do all tests but the one for relational operators, which
are in lower case anyway. -/
theorem tests_of_isKeyword (h : isKeyword w) :
    isRelational w = false ∧ isArithmetic w = false ∧ isIdentifier w ∧ isNumber w = false := by
  have hmem : Text.lower w ∈ Symbol.keywords := by simpa [isKeyword, Text.lower] using h
  have hall : ∀ k ∈ Symbol.keywords,
      isRelational k = false ∧ isArithmetic k = false ∧ isIdentifier k := by decide
  obtain ⟨hrelational, harithmetic, hidentifier⟩ := hall _ hmem
  rw [isArithmetic_lower] at harithmetic
  rw [isIdentifier_lower] at hidentifier
  refine ⟨?_, harithmetic, hidentifier, isNumber_of_isIdentifier hidentifier⟩
  by_contra hne
  have hlower : Text.lower w = w := lower_eq_of_isRelational (by simpa using hne)
  exact hne (hlower ▸ hrelational)

theorem tests_of_isRelational (h : isRelational w) :
    isArithmetic w = false ∧ (isIdentifier w ↔ w ∈ letterOperators) ∧ isNumber w = false := by
  have hall : ∀ s ∈ Symbol.relational,
      isArithmetic s = false ∧ (isIdentifier s ↔ s ∈ letterOperators) ∧ isNumber s = false := by
    decide
  exact hall w (by simpa [isRelational] using h)

theorem tests_of_isArithmetic (h : isArithmetic w) :
    isIdentifier w = false ∧ isNumber w = false := by
  have hall : ∀ s ∈ Symbol.arithmetic, isIdentifier s = false ∧ isNumber s = false := by decide
  exact hall w (by simpa [isArithmetic] using h)

theorem isRelational_of_mem_letterOperators (h : w ∈ letterOperators) : isRelational w := by
  have hall : ∀ s ∈ letterOperators, isRelational s := by decide
  exact hall w h

/-- Two tests hold of the words of their overlap, and of no others. -/
theorem pairwise_overlap (w : Text) :
    order.Pairwise fun r r' => r.1 w ∧ r'.1 w ↔ Overlap w r.2 r'.2 := by
  simp only [order, List.pairwise_cons, List.forall_mem_cons, Overlap]
  refine ⟨?keyword, ?relational, ?arithmetic, ?identifier, by simp⟩
  case keyword =>
    by_cases h : isKeyword w
    · simp [h, tests_of_isKeyword h]
    · simp [h]
  case relational =>
    by_cases h : isRelational w
    · simp [h, tests_of_isRelational h]
    · simp [h, mt isRelational_of_mem_letterOperators h]
  case arithmetic =>
    by_cases h : isArithmetic w
    · simp [tests_of_isArithmetic h]
    · simp [h]
  case identifier =>
    by_cases h : isIdentifier w
    · simp [isNumber_of_isIdentifier h]
    · simp [h]

/-! ## The first test that holds -/

/-- The test for class `a` stands before the test for class `b`. -/
def Precedes (rules : List ((Text → Bool) × TokenClass)) (a b : TokenClass) : Prop :=
  [a, b].Sublist (rules.map (·.2))

instance (rules : List ((Text → Bool) × TokenClass)) (a b : TokenClass) :
    Decidable (Precedes rules a b) :=
  inferInstanceAs (Decidable (List.Sublist _ _))

theorem Precedes.asymm (hnodup : (rules.map (·.2)).Nodup) (h : Precedes rules a b) :
    ¬ Precedes rules b a := by
  unfold Precedes at *
  intro h'
  generalize rules.map (·.2) = classes at *
  induction classes with
  | nil => simp at h
  | cons c rest ih =>
    -- The head is at most one of `a` and `b`, and is not met again in the rest.
    grind

theorem classifyBy_eq_none_iff : classifyBy rules w = none ↔ ∀ r ∈ rules, r.1 w = false := by
  simp [classifyBy]

/-- A test for another class that holds of a word comes later than the one that gives the word its
class. -/
theorem exists_first (h : classifyBy rules w = some a) (hr : r ∈ rules) (hrw : r.1 w)
    (hne : r.2 ≠ a) : ∃ first, first.1 w ∧ first.2 = a ∧ [first, r].Sublist rules := by
  obtain ⟨first, hfirst, rfl⟩ := Option.map_eq_some_iff.1 h
  obtain ⟨hw, before, after, rfl, hbefore⟩ := List.find?_eq_some_iff_append.1 hfirst
  refine ⟨first, hw, rfl, ?_⟩
  have hafter : r ∈ after := by
    rcases List.mem_append.1 hr with hr | hr
    · exact absurd hrw (by simpa using hbefore r hr)
    · exact (List.mem_cons.1 hr).resolve_left fun heq => hne (by rw [heq])
  exact ((List.singleton_sublist.2 hafter).cons_cons first).trans (List.sublist_append_right _ _)

theorem precedes_of_classifyBy (h : classifyBy rules w = some a) (hr : r ∈ rules) (hrw : r.1 w)
    (hne : r.2 ≠ a) : Precedes rules a r.2 := by
  obtain ⟨first, -, rfl, hlater⟩ := exists_first h hr hrw hne
  exact hlater.map (·.2)

/-- A word is in the overlap of its class and any other class whose test holds of it. -/
theorem overlap_of_classify (h : classify w = some a) (hr : r ∈ order) (hrw : r.1 w)
    (hne : r.2 ≠ a) : Overlap w a r.2 := by
  obtain ⟨first, hfirst, rfl, hlater⟩ := exists_first h hr hrw hne
  have hpair := List.pairwise_iff_forall_sublist.1 (pairwise_overlap w) hlater
  exact hpair.1 ⟨hfirst, hrw⟩

/-- Where two tests overlap, the earlier one is the test for reserved words or for relational
operators, and the later one the test for identifiers. -/
theorem Overlap.precedes (h : Overlap w a b)
    (hkeyword : Precedes rules .reservedKeyword .identifier)
    (hrelational : Precedes rules .relationalOperator .identifier) : Precedes rules a b := by
  unfold Overlap at h
  split at h
  · exact hkeyword
  · exact hrelational
  · exact h.elim

/-- The tests may be put into another order. Every word keeps its class just when the test for
identifiers comes after those for reserved words and for relational operators. -/
theorem forall_classifyBy_eq_iff (hperm : rules.Perm order) :
    (∀ w, classifyBy rules w = classify w) ↔
      Precedes rules .reservedKeyword .identifier ∧
        Precedes rules .relationalOperator .identifier := by
  constructor
  · intro h
    have hidentifier : (isIdentifier, .identifier) ∈ rules := hperm.mem_iff.2 (by simp [order])
    have hkeyword : classifyBy rules "begin".toList = some .reservedKeyword := h _
    have hrelational : classifyBy rules "or".toList = some .relationalOperator := h _
    exact ⟨precedes_of_classifyBy hkeyword hidentifier (by decide) (by decide),
      precedes_of_classifyBy hrelational hidentifier (by decide) (by decide)⟩
  · rintro ⟨hkeyword, hrelational⟩ w
    have hnodup : (rules.map (·.2)).Nodup := (hperm.map (·.2)).nodup_iff.2 (by decide)
    cases hclass : classify w with
    | none =>
      exact classifyBy_eq_none_iff.2 fun r hr =>
        classifyBy_eq_none_iff.1 hclass r (hperm.mem_iff.1 hr)
    | some a =>
      obtain ⟨r, hr, hrw, rfl⟩ := exists_rule hclass
      cases hother : classifyBy rules w with
      | none => simp [classifyBy_eq_none_iff.1 hother r (hperm.mem_iff.2 hr)] at hrw
      | some b =>
        obtain ⟨r', hr', hrw', rfl⟩ := exists_rule hother
        -- Were the classes different, each order would have the test of its own class first.
        by_contra hne
        have hclasses : r'.2 ≠ r.2 := by simpa using hne
        have hoverlap : Overlap w r.2 r'.2 :=
          overlap_of_classify hclass (hperm.mem_iff.1 hr') hrw' hclasses
        have hprecedes : Precedes rules r'.2 r.2 :=
          precedes_of_classifyBy hother (hperm.mem_iff.2 hr) hrw hclasses.symm
        exact (hoverlap.precedes hkeyword hrelational).asymm hnodup hprecedes

end Word

end PascalTokens
