import PascalTokens.Proofs.Spacing.Words
import PascalTokens.Proofs.Text.Case

/-!
# Letter case in words

No quote is a letter and no symbol has one in it, so a line is spaced alike in whatever case it is
written. Of the tests that give a word its class, only that for operators looks at case, and it
finds letters in two words only.

## Main definitions

* `Word.letterOperators` gives these two, and `Word.letterClass` their class.

## Main statements

* `Spacing.pad_lower`: the spaced line in lower case.
* `Word.classify_of_lower_mem` and `Word.classify_lower`: the class of a word in lower case.
-/

namespace PascalTokens

namespace Symbol

theorem caseless_of_mem_all {s : Text} (hs : s ∈ all) : Text.Caseless s :=
  (by decide : ∀ s ∈ all, Text.Caseless s) s hs

theorem caseless_punctuation : Text.Caseless punctuation := by decide

end Symbol

/-! ## Spacing -/

theorem Quotes.step_toLower (q : Quotes) (c : Char) : q.step c.toLower = q.step c := by
  have hsingle : c.toLower = Symbol.stringQuote ↔ c = Symbol.stringQuote :=
    Text.toLower_eq_iff (by decide)
  have hother : c.toLower = Symbol.otherQuote ↔ c = Symbol.otherQuote :=
    Text.toLower_eq_iff (by decide)
  simp only [step, hsingle, hother]

namespace Piece

variable {q : Quotes} {c d : Char}

def lower : Piece → Piece
  | plain c => plain c.toLower
  | symbol s => symbol (Text.lower s)

theorem single_toLower (q : Quotes) (c : Char) : single q c.toLower = (single q c).lower := by
  have hmem : c.toLower ∈ Symbol.punctuation ↔ c ∈ Symbol.punctuation :=
    Symbol.caseless_punctuation.toLower_mem_iff
  by_cases hc : c ∈ Symbol.punctuation
  · have hself : c.toLower = c := Text.toLower_eq_self (Symbol.caseless_punctuation c hc)
    cases hq : q.isOpen <;> simp [single, hq, hc, hself, lower]
  · rw [single_of_notMem hc, single_of_notMem (mt hmem.1 hc), lower]

theorem contains_compounds_toLower (c d : Char) :
    Symbol.compounds.contains [c.toLower, d.toLower] = Symbol.compounds.contains [c, d] := by
  have hmem : Text.lower [c, d] ∈ Symbol.compounds ↔ [c, d] ∈ Symbol.compounds :=
    Text.lower_mem_iff fun _ hs => Symbol.caseless_of_mem_all (Symbol.mem_all_of_mem_compounds hs)
  rw [Bool.eq_iff_iff, List.contains_iff_mem, List.contains_iff_mem]
  exact hmem

theorem cut_lower (q : Quotes) (t : Text) : cut q (Text.lower t) = (cut q t).map lower := by
  fun_induction cut q t with
  | case1 => rfl
  | case2 q c => simp [cut, single_toLower]
  | case3 q c d rest h ih =>
    simp only [Text.lower_cons, cut, contains_compounds_toLower, h, if_true, ih, List.map_cons]
    rfl
  | case4 q c d rest h ih =>
    rw [Text.lower_cons] at ih
    simp only [Text.lower_cons, cut, contains_compounds_toLower, Quotes.step_toLower, if_neg h, ih,
      single_toLower, List.map_cons]

theorem spaced_lower (first last : Bool) (p : Piece) :
    spaced first last p.lower = Text.lower (spaced first last p) := by
  cases p with
  | plain c => rfl
  | symbol s => cases first <;> cases last <;> simp [spaced, lower]

theorem spacedRest_lower (ps : List Piece) :
    spacedRest (ps.map lower) = Text.lower (spacedRest ps) := by
  induction ps with
  | nil => rfl
  | cons p ps ih => simp [spacedRest, spaced_lower, ih]

theorem spacedLine_lower (ps : List Piece) :
    spacedLine (ps.map lower) = Text.lower (spacedLine ps) := by
  cases ps with
  | nil => rfl
  | cons p ps => simp [spacedLine, spaced_lower, spacedRest_lower]

end Piece

/-- A line is spaced alike in every case. -/
theorem Spacing.pad_lower (inString : Bool) (line : Text) :
    pad inString (Text.lower line) = Text.lower (pad inString line) := by
  rw [pad, Piece.cut_lower, Piece.spacedLine_lower, pad]

theorem Spacing.recased_pad (inString : Bool) {line other : Text} (h : Text.Recased line other) :
    Text.Recased (pad inString line) (pad inString other) := by
  rw [Text.recased_iff] at *
  rw [← pad_lower, h, pad_lower]

/-! ## Words -/

namespace Word

variable {w v : Text}

/-- The operators that are written with letters. -/
def letterOperators : List Text := ["or".toList, "and".toList]

/-- The class of a letter operator, which is an identifier in any other case. -/
def letterClass (w : Text) : TokenClass :=
  if Text.lower w = w then .relationalOperator else .identifier

theorem lower_eq_of_isRelational (h : isRelational w) : Text.lower w = w := by
  have hall : ∀ s ∈ Symbol.relational, Text.lower s = s := by decide
  exact hall w (by simpa [isRelational] using h)

/-- A letter operator is one in lower case only. -/
theorem isRelational_iff_of_lower_mem (h : Text.lower w ∈ letterOperators) :
    isRelational w ↔ Text.lower w = w := by
  have hall : ∀ s ∈ letterOperators, isRelational s := by decide
  constructor
  · exact lower_eq_of_isRelational
  · intro hw
    rw [hw] at h
    exact hall w h

theorem isRelational_lower (h : Text.lower w ∉ letterOperators) :
    isRelational (Text.lower w) = isRelational w := by
  have hall : ∀ s ∈ Symbol.relational, s ∈ letterOperators ∨ Text.Caseless s := by decide
  rw [Bool.eq_iff_iff]
  constructor
  · intro hw
    have hcaseless := (hall _ (by simpa [isRelational] using hw)).resolve_left h
    rwa [← hcaseless.lower_eq_iff.1 rfl] at hw
  · intro hw
    rwa [lower_eq_of_isRelational hw]

theorem isKeyword_lower (w : Text) : isKeyword (Text.lower w) = isKeyword w :=
  congrArg Symbol.keywords.contains (Text.lower_lower w)

theorem isArithmetic_lower (w : Text) : isArithmetic (Text.lower w) = isArithmetic w := by
  rw [Bool.eq_iff_iff, isArithmetic, isArithmetic, List.contains_iff_mem, List.contains_iff_mem]
  exact Text.lower_mem_iff (by decide)

theorem isDigit_of_isAlpha {c : Char} (hc : c.isAlpha) : c.isDigit = false := by
  simp only [Char.isAlpha, Char.isUpper, Char.isLower, Char.isDigit, UInt32.le_iff_toNat_le] at *
  simp at *
  omega

theorem isDigit_toLower (c : Char) : c.toLower.isDigit = c.isDigit :=
  Text.apply_toLower (f := Char.isDigit) (fun _ hc => isDigit_of_isAlpha hc) c

theorem isAlphanum_toLower (c : Char) : c.toLower.isAlphanum = c.isAlphanum := by
  rw [Char.isAlphanum, Char.isAlpha_toLower_eq_isAlpha, isDigit_toLower, Char.isAlphanum]

theorem isIdentifier_lower (w : Text) : isIdentifier (Text.lower w) = isIdentifier w := by
  cases w with
  | nil => rfl
  | cons c rest => simp [isIdentifier, Text.lower, Function.comp_def, isAlphanum_toLower]

theorem isNumber_lower (w : Text) : isNumber (Text.lower w) = isNumber w := by
  simp [isNumber, Text.lower, Function.comp_def, isDigit_toLower]

theorem classify_of_lower_mem (h : Text.lower w ∈ letterOperators) :
    classify w = some (letterClass w) := by
  have hkeyword : isKeyword w = false := by
    have hall : ∀ s ∈ letterOperators, isKeyword s = false := by decide
    rw [← isKeyword_lower]
    exact hall _ h
  have harithmetic : isArithmetic w = false := by
    have hall : ∀ s ∈ letterOperators, isArithmetic s = false := by decide
    rw [← isArithmetic_lower]
    exact hall _ h
  have hidentifier : isIdentifier w = true := by
    have hall : ∀ s ∈ letterOperators, isIdentifier s = true := by decide
    rw [← isIdentifier_lower]
    exact hall _ h
  have hrelational := isRelational_iff_of_lower_mem h
  by_cases hw : Text.lower w = w
  · simp [classify, classifyBy, order, List.find?, letterClass, hkeyword, hrelational.2 hw, hw]
  · have hfalse : isRelational w = false := by simpa using mt hrelational.1 hw
    simp [classify, classifyBy, order, List.find?, letterClass, hkeyword, hfalse, harithmetic,
      hidentifier, hw]

/-- All other words have their class in every case. -/
theorem classify_lower (h : Text.lower w ∉ letterOperators) :
    classify (Text.lower w) = classify w := by
  simp only [classify, classifyBy, order, List.find?, isKeyword_lower, isRelational_lower h,
    isArithmetic_lower, isIdentifier_lower, isNumber_lower]

theorem classify_eq_of_recased (h : Text.Recased w v) (hw : Text.lower w ∉ letterOperators) :
    classify w = classify v := by
  have hlower : Text.lower w = Text.lower v := Text.recased_iff.1 h
  rw [← classify_lower hw, hlower, classify_lower (hlower ▸ hw)]

theorem opensString_lower (w : Text) : opensString (Text.lower w) = opensString w := by
  have hquote (o : Option Char) :
      o.map Char.toLower = some Symbol.stringQuote ↔ o = some Symbol.stringQuote :=
    Text.map_toLower_eq_some_iff (by decide)
  simp [opensString, Text.lower, hquote]

theorem stringSeed?_lower (w : Text) :
    stringSeed? (Text.lower w) = (stringSeed? w).map Text.lower := by
  rw [stringSeed?, stringSeed?, opensString_lower]
  split <;> simp [Text.lower]

theorem rel_stringSeed? (h : Text.Recased w v) :
    Option.Rel Text.Recased (stringSeed? w) (stringSeed? v) := by
  refine Text.rel_recased_of_map_eq ?_
  rw [← stringSeed?_lower, Text.recased_iff.1 h, stringSeed?_lower]

theorem closesComment_lower (w : Text) : closesComment (Text.lower w) = closesComment w := by
  have hmark : Text.Caseless Symbol.commentClosing := by decide
  rw [Bool.eq_iff_iff, closesComment, closesComment, List.isSuffixOf_iff_suffix,
    List.isSuffixOf_iff_suffix]
  exact hmark.suffix_lower_iff

theorem commentLeftOpen?_lower (w : Text) :
    commentLeftOpen? (Text.lower w) = commentLeftOpen? w := by
  have hmark : Text.Caseless Symbol.commentOpening := by decide
  have hopens : opensComment (Text.lower w) = opensComment w := by
    rw [Bool.eq_iff_iff, opensComment, opensComment, List.isPrefixOf_iff_prefix,
      List.isPrefixOf_iff_prefix]
    exact hmark.prefix_lower_iff
  rw [commentLeftOpen?, commentLeftOpen?, hopens, closesComment_lower]

theorem isPunctuation_iff : isPunctuation w ↔ w ∈ Symbol.all := by
  rcases w with _ | ⟨c, _ | ⟨d, t⟩⟩ <;> simp [isPunctuation, Symbol.all]

theorem isPunctuation_lower (w : Text) : isPunctuation (Text.lower w) = isPunctuation w := by
  rw [Bool.eq_iff_iff, isPunctuation_iff, isPunctuation_iff]
  exact Text.lower_mem_iff fun _ => Symbol.caseless_of_mem_all

end Word

end PascalTokens
