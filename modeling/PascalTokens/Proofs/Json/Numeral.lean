import Mathlib.Data.List.TakeDrop
import PascalTokens.Json.Printer
import PascalTokens.Json.Reader
import PascalTokens.Proofs.Double.Shortest

/-!
# Numbers in JSON text

A number is written as its sign, the digits before the point and, where there are any, the digits
after the point and the exponent. Reading takes exactly these parts if what follows does not go
on as a number, and their value is what it gives. Integers and doubles are printed in this form.

## Main definitions

* `Json.Numeral` holds the parts of a number, `text` and `value` are its two sides.
* `Json.EndsNumber` says that a text does not go on as a number.
* `Json.ScalarText` says that a text reads as a value without parts.

## Main statements

* `Json.Numeral.readScalar_text` reads a numeral.
* `Json.scalarText_ofInt` and `Json.scalarText_printDouble` read the text of an integer and of a
  double.
-/

namespace PascalTokens

namespace Json

open Text

/-! ## Runs of digits -/

def EndsDigits (rest : Text) : Prop := ∀ c ∈ rest.head?, c.isDigit = false

def EndsNumber (rest : Text) : Prop :=
  ∀ c ∈ rest.head?, c.isDigit = false ∧ c ≠ '.' ∧ c ≠ 'e' ∧ c ≠ 'E'

variable {digits rest : Text}

theorem EndsNumber.endsDigits (h : EndsNumber rest) : EndsDigits rest := fun c hc => (h c hc).1

theorem readDigits_append (hd : AllDigits digits) (hr : EndsDigits rest) :
    readDigits (digits ++ rest) = (digits, rest) := by
  have stop : rest.takeWhile Char.isDigit = [] ∧ rest.dropWhile Char.isDigit = rest := by
    cases rest with
    | nil => simp
    | cons c t => simp [hr c rfl]
  rw [readDigits, List.span_eq_takeWhile_dropWhile, List.takeWhile_append_of_pos hd,
    List.dropWhile_append_of_pos hd, stop.1, stop.2, List.append_nil]

/-! ## Numerals -/

/-- The parts of a number: no zero before other digits, and an exponent has digits. -/
structure Numeral where
  negative : Bool
  whole : Text
  places : Text
  power : Option (Bool × Text)
  whole_digits : AllDigits whole
  whole_head : whole = ['0'] ∨ ∃ c t, whole = c :: t ∧ c ≠ '0'
  places_digits : AllDigits places
  power_digits : ∀ p ∈ power, p.2 ≠ [] ∧ AllDigits p.2

namespace Numeral

def placesText (places : Text) : Text := if places.isEmpty then [] else '.' :: places

def powerText : Option (Bool × Text) → Text
  | none => []
  | some (negative, digits) => 'e' :: (if negative then '-' else '+') :: digits

def signedInt (negative : Bool) (n : Nat) : Int := if negative then -n else n

def exponent : Option (Bool × Text) → Int
  | none => 0
  | some (negative, digits) => signedInt negative (Nat.ofDigitChars 10 digits 0)

variable (n : Numeral)

def text : Text :=
  Double.signed n.negative (n.whole ++ (placesText n.places ++ powerText n.power))

/-- An integer if nothing follows the whole digits, else a double. -/
def value : Json :=
  if n.places.isEmpty && n.power.isNone then
    int (signedInt n.negative (Nat.ofDigitChars 10 n.whole 0))
  else
    double (.ofDecimal n.negative (Nat.ofDigitChars 10 (n.whole ++ n.places) 0)
      (exponent n.power - n.places.length))

variable {n}

theorem exists_whole : ∃ c t, n.whole = c :: t ∧ c.isDigit = true := by
  have digits := n.whole_digits
  obtain zero | ⟨c, t, shape, -⟩ := n.whole_head
  · exact ⟨'0', [], zero, rfl⟩
  · exact ⟨c, t, shape, digits c (by rw [shape]; exact List.mem_cons_self)⟩

/-! ## Reading the parts -/

theorem readWhole?_append (hr : EndsDigits rest) :
    readWhole? (n.whole ++ rest) = some (n.whole, rest) := by
  have run := readDigits_append n.whole_digits hr
  obtain zero | ⟨c, t, shape, nonzero⟩ := n.whole_head
  · rw [zero]
    rfl
  · rw [shape] at run ⊢
    rw [List.cons_append] at run ⊢
    simp [readWhole?, nonzero, run]

theorem readFraction?_append (hd : AllDigits digits) (hr : EndsDigits rest)
    (point : '.' ∉ rest.head?) :
    readFraction? (placesText digits ++ rest) =
      if digits.isEmpty then none else some (digits, rest) := by
  cases digits with
  | nil =>
    cases rest with
    | nil => rfl
    | cons c t =>
      have : c ≠ '.' := fun same => point (by simp [same])
      simp [placesText, readFraction?, this]
  | cons c t =>
    have run := readDigits_append hd hr
    rw [List.cons_append] at run
    simp [placesText, readFraction?, run]

theorem readExponent?_append {power : Option (Bool × Text)}
    (hp : ∀ p ∈ power, p.2 ≠ [] ∧ AllDigits p.2) (hr : EndsNumber rest) :
    readExponent? (powerText power ++ rest) =
      power.map fun _ => (exponent power, rest) := by
  match power with
  | none =>
    cases rest with
    | nil => rfl
    | cons c t =>
      obtain ⟨-, -, lower, upper⟩ := hr c rfl
      simp [powerText, readExponent?, lower, upper]
  | some (negative, digits) =>
    obtain ⟨nonempty, hd⟩ := hp _ rfl
    obtain ⟨c, t, rfl⟩ := List.exists_cons_of_ne_nil nonempty
    have run := readDigits_append hd hr.endsDigits
    rw [List.cons_append] at run
    cases negative <;> simp [powerText, readExponent?, exponent, signedInt, run]

theorem endsDigits_power (power : Option (Bool × Text)) (hr : EndsNumber rest) :
    EndsDigits (powerText power ++ rest) ∧ '.' ∉ (powerText power ++ rest).head? := by
  match power with
  | none => exact ⟨hr.endsDigits, fun point => (hr _ point).2.1 rfl⟩
  | some (negative, digits) => exact ⟨by rintro _ ⟨⟩; rfl, by rintro ⟨⟩⟩

theorem endsDigits_places (places : Text) (hr : EndsDigits rest) :
    EndsDigits (placesText places ++ rest) := by
  cases places with
  | nil => exact hr
  | cons c t => rintro _ ⟨⟩; rfl

theorem readMagnitude_parts (hr : EndsNumber rest) :
    readMagnitude n.negative (n.whole ++ (placesText n.places ++ (powerText n.power ++ rest))) =
      some (n.value, rest) := by
  obtain ⟨power, point⟩ := endsDigits_power n.power hr
  have whole := readWhole?_append (n := n) (endsDigits_places n.places power)
  have fraction := readFraction?_append n.places_digits power point
  have exponent := readExponent?_append n.power_digits hr
  simp only [readMagnitude, whole, fraction]
  have after : ((if n.places.isEmpty then none
      else some (n.places, powerText n.power ++ rest)).map (·.2)).getD
        (placesText n.places ++ (powerText n.power ++ rest)) = powerText n.power ++ rest := by
    cases h : n.places <;> simp [placesText]
  simp only [after, exponent, value]
  cases h : n.places <;> cases h : n.power <;>
    simp [signedInt, powerText, Numeral.exponent]

/-- Reading takes the parts of a numeral and gives its value. -/
theorem readNumber_text (hr : EndsNumber rest) :
    readNumber (n.text ++ rest) = some (n.value, rest) := by
  have magnitude := readMagnitude_parts (n := n) hr
  have tail : n.whole ++ (placesText n.places ++ powerText n.power) ++ rest =
      n.whole ++ (placesText n.places ++ (powerText n.power ++ rest)) := by
    simp only [List.append_assoc]
  cases h : n.negative with
  | true =>
    rw [h] at magnitude
    rw [text, h, Double.signed, if_pos rfl, List.cons_append, tail, readNumber, magnitude]
  | false =>
    obtain ⟨c, t, shape, digit⟩ := n.exists_whole
    have minus : c ≠ '-' := by rintro rfl; cases digit
    rw [h] at magnitude
    rw [text, h, Double.signed, if_neg Bool.false_ne_true, tail]
    rw [shape, List.cons_append] at magnitude ⊢
    rw [readNumber, magnitude]
    simpa using minus

theorem readLiteral?_text : readLiteral? (n.text ++ rest) = none := by
  obtain ⟨c, t, shape, digit⟩ := n.exists_whole
  have other : 'n' ≠ c ∧ 't' ≠ c ∧ 'f' ≠ c ∧ 'N' ≠ c ∧ 'I' ≠ c ∧ '-' ≠ c := by
    refine ⟨?_, ?_, ?_, ?_, ?_, ?_⟩ <;> (rintro rfl; cases digit)
  cases h : n.negative <;> simp [readLiteral?, literals, text, h, Double.signed, shape, other]

theorem readScalar_text (hr : EndsNumber rest) :
    readScalar (n.text ++ rest) = some (n.value, rest) := by
  rw [readScalar, readLiteral?_text]
  exact readNumber_text hr

end Numeral

/-! ## Numerals of values -/

theorem exists_numeral_ofNat (negative : Bool) (n : Nat) :
    ∃ m : Numeral, m.text = Double.signed negative (ofNat n) ∧
      m.value = int (Numeral.signedInt negative n) := by
  have head : ofNat n = ['0'] ∨ ∃ c t, ofNat n = c :: t ∧ c ≠ '0' :=
    (ofNat_head n).imp_left fun zero => by rw [zero]; rfl
  refine ⟨⟨negative, ofNat n, [], none, allDigits_ofNat n, head, nofun, nofun⟩, ?_, ?_⟩
  · simp [Numeral.text, Numeral.placesText, Numeral.powerText]
  · simp [Numeral.value, ofNat]

theorem exists_numeral_ofInt (n : Int) : ∃ m : Numeral, m.text = ofInt n ∧ m.value = int n := by
  cases n with
  | ofNat n => exact exists_numeral_ofNat false n
  | negSucc n => exact exists_numeral_ofNat true (n + 1)

variable {c : Char} {t : Text}

/-- Digits to the right of a point read as their value, shifted by as many places. -/
theorem exists_numeral_small (negative : Bool) (zeros : Nat) (hd : AllDigits digits)
    (nonempty : digits ≠ []) :
    ∃ m : Numeral,
      m.text = Double.signed negative ('0' :: '.' :: List.replicate zeros '0' ++ digits) ∧
      m.value = double (.ofDecimal negative (Nat.ofDigitChars 10 digits 0)
        (-zeros - digits.length)) := by
  refine ⟨⟨negative, ['0'], List.replicate zeros '0' ++ digits, none,
    allDigits_zeros 1, .inl rfl, (allDigits_zeros _).append hd, nofun⟩, ?_, ?_⟩
  · simp [Numeral.text, Numeral.placesText, Numeral.powerText, nonempty]
  · have power : -((zeros : Int) + digits.length) = -zeros - digits.length := by omega
    simp [Numeral.value, Numeral.exponent, nonempty, Nat.ofDigitChars_cons,
      Nat.ofDigitChars_append, power]

/-- Digits that end before the point are filled up with zeros. -/
theorem exists_numeral_whole (negative : Bool) (zeros : Nat) (hd : AllDigits (c :: t))
    (hc : c ≠ '0') (nonzero : Nat.ofDigitChars 10 (c :: t) 0 ≠ 0) :
    ∃ m : Numeral,
      m.text = Double.signed negative (c :: t ++ List.replicate zeros '0' ++ ['.', '0']) ∧
      m.value = double (.ofDecimal negative (Nat.ofDigitChars 10 (c :: t) 0) zeros) := by
  refine ⟨⟨negative, c :: t ++ List.replicate zeros '0', ['0'], none,
    hd.append (allDigits_zeros zeros), .inr ⟨c, _, rfl, hc⟩, allDigits_zeros 1, nofun⟩, ?_, ?_⟩
  · simp [Numeral.text, Numeral.placesText, Numeral.powerText]
  · have shift := Double.ofDecimal_mul_pow10 negative nonzero zeros (zeros + 1)
    have power : (zeros : Int) - (zeros + 1 : Nat) = -1 := by omega
    have spelled : Nat.ofDigitChars 10 (c :: t ++ List.replicate zeros '0' ++ ['0']) 0 =
        Nat.ofDigitChars 10 (c :: t) 0 * pow10 (zeros + 1) := by
      rw [List.append_assoc, ← List.replicate_succ', Nat.ofDigitChars_append,
        Nat.ofDigitChars_replicate_zero, Nat.mul_comm]
      rfl
    rw [power] at shift
    rw [Numeral.value, if_neg (by simp), spelled, ← shift]
    rfl

/-- Digits on both sides of the point. -/
theorem exists_numeral_split (negative : Bool) {whole places : Text}
    (hw : AllDigits (c :: whole)) (hp : AllDigits places) (hc : c ≠ '0')
    (nonempty : places ≠ []) :
    ∃ m : Numeral, m.text = Double.signed negative (c :: whole ++ '.' :: places) ∧
      m.value = double (.ofDecimal negative (Nat.ofDigitChars 10 (c :: whole ++ places) 0)
        (-places.length)) := by
  refine ⟨⟨negative, c :: whole, places, none, hw, .inr ⟨c, _, rfl, hc⟩, hp, nofun⟩, ?_, ?_⟩
  · simp [Numeral.text, Numeral.placesText, Numeral.powerText, nonempty]
  · simp [Numeral.value, Numeral.exponent, nonempty]

/-- One digit, the others after the point, and an exponent. -/
theorem exists_numeral_scientific (negative : Bool) (exponent : Int) (hd : AllDigits (c :: t))
    (hc : c ≠ '0') :
    ∃ m : Numeral,
      m.text = Double.signed negative ([c] ++ (if t.isEmpty then [] else '.' :: t) ++
        'e' :: (if exponent < 0 then '-' else '+') ::
          List.leftpad 2 '0' (ofNat exponent.natAbs)) ∧
      m.value = double (.ofDecimal negative (Nat.ofDigitChars 10 (c :: t) 0)
        (exponent - t.length)) := by
  have digits : AllDigits (List.leftpad 2 '0' (ofNat exponent.natAbs)) :=
    (allDigits_zeros _).append (allDigits_ofNat _)
  have nonempty : List.leftpad 2 '0' (ofNat exponent.natAbs) ≠ [] := by
    simp [List.leftpad, ofNat]
  have spelled : Nat.ofDigitChars 10 (List.leftpad 2 '0' (ofNat exponent.natAbs)) 0 =
      exponent.natAbs := by
    simp [List.leftpad, Nat.ofDigitChars_append, ofNat]
  have sign : Numeral.signedInt (decide (exponent < 0)) exponent.natAbs = exponent := by
    rw [Numeral.signedInt]
    split
    case isTrue below => have := of_decide_eq_true below; omega
    case isFalse above => have := of_decide_eq_false (Bool.eq_false_iff.mpr above); omega
  generalize List.leftpad 2 '0' (ofNat exponent.natAbs) = power at digits nonempty spelled ⊢
  refine ⟨⟨negative, [c], t, some (decide (exponent < 0), power), hd.of_subset (by simp),
    .inr ⟨c, [], rfl, hc⟩, hd.of_subset (by simp), ?_⟩, ?_, ?_⟩
  · rintro _ ⟨⟩
    exact ⟨nonempty, digits⟩
  · simp [Numeral.text, Numeral.placesText, Numeral.powerText]
  · simp [Numeral.value, Numeral.exponent, spelled, sign]

/-- The layout of digits is a numeral with their value, in each of its forms. -/
theorem exists_numeral_layOut (negative : Bool) (point : Int) (hd : AllDigits (c :: t))
    (hc : c ≠ '0') (nonzero : Nat.ofDigitChars 10 (c :: t) 0 ≠ 0) :
    ∃ m : Numeral, m.text = Double.signed negative (Double.layOut (c :: t) point) ∧
      m.value = double (.ofDecimal negative (Nat.ofDigitChars 10 (c :: t) 0)
        (point - (c :: t).length)) := by
  rw [Double.layOut]
  split
  case isTrue near =>
    split
    case isTrue small =>
      have := exists_numeral_small negative (-point).toNat hd (List.cons_ne_nil c t)
      rwa [show -((-point).toNat : Int) = point by omega] at this
    case isFalse large =>
      obtain ⟨whole, rfl⟩ : ∃ n : Nat, point = (n + 1 : Nat) := ⟨point.toNat - 1, by omega⟩
      rcases Nat.lt_or_ge (whole + 1) (c :: t).length with split | filled
      · have inside : whole < t.length := Nat.lt_of_succ_lt_succ split
        have power : -((t.drop whole).length : Int) = (whole + 1 : Nat) - (c :: t).length := by
          rw [List.length_drop, List.length_cons]
          omega
        have front : AllDigits (c :: t.take whole) :=
          hd.of_subset (List.take_subset (whole + 1) (c :: t))
        have back : AllDigits (t.drop whole) :=
          hd.of_subset (List.drop_subset (whole + 1) (c :: t))
        have positional := exists_numeral_split negative front back hc (by simpa using inside)
        rw [power] at positional
        simpa [List.rightpad, Nat.le_of_lt inside, Nat.not_le.mpr inside] using positional
      · have power : ((whole + 1 - (c :: t).length : Nat) : Int) =
            (whole + 1 : Nat) - (c :: t).length := by omega
        have positional := exists_numeral_whole negative (whole + 1 - (c :: t).length) hd hc nonzero
        have short : t.length ≤ whole := Nat.le_of_succ_le_succ filled
        rw [power] at positional
        simpa [List.rightpad, short, List.take_of_length_le] using positional
  case isFalse far =>
    have := exists_numeral_scientific negative (point - 1) hd hc
    rwa [show point - 1 - t.length = point - (c :: t).length by
      rw [List.length_cons]; omega] at this

/-- The shortest text of a finite double is a numeral with its value. -/
theorem exists_numeral_shortestText (negative : Bool) {rank : Nat} (h : rank < rankLimit) :
    ∃ m : Numeral, m.text = Double.signed negative (Double.shortestText rank) ∧
      m.value = double (.ofRank negative rank) := by
  rw [Double.shortestText]
  split
  case isTrue zero =>
    subst zero
    refine ⟨⟨negative, ['0'], ['0'], none, allDigits_zeros 1, .inl rfl, allDigits_zeros 1, nofun⟩,
      rfl, ?_⟩
    simp [Numeral.value, Double.ofDecimal, Nat.ofDigitChars_cons]
  case isFalse positive =>
    have positive := Nat.pos_of_ne_zero positive
    have nonzero := Double.shortest_ne_zero positive h
    have reads := Double.ofDecimal_shortest positive h negative
    generalize Double.shortest rank = decimal at nonzero reads ⊢
    obtain ⟨digits, exponent⟩ := decimal
    simp only at nonzero reads ⊢
    obtain ⟨c, t, zeros, kept, hc, hd, length, worth⟩ := exists_significant nonzero
    have left : Nat.ofDigitChars 10 (c :: t) 0 ≠ 0 := by
      intro none
      rw [none, Nat.zero_mul] at worth
      exact nonzero worth.symm
    obtain ⟨m, text, value⟩ :=
      exists_numeral_layOut negative ((ofNat digits).length + exponent) hd hc left
    have power : (((ofNat digits).length : Int) + exponent - (c :: t).length) =
        exponent + zeros := by omega
    have shift := Double.ofDecimal_mul_pow10 negative left (exponent + zeros) zeros
    rw [worth, Int.add_sub_cancel, reads] at shift
    rw [power, ← shift] at value
    rw [kept]
    exact ⟨m, text, value⟩

/-- The text of a finite double is a numeral with its value. -/
theorem exists_numeral_finite (negative : Bool) (rank : Fin rankLimit) :
    ∃ m : Numeral, m.text = printDouble (.finite negative rank) ∧
      m.value = double (.finite negative rank) := by
  obtain ⟨m, text, value⟩ := exists_numeral_shortestText negative rank.isLt
  rw [Double.ofRank, dif_pos rank.isLt] at value
  exact ⟨m, text, value⟩

/-! ## Scalars -/

/-- The first character of a number or a word: no blank, and no sign of another form of value. -/
def LeadsScalar (c : Char) : Prop := c ∉ [' ', '\t', '\n', '\r', '\x22', '[', ']', '\x7b']

instance : DecidablePred LeadsScalar := fun _ => inferInstanceAs (Decidable (_ ∉ _))

/-- A text that reads as a value without parts. -/
structure ScalarText (t : Text) (v : Json) : Prop where
  lead : ∃ c u, t = c :: u ∧ LeadsScalar c
  reads : ∀ rest, EndsNumber rest → readScalar (t ++ rest) = some (v, rest)

theorem Numeral.scalarText (n : Numeral) : ScalarText n.text n.value := by
  refine ⟨?_, fun rest hr => readScalar_text hr⟩
  obtain ⟨c, t, shape, digit⟩ := n.exists_whole
  have lead : LeadsScalar c := by
    intro other
    simp only [List.mem_cons, List.not_mem_nil, or_false] at other
    rcases other with rfl | rfl | rfl | rfl | rfl | rfl | rfl | rfl <;> cases digit
  cases h : n.negative with
  | true => exact ⟨'-', _, by rw [text, h]; rfl, by decide⟩
  | false => exact ⟨c, _, by rw [text, h, shape]; rfl, lead⟩

theorem scalarText_null : ScalarText "null".toList null :=
  ⟨⟨'n', "ull".toList, rfl, by decide⟩, fun _ _ => rfl⟩

theorem scalarText_true : ScalarText "true".toList (bool true) :=
  ⟨⟨'t', "rue".toList, rfl, by decide⟩, fun _ _ => rfl⟩

theorem scalarText_false : ScalarText "false".toList (bool false) :=
  ⟨⟨'f', "alse".toList, rfl, by decide⟩, fun _ _ => rfl⟩

theorem scalarText_ofInt (n : Int) : ScalarText (ofInt n) (int n) := by
  obtain ⟨m, text, value⟩ := exists_numeral_ofInt n
  rw [← text, ← value]
  exact m.scalarText

theorem scalarText_printDouble (x : Double) : ScalarText (printDouble x) (double x) := by
  match x with
  | .nan => exact ⟨⟨'N', "aN".toList, rfl, by decide⟩, fun _ _ => rfl⟩
  | .infinite false => exact ⟨⟨'I', "nfinity".toList, rfl, by decide⟩, fun _ _ => rfl⟩
  | .infinite true => exact ⟨⟨'-', "Infinity".toList, rfl, by decide⟩, fun _ _ => rfl⟩
  | .finite negative rank =>
    obtain ⟨m, text, value⟩ := exists_numeral_finite negative rank
    rw [← text, ← value]
    exact m.scalarText

example : printDouble (.ofDecimal true 15 22) = "-1.5e+23".toList := by decide +kernel

end Json

end PascalTokens
