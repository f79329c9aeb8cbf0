import PascalTokens.Proofs.Json.Escape
import PascalTokens.Proofs.Json.KeyOrder
import PascalTokens.Proofs.Json.Numeral
import PascalTokens.Proofs.Text.Join

/-!
# Reading what was printed

A printed value reads back, whatever the indent and the depth it stands at: blanks between the
parts are skipped, and the first character of each part tells which part it is. The fuel that
reading starts with is enough, since every step of it takes a character.

## Main statements

* `Json.readValue_printAt` reads a value inside a text.
* `Json.parse?_printAt` reads a whole text.
-/

namespace PascalTokens

namespace Json

variable {indent : Option Nat} {depth : Nat} {c : Char} {t gap rest : Text}

/-! ## Blanks -/

def isBlank (c : Char) : Bool := c = ' ' || c = '\t' || c = '\n' || c = '\r'

/-- Only blanks, as between the parts of a text. -/
def Gap (t : Text) : Prop := ∀ c ∈ t, isBlank c = true

theorem skipBlanks_gap (h : Gap gap) : skipBlanks (gap ++ t) = skipBlanks t :=
  List.dropWhile_append_of_pos h

theorem skipBlanks_cons (h : isBlank c = false) : skipBlanks (c :: t) = c :: t :=
  List.dropWhile_cons_of_neg (by simpa [isBlank] using h)

theorem gap_lineBreak (indent : Option Nat) (depth : Nat) : Gap (lineBreak indent depth) := by
  cases indent with
  | none => exact fun c hc => absurd hc List.not_mem_nil
  | some n =>
    intro c hc
    obtain rfl | hc := List.mem_cons.mp hc
    · rfl
    · rw [List.eq_of_mem_replicate hc]
      rfl

theorem exists_separator (indent : Option Nat) (depth : Nat) :
    ∃ gap, separator indent depth = ',' :: gap ∧ Gap gap := by
  cases indent with
  | none => exact ⟨[' '], rfl, by simp [Gap, isBlank]⟩
  | some n => exact ⟨_, rfl, gap_lineBreak (some n) depth⟩

theorem endsNumber_cons (hc : isBlank c = true ∨ c = ',' ∨ c = ']' ∨ c = '\x7d') :
    EndsNumber (c :: t) := by
  rintro _ ⟨⟩
  have : c = ' ' ∨ c = '\t' ∨ c = '\n' ∨ c = '\r' ∨ c = ',' ∨ c = ']' ∨ c = '\x7d' := by
    simpa [isBlank, or_assoc] using hc
  rcases this with rfl | rfl | rfl | rfl | rfl | rfl | rfl <;> decide

theorem endsNumber_gap (h : Gap gap) (hc : c = ',' ∨ c = ']' ∨ c = '\x7d') :
    EndsNumber (gap ++ c :: t) := by
  cases gap with
  | nil => exact endsNumber_cons (.inr hc)
  | cons d gap => exact endsNumber_cons (.inl (h d List.mem_cons_self))

/-! ## First characters -/

/-- The first character of a value is no blank and does not close an array. -/
def LeadsValue (c : Char) : Prop := isBlank c = false ∧ c ≠ ']'

theorem LeadsScalar.leadsValue (h : LeadsScalar c) : LeadsValue c := by
  simp only [LeadsScalar, List.mem_cons, not_or] at h
  simp [LeadsValue, isBlank, h]

theorem exists_bracketed (indent : Option Nat) (depth : Nat) (opening closing : Char)
    (pieces : List Text) : ∃ t, bracketed indent depth opening closing pieces = opening :: t := by
  cases pieces <;> exact ⟨_, rfl⟩

theorem exists_printAt (indent : Option Nat) (depth : Nat) (v : Json) :
    ∃ c t, printAt indent depth v = c :: t ∧ LeadsValue c := by
  have scalar {t : Text} {w : Json} (h : ScalarText t w) : ∃ c u, t = c :: u ∧ LeadsValue c := by
    obtain ⟨c, u, shape, lead⟩ := h.lead
    exact ⟨c, u, shape, lead.leadsValue⟩
  match v with
  | null => exact scalar scalarText_null
  | bool true => exact scalar scalarText_true
  | bool false => exact scalar scalarText_false
  | int n => exact scalar (scalarText_ofInt n)
  | double x => exact scalar (scalarText_printDouble x)
  | str t => exact ⟨'\x22', _, rfl, by decide, by decide⟩
  | arr items =>
    obtain ⟨t, shape⟩ := exists_bracketed indent depth '[' ']'
      (printItems indent (depth + 1) items)
    exact ⟨'[', t, shape, by decide, by decide⟩
  | obj fields =>
    obtain ⟨t, shape⟩ := exists_bracketed indent depth '\x7b' '\x7d'
      (printFields indent (depth + 1) fields)
    exact ⟨'\x7b', t, shape, by decide, by decide⟩

theorem readValue_scalar {v : Json} (h : ScalarText t v) (hr : EndsNumber rest) (fuel : Nat) :
    readValue (fuel + 1) (t ++ rest) = some (v, rest) := by
  obtain ⟨c, u, rfl, lead⟩ := h.lead
  simp only [LeadsScalar, List.mem_cons, not_or] at lead
  rw [← h.reads rest hr, List.cons_append]
  simp [readValue, lead]

theorem readValue_printString (t rest : Text) (fuel : Nat) :
    readValue (fuel + 1) (printString t ++ rest) = some (str t, rest) := by
  simp [printString, readValue, readString_escaped]

/-! ## Arrays and objects -/

/-- A value reads back at every depth, before everything that ends a number. -/
def ReadsBack (indent : Option Nat) (v : Json) : Prop :=
  ∀ depth fuel rest, 2 * (printAt indent depth v).length ≤ fuel → EndsNumber rest →
    readValue fuel (printAt indent depth v ++ rest) = some (v, rest)

section Pieces

variable {pieces others : List Text} {sep : Text}

theorem join_append (shape : pieces = (c :: t) :: others) :
    Text.join sep pieces ++ rest = c :: (Text.join sep (t :: others) ++ rest) := by
  rw [shape, Text.join_cons_cons_left, List.cons_append]

theorem skipBlanks_join (hg : Gap gap) (shape : pieces = (c :: t) :: others)
    (hc : isBlank c = false) :
    skipBlanks (gap ++ (Text.join sep pieces ++ rest)) = Text.join sep pieces ++ rest := by
  rw [skipBlanks_gap hg, join_append shape, skipBlanks_cons hc]

theorem exists_printItems (indent : Option Nat) (depth : Nat) (v : Json) (items : List Json) :
    ∃ c t others, printItems indent depth (v :: items) = (c :: t) :: others ∧ LeadsValue c := by
  obtain ⟨c, t, shape, lead⟩ := exists_printAt indent depth v
  exact ⟨c, t, _, by rw [printItems, shape], lead⟩

theorem exists_printFields (indent : Option Nat) (depth : Nat) (f : Text × Json)
    (fields : Fields) :
    ∃ t others, printFields indent depth (f :: fields) = ('\x22' :: t) :: others :=
  ⟨_, _, rfl⟩

end Pieces

/-- The items of an array read back, up to its closing bracket. -/
theorem readItems_join {items : List Json} (nested : ∀ v ∈ items, ReadsBack indent v)
    (nonempty : items ≠ []) (hg : Gap gap) (fuel : Nat)
    (enough : 2 * (Text.join (separator indent depth) (printItems indent depth items)).length <
      fuel) :
    readItems fuel (Text.join (separator indent depth) (printItems indent depth items) ++
      (gap ++ ']' :: rest)) = some (items, rest) := by
  induction items generalizing fuel with
  | nil => contradiction
  | cons v items ih =>
    obtain ⟨fuel, rfl⟩ : ∃ n, fuel = n + 1 := ⟨fuel - 1, by omega⟩
    have value := nested v List.mem_cons_self depth fuel
    cases items with
    | nil =>
      simp only [printItems, Text.join_singleton] at enough ⊢
      rw [readItems, value _ (by omega) (endsNumber_gap hg (by simp))]
      simp only [skipBlanks_gap hg, skipBlanks_cons (show isBlank ']' = false by decide)]
    | cons w items =>
      obtain ⟨inner, comma, blanks⟩ := exists_separator indent depth
      obtain ⟨c, t, _, shape, lead⟩ := exists_printItems indent depth w items
      have others := ih (fun v hv => nested v (List.mem_cons_of_mem _ hv))
        (List.cons_ne_nil _ _) fuel
      have next : printItems indent depth (w :: items) ≠ [] := List.cons_ne_nil _ _
      rw [printItems, Text.join_cons _ _ next, comma] at enough ⊢
      rw [comma] at others
      simp only [List.length_append, List.length_cons, List.append_assoc, List.cons_append]
        at enough ⊢
      rw [readItems, value _ (by omega) (endsNumber_cons (by simp))]
      simp only [skipBlanks_cons (show isBlank ',' = false by decide)]
      rw [skipBlanks_join blanks shape lead.1, others (by omega)]
      rfl

theorem setField_append {key : Text} {v : Json} {done : Fields}
    (h : key ∉ done.map Prod.fst) : setField key v done = done ++ [(key, v)] := by
  induction done with
  | nil => rfl
  | cons f done ih =>
    rw [List.map_cons, List.mem_cons, not_or] at h
    rw [setField, if_neg (Ne.symm h.1), ih h.2, List.cons_append]

section Fields

variable {key : Text} {v : Json} {done : Fields} {fuel : Nat}

theorem field_append (key t rest : Text) :
    printString key ++ ": ".toList ++ t ++ rest =
      '\x22' :: (key.flatMap escapedChar ++ '\x22' :: ':' :: ' ' :: (t ++ rest)) := by
  simp [printString]

theorem skipBlanks_printAt (indent : Option Nat) (depth : Nat) (v : Json) (rest : Text) :
    skipBlanks (' ' :: (printAt indent depth v ++ rest)) = printAt indent depth v ++ rest := by
  obtain ⟨c, t, shape, lead⟩ := exists_printAt indent depth v
  have space : Gap [' '] := by simp [Gap, isBlank]
  rw [shape]
  exact (skipBlanks_gap space).trans (skipBlanks_cons lead.1)

/-- A field before the closing brace is the last one. -/
theorem readFields_last (value : ReadsBack indent v) (hg : Gap gap)
    (enough : 2 * (printAt indent depth v).length ≤ fuel) :
    readFields (fuel + 1) done (printString key ++ ": ".toList ++ printAt indent depth v ++
      (gap ++ '\x7d' :: rest)) = some (setField key v done, rest) := by
  have colon : isBlank ':' = false := by decide
  have brace : isBlank '\x7d' = false := by decide
  rw [field_append]
  simp only [readFields, readString_escaped, skipBlanks_cons colon, skipBlanks_printAt]
  rw [value depth fuel _ enough (endsNumber_gap hg (by simp))]
  simp only [skipBlanks_gap hg, skipBlanks_cons brace]

/-- After a field and a comma, reading goes on with the next field. -/
theorem readFields_comma (value : ReadsBack indent v)
    (enough : 2 * (printAt indent depth v).length ≤ fuel) :
    readFields (fuel + 1) done (printString key ++ ": ".toList ++ printAt indent depth v ++
      ',' :: rest) = readFields fuel (setField key v done) (skipBlanks rest) := by
  have colon : isBlank ':' = false := by decide
  have comma : isBlank ',' = false := by decide
  rw [field_append]
  simp only [readFields, readString_escaped, skipBlanks_cons colon, skipBlanks_printAt]
  rw [value depth fuel _ enough (endsNumber_cons (by simp))]
  simp only [skipBlanks_cons comma]

end Fields

/-- The fields of an object read back on top of those already read, up to its closing brace. -/
theorem readFields_join {fields : Fields} (nested : ∀ f ∈ fields, ReadsBack indent f.2)
    (nonempty : fields ≠ []) (hg : Gap gap) (fuel : Nat) (done : Fields)
    (keys : ((done ++ fields).map Prod.fst).Nodup)
    (enough : 2 * (Text.join (separator indent depth) (printFields indent depth fields)).length <
      fuel) :
    readFields fuel done (Text.join (separator indent depth) (printFields indent depth fields) ++
      (gap ++ '\x7d' :: rest)) = some (done ++ fields, rest) := by
  induction fields generalizing fuel done with
  | nil => contradiction
  | cons f fields ih =>
    obtain ⟨key, v⟩ := f
    obtain ⟨fuel, rfl⟩ : ∃ n, fuel = n + 1 := ⟨fuel - 1, by omega⟩
    have value : ReadsBack indent v := nested (key, v) List.mem_cons_self
    have fresh : key ∉ done.map Prod.fst := by
      intro old
      rw [List.map_append, List.nodup_append] at keys
      exact keys.2.2 key old key List.mem_cons_self rfl
    cases fields with
    | nil =>
      simp only [printFields, Text.join_singleton, List.length_append] at enough ⊢
      rw [readFields_last value hg (by omega), setField_append fresh]
    | cons g fields =>
      obtain ⟨inner, comma, blanks⟩ := exists_separator indent depth
      obtain ⟨u, _, shape⟩ := exists_printFields indent depth g fields
      have others := ih (fun f hf => nested f (List.mem_cons_of_mem _ hf))
        (List.cons_ne_nil _ _) fuel (done ++ [(key, v)]) (by simpa using keys)
      have next : printFields indent depth (g :: fields) ≠ [] := List.cons_ne_nil _ _
      rw [printFields, Text.join_cons _ _ next, comma] at enough ⊢
      rw [comma] at others
      simp only [List.length_append, List.length_cons] at enough
      rw [List.append_assoc (printString key ++ ": ".toList ++ printAt indent depth v)]
      simp only [List.cons_append, List.append_assoc inner]
      rw [readFields_comma value (by omega), setField_append fresh,
        skipBlanks_join blanks shape (by decide), others (by omega)]
      simp

/-! ## Values -/

theorem exists_fuel {v : Json} {fuel : Nat} (enough : 2 * (printAt indent depth v).length ≤ fuel) :
    ∃ n, fuel = n + 1 := by
  obtain ⟨c, t, shape, -⟩ := exists_printAt indent depth v
  rw [shape, List.length_cons] at enough
  exact ⟨fuel - 1, by omega⟩

theorem readsBack_scalar {v : Json} (h : ∀ depth, ScalarText (printAt indent depth v) v) :
    ReadsBack indent v := by
  intro depth fuel rest enough hr
  obtain ⟨fuel, rfl⟩ := exists_fuel enough
  exact readValue_scalar (h depth) hr fuel

theorem bracketed_nonempty (indent : Option Nat) (depth : Nat) (opening closing : Char)
    {pieces : List Text} (h : pieces ≠ []) :
    bracketed indent depth opening closing pieces =
      opening :: (lineBreak indent (depth + 1) ++
        (Text.join (separator indent (depth + 1)) pieces ++
          (lineBreak indent depth ++ [closing]))) := by
  cases pieces with
  | nil => contradiction
  | cons piece pieces => simp [bracketed]

theorem readValue_items {u : Text} {fuel : Nat} (start : skipBlanks t = u)
    (first : u.head? ≠ some ']') :
    readValue (fuel + 1) ('[' :: t) =
      (readItems fuel u).map fun (items, rest) => (arr items, rest) := by
  rw [readValue, start]
  cases u with
  | nil => rfl
  | cons c u =>
    have : c ≠ ']' := fun same => first (congrArg some same)
    simp [this]

theorem readValue_fields {u : Text} {fuel : Nat} (start : skipBlanks t = u)
    (first : u.head? ≠ some '\x7d') :
    readValue (fuel + 1) ('\x7b' :: t) =
      (readFields fuel [] u).map fun (fields, rest) => (obj fields, rest) := by
  rw [readValue, start]
  cases u with
  | nil => rfl
  | cons c u =>
    have : c ≠ '\x7d' := fun same => first (congrArg some same)
    simp [this]

theorem readsBack_arr {items : List Json} (nested : ∀ v ∈ items, ReadsBack indent v) :
    ReadsBack indent (arr items) := by
  intro depth fuel rest enough hr
  obtain ⟨fuel, rfl⟩ := exists_fuel enough
  rw [printAt] at enough ⊢
  cases items with
  | nil => rfl
  | cons v items =>
    obtain ⟨c, t, _, shape, blank, bracket⟩ := exists_printItems indent (depth + 1) v items
    rw [bracketed_nonempty indent depth _ _ (by simp [shape])] at enough ⊢
    simp only [List.length_cons, List.length_append] at enough
    simp only [List.cons_append, List.append_assoc]
    rw [readValue_items (skipBlanks_join (gap_lineBreak indent (depth + 1)) shape blank)]
    · rw [readItems_join nested (List.cons_ne_nil v items) (gap_lineBreak indent depth) fuel
        (by omega)]
      rfl
    · rw [join_append shape]
      simpa using bracket

theorem readsBack_obj {fields : Fields} (keys : (fields.map Prod.fst).Nodup)
    (nested : ∀ f ∈ fields, ReadsBack indent f.2) : ReadsBack indent (obj fields) := by
  intro depth fuel rest enough hr
  obtain ⟨fuel, rfl⟩ := exists_fuel enough
  rw [printAt] at enough ⊢
  cases fields with
  | nil => rfl
  | cons f fields =>
    obtain ⟨t, _, shape⟩ := exists_printFields indent (depth + 1) f fields
    rw [bracketed_nonempty indent depth _ _ (by simp [shape])] at enough ⊢
    simp only [List.length_cons, List.length_append] at enough
    simp only [List.cons_append, List.append_assoc]
    rw [readValue_fields (skipBlanks_join (gap_lineBreak indent (depth + 1)) shape (by decide))]
    · rw [readFields_join nested (List.cons_ne_nil f fields) (gap_lineBreak indent depth) fuel []
        keys (by omega)]
      rfl
    · rw [join_append shape]
      simp

/-- A value reads back. -/
theorem KeysDistinct.readsBack {v : Json} (h : v.KeysDistinct) (indent : Option Nat) :
    ReadsBack indent v := by
  induction h with
  | null => exact readsBack_scalar fun _ => scalarText_null
  | bool b =>
    cases b with
    | true => exact readsBack_scalar fun _ => scalarText_true
    | false => exact readsBack_scalar fun _ => scalarText_false
  | int n => exact readsBack_scalar fun _ => scalarText_ofInt n
  | double x => exact readsBack_scalar fun _ => scalarText_printDouble x
  | str t =>
    intro depth fuel rest enough hr
    obtain ⟨fuel, rfl⟩ := exists_fuel enough
    exact readValue_printString t rest fuel
  | arr _ ih => exact readsBack_arr ih
  | obj keys _ ih => exact readsBack_obj keys ih

/-- The text of a value reads as the value. -/
theorem parse?_printAt {v : Json} (h : v.KeysDistinct) (indent : Option Nat) (depth : Nat) :
    parse? (printAt indent depth v) = some v := by
  obtain ⟨c, t, shape, lead⟩ := exists_printAt indent depth v
  have start : skipBlanks (printAt indent depth v) = printAt indent depth v := by
    rw [shape]
    exact skipBlanks_cons lead.1
  have whole := h.readsBack indent depth (2 * (printAt indent depth v).length + 2) [] (by omega)
    nofun
  rw [List.append_nil] at whole
  rw [parse?, start, whole]
  rfl

/-- The text of a value reads as the value with its fields in order. -/
theorem parse?_print {v : Json} (h : v.KeysDistinct) (indent : Option Nat) :
    parse? (print indent v) = some v.sorted :=
  parse?_printAt h.sorted indent 0

end Json

end PascalTokens
