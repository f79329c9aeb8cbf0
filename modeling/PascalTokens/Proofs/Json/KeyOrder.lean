import Mathlib.Data.List.Sort
import PascalTokens.Json.Printer

/-!
# The order of keys

A value may change by the order in which its objects name their fields. Printing puts the fields
of every object in the order of their keys, so it gives one text for all values that differ in
this order alone.

## Main definitions

* `Json.KeysDistinct` says that no object names a key twice.
* `Json.Reordered` is equality up to the order of the fields of objects.

## Main statements

* `Json.reordered_sorted` sorts a value without further change.
* `Json.Reordered.print_eq` prints two values that differ by their order.
* `Json.fieldOf_sortedFields` looks a key up after sorting.
-/

namespace PascalTokens

namespace Text

/-! ## The order of texts -/

variable {a b c : Text}

theorem le_cons_iff {m n : Char} :
    le (m :: a) (n :: b) = true ↔ m.toNat < n.toNat ∨ m = n ∧ le a b = true := by
  rw [le]
  split
  case isTrue same => simp [same]
  case isFalse other => simp [other]

theorem le_total (a b : Text) : le a b = true ∨ le b a = true := by
  induction a generalizing b with
  | nil => exact .inl rfl
  | cons m a ih =>
    cases b with
    | nil => exact .inr rfl
    | cons n b =>
      rw [le_cons_iff, le_cons_iff]
      rcases Nat.lt_trichotomy m.toNat n.toNat with less | same | more
      · exact .inl (.inl less)
      · obtain rfl := Char.toNat_inj.mp same
        exact (ih b).imp (fun h => .inr ⟨rfl, h⟩) fun h => .inr ⟨rfl, h⟩
      · exact .inr (.inl more)

theorem le_trans (hab : le a b = true) (hbc : le b c = true) : le a c = true := by
  induction a generalizing b c with
  | nil => rfl
  | cons l a ih =>
    cases b with
    | nil => cases hab
    | cons m b =>
      cases c with
      | nil => cases hbc
      | cons n c =>
        rw [le_cons_iff] at hab hbc ⊢
        obtain first | ⟨rfl, rest⟩ := hab <;> obtain second | ⟨rfl, rest'⟩ := hbc
        · exact .inl (Nat.lt_trans first second)
        · exact .inl first
        · exact .inl second
        · exact .inr ⟨rfl, ih rest rest'⟩

theorem le_antisymm (hab : le a b = true) (hba : le b a = true) : a = b := by
  induction a generalizing b with
  | nil =>
    cases b with
    | nil => rfl
    | cons n b => cases hba
  | cons m a ih =>
    cases b with
    | nil => cases hab
    | cons n b =>
      rw [le_cons_iff] at hab hba
      obtain first | ⟨rfl, rest⟩ := hab <;> obtain second | ⟨same, rest'⟩ := hba
      · omega
      · exact absurd first (same ▸ Nat.lt_irrefl _)
      · exact absurd second (Nat.lt_irrefl _)
      · rw [ih rest rest']

end Text

namespace Json

/-! ## Equality up to the order of fields -/

/-- No object names a key twice. -/
inductive KeysDistinct : Json → Prop
  | null : KeysDistinct null
  | bool (b : Bool) : KeysDistinct (bool b)
  | int (n : Int) : KeysDistinct (int n)
  | double (x : Double) : KeysDistinct (double x)
  | str (t : Text) : KeysDistinct (str t)
  | arr {items : List Json} (nested : ∀ v ∈ items, KeysDistinct v) : KeysDistinct (arr items)
  | obj {fields : Fields} (keys : (fields.map Prod.fst).Nodup)
      (nested : ∀ f ∈ fields, KeysDistinct f.2) : KeysDistinct (obj fields)

mutual

/-- The same value up to the order of the fields of its objects. -/
inductive Reordered : Json → Json → Prop
  | same (v : Json) : Reordered v v
  | arr {items others : List Json} (nested : ItemsReordered items others) :
      Reordered (arr items) (arr others)
  | obj {fields others moved : Fields} (nested : FieldsReordered fields others)
      (order : others.Perm moved) : Reordered (obj fields) (obj moved)

/-- The same items, each up to the order of fields. -/
inductive ItemsReordered : List Json → List Json → Prop
  | nil : ItemsReordered [] []
  | cons {v w : Json} {items others : List Json} (head : Reordered v w)
      (tail : ItemsReordered items others) : ItemsReordered (v :: items) (w :: others)

/-- The same fields in the same places, each value up to the order of fields. -/
inductive FieldsReordered : Fields → Fields → Prop
  | nil : FieldsReordered [] []
  | cons {key : Text} {v w : Json} {fields others : Fields} (head : Reordered v w)
      (tail : FieldsReordered fields others) :
      FieldsReordered ((key, v) :: fields) ((key, w) :: others)

end

/-! ## Sorting -/

/-- The order in which fields are printed. -/
def KeyLe (f g : Text × Json) : Prop := Text.le f.1 g.1 = true

instance : DecidableRel KeyLe := fun f g => inferInstanceAs (Decidable (Text.le f.1 g.1 = true))

instance : Std.Total KeyLe := ⟨fun f g => Text.le_total f.1 g.1⟩

instance : IsTrans (Text × Json) KeyLe := ⟨fun _ _ _ => Text.le_trans⟩

def withSorted (fields : Fields) : Fields := fields.map fun f => (f.1, sorted f.2)

theorem sorted_str (t : Text) : (str t).sorted = str t := rfl

theorem insertField_eq (key : Text) (v : Json) (fields : Fields) :
    insertField key v fields = fields.orderedInsert KeyLe (key, v) := by
  induction fields with
  | nil => rfl
  | cons f fields ih =>
    rw [insertField, List.orderedInsert_cons, ih]
    rfl

theorem sortedItems_eq (items : List Json) : sortedItems items = items.map sorted := by
  induction items with
  | nil => rfl
  | cons v items ih => rw [sortedItems, ih, List.map_cons]

theorem sortedFields_eq (fields : Fields) :
    sortedFields fields = (withSorted fields).insertionSort KeyLe := by
  induction fields with
  | nil => rfl
  | cons f fields ih =>
    rw [sortedFields, insertField_eq, ih]
    rfl

variable {v w : Json} {items others : List Json} {fields moved : Fields}

theorem keys_withSorted (fields : Fields) :
    (withSorted fields).map Prod.fst = fields.map Prod.fst := by
  simp [withSorted]

/-- Fields with distinct keys have one sorted order. -/
theorem insertionSort_eq_of_perm (keys : (fields.map Prod.fst).Nodup)
    (order : fields.Perm moved) :
    fields.insertionSort KeyLe = moved.insertionSort KeyLe := by
  refine List.Perm.eq_of_pairwise ?_ (List.pairwise_insertionSort KeyLe fields)
    (List.pairwise_insertionSort KeyLe moved)
    ((List.perm_insertionSort KeyLe fields).trans
      (order.trans (List.perm_insertionSort KeyLe moved).symm))
  intro f g hf hg le ge
  rw [List.mem_insertionSort] at hf hg
  exact List.inj_on_of_nodup_map keys hf (order.mem_iff.mpr hg) (Text.le_antisymm le ge)

theorem KeysDistinct.sorted (h : v.KeysDistinct) : v.sorted.KeysDistinct := by
  induction h with
  | null => exact .null
  | bool b => exact .bool b
  | int n => exact .int n
  | double x => exact .double x
  | str t => exact .str t
  | arr _ ih =>
    rw [Json.sorted, sortedItems_eq]
    refine .arr fun w hw => ?_
    obtain ⟨v, hv, rfl⟩ := List.mem_map.mp hw
    exact ih v hv
  | @obj fields keys _ ih =>
    rw [Json.sorted, sortedFields_eq]
    refine .obj ?_ fun g hg => ?_
    · have order := (List.perm_insertionSort KeyLe (withSorted fields)).map Prod.fst
      rw [keys_withSorted] at order
      exact order.nodup_iff.mpr keys
    · rw [List.mem_insertionSort] at hg
      obtain ⟨f, hf, rfl⟩ := List.mem_map.mp hg
      exact ih f hf

mutual

/-- Sorting changes the order of fields and nothing else. -/
theorem reordered_sorted : ∀ v : Json, Reordered v v.sorted
  | .null => .same _
  | .bool _ => .same _
  | .int _ => .same _
  | .double _ => .same _
  | .str _ => .same _
  | .arr items => .arr (itemsReordered_sorted items)
  | .obj fields => by
    rw [sorted, sortedFields_eq]
    exact .obj (fieldsReordered_sorted fields) (List.perm_insertionSort KeyLe _).symm

theorem itemsReordered_sorted : ∀ items : List Json, ItemsReordered items (sortedItems items)
  | [] => .nil
  | v :: items => .cons (reordered_sorted v) (itemsReordered_sorted items)

theorem fieldsReordered_sorted : ∀ fields : Fields, FieldsReordered fields (withSorted fields)
  | [] => .nil
  | (_, v) :: fields => .cons (reordered_sorted v) (fieldsReordered_sorted fields)

end

/-! ## Looking up -/

theorem mem_of_fieldOf {key : Text} (h : fieldOf key fields = some v) : (key, v) ∈ fields := by
  induction fields with
  | nil => cases h
  | cons f fields ih =>
    obtain ⟨k, w⟩ := f
    rw [fieldOf] at h
    split at h
    case isTrue same =>
      cases h
      rw [same]
      exact List.mem_cons_self
    case isFalse => exact List.mem_cons_of_mem _ (ih h)

theorem fieldOf_eq_some_iff {key : Text} (keys : (fields.map Prod.fst).Nodup) :
    fieldOf key fields = some v ↔ (key, v) ∈ fields := by
  refine ⟨mem_of_fieldOf, fun mem => ?_⟩
  induction fields with
  | nil => cases mem
  | cons f fields ih =>
    obtain ⟨k, w⟩ := f
    rw [List.map_cons, List.nodup_cons] at keys
    rw [fieldOf]
    obtain same | mem := List.mem_cons.mp mem
    · cases same
      exact if_pos rfl
    · have other : k ≠ key := by
        rintro rfl
        exact keys.1 (List.mem_map.mpr ⟨_, mem, rfl⟩)
      rw [if_neg other, ih keys.2 mem]

/-- Sorted fields are looked up as the fields are. -/
theorem fieldOf_sortedFields (key : Text) (keys : (fields.map Prod.fst).Nodup) :
    fieldOf key (sortedFields fields) = (fieldOf key fields).map sorted := by
  have order := List.perm_insertionSort KeyLe (withSorted fields)
  have distinct : ((sortedFields fields).map Prod.fst).Nodup := by
    rw [sortedFields_eq, (order.map Prod.fst).nodup_iff, keys_withSorted]
    exact keys
  refine Option.ext fun w => ?_
  rw [fieldOf_eq_some_iff distinct, sortedFields_eq, order.mem_iff, Option.map_eq_some_iff]
  simp only [fieldOf_eq_some_iff keys, withSorted, List.mem_map, Prod.mk.injEq, Prod.exists]
  constructor
  · rintro ⟨_, v, mem, rfl, rfl⟩
    exact ⟨v, mem, rfl⟩
  · rintro ⟨v, mem, rfl⟩
    exact ⟨key, v, mem, rfl, rfl⟩

theorem fieldOf_sortedFields_of_eq_some {key : Text} (keys : (fields.map Prod.fst).Nodup)
    (h : fieldOf key fields = some v) : fieldOf key (sortedFields fields) = some v.sorted := by
  rw [fieldOf_sortedFields key keys, h]
  rfl

/-! ## Printing -/

mutual

theorem Reordered.sorted_eq {v w : Json} : Reordered v w → v.KeysDistinct → v.sorted = w.sorted
  | .same _, _ => rfl
  | .arr nested, .arr distinct => by rw [sorted, sorted, nested.sorted_eq distinct]
  | .obj nested order, .obj keys distinct => by
    rw [sorted, sorted, sortedFields_eq, sortedFields_eq, nested.withSorted_eq distinct]
    rw [← keys_withSorted, nested.withSorted_eq distinct] at keys
    exact congrArg obj (insertionSort_eq_of_perm keys (order.map _))

theorem ItemsReordered.sorted_eq {items others : List Json} :
    ItemsReordered items others → (∀ v ∈ items, v.KeysDistinct) →
      sortedItems items = sortedItems others
  | .nil, _ => rfl
  | .cons head tail, distinct => by
    rw [sortedItems, sortedItems, head.sorted_eq (distinct _ List.mem_cons_self),
      tail.sorted_eq fun v hv => distinct v (List.mem_cons_of_mem _ hv)]

theorem FieldsReordered.withSorted_eq {fields others : Fields} :
    FieldsReordered fields others → (∀ f ∈ fields, f.2.KeysDistinct) →
      withSorted fields = withSorted others
  | .nil, _ => rfl
  | .cons head tail, distinct => by
    have value := head.sorted_eq (distinct _ List.mem_cons_self)
    have others := tail.withSorted_eq fun f hf => distinct f (List.mem_cons_of_mem _ hf)
    exact congrArg₂ (fun v fields => (_, v) :: fields) value others

end

/-- Printing does not depend on the order of fields. -/
theorem Reordered.print_eq (h : Reordered v w) (distinct : v.KeysDistinct)
    (indent : Option Nat) : print indent v = print indent w := by
  rw [print, print, h.sorted_eq distinct]

end Json

end PascalTokens
