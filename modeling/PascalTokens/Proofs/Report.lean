import PascalTokens.Proofs.Except
import PascalTokens.Proofs.Json.Keys
import PascalTokens.Proofs.Json.Reading
import PascalTokens.Report

/-!
# Reports read back

The text of a report reads as the report, whatever values it holds and with whatever indent it is
printed. What may change is the order in which objects name their fields, and no text of the
report shows that order.

## Main definitions

* `Report.KeysDistinct` says that no object in the report names a key twice.
* `Report.Reordered` is equality up to the order of the fields of objects.

## Main statements

* `Report.parse_print` reads a printed report and prints it again.
* `Report.keysDistinct_of_parse`: the keys of a report that was read are distinct.
-/

namespace PascalTokens

open Json (fieldOf_sortedFields_of_eq_some)

namespace Entry

/-- The same entry with the fields of its values in order. -/
def sorted (e : Entry) : Entry := ⟨e.lexeme.sorted, e.tokenClass, e.line.sorted⟩

def KeysDistinct (e : Entry) : Prop := e.lexeme.KeysDistinct ∧ e.line.KeysDistinct

/-- The same entry up to the order of fields. -/
structure Reordered (a b : Entry) : Prop where
  lexeme : a.lexeme.Reordered b.lexeme
  tokenClass : a.tokenClass = b.tokenClass
  line : a.line.Reordered b.line

theorem reordered_sorted (e : Entry) : e.Reordered e.sorted :=
  ⟨e.lexeme.reordered_sorted, rfl, e.line.reordered_sorted⟩

theorem nodup_keys :
    ["lexeme".toList, "token_class".toList, "label".toList, "line".toList].Nodup := by
  decide

theorem keysDistinct_toJson {e : Entry} (h : e.KeysDistinct) : e.toJson.KeysDistinct := by
  refine .obj nodup_keys ?_
  simp only [List.forall_mem_cons]
  exact ⟨h.1, .str _, .str _, h.2, nofun⟩

theorem Reordered.toJson {a b : Entry} (h : a.Reordered b) : a.toJson.Reordered b.toJson := by
  rw [Entry.toJson, Entry.toJson, ← h.tokenClass]
  exact .obj (.cons h.lexeme (.cons (.same _) (.cons (.same _) (.cons h.line .nil)))) (.refl _)

theorem classOf_name (c : TokenClass) : classOf (.str c.name) = .ok c := by
  rw [classOf, TokenClass.ofName?_name]

/-- Reading takes the values of an entry out of its sorted form. -/
theorem ofJson_sorted (e : Entry) : ofJson e.toJson.sorted = .ok e.sorted := by
  obtain ⟨fields, form⟩ : ∃ fields, e.toJson = .obj fields := ⟨_, rfl⟩
  have keys : (fields.map Prod.fst).Nodup := by cases form; exact nodup_keys
  have tokenClass : Json.fieldOf "token_class".toList fields = some (.str e.tokenClass.name) := by
    cases form; rfl
  have lexeme : Json.fieldOf "lexeme".toList fields = some e.lexeme := by cases form; rfl
  have line : Json.fieldOf "line".toList fields = some e.line := by cases form; rfl
  rw [form, Json.sorted, ofJson, require, require,
    fieldOf_sortedFields_of_eq_some keys tokenClass, fieldOf_sortedFields_of_eq_some keys lexeme,
    fieldOf_sortedFields_of_eq_some keys line, Option.getD_some, Json.sorted_str,
    classOf_name]
  rfl

end Entry

namespace Report

def sorted : Report → Report
  | tokens entries elapsed => tokens (entries.map Entry.sorted) elapsed.sorted
  | failure message elapsed line => failure message.sorted elapsed.sorted line.sorted

/-- No object in the report names a key twice. -/
def KeysDistinct : Report → Prop
  | tokens entries elapsed => (∀ e ∈ entries, e.KeysDistinct) ∧ elapsed.KeysDistinct
  | failure message elapsed line =>
    message.KeysDistinct ∧ elapsed.KeysDistinct ∧ line.KeysDistinct

/-- The same report up to the order of the fields of objects. -/
inductive Reordered : Report → Report → Prop
  | tokens {entries others : List Entry} {elapsed other : Json}
      (nested : List.Forall₂ Entry.Reordered entries others) (time : elapsed.Reordered other) :
      Reordered (tokens entries elapsed) (tokens others other)
  | failure {message elapsed line message' elapsed' line' : Json}
      (text : message.Reordered message') (time : elapsed.Reordered elapsed')
      (place : line.Reordered line') :
      Reordered (failure message elapsed line) (failure message' elapsed' line')

theorem analysis_keys : ["_type".toList, "tokens".toList, "elapsed_ms".toList].Nodup := by
  decide

theorem failure_keys :
    ["_type".toList, "message".toList, "lineno".toList, "elapsed_ms".toList].Nodup := by
  decide

theorem reordered_sorted (r : Report) : r.Reordered r.sorted := by
  cases r with
  | tokens entries elapsed =>
    refine .tokens ?_ elapsed.reordered_sorted
    rw [List.forall₂_map_right_iff, List.forall₂_same]
    exact fun e _ => e.reordered_sorted
  | failure message elapsed line =>
    exact .failure message.reordered_sorted elapsed.reordered_sorted line.reordered_sorted

theorem keysDistinct_toJson {r : Report} (h : r.KeysDistinct) : r.toJson.KeysDistinct := by
  cases r with
  | tokens entries elapsed =>
    refine .obj analysis_keys ?_
    simp only [List.forall_mem_cons]
    refine ⟨.str _, .arr fun v hv => ?_, h.2, nofun⟩
    obtain ⟨e, he, rfl⟩ := List.mem_map.mp hv
    exact Entry.keysDistinct_toJson (h.1 e he)
  | failure message elapsed line =>
    refine .obj failure_keys ?_
    simp only [List.forall_mem_cons]
    exact ⟨.str _, h.1, h.2.2, h.2.1, nofun⟩

theorem Reordered.toJson {r s : Report} (h : r.Reordered s) : r.toJson.Reordered s.toJson := by
  cases h with
  | tokens nested time =>
    refine .obj (.cons (.same _) (.cons (.arr ?_) (.cons time .nil))) (.refl _)
    induction nested with
    | nil => exact .nil
    | cons head tail ih => exact .cons head.toJson ih
  | failure text time place =>
    exact .obj (.cons (.same _) (.cons text (.cons place (.cons time .nil)))) (.refl _)

/-- Printing does not depend on the order of fields. -/
theorem Reordered.print_eq {r s : Report} (h : r.Reordered s) (distinct : r.KeysDistinct)
    (indent : Option Nat) : print indent r = print indent s :=
  h.toJson.print_eq (keysDistinct_toJson distinct) indent

/-! ## Reading -/

theorem entriesOf_sorted (entries : List Entry) :
    entriesOf (Json.arr (entries.map Entry.toJson)).sorted = .ok (entries.map Entry.sorted) := by
  rw [Json.sorted, entriesOf, Json.sortedItems_eq, List.map_map]
  induction entries with
  | nil => rfl
  | cons e entries ih =>
    rw [List.map_cons, List.mapM_cons, ih]
    simp only [Function.comp_apply, Entry.ofJson_sorted]
    rfl

/-- Reading takes the values of a report out of its sorted form. -/
theorem ofJson_sorted (r : Report) : ofJson r.toJson.sorted = .ok r.sorted := by
  obtain ⟨fields, form⟩ : ∃ fields, r.toJson = .obj fields := by cases r <;> exact ⟨_, rfl⟩
  cases r with
  | tokens entries elapsed =>
    have keys : (fields.map Prod.fst).Nodup := by cases form; exact analysis_keys
    have kind : Json.fieldOf "_type".toList fields = some (.str "Analysis".toList) := by
      cases form; rfl
    have listed : Json.fieldOf "tokens".toList fields =
        some (.arr (entries.map Entry.toJson)) := by cases form; rfl
    have time : Json.fieldOf "elapsed_ms".toList fields = some elapsed := by cases form; rfl
    rw [form, Json.sorted, ofJson, kindOf, elapsedOf, fieldOf_sortedFields_of_eq_some keys kind,
      fieldOf_sortedFields_of_eq_some keys listed, fieldOf_sortedFields_of_eq_some keys time,
      Option.getD_some, Option.getD_some, entriesOf_sorted]
    rfl
  | failure message elapsed line =>
    have keys : (fields.map Prod.fst).Nodup := by cases form; exact failure_keys
    have kind : Json.fieldOf "_type".toList fields = some (.str "AnalysisFailure".toList) := by
      cases form; rfl
    have text : Json.fieldOf "message".toList fields = some message := by cases form; rfl
    have place : Json.fieldOf "lineno".toList fields = some line := by cases form; rfl
    have time : Json.fieldOf "elapsed_ms".toList fields = some elapsed := by cases form; rfl
    rw [form, Json.sorted, ofJson, kindOf, Entry.require, elapsedOf,
      fieldOf_sortedFields_of_eq_some keys kind, fieldOf_sortedFields_of_eq_some keys text,
      fieldOf_sortedFields_of_eq_some keys place, fieldOf_sortedFields_of_eq_some keys time]
    rfl

/-- A printed report reads back as the report, up to the order of fields, and prints the same
again. -/
theorem parse_print (r : Report) (h : r.KeysDistinct) (indent : Option Nat) :
    ∃ restored, parse (print indent r) = .ok restored ∧ r.Reordered restored ∧
      print indent restored = print indent r := by
  have reordered := r.reordered_sorted
  refine ⟨r.sorted, ?_, reordered, (reordered.print_eq h indent).symm⟩
  rw [parse, print, Json.parse?_print (keysDistinct_toJson h)]
  exact ofJson_sorted r

/-- A failure whose message has keys out of order at two levels, text beyond ASCII and a
not-a-number. -/
def unordered : Report :=
  failure
    (.obj [("b".toList, .arr [.obj [("é".toList, .double .nan), ("d".toList, .null)]]),
      ("a".toList, .str ['\x22', '\x7F', '😀'])])
    (.double .zero) (.int 3)

theorem parse_print_unordered :
    unordered.KeysDistinct ∧ ∃ restored, parse (print (some 2) unordered) = .ok restored ∧
      unordered.Reordered restored ∧ print (some 2) restored = print (some 2) unordered := by
  have inner : (Json.obj [("é".toList, .double .nan), ("d".toList, .null)]).KeysDistinct := by
    refine .obj (by decide) ?_
    simp only [List.forall_mem_cons]
    exact ⟨.double _, .null, nofun⟩
  have message : (Json.obj [("b".toList,
      .arr [.obj [("é".toList, .double .nan), ("d".toList, .null)]]),
      ("a".toList, .str ['\x22', '\x7F', '😀'])]).KeysDistinct := by
    refine .obj (by decide) ?_
    simp only [List.forall_mem_cons]
    exact ⟨.arr (by simpa using inner), .str _, nofun⟩
  have distinct : unordered.KeysDistinct := ⟨message, .double _, .int 3⟩
  exact ⟨distinct, parse_print unordered distinct (some 2)⟩

/-! ## Reports that were read -/

variable {fields : Json.Fields} {key t : Text} {v : Json} {e : Entry} {r : Report}

theorem keysDistinct_of_fieldOf (h : (Json.obj fields).KeysDistinct)
    (found : Json.fieldOf key fields = some v) : v.KeysDistinct := by
  cases h with
  | obj _ nested => exact nested _ (Json.mem_of_fieldOf found)

/-- A field that may be missing, with its default. -/
theorem keysDistinct_getD {default : Json} (h : (Json.obj fields).KeysDistinct)
    (other : default.KeysDistinct) (key : Text) :
    ((Json.fieldOf key fields).getD default).KeysDistinct := by
  cases found : Json.fieldOf key fields with
  | none => exact other
  | some v => exact keysDistinct_of_fieldOf h found

theorem keysDistinct_of_require (h : (Json.obj fields).KeysDistinct)
    (read : Entry.require key fields = .ok v) : v.KeysDistinct := by
  rw [Entry.require] at read
  split at read
  case h_1 found => cases read; exact keysDistinct_of_fieldOf h found
  case h_2 => cases read

theorem keysDistinct_of_ofJson (h : v.KeysDistinct) (read : Entry.ofJson v = .ok e) :
    e.KeysDistinct := by
  rw [Entry.ofJson.eq_def] at read
  split at read
  case h_1 fields =>
    simp only [bind_eq_ok] at read
    obtain ⟨tokenClass, -, lexeme, first, line, second, same⟩ := read
    cases same
    exact ⟨keysDistinct_of_require h first, keysDistinct_of_require h second⟩
  case h_2 => cases read

theorem keysDistinct_of_mapM {items : List Json} {entries : List Entry}
    (h : ∀ v ∈ items, v.KeysDistinct) (read : items.mapM Entry.ofJson = .ok entries) :
    ∀ e ∈ entries, e.KeysDistinct := by
  induction items generalizing entries with
  | nil =>
    cases read
    exact fun e he => absurd he List.not_mem_nil
  | cons v items ih =>
    rw [List.forall_mem_cons] at h
    simp only [List.mapM_cons, bind_eq_ok] at read
    obtain ⟨e, first, others, later, same⟩ := read
    cases same
    exact List.forall_mem_cons.mpr ⟨keysDistinct_of_ofJson h.1 first, ih h.2 later⟩

theorem keysDistinct_of_entriesOf {entries : List Entry} (h : v.KeysDistinct)
    (read : entriesOf v = .ok entries) : ∀ e ∈ entries, e.KeysDistinct := by
  have none : ∀ e ∈ ([] : List Entry), e.KeysDistinct := fun e he => absurd he List.not_mem_nil
  rw [entriesOf.eq_def] at read
  split at read
  case h_1 items =>
    cases h with
    | arr nested => exact keysDistinct_of_mapM nested read
  case h_2 => split at read <;> cases read; exact none
  case h_3 => split at read <;> cases read; exact none
  case h_4 => cases read

/-- A report that was read names no key twice. -/
theorem keysDistinct_of_parse (h : parse t = .ok r) : r.KeysDistinct := by
  rw [parse] at h
  split at h
  case h_2 => cases h
  case h_1 v read =>
    have distinct := Json.keysDistinct_of_parse? read
    rw [ofJson.eq_def] at h
    split at h
    case h_2 => cases h
    case h_1 fields =>
      have time : (elapsedOf fields).KeysDistinct := keysDistinct_getD distinct (.double _) _
      rw [bind_eq_ok] at h
      obtain ⟨kind, -, h⟩ := h
      split at h
      case h_1 =>
        rw [bind_eq_ok] at h
        obtain ⟨entries, listed, same⟩ := h
        cases same
        have items : ((Json.fieldOf "tokens".toList fields).getD (.arr [])).KeysDistinct :=
          keysDistinct_getD distinct (.arr fun _ hv => absurd hv List.not_mem_nil) _
        exact ⟨keysDistinct_of_entriesOf items listed, time⟩
      case h_2 =>
        rw [bind_eq_ok] at h
        obtain ⟨message, text, same⟩ := h
        cases same
        exact ⟨keysDistinct_of_require distinct text, time, keysDistinct_getD distinct .null _⟩

end Report

end PascalTokens
