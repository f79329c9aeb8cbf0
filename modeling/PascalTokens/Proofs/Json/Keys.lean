import PascalTokens.Json.Reader
import PascalTokens.Proofs.Json.KeyOrder

/-!
# Keys of values read from text

An object names each of its keys once: where a text gives a key again, the later value takes the
place of the earlier one. So every value that was read has distinct keys.

## Main statements

* `Json.keysDistinct_of_parse?` says this of the value of a whole text.
-/

namespace PascalTokens

namespace Json

variable {v : Json} {t rest : Text} {key : Text} {done : Fields}

theorem keys_setField (key : Text) (v : Json) (done : Fields) :
    (setField key v done).map Prod.fst =
      if key ∈ done.map Prod.fst then done.map Prod.fst else done.map Prod.fst ++ [key] := by
  induction done with
  | nil => rfl
  | cons f done ih =>
    rw [setField]
    split
    case isTrue same => simp [same]
    case isFalse other =>
      rw [List.map_cons, ih]
      have : key ≠ f.1 := Ne.symm other
      split <;> simp_all

theorem mem_setField {f : Text × Json} (h : f ∈ setField key v done) : f.2 = v ∨ f ∈ done := by
  induction done with
  | nil => exact .inl (by rw [List.mem_singleton.mp h])
  | cons g done ih =>
    rw [setField] at h
    split at h
    · obtain rfl | old := List.mem_cons.mp h
      · exact .inl rfl
      · exact .inr (List.mem_cons_of_mem _ old)
    · obtain rfl | later := List.mem_cons.mp h
      · exact .inr List.mem_cons_self
      · exact (ih later).imp_right (List.mem_cons_of_mem _)

theorem keysDistinct_setField (h : (obj done).KeysDistinct) (hv : v.KeysDistinct) (key : Text) :
    (obj (setField key v done)).KeysDistinct := by
  cases h with
  | obj keys nested =>
    refine .obj ?_ fun f hf => ?_
    · rw [keys_setField]
      split
      case isTrue => exact keys
      case isFalse fresh =>
        refine List.nodup_append.mpr ⟨keys, List.nodup_singleton key, fun k old l new => ?_⟩
        rw [List.mem_singleton.mp new]
        rintro rfl
        exact fresh old
    · obtain new | old := mem_setField hf
      · rw [new]
        exact hv
      · exact nested f old

theorem keysDistinct_readMagnitude {negative : Bool}
    (h : readMagnitude negative t = some (v, rest)) : v.KeysDistinct := by
  rw [readMagnitude] at h
  split at h
  · cases h
  · simp only at h
    split at h <;> cases h
    · exact .int _
    · exact .double _

theorem keysDistinct_readScalar (h : readScalar t = some (v, rest)) : v.KeysDistinct := by
  rw [readScalar] at h
  split at h
  case h_1 result word =>
    cases h
    obtain ⟨⟨w, u⟩, listed, found⟩ := List.exists_of_findSome?_eq_some word
    have scalars : ∀ literal ∈ literals, literal.2.KeysDistinct := by
      simp only [literals, List.forall_mem_cons]
      exact ⟨.null, .bool _, .bool _, .double _, .double _, .double _, nofun⟩
    simp only at found
    split at found <;> cases found
    exact scalars _ listed
  case h_2 =>
    rw [readNumber.eq_def] at h
    split at h <;> exact keysDistinct_readMagnitude h

/-- Values, items and fields that reading gives have distinct keys. -/
theorem keysDistinct_read (fuel : Nat) :
    (∀ t v rest, readValue fuel t = some (v, rest) → v.KeysDistinct) ∧
    (∀ t items rest, readItems fuel t = some (items, rest) → ∀ v ∈ items, v.KeysDistinct) ∧
    (∀ done t fields rest, readFields fuel done t = some (fields, rest) →
      (obj done).KeysDistinct → (obj fields).KeysDistinct) := by
  induction fuel with
  | zero => exact ⟨nofun, nofun, nofun⟩
  | succ fuel ih =>
    obtain ⟨value, list, object⟩ := ih
    refine ⟨fun t v rest h => ?_, fun t items rest h => ?_, fun done t fields rest h ok => ?_⟩
    · rw [readValue.eq_def] at h
      simp only at h
      split at h
      · simp only [Option.map_eq_some_iff] at h
        obtain ⟨_, _, same⟩ := h
        cases same
        exact .str _
      · split at h
        · cases h
          exact .arr nofun
        · simp only [Option.map_eq_some_iff] at h
          obtain ⟨⟨items, rest⟩, read, same⟩ := h
          cases same
          exact .arr (list _ _ _ read)
      · split at h
        · cases h
          exact .obj .nil nofun
        · simp only [Option.map_eq_some_iff] at h
          obtain ⟨⟨fields, rest⟩, read, same⟩ := h
          cases same
          exact object _ _ _ _ read (.obj .nil nofun)
      · exact keysDistinct_readScalar h
    · rw [readItems] at h
      split at h
      case h_1 => cases h
      case h_2 v rest first =>
        have head := value _ _ _ first
        split at h
        · cases h
          simpa using head
        · simp only [Option.map_eq_some_iff] at h
          obtain ⟨⟨others, rest⟩, read, same⟩ := h
          cases same
          exact List.forall_mem_cons.mpr ⟨head, list _ _ _ read⟩
        · cases h
    · rw [readFields.eq_def] at h
      simp only at h
      split at h
      case h_2 => cases h
      case h_1 =>
        split at h
        case h_1 => cases h
        case h_2 key rest _ =>
          split at h
          case h_2 => cases h
          case h_1 =>
            split at h
            case h_1 => cases h
            case h_2 v rest first =>
              have grown := keysDistinct_setField ok (value _ _ _ first) key
              split at h
              · cases h
                exact grown
              · exact object _ _ _ _ h grown
              · cases h

/-- What is read from a text has distinct keys. -/
theorem keysDistinct_of_parse? (h : parse? t = some v) : v.KeysDistinct := by
  rw [parse?] at h
  split at h
  case h_1 w rest read =>
    split at h
    · cases h
      exact (keysDistinct_read _).1 _ _ _ read
    · cases h
  case h_2 => cases h

end Json

end PascalTokens
