import PascalTokens.Proofs.Report

/-!
# Values that are no reports

Reading a value as a report takes every field as it is, except for the kind of the report, the
list of its entries and the class of each entry. A value with something wrong in several places is
refused for the first of them. The relations below say, for every value, what it is read as or what
is wrong with it first, without saying how it is read.

## Main definitions

* `Report.WellFormed` is the form that a value must have to describe a report.
* `Report.Restores` relates a value to its report, or to its first defect.

## Main statements

* `Report.ofJson_eq_iff`: reading follows `Report.Restores`.
* `Report.ofJson_classifies`: the values with this form, and no others, are read.
-/

namespace PascalTokens

/-- Arrays and objects. -/
def Json.isNested : Json → Bool
  | .arr _ => true
  | .obj _ => true
  | _ => false

namespace TokenClass

variable {t : Text} {c : TokenClass}

theorem ofName?_eq_some : ofName? t = some c ↔ t = c.name := by
  constructor
  · intro h
    simpa [eq_comm] using List.find?_some h
  · rintro rfl
    exact ofName?_name c

theorem ofName?_eq_none : ofName? t = none ↔ ∀ c : TokenClass, t ≠ c.name := by
  rw [Option.eq_none_iff_forall_ne_some]
  exact forall_congr' fun c => not_congr ofName?_eq_some

end TokenClass

/-! ## Entries -/

namespace Entry

/-- The class that the field of an entry names, or why it names none. -/
inductive NamesClass : Option Json → Except RestoreFault TokenClass → Prop
  | named (c : TokenClass) : NamesClass (some (.str c.name)) (.ok c)
  | nested {v : Json} (h : v.isNested) : NamesClass (some v) (.error .classNotScalar)
  | missing : NamesClass none (.error (.unknownClass .null))
  | unknown {v : Json} (scalar : ¬ v.isNested) (other : ∀ c : TokenClass, v ≠ .str c.name) :
      NamesClass (some v) (.error (.unknownClass v))

/-- The entry that a value describes, or the first defect of the value. -/
inductive Reads : Json → Except RestoreFault Entry → Prop
  | entry {fields : Json.Fields} {c : TokenClass} {lexeme line : Json}
      (named : NamesClass (Json.fieldOf "token_class".toList fields) (.ok c))
      (first : Json.fieldOf "lexeme".toList fields = some lexeme)
      (second : Json.fieldOf "line".toList fields = some line) :
      Reads (.obj fields) (.ok ⟨lexeme, c, line⟩)
  | notAnObject {v : Json} (h : ∀ fields, v ≠ .obj fields) : Reads v (.error .notAnObject)
  | tokenClass {fields : Json.Fields} {fault : RestoreFault}
      (h : NamesClass (Json.fieldOf "token_class".toList fields) (.error fault)) :
      Reads (.obj fields) (.error fault)
  | lexeme {fields : Json.Fields} {c : TokenClass}
      (named : NamesClass (Json.fieldOf "token_class".toList fields) (.ok c))
      (h : Json.fieldOf "lexeme".toList fields = none) :
      Reads (.obj fields) (.error (.missingKey "lexeme".toList))
  | line {fields : Json.Fields} {c : TokenClass} {lexeme : Json}
      (named : NamesClass (Json.fieldOf "token_class".toList fields) (.ok c))
      (first : Json.fieldOf "lexeme".toList fields = some lexeme)
      (h : Json.fieldOf "line".toList fields = none) :
      Reads (.obj fields) (.error (.missingKey "line".toList))

/-- The form of the values that describe an entry. -/
inductive WellFormed : Json → Prop
  | intro {fields : Json.Fields} (c : TokenClass)
      (named : Json.fieldOf "token_class".toList fields = some (.str c.name))
      (lexeme : (Json.fieldOf "lexeme".toList fields).isSome)
      (line : (Json.fieldOf "line".toList fields).isSome) :
      WellFormed (.obj fields)

theorem classOf_eq_iff {field : Option Json} {x : Except RestoreFault TokenClass} :
    classOf (field.getD .null) = x ↔ NamesClass field x := by
  constructor
  · rintro rfl
    cases field with
    | none => exact .missing
    | some v =>
      rw [Option.getD_some]
      cases v with
      | str t =>
        rw [classOf]
        split
        case h_1 c found =>
          rw [TokenClass.ofName?_eq_some.mp found]
          exact .named c
        case h_2 found =>
          refine .unknown (by simp [Json.isNested]) fun c same => ?_
          exact TokenClass.ofName?_eq_none.mp found c (Json.str.inj same)
      | arr items => exact .nested rfl
      | obj fields => exact .nested rfl
      | _ => exact .unknown (by simp [Json.isNested]) (by simp)
  · intro h
    cases h with
    | named c => exact classOf_name c
    | @nested v h =>
      cases v with
      | arr items => rfl
      | obj fields => rfl
      | _ => cases h
    | missing => rfl
    | @unknown v scalar other =>
      cases v with
      | str t =>
        have unnamed : TokenClass.ofName? t = none :=
          TokenClass.ofName?_eq_none.mpr fun c same => other c (congrArg Json.str same)
        rw [Option.getD_some, classOf, unnamed]
      | arr items => exact absurd rfl scalar
      | obj fields => exact absurd rfl scalar
      | _ => rfl

/-- Reading an entry gives the entry, or the first defect. -/
theorem ofJson_eq_iff {v : Json} {x : Except RestoreFault Entry} : ofJson v = x ↔ Reads v x := by
  constructor
  · rintro rfl
    cases v with
    | obj fields =>
      rw [ofJson]
      cases named : classOf ((Json.fieldOf "token_class".toList fields).getD .null) with
      | error fault => exact .tokenClass (classOf_eq_iff.mp named)
      | ok c =>
        rw [classOf_eq_iff] at named
        rw [require, require]
        cases first : Json.fieldOf "lexeme".toList fields with
        | none => exact .lexeme named first
        | some lexeme =>
          cases second : Json.fieldOf "line".toList fields with
          | none => exact .line named first second
          | some line => exact .entry named first second
    | _ => exact .notAnObject (by simp)
  · intro h
    cases h with
    | entry named first second =>
      rw [ofJson, classOf_eq_iff.mpr named, require, require, first, second]
      rfl
    | notAnObject h =>
      cases v with
      | obj fields => exact absurd rfl (h fields)
      | _ => rfl
    | tokenClass h =>
      rw [ofJson, classOf_eq_iff.mpr h]
      rfl
    | lexeme named h =>
      rw [ofJson, classOf_eq_iff.mpr named, require, h]
      rfl
    | line named first h =>
      rw [ofJson, classOf_eq_iff.mpr named, require, require, first, h]
      rfl

theorem exists_reads_ok_iff {v : Json} : (∃ e, Reads v (.ok e)) ↔ WellFormed v := by
  constructor
  · rintro ⟨e, h⟩
    cases h with
    | @entry fields c lexeme line named first second =>
      generalize found : Json.fieldOf "token_class".toList fields = field at named
      cases named
      exact ⟨c, found, by rw [first]; rfl, by rw [second]; rfl⟩
  · rintro ⟨c, named, lexeme, line⟩
    obtain ⟨lexeme, first⟩ := Option.isSome_iff_exists.mp lexeme
    obtain ⟨line, second⟩ := Option.isSome_iff_exists.mp line
    refine ⟨_, .entry (c := c) ?_ first second⟩
    rw [named]
    exact .named c

end Entry

/-! ## Reports -/

theorem exists_forall₂_iff {α β : Type} {R : α → β → Prop} {xs : List α} :
    (∃ ys, List.Forall₂ R xs ys) ↔ ∀ x ∈ xs, ∃ y, R x y := by
  induction xs with
  | nil => simp
  | cons x xs ih =>
    simp only [List.forall₂_cons_left_iff, List.forall_mem_cons, ← ih]
    constructor
    · rintro ⟨ys, y, ys, first, later, rfl⟩
      exact ⟨⟨y, first⟩, ys, later⟩
    · rintro ⟨⟨y, first⟩, ys, later⟩
      exact ⟨y :: ys, y, ys, first, later, rfl⟩

namespace Report

/-- The entries that the field of a report lists, or what is wrong with them first. -/
inductive Lists : Option Json → Except RestoreFault (List Entry) → Prop
  | missing : Lists none (.ok [])
  | emptyText : Lists (some (.str [])) (.ok [])
  | emptyObject : Lists (some (.obj [])) (.ok [])
  | array {items : List Json} {entries : List Entry}
      (each : List.Forall₂ (fun v e => Entry.Reads v (.ok e)) items entries) :
      Lists (some (.arr items)) (.ok entries)
  | text {t : Text} (h : t ≠ []) : Lists (some (.str t)) (.error .notAnObject)
  | object {fields : Json.Fields} (h : fields ≠ []) :
      Lists (some (.obj fields)) (.error .notAnObject)
  | scalar {v : Json} (h : ¬ v.isNested) (other : ∀ t, v ≠ .str t) :
      Lists (some v) (.error .notIterable)
  | element {before after : List Json} {v : Json} {fault : RestoreFault}
      (fine : ∀ u ∈ before, Entry.WellFormed u) (first : Entry.Reads v (.error fault)) :
      Lists (some (.arr (before ++ v :: after))) (.error fault)

/-- The kind that the field of a report names, or why it names none. -/
inductive NamesKind : Option Json → Except RestoreFault Kind → Prop
  | analysis : NamesKind (some (.str "Analysis".toList)) (.ok .analysis)
  | failure : NamesKind (some (.str "AnalysisFailure".toList)) (.ok .failure)
  | missing : NamesKind none (.error .missingType)
  | null : NamesKind (some .null) (.error .missingType)
  | unknown {v : Json} (null : v ≠ .null) (first : v ≠ .str "Analysis".toList)
      (second : v ≠ .str "AnalysisFailure".toList) : NamesKind (some v) (.error (.unknownType v))

/-- The report that a value describes, or the first defect of the value. -/
inductive Restores : Json → Except RestoreFault Report → Prop
  | notAnObject {v : Json} (h : ∀ fields, v ≠ .obj fields) : Restores v (.error .notAnObject)
  | kind {fields : Json.Fields} {fault : RestoreFault}
      (h : NamesKind (Json.fieldOf "_type".toList fields) (.error fault)) :
      Restores (.obj fields) (.error fault)
  | failure {fields : Json.Fields} {message : Json}
      (kind : NamesKind (Json.fieldOf "_type".toList fields) (.ok .failure))
      (text : Json.fieldOf "message".toList fields = some message) :
      Restores (.obj fields) (.ok (failure message
        ((Json.fieldOf "elapsed_ms".toList fields).getD (.double .zero))
        ((Json.fieldOf "lineno".toList fields).getD .null)))
  | message {fields : Json.Fields}
      (kind : NamesKind (Json.fieldOf "_type".toList fields) (.ok .failure))
      (h : Json.fieldOf "message".toList fields = none) :
      Restores (.obj fields) (.error (.missingKey "message".toList))
  | tokens {fields : Json.Fields} {entries : List Entry}
      (kind : NamesKind (Json.fieldOf "_type".toList fields) (.ok .analysis))
      (listed : Lists (Json.fieldOf "tokens".toList fields) (.ok entries)) :
      Restores (.obj fields) (.ok (tokens entries
        ((Json.fieldOf "elapsed_ms".toList fields).getD (.double .zero))))
  | entries {fields : Json.Fields} {fault : RestoreFault}
      (kind : NamesKind (Json.fieldOf "_type".toList fields) (.ok .analysis))
      (listed : Lists (Json.fieldOf "tokens".toList fields) (.error fault)) :
      Restores (.obj fields) (.error fault)

/-- The fields that may list the entries of a report. -/
inductive Listing : Option Json → Prop
  | missing : Listing none
  | emptyText : Listing (some (.str []))
  | emptyObject : Listing (some (.obj []))
  | array {items : List Json} (each : ∀ v ∈ items, Entry.WellFormed v) :
      Listing (some (.arr items))

/-- The form of the values that describe a report. -/
inductive WellFormed : Json → Prop
  | failure {fields : Json.Fields}
      (kind : Json.fieldOf "_type".toList fields = some (.str "AnalysisFailure".toList))
      (message : (Json.fieldOf "message".toList fields).isSome) : WellFormed (.obj fields)
  | tokens {fields : Json.Fields}
      (kind : Json.fieldOf "_type".toList fields = some (.str "Analysis".toList))
      (listed : Listing (Json.fieldOf "tokens".toList fields)) : WellFormed (.obj fields)

theorem kindOf_eq_iff {fields : Json.Fields} {x : Except RestoreFault Kind} :
    kindOf fields = x ↔ NamesKind (Json.fieldOf "_type".toList fields) x := by
  rw [kindOf.eq_def]
  generalize Json.fieldOf "_type".toList fields = field
  constructor
  · rintro rfl
    split
    case h_1 => exact .missing
    case h_2 => exact .null
    case h_3 t =>
      split
      case isTrue same => rw [same]; exact .analysis
      case isFalse first =>
        split
        case isTrue same => rw [same]; exact .failure
        case isFalse second =>
          refine .unknown (by simp) ?_ ?_
          · exact fun same => first (Json.str.inj same)
          · exact fun same => second (Json.str.inj same)
    case h_4 v null text => exact .unknown null (text _) (text _)
  · intro h
    cases h with
    | @unknown v null first second =>
      cases v with
      | null => exact absurd rfl null
      | str t =>
        have first : t ≠ "Analysis".toList := fun same => first (congrArg Json.str same)
        have second : t ≠ "AnalysisFailure".toList := fun same => second (congrArg Json.str same)
        simp only [if_neg first, if_neg second]
      | _ => rfl
    | _ => rfl

theorem entriesOf_eq_iff {field : Option Json} {x : Except RestoreFault (List Entry)} :
    entriesOf (field.getD (.arr [])) = x ↔ Lists field x := by
  constructor
  · rintro rfl
    cases field with
    | none => exact .missing
    | some v =>
      rw [Option.getD_some]
      cases v with
      | arr items =>
        rw [entriesOf]
        cases read : items.mapM Entry.ofJson with
        | ok entries =>
          rw [mapM_eq_ok] at read
          exact .array (read.imp fun v e => Entry.ofJson_eq_iff.mp)
        | error fault =>
          obtain ⟨before, v, after, rfl, fine, first⟩ := mapM_eq_error.mp read
          refine .element (fun u hu => ?_) (Entry.ofJson_eq_iff.mp first)
          obtain ⟨e, read⟩ := fine u hu
          exact Entry.exists_reads_ok_iff.mp ⟨e, Entry.ofJson_eq_iff.mp read⟩
      | str t =>
        cases t with
        | nil => exact .emptyText
        | cons c t => exact .text (List.cons_ne_nil c t)
      | obj fields =>
        cases fields with
        | nil => exact .emptyObject
        | cons field fields => exact .object (List.cons_ne_nil field fields)
      | _ => exact .scalar (by simp [Json.isNested]) (by simp)
  · intro h
    cases h with
    | array each => exact mapM_eq_ok.mpr (each.imp fun v e => Entry.ofJson_eq_iff.mpr)
    | @text t h =>
      cases t with
      | nil => exact absurd rfl h
      | cons c t => rfl
    | @object fields h =>
      cases fields with
      | nil => exact absurd rfl h
      | cons field fields => rfl
    | @scalar v h other =>
      cases v with
      | arr items => exact absurd rfl h
      | obj fields => exact absurd rfl h
      | str t => exact absurd rfl (other t)
      | _ => rfl
    | @element before after v fault fine first =>
      refine mapM_eq_error.mpr ⟨before, v, after, rfl, fun u hu => ?_,
        Entry.ofJson_eq_iff.mpr first⟩
      obtain ⟨e, read⟩ := Entry.exists_reads_ok_iff.mpr (fine u hu)
      exact ⟨e, Entry.ofJson_eq_iff.mpr read⟩
    | _ => rfl

theorem exists_lists_ok_iff {field : Option Json} :
    (∃ entries, Lists field (.ok entries)) ↔ Listing field := by
  constructor
  · rintro ⟨entries, h⟩
    cases h with
    | missing => exact .missing
    | emptyText => exact .emptyText
    | emptyObject => exact .emptyObject
    | array each =>
      have readable := exists_forall₂_iff.mp ⟨entries, each⟩
      exact .array fun v hv => Entry.exists_reads_ok_iff.mp (readable v hv)
  · intro h
    cases h with
    | missing => exact ⟨_, .missing⟩
    | emptyText => exact ⟨_, .emptyText⟩
    | emptyObject => exact ⟨_, .emptyObject⟩
    | array each =>
      have readable : ∃ entries, List.Forall₂ _ _ entries :=
        exists_forall₂_iff.mpr fun v hv => Entry.exists_reads_ok_iff.mpr (each v hv)
      obtain ⟨entries, each⟩ := readable
      exact ⟨entries, .array each⟩

/-- Reading a report gives the report, or the first defect. -/
theorem ofJson_eq_iff {d : Json} {x : Except RestoreFault Report} :
    ofJson d = x ↔ Restores d x := by
  constructor
  · rintro rfl
    cases d with
    | obj fields =>
      rw [ofJson]
      cases named : kindOf fields with
      | error fault => exact .kind (kindOf_eq_iff.mp named)
      | ok kind =>
        rw [kindOf_eq_iff] at named
        cases kind with
        | failure =>
          change Restores _ (Entry.require _ fields >>= _)
          rw [Entry.require]
          cases text : Json.fieldOf "message".toList fields with
          | none => exact .message named text
          | some message => exact .failure named text
        | analysis =>
          change Restores _ (entriesOf _ >>= _)
          cases read : entriesOf ((Json.fieldOf "tokens".toList fields).getD (.arr [])) with
          | error fault => exact .entries named (entriesOf_eq_iff.mp read)
          | ok entries => exact .tokens named (entriesOf_eq_iff.mp read)
    | _ => exact .notAnObject (by simp)
  · intro h
    cases h with
    | notAnObject h =>
      cases d with
      | obj fields => exact absurd rfl (h fields)
      | _ => rfl
    | kind h =>
      rw [ofJson, kindOf_eq_iff.mpr h]
      rfl
    | failure kind text =>
      rw [ofJson, kindOf_eq_iff.mpr kind, Entry.require, text]
      rfl
    | message kind h =>
      rw [ofJson, kindOf_eq_iff.mpr kind, Entry.require, h]
      rfl
    | tokens kind listed =>
      rw [ofJson, kindOf_eq_iff.mpr kind, entriesOf_eq_iff.mpr listed]
      rfl
    | entries kind listed =>
      rw [ofJson, kindOf_eq_iff.mpr kind, entriesOf_eq_iff.mpr listed]
      rfl

theorem exists_restores_ok_iff {d : Json} : (∃ r, Restores d (.ok r)) ↔ WellFormed d := by
  constructor
  · rintro ⟨r, h⟩
    cases h with
    | @failure fields message kind text =>
      refine .failure ?_ (by rw [text]; rfl)
      generalize Json.fieldOf "_type".toList fields = field at kind
      cases kind
      rfl
    | @tokens fields entries kind listed =>
      refine .tokens ?_ (exists_lists_ok_iff.mp ⟨entries, listed⟩)
      generalize Json.fieldOf "_type".toList fields = field at kind
      cases kind
      rfl
  · intro h
    cases h with
    | failure kind message =>
      obtain ⟨message, text⟩ := Option.isSome_iff_exists.mp message
      exact ⟨_, .failure (kind ▸ .failure) text⟩
    | tokens kind listed =>
      obtain ⟨entries, listed⟩ := exists_lists_ok_iff.mpr listed
      exact ⟨_, .tokens (kind ▸ .analysis) listed⟩

/-- Just the values of this form describe a report. What they are read as, and what is wrong with
the others first, is settled for every value. -/
theorem ofJson_classifies (d : Json) :
    ((∃ r, ofJson d = .ok r) ↔ WellFormed d) ∧
      ∀ x : Except RestoreFault Report, ofJson d = x ↔ Restores d x :=
  ⟨by simp only [ofJson_eq_iff, exists_restores_ok_iff], fun _ => ofJson_eq_iff⟩

example : ofJson (.obj [("_type".toList, .str "Analysis".toList),
    ("tokens".toList, .arr [.obj [("token_class".toList, .arr [])], .null])]) =
      .error .classNotScalar :=
  rfl

end Report

end PascalTokens
