import PascalTokens.Proofs.FileTree
import PascalTokens.Proofs.Text.Codec
import PascalTokens.Proofs.Text.LineEnding
import PascalTokens.SourceFile

/-!
# Source files are a store

An export writes one file or none, and an import none. So a file holds the text that was exported
to it last, and an import gives this text back, with its line endings unified and its last line
ended; of a text that was imported, it changes nothing any more.

## Main definitions

* `SourceFile.Loads` and `SourceFile.Saves` list what an import and an export can come to.
* `SourceFile.Access` is one of them, and `SourceFile.after` carries out a run of them.

## Main statements

* `SourceFile.loads` and `SourceFile.saves`: nothing else can happen.
* `SourceFile.contents?_after`: in a run, a file keeps what it holds until an export names it.
* `SourceFile.load_after_save`: what is imported after a run.
-/

namespace PascalTokens

namespace SourceFile

variable {t : FileTree} {text path : Text} {codec : Codec} {l : Location}

/-! ## The text of a file -/

theorem normalize_normalize (t : Text) : normalize (normalize t) = normalize t := by
  have hnone : '\r' ∉ normalize t := by
    intro h
    rcases Text.mem_terminated h with h | h
    · exact absurd h (by decide)
    · exact Text.carriageReturn_notMem_unifyLineEndings t h
  rw [normalize, Text.unifyLineEndings_eq_self hnone]
  exact Text.terminated_terminated _

theorem mem_normalize {c : Char} (h : c ∈ normalize text) : c = '\n' ∨ c ∈ text := by
  rcases Text.mem_terminated h with h | h
  · exact .inl h
  · exact (Text.mem_unifyLineEndings h).imp_right And.left

/-- A codec that can encode a text can also encode what is imported of it. -/
theorem exists_encode_normalize {bytes : Bytes} (h : codec.encode text = .ok bytes) :
    ∃ bytes, codec.encode (normalize text) = .ok bytes := by
  have hreaches := Codec.exists_encode_iff.1 ⟨bytes, h⟩
  refine Codec.exists_encode_iff.2 fun c hc => ?_
  rcases mem_normalize hc with rfl | hc
  · intro limit hlimit
    cases codec <;> cases hlimit <;> decide
  · exact hreaches c hc

/-! ## One import or export -/

theorem pathOf_of_notMem (h : '\x00' ∉ path) : pathOf path = .ok (.ofText path) := by
  rw [pathOf, if_neg (by simpa using h)]

theorem pathOf_of_mem (h : '\x00' ∈ path) : pathOf path = .error .nulInPath := by
  rw [pathOf, if_pos (by simpa using h)]

/-- What an import can come to. -/
inductive Loads (t : FileTree) (path : Text) (codec : Codec) : Except Fault Text → Prop where
  | refused (hpath : '\x00' ∈ path) : Loads t path codec (.error .nulInPath)
  | unopened (fault : OpenFault) (hpath : '\x00' ∉ path)
      (hread : t.read (.ofText path) = .error fault) :
      Loads t path codec (.error (.file ⟨.load, .ofText path, .opening fault⟩))
  | undecoded (bytes : Bytes) (fault : DecodeFault) (hpath : '\x00' ∉ path)
      (hread : t.read (.ofText path) = .ok bytes) (hdecode : codec.decode bytes = .error fault) :
      Loads t path codec (.error (.file ⟨.load, .ofText path, .decoding fault⟩))
  | done (bytes : Bytes) (raw : Text) (hpath : '\x00' ∉ path)
      (hread : t.read (.ofText path) = .ok bytes) (hdecode : codec.decode bytes = .ok raw) :
      Loads t path codec (.ok (normalize raw))

/-- What an export can come to, with the tree afterwards. -/
inductive Saves (t : FileTree) (text path : Text) (codec : Codec) :
    FileTree × Except Fault Path → Prop where
  | refused (hpath : '\x00' ∈ path) : Saves t text path codec (t, .error .nulInPath)
  | unopened (fault : OpenFault) (hpath : '\x00' ∉ path)
      (hplace : t.place (.ofText path) = .error fault) :
      Saves t text path codec (t, .error (.file ⟨.save, .ofText path, .opening fault⟩))
  | unencoded (l : Location) (fault : EncodeFault) (hpath : '\x00' ∉ path)
      (hplace : t.place (.ofText path) = .ok l) (hencode : codec.encode text = .error fault) :
      Saves t text path codec
        (t.put l [], .error (.file ⟨.save, .ofText path, .encoding fault⟩))
  | done (l : Location) (bytes : Bytes) (hpath : '\x00' ∉ path)
      (hplace : t.place (.ofText path) = .ok l) (hencode : codec.encode text = .ok bytes) :
      Saves t text path codec (t.put l bytes, .ok (.ofText path))

theorem loads (t : FileTree) (path : Text) (codec : Codec) :
    Loads t path codec (load t path codec.name) := by
  by_cases hpath : '\x00' ∈ path
  · rw [load, pathOf_of_mem hpath]
    exact .refused hpath
  rw [load, pathOf_of_notMem hpath, Codec.ofName?_name]
  dsimp only [Bind.bind, Except.bind]
  cases hread : t.read (.ofText path) with
  | error fault => exact .unopened fault hpath hread
  | ok bytes =>
    dsimp only [Except.mapError]
    cases hdecode : codec.decode bytes with
    | error fault => exact .undecoded bytes fault hpath hread hdecode
    | ok raw => exact .done bytes raw hpath hread hdecode

theorem saves (t : FileTree) (text path : Text) (codec : Codec) :
    Saves t text path codec (save t text path codec.name) := by
  by_cases hpath : '\x00' ∈ path
  · rw [save, pathOf_of_mem hpath]
    exact .refused hpath
  rw [save, pathOf_of_notMem hpath, Codec.ofName?_name]
  dsimp only
  cases hplace : t.place (.ofText path) with
  | error fault => exact .unopened fault hpath hplace
  | ok l =>
    dsimp only
    cases hencode : codec.encode text with
    | error fault => exact .unencoded l fault hpath hplace hencode
    | ok bytes => exact .done l bytes hpath hplace hencode

/-- The path can be opened for writing, and it names the file at `l`. -/
structure Names (t : FileTree) (path : Text) (l : Location) : Prop where
  notMem : '\x00' ∉ path
  place_eq : t.place (.ofText path) = .ok l

theorem names_congr {u : FileTree} (h : u.directories = t.directories) :
    Names u path l ↔ Names t path l :=
  ⟨fun ⟨hpath, hplace⟩ => ⟨hpath, (FileTree.place_congr h).1 hplace⟩,
    fun ⟨hpath, hplace⟩ => ⟨hpath, (FileTree.place_congr h).2 hplace⟩⟩

theorem Names.location_eq {m : Location} (h : Names t path l) (hm : Names t path m) : m = l :=
  Except.ok.inj (hm.place_eq.symm.trans h.place_eq)

/-- A text that can be encoded is exported to the file that the path names. -/
theorem save_eq {bytes : Bytes} (h : Names t path l) (hencode : codec.encode text = .ok bytes) :
    save t text path codec.name = (t.put l bytes, .ok (.ofText path)) := by
  have hsaves := saves t text path codec
  generalize save t text path codec.name = out at hsaves ⊢
  cases hsaves with
  | refused hpath => exact absurd hpath h.notMem
  | unopened fault hpath hplace => exact absurd (hplace.symm.trans h.place_eq) nofun
  | unencoded m fault hpath hplace hfault => exact absurd (hfault.symm.trans hencode) nofun
  | done m others hpath hplace hothers =>
    obtain rfl := h.location_eq ⟨hpath, hplace⟩
    obtain rfl := Except.ok.inj (hothers.symm.trans hencode)
    rfl

/-- From the file that a path names, its text is imported. -/
theorem load_eq {bytes : Bytes} (h : Names t path l) (hcontents : t.contents? l = some bytes)
    (hencode : codec.encode text = .ok bytes) :
    load t path codec.name = .ok (normalize text) := by
  have hread : t.read (.ofText path) = .ok bytes :=
    FileTree.read_eq_ok_iff.2 ⟨l, FileTree.place_eq_ok_iff.1 h.place_eq, hcontents⟩
  have hdecode : codec.decode bytes = .ok text := Codec.decode_of_encode hencode
  have hloads := loads t path codec
  generalize load t path codec.name = out at hloads ⊢
  cases hloads with
  | refused hpath => exact absurd hpath h.notMem
  | unopened fault hpath hfault => exact absurd (hfault.symm.trans hread) nofun
  | undecoded others fault hpath hothers hfault =>
    obtain rfl := Except.ok.inj (hothers.symm.trans hread)
    exact absurd (hfault.symm.trans hdecode) nofun
  | done others raw hpath hothers hraw =>
    obtain rfl := Except.ok.inj (hothers.symm.trans hread)
    obtain rfl := Except.ok.inj (hraw.symm.trans hdecode)
    rfl

/-! ## Runs -/

/-- An import or an export. -/
inductive Access where
  | load (path : Text) (codec : Codec)
  | save (text path : Text) (codec : Codec)

namespace Access

/-- The tree after the access. -/
def apply (t : FileTree) : Access → FileTree
  | load .. => t
  | save text path codec => (SourceFile.save t text path codec.name).1

/-- The access is an export that opens the file at `l`. -/
def Writes (t : FileTree) (l : Location) : Access → Prop
  | load .. => False
  | save _ path _ => Names t path l

theorem directories_apply (t : FileTree) (a : Access) :
    (a.apply t).directories = t.directories := by
  cases a with
  | load path codec => rfl
  | save text path codec =>
    have hsaves := saves t text path codec
    rw [apply]
    generalize SourceFile.save t text path codec.name = out at hsaves ⊢
    cases hsaves <;> rfl

/-- What a file holds stays, unless the access opens it to write. -/
theorem contents?_apply {a : Access} (h : ¬ a.Writes t l) :
    (a.apply t).contents? l = t.contents? l := by
  cases a with
  | load path codec => rfl
  | save text path codec =>
    have hsaves := saves t text path codec
    rw [apply]
    generalize SourceFile.save t text path codec.name = out at hsaves ⊢
    cases hsaves with
    | refused => rfl
    | unopened => rfl
    | unencoded m fault hpath hplace =>
      have hne : l ≠ m := fun heq => h (heq ▸ ⟨hpath, hplace⟩)
      rw [FileTree.contents?_put, if_neg hne]
    | done m bytes hpath hplace =>
      have hne : l ≠ m := fun heq => h (heq ▸ ⟨hpath, hplace⟩)
      rw [FileTree.contents?_put, if_neg hne]

theorem writes_congr {u : FileTree} (h : u.directories = t.directories) (a : Access) :
    a.Writes u l ↔ a.Writes t l := by
  cases a with
  | load path codec => exact Iff.rfl
  | save text path codec => exact names_congr h

end Access

/-- The tree after a run of accesses. -/
def after (t : FileTree) (accesses : List Access) : FileTree := accesses.foldl Access.apply t

theorem after_append (t : FileTree) (as bs : List Access) :
    after t (as ++ bs) = after (after t as) bs := List.foldl_append

theorem directories_after (t : FileTree) (as : List Access) :
    (after t as).directories = t.directories := by
  induction as generalizing t with
  | nil => rfl
  | cons a as ih => exact (ih (a.apply t)).trans (a.directories_apply t)

/-- In a run, a file keeps what it holds until an export opens it. -/
theorem contents?_after {as : List Access} (h : ∀ a ∈ as, ¬ a.Writes t l) :
    (after t as).contents? l = t.contents? l := by
  induction as generalizing t with
  | nil => rfl
  | cons a as ih =>
    have hrest : ∀ b ∈ as, ¬ b.Writes (a.apply t) l := by
      intro b hb
      rw [b.writes_congr (a.directories_apply t)]
      exact h b (List.mem_cons_of_mem _ hb)
    exact (ih hrest).trans (Access.contents?_apply (h a List.mem_cons_self))

/-! ## What a run leaves to import -/

/-- The text could not be encoded. -/
def Fault.IsEncoding : Fault → Prop
  | .file ⟨_, _, .encoding _⟩ => True
  | _ => False

/-- What an export does to the tree, by its answer. -/
theorem save_changes (t : FileTree) (text path : Text) (codec : Codec) :
    let out := save t text path codec.name
    (∀ p, out.2 = .ok p → ∃ l bytes,
      Names t path l ∧ codec.encode text = .ok bytes ∧ t.Written out.1 l bytes) ∧
    (∀ fault, out.2 = .error fault → fault.IsEncoding →
      ∃ l, Names t path l ∧ t.Written out.1 l []) ∧
    ∀ fault, out.2 = .error fault → ¬ fault.IsEncoding → out.1 = t := by
  intro out
  have hsaves : Saves t text path codec out := saves t text path codec
  generalize out = out at hsaves ⊢
  cases hsaves with
  | refused hpath =>
    refine ⟨nofun, fun fault hfault hencoding => ?_, fun _ _ _ => rfl⟩
    obtain rfl := Except.error.inj hfault
    exact hencoding.elim
  | unopened opening hpath hplace =>
    refine ⟨nofun, fun fault hfault hencoding => ?_, fun _ _ _ => rfl⟩
    obtain rfl := Except.error.inj hfault
    exact hencoding.elim
  | unencoded l encoding hpath hplace hencode =>
    refine ⟨nofun, fun _ _ _ => ⟨l, ⟨hpath, hplace⟩, t.written_put l []⟩,
      fun fault hfault hother => ?_⟩
    obtain rfl := Except.error.inj hfault
    exact absurd trivial hother
  | done l bytes hpath hplace hencode =>
    exact ⟨fun _ _ => ⟨l, bytes, ⟨hpath, hplace⟩, hencode, t.written_put l bytes⟩, nofun, nofun⟩

/-- What the file at `l` holds as the encoding of a text is imported by every path that names it.
Exported once more, what was imported is imported again. -/
theorem load_of_contents? {bytes : Bytes} (h : Names t path l)
    (hcontents : t.contents? l = some bytes) (hencode : codec.encode text = .ok bytes) :
    load t path codec.name = .ok (normalize text) ∧
      ∃ u, save t (normalize text) path codec.name = (u, .ok (.ofText path)) ∧
        load u path codec.name = .ok (normalize text) := by
  obtain ⟨others, hothers⟩ := exists_encode_normalize hencode
  have hput : (t.put l others).contents? l = some others := by simp [FileTree.contents?_put]
  have hnames : Names (t.put l others) path l :=
    (names_congr (t.written_put l _).directories_eq).2 h
  refine ⟨load_eq h hcontents hencode, t.put l others, save_eq h hothers, ?_⟩
  rw [load_eq hnames hput hothers, normalize_normalize]

/-- At every moment of a run, an import leaves the tree alone, and an export writes one file if it
succeeds, empties one if it cannot encode its text, and else does nothing. After the run, a file
that was exported to, and that no later export has opened, gives back the exported text with its
line endings unified and its last line ended, by whichever path it is imported; and that text
comes back as it is when it is exported and imported again. -/
theorem load_after_save (t : FileTree) :
    (∀ as, let u := after t as
      (∀ path codec, (Access.load path codec).apply u = u) ∧
      ∀ text path (codec : Codec), let out := save u text path codec.name
        (∀ p, out.2 = .ok p → ∃ l bytes,
          Names u path l ∧ codec.encode text = .ok bytes ∧ u.Written out.1 l bytes) ∧
        (∀ fault, out.2 = .error fault → fault.IsEncoding →
          ∃ l, Names u path l ∧ u.Written out.1 l []) ∧
        ∀ fault, out.2 = .error fault → ¬ fault.IsEncoding → out.1 = u) ∧
    ∀ earlier later text path (codec : Codec) p,
      (save (after t earlier) text path codec.name).2 = .ok p →
      (∀ l, Names t path l → ∀ a ∈ later, ¬ a.Writes t l) →
      let u := after t (earlier ++ .save text path codec :: later)
      ∃ l, Names t path l ∧ ∀ other, Names t other l →
        load u other codec.name = .ok (normalize text) ∧
          ∃ v, save u (normalize text) other codec.name = (v, .ok (.ofText other)) ∧
            load v other codec.name = .ok (normalize text) := by
  refine ⟨fun as => ⟨fun _ _ => rfl, (save_changes (after t as) · · ·)⟩, ?_⟩
  intro earlier later text path codec p hsave hlater u
  obtain ⟨l, bytes, hnames, hencode, hwritten⟩ :=
    (save_changes (after t earlier) text path codec).1 p hsave
  have hname : Names t path l := (names_congr (directories_after t earlier)).1 hnames
  have hdirectories : u.directories = t.directories := directories_after t _
  -- Between the export and the end of the run, nobody opens the file.
  have hcontents : u.contents? l = some bytes := by
    have hrun : u = after (Access.apply (after t earlier) (.save text path codec)) later :=
      after_append t earlier _
    have hstart : (Access.apply (after t earlier) (.save text path codec)).directories =
        t.directories := by
      rw [Access.directories_apply, directories_after]
    have hkeeps : ∀ a ∈ later,
        ¬ a.Writes (Access.apply (after t earlier) (.save text path codec)) l := by
      intro a ha
      rw [a.writes_congr hstart]
      exact hlater l hname a ha
    rw [hrun, contents?_after hkeeps, Access.apply, hwritten.contents?_eq, if_pos rfl]
  refine ⟨l, hname, fun other hother => ?_⟩
  exact load_of_contents? ((names_congr hdirectories).2 hother) hcontents hencode

/-- The exported file is named in two ways, and later exports fail or go elsewhere. -/
theorem load_after_save_latin1 :
    let t : FileTree := ⟨[["a".toList]], []⟩
    let later : List Access :=
      [.save "x".toList "no/b".toList .utf8, .save ['é'] "c".toList .ascii,
        .load "a/b".toList .utf8]
    let u := after t (.save "é\r\r\nx".toList "./a//b/".toList .latin1 :: later)
    u.files = [(["c".toList], []), (["a".toList, "b".toList], [0xE9, 13, 13, 10, 0x78])] ∧
      load u "a/b".toList "latin-1".toList = .ok "é\n\nx\n".toList := by
  intro t later u
  have hsave : (save (after t []) "é\r\r\nx".toList "./a//b/".toList Codec.latin1.name).2 =
      .ok ⟨[], ["a".toList, "b".toList]⟩ := by decide
  have hname : Names t "./a//b/".toList ["a".toList, "b".toList] := ⟨by decide, by decide⟩
  have hlater : ∀ l, Names t "./a//b/".toList l → ∀ a ∈ later, ¬ a.Writes t l := by
    intro l hl a ha hwrites
    obtain rfl := hname.location_eq hl
    simp only [later, List.mem_cons, List.not_mem_nil, or_false] at ha
    rcases ha with rfl | rfl | rfl
    · exact absurd hwrites.place_eq (by decide)
    · exact absurd hwrites.place_eq (by decide)
    · exact hwrites
  obtain ⟨l, hl, hload⟩ := (load_after_save t).2 [] later _ _ _ _ hsave hlater
  obtain rfl := hname.location_eq hl
  have halias : Names t "a/b".toList ["a".toList, "b".toList] := ⟨by decide, by decide⟩
  exact ⟨by decide, (hload "a/b".toList halias).1⟩

end SourceFile

end PascalTokens
