import PascalTokens.FileTree

/-!
# Where paths lead

Which file a path names is decided by the directories alone, and writing a file changes none of
them. So writing one file changes what is read from the paths that name it, and nothing else.

## Main definitions

* `FileTree.location?` is the file that a path names.
* `FileTree.Written` says that two trees differ in one file only.

## Main statements

* `FileTree.place_eq_ok_iff` and `FileTree.read_eq_ok_iff`: which paths can be written and read.
* `FileTree.contents?_put`: what the files hold after one was written.
-/

namespace PascalTokens

namespace FileTree

variable {t : FileTree} {l m : Location} {bytes : Bytes} {p : Path}

/-! ## Contents -/

theorem lookup_filter_of_ne (entries : List (Location × Bytes)) (h : m ≠ l) :
    (entries.filter fun entry => entry.1 ≠ l).lookup m = entries.lookup m := by
  induction entries with
  | nil => rfl
  | cons entry rest ih =>
    obtain ⟨k, held⟩ := entry
    rw [List.filter_cons, List.lookup_cons]
    by_cases hk : k = l
    · have hmk : (m == k) = false := by simpa [hk] using h
      rw [if_neg (by simpa using hk), hmk, ih]
    · rw [if_pos (by simpa using hk), List.lookup_cons, ih]

/-- A file that was written holds what was written, and every other file what it held. -/
theorem contents?_put (t : FileTree) (l m : Location) (bytes : Bytes) :
    (t.put l bytes).contents? m = if m = l then some bytes else t.contents? m := by
  rw [contents?, put, List.lookup_cons]
  by_cases h : m = l
  · simp [h]
  · have hml : (m == l) = false := by simpa using h
    rw [hml, if_neg h]
    exact lookup_filter_of_ne t.files h

/-- The tree `u` is the tree `t`, but with these bytes in the file at `l`. -/
structure Written (t u : FileTree) (l : Location) (bytes : Bytes) : Prop where
  directories_eq : u.directories = t.directories
  contents?_eq : ∀ m, u.contents? m = if m = l then some bytes else t.contents? m

theorem written_put (t : FileTree) (l : Location) (bytes : Bytes) :
    t.Written (t.put l bytes) l bytes := ⟨rfl, fun m => contents?_put t l m bytes⟩

/-! ## Walks -/

/-- Where the names lead from the directory `here`, if they lead to a file or to a place for
one. -/
def route (t : FileTree) (here : Location) : List Text → Option Location
  | [] => none
  | name :: rest =>
    if name = upward then t.route (parent here) rest
    else if longestName < Path.byteLength name then none
    else if t.isDirectory (here ++ [name]) then t.route (here ++ [name]) rest
    else if rest.isEmpty then some (here ++ [name])
    else none

theorem route_congr {u : FileTree} (h : u.directories = t.directories) (here : Location)
    (parts : List Text) : u.route here parts = t.route here parts := by
  have hdir (l : Location) : u.isDirectory l = t.isDirectory l := by
    rw [isDirectory, isDirectory, h]
  induction parts generalizing here with
  | nil => rfl
  | cons name rest ih => simp only [route, hdir, ih]

/-- The file at a location, or the place for one. -/
def target (t : FileTree) (l : Location) : Target :=
  match t.contents? l with
  | some bytes => .file l bytes
  | none => .vacant l

/-- What a walk finds at the end of a route. -/
inductive Finds (t : FileTree) : Option Location → Except OpenFault Target → Prop where
  | target (l : Location) : Finds t (some l) (.ok (t.target l))
  | directory : Finds t none (.ok .directory)
  | fault (f : OpenFault) : Finds t none (.error f)

theorem finds_walk (t : FileTree) (here : Location) (parts : List Text) :
    t.Finds (t.route here parts) (t.walk here parts) := by
  induction parts generalizing here with
  | nil => exact .directory
  | cons name rest ih =>
    rw [route, walk]
    by_cases hup : name = upward
    · rw [if_pos hup, if_pos hup]
      exact ih (parent here)
    rw [if_neg hup, if_neg hup]
    by_cases hlong : longestName < Path.byteLength name
    · rw [if_pos hlong, if_pos hlong]
      exact .fault _
    rw [if_neg hlong, if_neg hlong]
    dsimp only
    by_cases hdir : t.isDirectory (here ++ [name])
    · rw [if_pos hdir, if_pos hdir]
      exact ih (here ++ [name])
    rw [if_neg hdir, if_neg hdir]
    have htarget := Finds.target (t := t) (here ++ [name])
    rw [target] at htarget
    cases hcontents : t.contents? (here ++ [name]) <;> cases rest <;> simp_all [Finds.fault]

/-! ## Paths -/

/-- The file that a path names, be it there or not. -/
def location? (t : FileTree) (p : Path) : Option Location :=
  if longestPath < Path.byteLength p.text then none else t.route (start p) p.parts

theorem location?_congr {u : FileTree} (h : u.directories = t.directories) (p : Path) :
    u.location? p = t.location? p := by
  rw [location?, location?, route_congr h]

theorem finds_find (t : FileTree) (p : Path) : t.Finds (t.location? p) (t.find p) := by
  rw [location?, find]
  split
  · exact .fault _
  · exact t.finds_walk (start p) p.parts

/-- A path can be opened for writing if it names a file. -/
theorem place_eq_ok_iff : t.place p = .ok l ↔ t.location? p = some l := by
  have hfind := t.finds_find p
  rw [place]
  generalize t.location? p = route at hfind ⊢
  generalize t.find p = found at hfind ⊢
  cases hfind with
  | target m =>
    unfold target
    cases t.contents? m <;> simp [Bind.bind, Except.bind, Pure.pure, Except.pure]
  | directory => exact iff_of_false nofun nofun
  | fault f => exact iff_of_false nofun nofun

/-- A path can be read if it names a file that is there. -/
theorem read_eq_ok_iff : t.read p = .ok bytes ↔
    ∃ l, t.location? p = some l ∧ t.contents? l = some bytes := by
  have hfind := t.finds_find p
  rw [read]
  generalize t.location? p = route at hfind ⊢
  generalize t.find p = found at hfind ⊢
  cases hfind with
  | target m =>
    unfold target
    cases hcontents : t.contents? m <;>
      simp [hcontents, Bind.bind, Except.bind, Pure.pure, Except.pure, throw, throwThe,
        MonadExceptOf.throw]
  | directory => exact iff_of_false nofun (by simp)
  | fault f => exact iff_of_false nofun (by simp)

/-- Trees with the same directories have the same names for their files. -/
theorem place_congr {u : FileTree} (h : u.directories = t.directories) :
    u.place p = .ok l ↔ t.place p = .ok l := by
  rw [place_eq_ok_iff, place_eq_ok_iff, location?_congr h]

end FileTree

end PascalTokens
