import PascalTokens.Path

/-!
# File trees

The files and directories below a working directory. A file or directory is known by its
location: the names that lead to it. A path is walked name by name; two dots go up.

## Main definitions

* `FileTree.walk` finds what a path leads to.
* `FileTree.read` gives the contents of the file that a path leads to.
* `FileTree.place` is where a path leads to when a file is to be written there, and
  `FileTree.put` writes it.
-/

namespace PascalTokens

/-- The names that lead to a file or directory. -/
abbrev Location := List Text

structure FileTree where
  directories : List Location
  files : List (Location × Bytes)
  deriving DecidableEq, Repr

/-- Why a path cannot be opened. -/
inductive OpenFault where
  | notFound
  | notADirectory
  | isADirectory
  | nameTooLong
  deriving DecidableEq, Repr

/-- What a path leads to: a directory, a file, or a place in a directory where no file is. -/
inductive Target where
  | directory
  | file (location : Location) (bytes : Bytes)
  | vacant (location : Location)
  deriving DecidableEq, Repr

namespace FileTree

def empty : FileTree := ⟨[], []⟩

def upward : Text := ['.', '.']

/-- The working directory, what lies above it, and the root are always directories. -/
def isDirectory (t : FileTree) (l : Location) : Bool :=
  l.all (· = upward) || l = [['/']] || t.directories.contains l

def contents? (t : FileTree) (l : Location) : Option Bytes := t.files.lookup l

/-- The directory above. -/
def parent (l : Location) : Location :=
  if l.all (· = upward) then l ++ [upward] else if l = [['/']] then l else l.dropLast

def longestName : Nat := 255

def longestPath : Nat := 4095

/-- Walk from the directory `here` along `parts`. -/
def walk (t : FileTree) (here : Location) : List Text → Except OpenFault Target
  | [] => .ok .directory
  | name :: rest =>
    if name = upward then t.walk (parent here) rest
    else if longestName < Path.byteLength name then .error .nameTooLong
    else
      let there := here ++ [name]
      if t.isDirectory there then t.walk there rest
      else
        match t.contents? there with
        | some bytes => if rest.isEmpty then .ok (.file there bytes) else .error .notADirectory
        | none => if rest.isEmpty then .ok (.vacant there) else .error .notFound

def start (p : Path) : Location := if p.root.isEmpty then [] else [['/']]

/-- What a path leads to. -/
def find (t : FileTree) (p : Path) : Except OpenFault Target :=
  if longestPath < Path.byteLength p.text then .error .nameTooLong
  else t.walk (start p) p.parts

/-- Give the file at a location its contents. -/
def put (t : FileTree) (l : Location) (bytes : Bytes) : FileTree :=
  { t with files := (l, bytes) :: t.files.filter fun entry => entry.1 ≠ l }

/-- The contents of the file that a path leads to. -/
def read (t : FileTree) (p : Path) : Except OpenFault Bytes := do
  match ← t.find p with
  | .file _ bytes => return bytes
  | .directory => throw .isADirectory
  | .vacant _ => throw .notFound

/-- The location of the file that a path leads to, which need not exist yet. -/
def place (t : FileTree) (p : Path) : Except OpenFault Location := do
  match ← t.find p with
  | .file location _ => return location
  | .directory => throw .isADirectory
  | .vacant location => return location

/-- Make a directory and those above it. -/
def makeDirectory (t : FileTree) (p : Path) : FileTree :=
  let made := (List.range p.parts.length).map fun n => start p ++ p.parts.take (n + 1)
  { t with directories := t.directories ++ made }

/-- Make a file and the directories above it. -/
def makeFile (t : FileTree) (p : Path) (bytes : Bytes) : FileTree :=
  (t.makeDirectory { p with parts := p.parts.dropLast }).put (start p ++ p.parts) bytes

/-- The files below the working directory, by path. -/
def listing (t : FileTree) : List (Text × Bytes) :=
  (t.files.filter fun (l, _) => l.head? ≠ some upward ∧ l.head? ≠ some ['/']).map
    fun (l, bytes) => (Text.join ['/'] l, bytes)

end FileTree

end PascalTokens
