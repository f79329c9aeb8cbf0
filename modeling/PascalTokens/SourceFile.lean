import PascalTokens.FileTree
import PascalTokens.Text.Codec
import PascalTokens.Text.LineEnding

/-!
# Source files

Source text is imported from a file and exported to one. An import writes every line ending as a
line feed and ends the last line; an export writes the text as it is. Opening comes before
decoding and encoding, so an export that cannot encode its text leaves an empty file behind.

## Main definitions

* `SourceFile.load` imports, and `SourceFile.save` exports.
* `SourceFile.normalize` is what an import makes of the text of a file.
-/

namespace PascalTokens

namespace SourceFile

/-- Why a source file could not be read or written. -/
inductive Cause where
  | opening (fault : OpenFault)
  | decoding (fault : DecodeFault)
  | encoding (fault : EncodeFault)
  deriving DecidableEq, Repr

inductive Activity where
  | load
  | save
  deriving DecidableEq, Repr

/-- A failure to read or write a source file. -/
structure Error where
  activity : Activity
  path : Path
  cause : Cause
  deriving DecidableEq, Repr

/-- What can go wrong: the file, a path that no file can have, or a codec that does not exist. -/
inductive Fault where
  | file (e : Error)
  | nulInPath
  | unknownCodec (name : Text)
  deriving DecidableEq, Repr

/-- The general message of a failed activity. -/
def Activity.failure : Activity → Text
  | load => "Failed to import source code.".toList
  | save => "Failed to export source code.".toList

/-- A message about a path. -/
def describe (path message : Text) : Text := path ++ ": ".toList ++ message

def Error.message (e : Error) : Text := describe e.path.text e.activity.failure

/-- The number and the text of the reason why a path cannot be opened. -/
def reason : OpenFault → Nat × Text
  | .notFound => (2, "No such file or directory".toList)
  | .notADirectory => (20, "Not a directory".toList)
  | .isADirectory => (21, "Is a directory".toList)
  | .nameTooLong => (36, "File name too long".toList)

/-- The message of the cause alone. -/
def Error.detail (e : Error) : Text :=
  match e.cause with
  | .opening fault =>
    let (number, text) := reason fault
    "[Errno ".toList ++ Text.ofNat number ++ "] ".toList ++ text ++ ": ".toList ++
      e.path.text.quoted
  | .decoding fault => fault.message
  | .encoding fault => fault.message

def Fault.message : Fault → Text
  | file e => e.message
  | nulInPath => "embedded null byte".toList
  | unknownCodec name => "unknown encoding: ".toList ++ name

/-- The path that a text names, if a file can have it. -/
def pathOf (t : Text) : Except Fault Path :=
  if t.contains '\x00' then .error .nulInPath else .ok (Path.ofText t)

/-- The source text that a file's text stands for. -/
def normalize (t : Text) : Text := Text.terminated (Text.unifyLineEndings t)

/-- Import the source text of a file. -/
def load (tree : FileTree) (path codec : Text) : Except Fault Text := do
  let path ← pathOf path
  let fail (cause : Cause) : Fault := .file ⟨.load, path, cause⟩
  let bytes ← (tree.read path).mapError fun fault => fail (.opening fault)
  match Codec.ofName? codec with
  | none => throw (.unknownCodec codec)
  | some codec =>
    let text ← (codec.decode bytes).mapError fun fault => fail (.decoding fault)
    return normalize text

/-- Export a text to a file: the tree afterwards, and the path of the file if the export
succeeded. -/
def save (tree : FileTree) (text path codec : Text) : FileTree × Except Fault Path :=
  match pathOf path with
  | .error fault => (tree, .error fault)
  | .ok path =>
    match tree.place path with
    | .error fault => (tree, .error (.file ⟨.save, path, .opening fault⟩))
    | .ok location =>
      match Codec.ofName? codec with
      | none => (tree.put location [], .error (.unknownCodec codec))
      | some codec =>
        match codec.encode text with
        | .error fault => (tree.put location [], .error (.file ⟨.save, path, .encoding fault⟩))
        | .ok bytes => (tree.put location bytes, .ok path)

end SourceFile

end PascalTokens
