import PascalTokens.Command.Run

/-!
# The program

The outer layer of the command line. The paths that the arguments name are looked up in the file
system, the run is carried out on that picture of it, and what it wrote is stored.
-/

namespace PascalTokens

namespace Program

/-- The name of a location in the file system. -/
def fileName (l : Location) : String :=
  String.ofList (Text.join ['/'] (if l.head? = some ['/'] then [] :: l.drop 1 else l))

/-- The file tree with what a location holds now. What is there and cannot be read as a file
counts as a directory. -/
def look (t : FileTree) (l : Location) : IO FileTree := do
  try
    let bytes ← IO.FS.readBinFile (fileName l)
    return t.put l bytes.toList
  catch
    | .noFileOrDirectory .. => return t
    | _ => return { t with directories := l :: t.directories }

/-- The file tree with all that lies on the way of a path. -/
def explore (t : FileTree) (path : Text) : IO FileTree := do
  let p := Path.ofText path
  let mut t := t
  let mut here := FileTree.start p
  for part in p.parts do
    if part = FileTree.upward then
      here := FileTree.parent here
    else
      here := here ++ [part]
      t ← look t here
  return t

/-- The paths that a request names. -/
def paths : Command.Request → List Text
  | .analyze r => r.file.toList ++ r.exportTo.toList
  | .copy source destination => source :: destination.toList

/-- Store the files that a run has changed. -/
def store (before after : FileTree) : IO Unit := do
  for (l, bytes) in after.files do
    if before.contents? l ≠ some bytes then
      IO.FS.writeBinFile (fileName l) ⟨bytes.toArray⟩

def usage : String :=
  "usage: pascalex [-h] [-v | -q] analyze [-h] [--strict] [--reject-unrecognized]\n" ++
  "                [--format table|json] [--export PATH] [FILE]\n" ++
  "       pascalex [-h] [-v | -q] export [-h] SRC DEST\n"

/-- Whether a run reads standard input. -/
def readsInput : Command.Request → Bool
  | .analyze r => (r.file.getD []).isEmpty
  | .copy .. => false

def readAll (input : IO.FS.Stream) : IO Bytes := do
  let mut all : ByteArray := .empty
  let mut more := true
  while more do
    let chunk ← input.read 65536
    all := all ++ chunk
    more := !chunk.isEmpty
  return all.toList

/-- A reading of the clock in seconds. -/
def now : IO Double := do
  return .ofRatio false (← IO.monoNanosNow) (pow10 9)

/-- Carry out an invocation: store its files, and then print its outputs, which tell how long
that took. -/
def perform (invocation : Command.Invocation) : IO UInt32 := do
  let bytes ← if readsInput invocation.request then readAll (← IO.getStdin) else pure []
  let stdin : Command.StandardInput := ⟨bytes, .kept⟩
  let mut tree := FileTree.empty
  for path in paths invocation.request do
    tree ← explore tree path
  let start ← now
  store tree (Command.run .still invocation tree stdin).tree
  let stop ← now
  match Command.run ⟨start, stop⟩ invocation tree stdin with
  | .finished exit stdout stderr _ =>
    IO.print (String.ofList stdout)
    IO.eprint (String.ofList stderr)
    return UInt32.ofNat exit
  | .interrupted cause _ =>
    for message in cause.message? do
      IO.eprintln (String.ofList message)
    return 1

end Program

end PascalTokens

open PascalTokens in
def main (arguments : List String) : IO UInt32 := do
  match Command.Invocation.ofArguments (arguments.map String.toList) with
  | .ok invocation => Program.perform invocation
  | .error .help =>
    IO.print Program.usage
    return 0
  | .error .usage =>
    IO.eprint Program.usage
    return 2
