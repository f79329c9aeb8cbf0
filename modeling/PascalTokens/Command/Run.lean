import PascalTokens.Command.Invocation
import PascalTokens.SourceFile
import PascalTokens.Table

/-!
# Carrying out an invocation

A run reads its source, writes the copy if one is asked for, analyses, and prints, in this
order, so that nothing is printed before everything that can fail has been tried. The outcome is
the exit status, both outputs and the file tree afterwards.

## Main definitions

* `Command.run` carries out an invocation.
* `Outcome` is what it leads to.
-/

namespace PascalTokens

namespace Command

/-- What keeps a run from its result. -/
inductive Problem where
  | input (fault : DecodeFault)
  | source (fault : SourceFile.Fault)
  deriving DecidableEq, Repr

/-- Why a run ended without an exit status: standard input is not UTF-8, a path holds a NUL
character, there is no path to copy to, or the report cannot be set as a table. -/
inductive Interruption where
  | undecodableInput (fault : DecodeFault)
  | unusableSource (fault : SourceFile.Fault)
  | noDestination
  | unprintable (fault : TableFault)
  deriving DecidableEq, Repr

inductive Outcome where
  | finished (exit : Nat) (stdout stderr : Text) (tree : FileTree)
  | interrupted (cause : Interruption) (tree : FileTree)
  deriving DecidableEq, Repr

/-- The message of an interruption that has one. -/
def Interruption.message? : Interruption → Option Text
  | undecodableInput fault => some fault.message
  | unusableSource fault => some fault.message
  | noDestination => none
  | unprintable fault => fault.message?

/-- The file tree after a run. -/
def Outcome.tree : Outcome → FileTree
  | finished _ _ _ tree => tree
  | interrupted _ tree => tree

namespace Exit

def success : Nat := 0

def lexicalError : Nat := 1

def ioError : Nat := 2

end Exit

/-- The codec of all files that a run reads and writes. -/
def fileCodec : Text := Codec.utf8.name

/-- The log records of a failed activity on a source file. -/
def failureRecords : SourceFile.Fault → List Log.Record
  | .file e =>
    let what := match e.activity with
      | .load => "Failed to import source from "
      | .save => "Failed to export source to "
    [⟨.warning, "sourceio".toList,
      what.toList ++ SourceFile.describe e.path.text e.detail⟩]
  | _ => []

def savedRecord (text : Text) (path : Path) : Log.Record :=
  ⟨.debug, "sourceio".toList,
    "Exported ".toList ++ Text.ofNat text.length ++ " chars to ".toList ++ path.text⟩

/-- The log records of a scan and its analysis. -/
def analysisRecords (source : Text) (d : Scan.Drain) (a : Analysis) : List Log.Record :=
  let dropped := match d.ending with
    | .dropped construct line =>
      [⟨.debug, "lexer.core".toList, construct.unterminated ++ " opened on line ".toList ++
        Text.ofInt line ++ " dropped at end of input".toList⟩]
    | _ => []
  let summary := match a with
    | .success tokens elapsed =>
      "Analyzed ".toList ++ Text.ofNat source.length ++ " chars into ".toList ++
        Text.ofNat tokens.length ++ " tokens in ".toList ++ elapsed.fixed 3 ++ " ms".toList
    | .failure e elapsed =>
      "Analysis failed after ".toList ++ elapsed.fixed 3 ++ " ms: ".toList ++ e.text
  dropped ++ [⟨.debug, "analyzer".toList, summary⟩]

/-- What is on standard input, and what the stream does with its line endings. That is up to the
system a run takes place on, and need not be the same as for files. -/
structure StandardInput where
  bytes : Bytes
  newlines : Text.Newlines
  deriving DecidableEq, Repr

/-- The text on standard input. -/
def readInput (stdin : StandardInput) : Except Problem Text :=
  match Codec.utf8.decode stdin.bytes with
  | .ok t => .ok (stdin.newlines.apply t)
  | .error fault => .error (.input fault)

/-- The source in the named file, or on standard input if no file is named. -/
def readSource (tree : FileTree) (stdin : StandardInput) (file : Option Text) : Except Problem Text :=
  match file with
  | none => readInput stdin
  | some [] => readInput stdin
  | some path => (SourceFile.load tree path fileCodec).mapError .source

/-- The tree after a text was written, with the log records, and the problem if it could not
be. -/
def writeSource (tree : FileTree) (text path : Text) :
    FileTree × List Log.Record × Option Problem :=
  match SourceFile.save tree text path fileCodec with
  | (tree, .ok path) => (tree, [savedRecord text path], none)
  | (tree, .error fault) => (tree, failureRecords fault, some (.source fault))

/-- The records of a problem with reading. -/
def Problem.records : Problem → List Log.Record
  | input _ => []
  | source fault => failureRecords fault

/-- End a run that a problem stopped. A failure with a file has a message and a status of its
own. -/
def stopped (v : Log.Verbosity) (records : List Log.Record) (tree : FileTree) :
    Problem → Outcome
  | .input fault => .interrupted (.undecodableInput fault) tree
  | .source (.file e) =>
    .finished Exit.ioError [] (Log.text v records ++ "Error: ".toList ++ e.message ++ ['\n']) tree
  | .source fault => .interrupted (.unusableSource fault) tree

/-- Both outputs for a report: JSON goes to standard output in any case, a table to standard
error if it reports a failure. -/
def printed (format : Format) (failed : Bool) (r : Report) : Except TableFault (Text × Text) :=
  match format with
  | .json => .ok (r.print (some 2) ++ ['\n'], [])
  | .table => (Table.render r).map fun t => if failed then ([], t) else (t, [])

/-- Analyse a source and print the report. -/
def finishAnalyze (v : Log.Verbosity) (clock : Clock) (request : AnalyzeRequest)
    (records : List Log.Record) (tree : FileTree) (source : Text) : Outcome :=
  let setting : Scan.Setting :=
    ⟨.ofFlags request.strict request.rejectUnrecognized, request.file⟩
  let a := analyze setting clock source
  let records := records ++ analysisRecords source (Scan.drain setting source) a
  match printed request.format a.isFailure (.ofAnalysis a) with
  | .error fault => .interrupted (.unprintable fault) tree
  | .ok (stdout, stderr) =>
    .finished (if a.isFailure then Exit.lexicalError else Exit.success) stdout
      (Log.text v records ++ stderr) tree

/-- Carry out the `analyze` command. An empty path to export to asks for no copy. -/
def runAnalyze (v : Log.Verbosity) (clock : Clock) (request : AnalyzeRequest)
    (tree : FileTree) (stdin : StandardInput) : Outcome :=
  match readSource tree stdin request.file with
  | .error problem => stopped v problem.records tree problem
  | .ok source =>
    match request.exportTo.getD [] with
    | [] => finishAnalyze v clock request [] tree source
    | path =>
      match writeSource tree source path with
      | (tree, records, some problem) => stopped v records tree problem
      | (tree, records, none) => finishAnalyze v clock request records tree source

/-- Carry out the `export` command. Whether there is a destination matters only once the source
has been read. -/
def runExport (v : Log.Verbosity) (source : Text) (destination : Option Text)
    (tree : FileTree) : Outcome :=
  match (SourceFile.load tree source fileCodec).mapError Problem.source, destination with
  | .error problem, _ => stopped v problem.records tree problem
  | .ok _, none => .interrupted .noDestination tree
  | .ok text, some path =>
    match writeSource tree text path with
    | (tree, records, some problem) => stopped v records tree problem
    | (tree, records, none) =>
      .finished Exit.success "Source code exported successfully!\n".toList (Log.text v records) tree

/-- Carry out an invocation in a file tree. -/
def run (clock : Clock) (invocation : Invocation) (tree : FileTree) (stdin : StandardInput) :
    Outcome :=
  match invocation.request with
  | .analyze request => runAnalyze invocation.verbosity clock request tree stdin
  | .copy source destination => runExport invocation.verbosity source destination tree

end Command

end PascalTokens
