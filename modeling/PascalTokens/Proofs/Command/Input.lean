import PascalTokens.Proofs.Command.Arguments
import PascalTokens.Proofs.Command.Outcome
import PascalTokens.Proofs.Scan.Stored

/-!
# A file and standard input

A source can be handed over in a file or on standard input. Of a file the line endings are unified
and the last line is ended first, and its name comes to be known; what is reported of the source is
the same, but for the name in the message of a failure. Standard input may keep its line endings.
Then a carriage return that is not at the end of a line ends one in the file only.

## Main definitions

* `Outcome.ofAnalysis` is how a run ends that prints an analysis and nothing else.

## Main statements

* `run_eq_ofAnalysis`: what an analysis without a copy prints.
* `run_file_agrees_input`: the two ways compared, for all arguments that ask for them.
* `run_file_disagrees_input`: a carriage return that ends a line in the file only.
-/

namespace PascalTokens

/-! ## Logs and tables -/

namespace Log

/-- A log that is not verbose shows nothing of what was done. -/
theorem text_of_debug {v : Verbosity} (hv : v ≠ .verbose) {records : List Record}
    (h : ∀ r ∈ records, r.level = .debug) : text v records = [] := by
  have hhidden : ∀ r ∈ records, ¬ v.shows r.level := by
    intro r hr
    rw [h r hr]
    cases v with
    | standard => decide
    | verbose => exact absurd rfl hv
    | quiet => decide
  rw [text, List.filter_eq_nil_iff.2 hhidden]
  rfl

end Log

theorem Table.failureText_inj {a b : Text} (h : failureText (.str a) = failureText (.str b)) :
    a = b := by
  simpa [failureText, ended, Json.plain] using h

namespace Command

theorem level_of_mem_analysisRecords {source : Text} {d : Scan.Drain} {a : Analysis}
    {r : Log.Record} (h : r ∈ analysisRecords source d a) : r.level = .debug := by
  unfold analysisRecords at h
  rcases List.mem_append.1 h with h | h
  · split at h
    · rw [List.mem_singleton.1 h]
    · exact absurd h List.not_mem_nil
  · rw [List.mem_singleton.1 h]

variable {v : Log.Verbosity} {tree : FileTree} {stdin : StandardInput} {source : Text}
  {out : Text × Text}

/-! ## An analysis without a copy -/

/-- How a run ends that prints the report of an analysis and nothing else. -/
def Outcome.ofAnalysis (tree : FileTree) (a : Analysis) (out : Text × Text) : Outcome :=
  .finished (if a.isFailure then Exit.lexicalError else Exit.success) out.1 out.2 tree

/-- An analysis of which no copy is written and nothing is logged prints its report. -/
theorem run_eq_ofAnalysis (clock : Clock) (hv : v ≠ .verbose) {request : AnalyzeRequest}
    {a : Analysis} (hsource : Supplies tree stdin (.analyze request) source)
    (hnul : ∀ path ∈ (Request.analyze request).sourcePath?, '\x00' ∉ path)
    (hcopy : request.exportTo = none)
    (ha : PascalTokens.analyze ⟨.ofFlags request.strict request.rejectUnrecognized, request.file⟩
      clock source = a)
    (hout : printed request.format a.isFailure (.ofAnalysis a) = .ok out) :
    run clock ⟨v, .analyze request⟩ tree stdin = .ofAnalysis tree a out := by
  have hpath : (Request.analyze request).copyPath? = none := by simp [Request.copyPath?, hcopy]
  have hanalyze (path : Text) : Request.analyze request ≠ .copy path none := Request.noConfusion
  rw [run_eq_carryOut clock v (.analyze request) tree stdin fun path h => absurd h (hanalyze path),
    hsource.read_eq hnul, hpath]
  unfold carryOut
  dsimp only [Request.finish]
  rw [finishAnalyze_eq v [] tree ha hout, List.nil_append,
    Log.text_of_debug hv fun r hr => level_of_mem_analysisRecords hr, List.nil_append]
  rfl

theorem printed_failure (message elapsed line : Json) :
    printed .table true (.failure message elapsed line) =
      .ok ([], Table.failureText message) := rfl

/-! ## A file and standard input -/

variable {request : AnalyzeRequest}

/-- What a file holds is analysed with its line endings unified, and the name of the file is given
to the failure. -/
theorem run_file (clock : Clock) (hv : v ≠ .verbose) (hcopy : request.exportTo = none)
    {file raw : Text} {content : Bytes} {a : Analysis} (hfile : file ≠ []) (hnul : '\x00' ∉ file)
    (hread : tree.read (.ofText file) = .ok content) (hraw : Utf8.decode content = .ok raw)
    (ha : PascalTokens.analyze ⟨.ofFlags request.strict request.rejectUnrecognized, none⟩ clock
      (Text.unifyLineEndings raw) = a)
    (hout : printed request.format (a.inFile (some file)).isFailure
      (.ofAnalysis (a.inFile (some file))) = .ok out) :
    run clock ⟨v, .analyze { request with file := some file }⟩ tree stdin =
      .ofAnalysis tree (a.inFile (some file)) out := by
  have hpath : (Request.analyze { request with file := some file }).sourcePath? = some file := by
    simp [Request.sourcePath?, hfile]
  have hsource : Supplies tree stdin (.analyze { request with file := some file })
      (SourceFile.normalize raw) := by
    rw [Supplies, hpath]
    exact ⟨content, raw, hread, hraw, rfl⟩
  refine run_eq_ofAnalysis clock hv hsource ?_ hcopy ?_ hout
  · rw [hpath]
    rintro path ⟨⟩
    exact hnul
  · rw [SourceFile.normalize, Analysis.analyze_terminated, Analysis.analyze_inFile, ha]

/-- So is what is on standard input, if the line endings that it keeps make no difference. -/
theorem run_input (clock : Clock) (hv : v ≠ .verbose) (hcopy : request.exportTo = none)
    {raw : Text} {a : Analysis} (hraw : Utf8.decode stdin.bytes = .ok raw)
    (hreturns : stdin.newlines = .kept → Text.ReturnsEndLines (Text.terminated raw))
    (ha : PascalTokens.analyze ⟨.ofFlags request.strict request.rejectUnrecognized, none⟩ clock
      (Text.unifyLineEndings raw) = a)
    (hout : printed request.format (a.inFile none).isFailure (.ofAnalysis (a.inFile none)) =
      .ok out) :
    run clock ⟨v, .analyze { request with file := none }⟩ tree stdin =
      .ofAnalysis tree (a.inFile none) out := by
  have hsource : Supplies tree stdin (.analyze { request with file := none })
      (stdin.newlines.apply raw) := ⟨raw, hraw, rfl⟩
  have hpath : ∀ path ∈ (Request.analyze { request with file := none }).sourcePath?,
      '\x00' ∉ path := by simp [Request.sourcePath?]
  refine run_eq_ofAnalysis clock hv hsource hpath hcopy ?_ hout
  rw [Analysis.analyze_of_drain clock (Scan.drain_apply_newlines _ hreturns),
    ← PascalTokens.analyze, Analysis.analyze_inFile, ha]

/-- Hand over a source in a file or on standard input, which keeps no carriage return but at the end
of a line or of the source: both runs end with the same status and leave the tree alone. After a
success they have printed the same. After a failure they have reported the same line, in messages
that begin with it, where the one about the file begins with its name. -/
theorem run_file_agrees_input (clock : Clock) (tree : FileTree) (stdin : StandardInput)
    (newlines : Text.Newlines) (hv : v ≠ .verbose) {named piped : List Text} {file raw : Text}
    {content : Bytes}
    (hnamed : Invocation.ofArguments named =
      .ok ⟨v, .analyze { request with file := some file }⟩)
    (hpiped : Invocation.ofArguments piped = .ok ⟨v, .analyze { request with file := none }⟩)
    (hcopy : request.exportTo = none) (hfile : file ≠ []) (hnul : '\x00' ∉ file)
    (hread : tree.read (.ofText file) = .ok content) (hraw : Utf8.decode content = .ok raw)
    (hreturns : newlines = .kept → Text.ReturnsEndLines (Text.terminated raw)) :
    ∃ exit out out',
      (Invocation.ofArguments named).map (run clock · tree stdin) =
        .ok (.finished exit out.1 out.2 tree) ∧
      (Invocation.ofArguments piped).map (run clock · tree ⟨content, newlines⟩) =
        .ok (.finished exit out'.1 out'.2 tree) ∧
      (exit = Exit.success ∧ out = out' ∨
        exit = Exit.lexicalError ∧ ∃ line message elapsed,
          let numbered := Text.ofInt line ++ ' ' :: message
          printed request.format true
            (.failure (.str (file ++ ':' :: numbered)) elapsed (.int line)) = .ok out ∧
          printed request.format true (.failure (.str numbered) elapsed (.int line)) =
            .ok out') := by
  obtain ⟨a, ha⟩ : ∃ a, PascalTokens.analyze
      ⟨.ofFlags request.strict request.rejectUnrecognized, none⟩ clock
      (Text.unifyLineEndings raw) = a := ⟨_, rfl⟩
  obtain ⟨out, hout⟩ := exists_printed request.format (a.inFile (some file)).isFailure
    (a.inFile (some file))
  obtain ⟨out', hout'⟩ := exists_printed request.format (a.inFile none).isFailure (a.inFile none)
  rw [hnamed, hpiped]
  dsimp only [Except.map]
  rw [run_file clock hv hcopy hfile hnul hread hraw ha hout,
    run_input clock hv hcopy hraw hreturns ha hout']
  cases a with
  | success tokens elapsed =>
    exact ⟨Exit.success, out, out', rfl, rfl, .inl ⟨rfl, Except.ok.inj (hout.symm.trans hout')⟩⟩
  | failure e elapsed =>
    have hpipedText : (e.inFile none).text = Text.ofInt e.line ++ ' ' :: e.fault.message :=
      e.text_inFile_none
    have hnamedText : (e.inFile (some file)).text =
        file ++ ':' :: (Text.ofInt e.line ++ ' ' :: e.fault.message) := by
      rw [e.text_inFile hfile, hpipedText]
    refine ⟨Exit.lexicalError, out, out', rfl, rfl,
      .inr ⟨rfl, e.line, e.fault.message, .double elapsed, ?_, ?_⟩⟩
    · rw [← hnamedText]
      exact hout
    · rw [← hpipedText]
      exact hout'

/-- What is reported of standard input tells what is reported of a file. -/
theorem run_file_agrees_input_unterminated :
    let content := Utf8.encode "x\r\n/*".toList
    let tree : FileTree := ⟨[], [(["a".toList], content)]⟩
    let named := "analyze".toList ::
      ([Choice.rejectUnrecognized].flatMap Choice.arguments ++ "./a".toList ::
        [Choice.strict].flatMap Choice.arguments)
    let piped := "analyze".toList ::
      [Choice.rejectUnrecognized, Choice.strict].flatMap Choice.arguments
    (Invocation.ofArguments piped).map (run .still · tree ⟨content, .kept⟩) =
        .ok (.finished Exit.lexicalError []
          (Table.failureText (.str "2 Unterminated block comment".toList)) tree) ∧
      (Invocation.ofArguments named).map (run .still · tree ⟨[], .kept⟩) =
        .ok (.finished Exit.lexicalError []
          (Table.failureText (.str "./a:2 Unterminated block comment".toList)) tree) := by
  intro content tree named piped
  let request : AnalyzeRequest := { strict := true, rejectUnrecognized := true }
  let e : LexicalError := ⟨.unterminated .blockComment, 2, none⟩
  have hnamed : Invocation.ofArguments named =
      .ok ⟨.standard, .analyze { request with file := some "./a".toList }⟩ :=
    ofArguments_choices_file rfl [.rejectUnrecognized] [.strict]
  have hpiped : Invocation.ofArguments piped =
      .ok ⟨.standard, .analyze { request with file := none }⟩ :=
    ofArguments_choices [.rejectUnrecognized, .strict]
  have hread : tree.read (.ofText "./a".toList) = .ok content := rfl
  have hraw : Utf8.decode content = .ok "x\r\n/*".toList := rfl
  have hreturns : Text.ReturnsEndLines (Text.terminated "x\r\n/*".toList) := by
    simp [Text.terminated, Text.returnsEndLines_nil, Text.returnsEndLines_cons]
  obtain ⟨exit, out, out', hfile, hinput, hagrees⟩ :=
    run_file_agrees_input .still tree ⟨[], .kept⟩ .kept (by decide) hnamed hpiped rfl
      (by decide) (by decide) hread hraw (fun _ => hreturns)
  have hdrain : Scan.drain ⟨.ofFlags true true, none⟩ (Text.unifyLineEndings "x\r\n/*".toList) =
      ⟨[⟨['x'], .identifier, 1⟩], .failed e⟩ := by decide
  have hanalysis : analyze ⟨.ofFlags true true, none⟩ .still
      (Text.unifyLineEndings "x\r\n/*".toList) = .failure e Clock.still.elapsed :=
    Analysis.analyze_of_drain .still hdrain
  have hrun : run .still ⟨.standard, .analyze { request with file := none }⟩ tree
      ⟨content, .kept⟩ = .ofAnalysis tree ((Analysis.failure e Clock.still.elapsed).inFile none)
        ([], Table.failureText (.str "2 Unterminated block comment".toList)) :=
    run_input .still (by decide) rfl hraw (fun _ => hreturns) hanalysis rfl
  have hpipedRun : (Invocation.ofArguments piped).map (run .still · tree ⟨content, .kept⟩) =
      .ok (.finished Exit.lexicalError []
        (Table.failureText (.str "2 Unterminated block comment".toList)) tree) := by
    rw [hpiped]
    exact congrArg Except.ok hrun
  obtain ⟨hexit, -, hreported, -⟩ :=
    Outcome.finished.inj (Except.ok.inj (hpipedRun.symm.trans hinput))
  refine ⟨hpipedRun, ?_⟩
  rcases hagrees with ⟨hsuccess, -⟩ | ⟨-, line, message, elapsed, hout, hout'⟩
  · exact absurd (hexit.trans hsuccess) (by decide)
  · rw [printed_failure] at hout hout'
    rw [← Except.ok.inj hout'] at hreported
    have hnumbered : "2 Unterminated block comment".toList = Text.ofInt line ++ ' ' :: message :=
      Table.failureText_inj hreported
    rw [hfile, ← hexit, ← Except.ok.inj hout, ← hnumbered]
    rfl

/-- A carriage return within a line that standard input keeps: it ends a line comment in the file
only, so that a literal is opened there and not closed. -/
theorem run_file_disagrees_input :
    let content := Utf8.encode "// x\r'a".toList
    let tree : FileTree := ⟨[], [(["a".toList], content)]⟩
    let named := "analyze".toList :: ([Choice.strict].flatMap Choice.arguments ++ ["a".toList])
    let piped := "analyze".toList :: [Choice.strict].flatMap Choice.arguments
    Utf8.decode content = .ok "// x\r'a".toList ∧ tree.read (.ofText "a".toList) = .ok content ∧
      (Invocation.ofArguments named).map (run .still · tree ⟨[], .kept⟩) =
        .ok (.finished Exit.lexicalError []
          (Table.failureText (.str "a:2 Unterminated string literal".toList)) tree) ∧
      ∃ stdout, (Invocation.ofArguments piped).map (run .still · tree ⟨content, .kept⟩) =
        .ok (.finished Exit.success stdout [] tree) := by
  intro content tree named piped
  let request : AnalyzeRequest := { strict := true }
  have hraw : Utf8.decode content = .ok "// x\r'a".toList := rfl
  have hread : tree.read (.ofText "a".toList) = .ok content := rfl
  have hnamed : Invocation.ofArguments named =
      .ok ⟨.standard, .analyze { request with file := some "a".toList }⟩ :=
    ofArguments_choices_file rfl [.strict] []
  have hpiped : Invocation.ofArguments piped =
      .ok ⟨.standard, .analyze { request with file := none }⟩ := ofArguments_choices [.strict]
  refine ⟨hraw, hread, ?_, ?_⟩
  · let e : LexicalError := ⟨.unterminated .stringLiteral, 2, none⟩
    have hdrain : Scan.drain ⟨.ofFlags true false, none⟩ (Text.unifyLineEndings "// x\r'a".toList) =
        ⟨[], .failed e⟩ := by decide
    have hanalysis : analyze ⟨.ofFlags true false, none⟩ .still
        (Text.unifyLineEndings "// x\r'a".toList) = .failure e Clock.still.elapsed :=
      Analysis.analyze_of_drain .still hdrain
    have hrun : run .still ⟨.standard, .analyze { request with file := some "a".toList }⟩ tree
        ⟨[], .kept⟩ = .ofAnalysis tree
          ((Analysis.failure e Clock.still.elapsed).inFile (some "a".toList))
          ([], Table.failureText (.str "a:2 Unterminated string literal".toList)) :=
      run_file .still (by decide) rfl (by decide) (by decide) hread hraw hanalysis rfl
    rw [hnamed]
    exact congrArg Except.ok hrun
  · have hdrain : Scan.drain ⟨.ofFlags true false, none⟩ "// x\r'a".toList = ⟨[], .clean⟩ := by
      decide
    have hanalysis : analyze ⟨.ofFlags true false, none⟩ .still "// x\r'a".toList =
        .success [] Clock.still.elapsed := Analysis.analyze_of_drain .still hdrain
    obtain ⟨table, htable⟩ := Table.exists_render_ofAnalysis (.success [] Clock.still.elapsed)
    have hout : printed .table false (.ofAnalysis (.success [] Clock.still.elapsed)) =
        .ok (table, []) := by
      rw [printed, htable]
      rfl
    have hsource : Supplies tree ⟨content, .kept⟩ (.analyze { request with file := none })
        "// x\r'a".toList := ⟨_, hraw, rfl⟩
    have hrun : run .still ⟨.standard, .analyze { request with file := none }⟩ tree
        ⟨content, .kept⟩ = .ofAnalysis tree (.success [] Clock.still.elapsed) (table, []) :=
      run_eq_ofAnalysis .still (by decide) hsource (by simp [Request.sourcePath?]) rfl hanalysis
        hout
    refine ⟨table, ?_⟩
    rw [hpiped]
    exact congrArg Except.ok hrun

end Command

end PascalTokens
