import PascalTokens.Command.Run
import PascalTokens.Proofs.SourceFile
import PascalTokens.Proofs.Table

/-!
# How a run ends

A run reads a text, writes a copy of it if one is asked for, and then finishes. Up to the copy
nothing is changed or printed, and behind it nothing can fail any more but the analysis, whose
failure is a result.

## Main definitions

* `Supplies` says which text a request reads, `LacksDestination` that there is no path to copy it
  to, and `Accepts` that its copy can be written.
* `Completes` is what a run has done that was not stopped.
* `carryOut` is the common course of both commands.

## Main statements

* `run_eq_carryOut`: both commands take this course.
* `run_outcome`: when a run is stopped, and what it has done otherwise.
-/

namespace PascalTokens

namespace Command

/-! ## What a request asks for -/

/-- The path of the source file. Without one, standard input is read. -/
def Request.sourcePath? : Request → Option Text
  | .analyze r => r.file.filter (!·.isEmpty)
  | .copy source _ => some source

/-- The path that the text is copied to. -/
def Request.copyPath? : Request → Option Text
  | .analyze r => r.exportTo.filter (!·.isEmpty)
  | .copy _ destination => destination

/-- The analysis of the text that was read, if one is asked for. -/
def Request.analysis? (clock : Clock) (source : Text) : Request → Option Analysis
  | .analyze r =>
    some (PascalTokens.analyze ⟨.ofFlags r.strict r.rejectUnrecognized, r.file⟩ clock source)
  | .copy .. => none

/-- The request reads this text, from a file that can be opened or from standard input, and it can
be decoded. Of a file the line endings are unified and the last line is ended; of standard input the
line endings are what the stream makes of them. -/
def Supplies (tree : FileTree) (stdin : StandardInput) (request : Request) (source : Text) : Prop :=
  match request.sourcePath? with
  | some path => ∃ bytes raw, tree.read (.ofText path) = .ok bytes ∧ Utf8.decode bytes = .ok raw ∧
      source = SourceFile.normalize raw
  | none => ∃ raw, Utf8.decode stdin.bytes = .ok raw ∧ source = stdin.newlines.apply raw

/-- There is a text to copy, but no path to copy it to. -/
def LacksDestination (tree : FileTree) (stdin : StandardInput) (request : Request) : Prop :=
  ∃ path source, request = .copy path none ∧ Supplies tree stdin request source

/-- If the text is to be copied, the copy can be opened for writing. -/
def Accepts (tree : FileTree) (request : Request) : Prop :=
  ∀ path ∈ request.copyPath?, ∃ l, tree.place (.ofText path) = .ok l

/-- The analysis that is asked for fails. -/
def Request.Fails (request : Request) (clock : Clock) (source : Text) : Prop :=
  ∃ a, request.analysis? clock source = some a ∧ a.isFailure

/-- What a run has done that has read `source` and was not stopped. -/
structure Completes (clock : Clock) (request : Request) (tree : FileTree) (source : Text)
    (exit : Nat) (stdout : Text) (after : FileTree) : Prop where
  kept : request.copyPath? = none → after = tree
  written : ∀ path, request.copyPath? = some path →
    ∃ l, tree.place (.ofText path) = .ok l ∧ tree.Written after l (Utf8.encode source)
  lexicalError_iff : exit = Exit.lexicalError ↔ request.Fails clock source
  success_iff : exit = Exit.success ↔ ¬ request.Fails clock source
  json : ∀ r a, request = .analyze r → r.format = .json →
    request.analysis? clock source = some a →
      stdout = (Report.ofAnalysis a).print (some 2) ++ ['\n']
  table : ∀ r, request = .analyze r → r.format = .table → request.Fails clock source →
    stdout = []

/-! ## The common course -/

/-- What is read for a request. -/
def Request.read (request : Request) (tree : FileTree) (stdin : StandardInput) : Except Problem Text :=
  match request with
  | .analyze r => readSource tree stdin r.file
  | .copy source _ => (SourceFile.load tree source fileCodec).mapError .source

/-- What is done with a text that was read and copied. -/
def Request.finish (request : Request) (v : Log.Verbosity) (clock : Clock)
    (records : List Log.Record) (tree : FileTree) (source : Text) : Outcome :=
  match request with
  | .analyze r => finishAnalyze v clock r records tree source
  | .copy .. =>
    .finished Exit.success "Source code exported successfully!\n".toList (Log.text v records) tree

/-- Go on with a text that was read: copy it, if there is a path for a copy, and finish. -/
def carryOut (v : Log.Verbosity) (tree : FileTree) (read : Except Problem Text)
    (copyPath : Option Text) (finish : List Log.Record → FileTree → Text → Outcome) : Outcome :=
  match read with
  | .error problem => stopped v problem.records tree problem
  | .ok source =>
    match copyPath with
    | none => finish [] tree source
    | some path =>
      match writeSource tree source path with
      | (tree, records, some problem) => stopped v records tree problem
      | (tree, records, none) => finish records tree source

/-- Both commands take this course, unless a text was read for a copy without a destination. -/
theorem run_eq_carryOut (clock : Clock) (v : Log.Verbosity) (request : Request) (tree : FileTree)
    (stdin : StandardInput)
    (h : ∀ path, request = .copy path none → ∀ text, request.read tree stdin ≠ .ok text) :
    run clock ⟨v, request⟩ tree stdin =
      carryOut v tree (request.read tree stdin) request.copyPath? (request.finish v clock) := by
  cases request with
  | analyze r =>
    obtain ⟨file, strict, reject, format, exportTo⟩ := r
    cases exportTo with
    | none => rfl
    | some path => cases path <;> rfl
  | copy source destination =>
    have hread := h source
    simp only [Request.read] at hread
    simp only [run, runExport, carryOut, Request.read, Request.copyPath?]
    cases hload : (SourceFile.load tree source fileCodec).mapError Problem.source with
    | error problem => rfl
    | ok text =>
      cases destination with
      | none => exact absurd hload (hread rfl text)
      | some path => rfl

/-- A text that was read for a copy without a destination interrupts the run. -/
theorem run_copy_none (clock : Clock) (v : Log.Verbosity) {tree : FileTree} {stdin : StandardInput}
    {path text : Text} (h : (Request.copy path none).read tree stdin = .ok text) :
    run clock ⟨v, .copy path none⟩ tree stdin = .interrupted .noDestination tree := by
  have hload : (SourceFile.load tree path fileCodec).mapError Problem.source = .ok text := h
  simp only [run, runExport, hload]

/-! ## Reading -/

section Run

variable {tree : FileTree} {stdin : StandardInput} {request : Request} {path source : Text}

/-- What reading for a request comes to. -/
inductive Reads (tree : FileTree) (stdin : StandardInput) (request : Request) :
    Except Problem Text → Prop where
  | supplied (source : Text) (h : Supplies tree stdin request source) :
      Reads tree stdin request (.ok source)
  | failed (e : SourceFile.Error) (h : ∀ source, ¬ Supplies tree stdin request source) :
      Reads tree stdin request (.error (.source (.file e)))

theorem Reads.supplies {read : Except Problem Text} (h : Reads tree stdin request read)
    (hread : read = .ok source) : Supplies tree stdin request source := by
  cases h with
  | supplied text hsupplies =>
    obtain rfl := Except.ok.inj hread
    exact hsupplies
  | failed e hnone => exact absurd hread nofun

theorem Reads.of_load (hpath : request.sourcePath? = some path) (hnul : '\x00' ∉ path) :
    Reads tree stdin request ((SourceFile.load tree path fileCodec).mapError .source) := by
  have hloads : SourceFile.Loads tree path .utf8 (SourceFile.load tree path fileCodec) :=
    SourceFile.loads tree path .utf8
  have hsupplies (source : Text) : Supplies tree stdin request source ↔ ∃ bytes raw,
      tree.read (.ofText path) = .ok bytes ∧ Utf8.decode bytes = .ok raw ∧
        source = SourceFile.normalize raw := by
    rw [Supplies, hpath]
  generalize SourceFile.load tree path fileCodec = out at hloads ⊢
  cases hloads with
  | refused hmem => exact absurd hmem hnul
  | unopened fault _ hread =>
    refine .failed _ fun source h => ?_
    obtain ⟨bytes, raw, hbytes, -, -⟩ := (hsupplies source).1 h
    exact absurd (hread.symm.trans hbytes) nofun
  | undecoded bytes fault _ hread hdecode =>
    refine .failed _ fun source h => ?_
    obtain ⟨others, raw, hothers, hraw, -⟩ := (hsupplies source).1 h
    obtain rfl := Except.ok.inj (hread.symm.trans hothers)
    exact absurd (hdecode.symm.trans (Codec.decode_utf8_eq_ok_iff.2 hraw)) nofun
  | done bytes raw _ hread hdecode =>
    exact .supplied _ ((hsupplies _).2
      ⟨bytes, raw, hread, Codec.decode_utf8_eq_ok_iff.1 hdecode, rfl⟩)

theorem Reads.of_input {raw : Text} (hpath : request.sourcePath? = none)
    (hraw : Utf8.decode stdin.bytes = .ok raw) : Reads tree stdin request (readInput stdin) := by
  have hread : readInput stdin = .ok (stdin.newlines.apply raw) := by
    rw [readInput, Codec.decode_utf8_eq_ok_iff.2 hraw]
  rw [hread]
  refine .supplied _ ?_
  rw [Supplies, hpath]
  exact ⟨raw, hraw, rfl⟩

theorem Request.read_of_path (hpath : request.sourcePath? = some path) :
    request.read tree stdin = (SourceFile.load tree path fileCodec).mapError .source := by
  cases request with
  | copy source destination =>
    obtain rfl : source = path := Option.some.inj hpath
    rfl
  | analyze r =>
    obtain ⟨_ | _ | ⟨c, cs⟩, strict, reject, format, exportTo⟩ := r
    · simp [Request.sourcePath?] at hpath
    · simp [Request.sourcePath?] at hpath
    · obtain rfl : c :: cs = path := Option.some.inj hpath
      rfl

theorem Request.read_of_input (hpath : request.sourcePath? = none) :
    request.read tree stdin = readInput stdin := by
  cases request with
  | copy source destination => simp [Request.sourcePath?] at hpath
  | analyze r =>
    obtain ⟨_ | _ | ⟨c, cs⟩, strict, reject, format, exportTo⟩ := r
    · rfl
    · rfl
    · simp [Request.sourcePath?] at hpath

theorem reads (hnul : ∀ path ∈ request.sourcePath?, '\x00' ∉ path)
    (hinput : request.sourcePath? = none → ∃ raw, Utf8.decode stdin.bytes = .ok raw) :
    Reads tree stdin request (request.read tree stdin) := by
  cases hpath : request.sourcePath? with
  | some path =>
    rw [Request.read_of_path hpath]
    exact .of_load hpath (hnul path hpath)
  | none =>
    obtain ⟨raw, hraw⟩ := hinput hpath
    rw [Request.read_of_input hpath]
    exact .of_input hpath hraw

/-- There is at most one text to read. -/
theorem Supplies.eq {other : Text} (h : Supplies tree stdin request source)
    (hother : Supplies tree stdin request other) : source = other := by
  unfold Supplies at h hother
  cases hpath : request.sourcePath? with
  | some path =>
    rw [hpath] at h hother
    obtain ⟨bytes, raw, hread, hraw, rfl⟩ := h
    obtain ⟨bytes', raw', hread', hraw', rfl⟩ := hother
    obtain rfl := Except.ok.inj (hread.symm.trans hread')
    rw [Except.ok.inj (hraw.symm.trans hraw')]
  | none =>
    rw [hpath] at h hother
    obtain ⟨raw, hraw, rfl⟩ := h
    obtain ⟨raw', hraw', rfl⟩ := hother
    rw [Except.ok.inj (hraw.symm.trans hraw')]

/-- What can be read is read. -/
theorem Supplies.read_eq (h : Supplies tree stdin request source)
    (hnul : ∀ path ∈ request.sourcePath?, '\x00' ∉ path) :
    request.read tree stdin = .ok source := by
  have hinput (hpath : request.sourcePath? = none) : ∃ raw, Utf8.decode stdin.bytes = .ok raw := by
    rw [Supplies, hpath] at h
    obtain ⟨raw, hraw, -⟩ := h
    exact ⟨raw, hraw⟩
  have hreads : Reads tree stdin request (request.read tree stdin) := reads hnul hinput
  generalize request.read tree stdin = read at hreads ⊢
  cases hreads with
  | supplied text htext => rw [htext.eq h]
  | failed e hnone => exact absurd h (hnone source)

/-! ## Copying -/

/-- What writing a copy comes to. -/
inductive Copies (tree : FileTree) (source path : Text) :
    FileTree × List Log.Record × Option Problem → Prop where
  | written (l : Location) (hplace : tree.place (.ofText path) = .ok l) :
      Copies tree source path
        (tree.put l (Utf8.encode source), [savedRecord source (.ofText path)], none)
  | failed (e : SourceFile.Error) (hplace : ∀ l, tree.place (.ofText path) ≠ .ok l) :
      Copies tree source path (tree, failureRecords (.file e), some (.source (.file e)))

theorem copies (hnul : '\x00' ∉ path) :
    Copies tree source path (writeSource tree source path) := by
  have hsaves : SourceFile.Saves tree source path .utf8
      (SourceFile.save tree source path fileCodec) := SourceFile.saves tree source path .utf8
  have hencode : Codec.utf8.encode source = .ok (Utf8.encode source) :=
    Codec.encode_of_limit?_none rfl source
  rw [writeSource]
  generalize SourceFile.save tree source path fileCodec = out at hsaves ⊢
  cases hsaves with
  | refused hmem => exact absurd hmem hnul
  | unopened fault _ hplace =>
    exact .failed _ fun l hl => absurd (hplace.symm.trans hl) nofun
  | unencoded l fault _ _ hfault => exact absurd (hfault.symm.trans hencode) nofun
  | done l bytes _ hplace hbytes =>
    obtain rfl := Except.ok.inj (hbytes.symm.trans hencode)
    exact .written l hplace

/-! ## Finishing -/

/-- The report of an analysis can be printed in every format. -/
theorem exists_printed (format : Format) (failed : Bool) (a : Analysis) :
    ∃ out, printed format failed (.ofAnalysis a) = .ok out := by
  cases format with
  | json => exact ⟨_, rfl⟩
  | table =>
    obtain ⟨t, ht⟩ := Table.exists_render_ofAnalysis a
    refine ⟨if failed then ([], t) else (t, []), ?_⟩
    rw [printed, ht]
    rfl

theorem stdout_of_printed_json {failed : Bool} {r : Report} {out : Text × Text}
    (h : printed .json failed r = .ok out) : out.1 = r.print (some 2) ++ ['\n'] := by
  rw [← Except.ok.inj h]

/-- The table of a failure goes to standard error. -/
theorem stdout_of_printed_table {r : Report} {out : Text × Text}
    (h : printed .table true r = .ok out) : out.1 = [] := by
  unfold printed at h
  cases htable : Table.render r with
  | error fault => exact absurd (htable ▸ h) nofun
  | ok t =>
    rw [htable] at h
    rw [← Except.ok.inj h]
    rfl

/-- An analysis whose report is printed ends a run with its status. -/
theorem finishAnalyze_eq (v : Log.Verbosity) {clock : Clock} {r : AnalyzeRequest}
    (records : List Log.Record) (tree : FileTree) {source : Text} {a : Analysis} {out : Text × Text}
    (ha : PascalTokens.analyze ⟨.ofFlags r.strict r.rejectUnrecognized, r.file⟩ clock source = a)
    (hout : printed r.format a.isFailure (.ofAnalysis a) = .ok out) :
    finishAnalyze v clock r records tree source =
      .finished (if a.isFailure then Exit.lexicalError else Exit.success) out.1
        (Log.text v (records ++ analysisRecords source
          (Scan.drain ⟨.ofFlags r.strict r.rejectUnrecognized, r.file⟩ source) a) ++ out.2)
        tree := by
  unfold finishAnalyze
  dsimp only
  rw [ha, hout]

/-- Nothing that comes after the copy stops a run. -/
theorem exists_finish (v : Log.Verbosity) (clock : Clock) (records : List Log.Record)
    (source : Text) {after : FileTree} (kept : request.copyPath? = none → after = tree)
    (written : ∀ path, request.copyPath? = some path →
      ∃ l, tree.place (.ofText path) = .ok l ∧ tree.Written after l (Utf8.encode source)) :
    ∃ exit stdout stderr,
      request.finish v clock records after source = .finished exit stdout stderr after ∧
        exit ≠ Exit.ioError ∧ Completes clock request tree source exit stdout after := by
  cases request with
  | copy origin destination =>
    have hfails : ¬ (Request.copy origin destination).Fails clock source := by
      simp [Request.Fails, Request.analysis?]
    refine ⟨Exit.success, "Source code exported successfully!\n".toList, Log.text v records, rfl,
      by decide, kept, written, ?_, ?_, (fun _ _ h => nomatch h), (fun _ h => nomatch h)⟩
    · exact iff_of_false (by decide) hfails
    · exact iff_of_true rfl hfails
  | analyze r =>
    let a := PascalTokens.analyze ⟨.ofFlags r.strict r.rejectUnrecognized, r.file⟩ clock source
    have hfails : (Request.analyze r).Fails clock source ↔ a.isFailure := by
      simp [Request.Fails, Request.analysis?, a]
    have hexit : (if a.isFailure then Exit.lexicalError else Exit.success) ≠ Exit.ioError := by
      split <;> decide
    obtain ⟨out, hout⟩ := exists_printed r.format a.isFailure a
    refine ⟨_, _, _, finishAnalyze_eq v records after rfl hout, hexit, kept, written,
      ?_, ?_, ?_, ?_⟩
    · rw [hfails]
      cases a.isFailure <;> decide
    · rw [hfails]
      cases a.isFailure <;> decide
    · intro r' b hr hformat hb
      obtain rfl := Request.analyze.inj hr
      obtain rfl : a = b := Option.some.inj hb
      rw [hformat] at hout
      exact stdout_of_printed_json hout
    · intro r' hr hformat hf
      obtain rfl := Request.analyze.inj hr
      rw [hformat, hfails.1 hf] at hout
      exact stdout_of_printed_table hout

/-- With a text to go on with, a run is stopped if the copy cannot be written, and else it does all
that is asked for. -/
theorem carryOut_ok (clock : Clock) (v : Log.Verbosity) (source : Text)
    (hcopy : ∀ path ∈ request.copyPath?, '\x00' ∉ path) :
    (¬ Accepts tree request ∧ ∃ e,
      carryOut v tree (.ok source) request.copyPath? (request.finish v clock) =
        stopped v (failureRecords (.file e)) tree (.source (.file e))) ∨
    (Accepts tree request ∧ ∃ exit stdout stderr after,
      carryOut v tree (.ok source) request.copyPath? (request.finish v clock) =
        .finished exit stdout stderr after ∧
      exit ≠ Exit.ioError ∧ Completes clock request tree source exit stdout after) := by
  unfold carryOut
  dsimp only
  cases hpath : request.copyPath? with
  | none =>
    have hnone : ∀ path, request.copyPath? = some path →
        ∃ l, tree.place (.ofText path) = .ok l ∧ tree.Written tree l (Utf8.encode source) := by
      simp [hpath]
    obtain ⟨exit, stdout, stderr, hfinish, hexit, hdone⟩ :=
      exists_finish v clock [] source (fun _ => rfl) hnone
    exact .inr ⟨by simp [Accepts, hpath], exit, stdout, stderr, tree, hfinish, hexit, hdone⟩
  | some path =>
    have hcopies : Copies tree source path (writeSource tree source path) :=
      copies (hcopy path hpath)
    dsimp only
    generalize writeSource tree source path = out at hcopies ⊢
    cases hcopies with
    | written l hplace =>
      have hkept : request.copyPath? = none → tree.put l (Utf8.encode source) = tree := by
        simp [hpath]
      have hwritten : ∀ path, request.copyPath? = some path →
          ∃ m, tree.place (.ofText path) = .ok m ∧
            tree.Written (tree.put l (Utf8.encode source)) m (Utf8.encode source) := by
        simpa [hpath] using ⟨l, hplace, tree.written_put l (Utf8.encode source)⟩
      obtain ⟨exit, stdout, stderr, hfinish, hexit, hdone⟩ :=
        exists_finish v clock [savedRecord source (.ofText path)] source hkept hwritten
      exact .inr ⟨by simpa [Accepts, hpath] using ⟨l, hplace⟩, exit, stdout, stderr, _, hfinish,
        hexit, hdone⟩
    | failed e hplace => exact .inl ⟨by simpa [Accepts, hpath] using hplace, e, rfl⟩

theorem LacksDestination.run_eq (h : LacksDestination tree stdin request)
    (hsource : ∀ path ∈ request.sourcePath?, '\x00' ∉ path) (clock : Clock) (v : Log.Verbosity) :
    run clock ⟨v, request⟩ tree stdin = .interrupted .noDestination tree := by
  obtain ⟨path, source, rfl, hsupplies⟩ := h
  exact run_copy_none clock v (hsupplies.read_eq hsource)

/-- A text without a path to copy it to interrupts the run. Every other run ends with a status. It is
stopped exactly when its text cannot be read or its copy cannot be written, and then it has changed
and printed nothing. Otherwise the text stands in the copy, be that the source file itself, and
nothing else is changed; the status tells whether the analysis has failed; and standard output gets
the whole report as JSON, or no table of a failure. -/
theorem run_outcome (clock : Clock) (v : Log.Verbosity) (request : Request) (tree : FileTree)
    (stdin : StandardInput) (hsource : ∀ path ∈ request.sourcePath?, '\x00' ∉ path)
    (hcopy : ∀ path ∈ request.copyPath?, '\x00' ∉ path)
    (hstdin : ∃ raw, Utf8.decode stdin.bytes = .ok raw) :
    let out := run clock ⟨v, request⟩ tree stdin
    (LacksDestination tree stdin request → out = .interrupted .noDestination tree) ∧
    (¬ LacksDestination tree stdin request → ∃ exit stdout stderr after,
      out = .finished exit stdout stderr after ∧
      (exit = Exit.ioError ↔
        (∀ source, ¬ Supplies tree stdin request source) ∨ ¬ Accepts tree request) ∧
      (exit = Exit.ioError → stdout = [] ∧ after = tree) ∧
      (exit ≠ Exit.ioError → ∃ source, Supplies tree stdin request source ∧
        Completes clock request tree source exit stdout after)) := by
  intro out
  refine ⟨fun hlacks => hlacks.run_eq hsource clock v, fun hlacks => ?_⟩
  have hreads : Reads tree stdin request (request.read tree stdin) :=
    reads hsource fun _ => hstdin
  have hrun : out = carryOut v tree (request.read tree stdin) request.copyPath?
      (request.finish v clock) :=
    run_eq_carryOut clock v request tree stdin fun path hnone text htext =>
      hlacks ⟨path, text, hnone, hreads.supplies htext⟩
  rw [hrun]
  generalize request.read tree stdin = read at hreads ⊢
  cases hreads with
  | failed e hnone =>
    exact ⟨Exit.ioError, [], _, tree, rfl, iff_of_true rfl (.inl hnone), fun _ => ⟨rfl, rfl⟩,
      fun hne => absurd rfl hne⟩
  | supplied source hsupplies =>
    rcases carryOut_ok clock v source hcopy with
      ⟨hrefused, e, hstopped⟩ | ⟨haccepts, exit, stdout, stderr, after, hrun, hexit, hdone⟩
    · exact ⟨Exit.ioError, [], _, tree, hstopped, iff_of_true rfl (.inr hrefused),
        fun _ => ⟨rfl, rfl⟩, fun hne => absurd rfl hne⟩
    · refine ⟨exit, stdout, stderr, after, hrun, iff_of_false hexit ?_,
        fun h => absurd h hexit, fun _ => ⟨source, hsupplies, hdone⟩⟩
      rintro (hnone | hrefused)
      · exact hnone source hsupplies
      · exact hrefused haccepts

/-- A source is copied onto itself, and then a word of it is rejected. -/
theorem run_outcome_rejected :
    let tree : FileTree := ⟨[], [(["a".toList], Utf8.encode "x\r$".toList)]⟩
    let r : AnalyzeRequest :=
      { file := some "a".toList, rejectUnrecognized := true, exportTo := some "./a".toList }
    ∃ stderr after,
      run .still ⟨.standard, .analyze r⟩ tree ⟨[], .kept⟩ =
        .finished Exit.lexicalError [] stderr after ∧
      after.contents? ["a".toList] = some (Utf8.encode "x\n$\n".toList) := by
  intro tree r
  have hlacks : ¬ LacksDestination tree ⟨[], .kept⟩ (.analyze r) := by
    rintro ⟨path, source, hcopy, -⟩
    exact Request.noConfusion hcopy
  obtain ⟨exit, stdout, stderr, after, hrun, hstopped, -, hdone⟩ :=
    (run_outcome .still .standard (.analyze r) tree ⟨[], .kept⟩
      (by rintro path ⟨⟩; decide) (by rintro path ⟨⟩; decide) ⟨[], rfl⟩).2 hlacks
  have hsupplies : Supplies tree ⟨[], .kept⟩ (.analyze r) "x\n$\n".toList :=
    ⟨Utf8.encode "x\r$".toList, "x\r$".toList, rfl, rfl, rfl⟩
  have hplace : tree.place (.ofText "./a".toList) = .ok ["a".toList] := rfl
  have haccepts : Accepts tree (.analyze r) := by
    intro path hpath
    obtain rfl : "./a".toList = path := Option.some.inj hpath
    exact ⟨_, hplace⟩
  have hexit : exit ≠ Exit.ioError := fun h =>
    (hstopped.1 h).elim (fun hnone => hnone _ hsupplies) (fun hrefused => hrefused haccepts)
  obtain ⟨source, hsource, hcompletes⟩ := hdone hexit
  obtain rfl := hsource.eq hsupplies
  have hfails : (Request.analyze r).Fails .still "x\n$\n".toList := ⟨_, rfl, by decide⟩
  obtain ⟨l, hl, hwritten⟩ := hcompletes.written "./a".toList rfl
  obtain rfl := Except.ok.inj (hplace.symm.trans hl)
  obtain rfl := hcompletes.lexicalError_iff.2 hfails
  obtain rfl := hcompletes.table r rfl rfl hfails
  refine ⟨stderr, after, hrun, ?_⟩
  rw [hwritten.contents?_eq, if_pos rfl]

-- The copy of standard input has the line endings that the stream keeps.
example :
    (run .still ⟨.standard, .analyze { exportTo := some "out".toList }⟩ ⟨[], []⟩
      ⟨Utf8.encode "a\r\nb".toList, .kept⟩).tree.contents? ["out".toList] =
        some (Utf8.encode "a\r\nb".toList) := by
  rfl

/-- Where a pair of dashes stands for the destination, nothing is handed over as one, and the run
ends without a status once the source has been read. -/
theorem run_export_dashes :
    let tree : FileTree := ⟨[], [(["a".toList], Utf8.encode ['x'])]⟩
    let arguments := ["export", "a", "--", "--"].map String.toList
    ∃ invocation, Invocation.ofArguments arguments = .ok invocation ∧
      (∀ path ∈ invocation.request.sourcePath?, '\x00' ∉ path) ∧
      (∀ path ∈ invocation.request.copyPath?, '\x00' ∉ path) ∧ Utf8.decode [] = .ok [] ∧
      ∀ exit stdout stderr after,
        run .still invocation tree ⟨[], .kept⟩ ≠ .finished exit stdout stderr after := by
  intro tree arguments
  refine ⟨⟨.standard, .copy "a".toList none⟩, rfl, ?_, nofun, rfl, ?_⟩
  · rintro path ⟨⟩
    decide
  · intro exit stdout stderr after h
    have hrun : run .still ⟨.standard, .copy "a".toList none⟩ tree ⟨[], .kept⟩ =
        .interrupted .noDestination tree := rfl
    exact absurd (hrun.symm.trans h) nofun

end Run

end Command

end PascalTokens
