import PascalTokens.Proofs.Command.Outcome

/-!
# The status of a run

A run ends with one of three statuses. A file that cannot be opened or decoded is reported with a
status of its own. The same is not done for standard input, nor for a path that no file can have,
nor where there is nothing to copy to: these interrupt the run, and it ends without a status.

## Main definitions

* `Unforeseen` lists what a run has no status for.

## Main statements

* `run_status`: a run ends with a status, unless something unforeseen comes up.
* `run_undecodable`: standard input that is not UTF-8 is unforeseen.
-/

namespace PascalTokens

namespace Command

/-- What a run has no status for: standard input that is not UTF-8, a path that no file can have,
and no path at all where a text is to be copied. -/
inductive Unforeseen (tree : FileTree) (stdin : StandardInput) (request : Request) : Prop where
  | input (hpath : request.sourcePath? = none) (hstdin : ∀ raw, Utf8.decode stdin.bytes ≠ .ok raw)
  | source (path : Text) (hpath : request.sourcePath? = some path) (hnul : '\x00' ∈ path)
  | destination (path text : Text) (hrequest : request = .copy path none)
      (hread : request.read tree stdin = .ok text)
  | copy (path text : Text) (hpath : request.copyPath? = some path) (hnul : '\x00' ∈ path)
      (hread : request.read tree stdin = .ok text)

variable {tree : FileTree} {stdin : StandardInput} {request : Request} {path text : Text}

/-! ## Interruptions -/

theorem readInput_of_undecodable (h : ∀ raw, Utf8.decode stdin.bytes ≠ .ok raw) :
    ∃ fault, readInput stdin = .error (.input fault) := by
  unfold readInput
  cases hdecode : Codec.utf8.decode stdin.bytes with
  | ok raw => exact absurd (Codec.decode_utf8_eq_ok_iff.1 hdecode) (h raw)
  | error fault => exact ⟨fault, rfl⟩

theorem load_of_mem (hnul : '\x00' ∈ path) :
    SourceFile.load tree path fileCodec = .error .nulInPath := by
  rw [SourceFile.load, SourceFile.pathOf_of_mem hnul]
  rfl

theorem writeSource_of_mem (hnul : '\x00' ∈ path) :
    writeSource tree text path = (tree, [], some (.source .nulInPath)) := by
  rw [writeSource, SourceFile.save, SourceFile.pathOf_of_mem hnul]
  rfl

/-- A problem with reading stops a run. -/
theorem run_eq_stopped (clock : Clock) (v : Log.Verbosity) {problem : Problem}
    (hread : request.read tree stdin = .error problem) :
    run clock ⟨v, request⟩ tree stdin = stopped v problem.records tree problem := by
  rw [run_eq_carryOut clock v request tree stdin fun _ _ text htext =>
    absurd (hread.symm.trans htext) nofun, hread]
  rfl

theorem run_of_undecodable (clock : Clock) (v : Log.Verbosity)
    (hpath : request.sourcePath? = none) (hstdin : ∀ raw, Utf8.decode stdin.bytes ≠ .ok raw) :
    ∃ fault, run clock ⟨v, request⟩ tree stdin =
      .interrupted (.undecodableInput fault) tree := by
  obtain ⟨fault, hread⟩ := readInput_of_undecodable hstdin
  exact ⟨fault, run_eq_stopped clock v ((Request.read_of_input hpath).trans hread)⟩

/-- Where something unforeseen comes up, the run ends without a status, and the tree is kept. -/
theorem Unforeseen.exists_interrupted (h : Unforeseen tree stdin request) (clock : Clock)
    (v : Log.Verbosity) :
    ∃ cause, run clock ⟨v, request⟩ tree stdin = .interrupted cause tree := by
  cases h with
  | input hpath hstdin =>
    obtain ⟨fault, hrun⟩ := run_of_undecodable clock v hpath hstdin
    exact ⟨_, hrun⟩
  | source path hpath hnul =>
    have hread : request.read tree stdin = .error (.source .nulInPath) := by
      rw [Request.read_of_path hpath, load_of_mem hnul]
      rfl
    exact ⟨_, run_eq_stopped clock v hread⟩
  | destination path text hrequest hread =>
    subst hrequest
    exact ⟨.noDestination, run_copy_none clock v hread⟩
  | copy path text hpath hnul hread =>
    have hdestination : ∀ other, request = .copy other none →
        ∀ text, request.read tree stdin ≠ .ok text := by
      rintro other rfl
      simp [Request.copyPath?] at hpath
    refine ⟨.unusableSource .nulInPath, ?_⟩
    rw [run_eq_carryOut clock v request tree stdin hdestination, hread, hpath, carryOut,
      writeSource_of_mem hnul]
    rfl

/-! ## Statuses -/

/-- Where nothing unforeseen comes up, the run ends with a status. -/
theorem exists_status (h : ¬ Unforeseen tree stdin request) (clock : Clock) (v : Log.Verbosity) :
    ∃ exit stdout stderr after,
      run clock ⟨v, request⟩ tree stdin = .finished exit stdout stderr after ∧
        (exit = Exit.success ∨ exit = Exit.lexicalError ∨ exit = Exit.ioError) := by
  have hsource : ∀ path ∈ request.sourcePath?, '\x00' ∉ path :=
    fun path hpath hnul => h (.source path hpath hnul)
  have hinput (hpath : request.sourcePath? = none) : ∃ raw, Utf8.decode stdin.bytes = .ok raw := by
    by_contra hnone
    exact h (.input hpath fun raw hraw => hnone ⟨raw, hraw⟩)
  have hreads : Reads tree stdin request (request.read tree stdin) := reads hsource hinput
  generalize hread : request.read tree stdin = read at hreads
  cases hreads with
  | failed e hnone => exact ⟨_, _, _, _, run_eq_stopped clock v hread, .inr (.inr rfl)⟩
  | supplied text hsupplies =>
    have hcopy : ∀ path ∈ request.copyPath?, '\x00' ∉ path :=
      fun path hpath hnul => h (.copy path text hpath hnul hread)
    rw [run_eq_carryOut clock v request tree stdin fun path hrequest text htext =>
      h (.destination path text hrequest htext), hread]
    rcases carryOut_ok clock v text hcopy with
      ⟨-, e, hstopped⟩ | ⟨-, exit, stdout, stderr, after, hrun, -, hdone⟩
    · exact ⟨_, _, _, _, hstopped, .inr (.inr rfl)⟩
    · refine ⟨exit, stdout, stderr, after, hrun, ?_⟩
      by_cases hfails : request.Fails clock text
      · exact .inr (.inl (hdone.lexicalError_iff.2 hfails))
      · exact .inl (hdone.success_iff.2 hfails)

/-- A run ends with a status exactly if nothing unforeseen comes up. A file that cannot be opened or
decoded gives an error message and a status, but standard input that cannot be decoded does not. -/
theorem run_status (clock : Clock) (v : Log.Verbosity) (request : Request) (tree : FileTree)
    (stdin : StandardInput) :
    let out := run clock ⟨v, request⟩ tree stdin
    ((∃ exit stdout stderr after, out = .finished exit stdout stderr after ∧
        (exit = Exit.success ∨ exit = Exit.lexicalError ∨ exit = Exit.ioError)) ↔
      ¬ Unforeseen tree stdin request) ∧
    (∀ path, request.sourcePath? = some path → '\x00' ∉ path →
      (∀ source, ¬ Supplies tree stdin request source) →
        ∃ records e, out = .finished Exit.ioError []
          (Log.text v records ++ "Error: ".toList ++ SourceFile.Error.message e ++ ['\n']) tree) ∧
    (request.sourcePath? = none → (∀ source, ¬ Supplies tree stdin request source) →
      ∃ fault, out = .interrupted (.undecodableInput fault) tree) := by
  intro out
  refine ⟨⟨?_, fun h => exists_status h clock v⟩, fun path hpath hnul hnone => ?_,
    fun hpath hnone => ?_⟩
  · rintro ⟨exit, stdout, stderr, after, hfinished, -⟩ hunforeseen
    obtain ⟨cause, hinterrupted⟩ := hunforeseen.exists_interrupted clock v
    exact absurd (hfinished.symm.trans hinterrupted) nofun
  · have hreads : Reads tree stdin request (request.read tree stdin) := by
      rw [Request.read_of_path hpath]
      exact .of_load hpath hnul
    generalize hread : request.read tree stdin = read at hreads
    cases hreads with
    | supplied source hsupplies => exact absurd hsupplies (hnone source)
    | failed e => exact ⟨_, e, run_eq_stopped clock v hread⟩
  · refine run_of_undecodable clock v hpath fun raw hraw => hnone (stdin.newlines.apply raw) ?_
    rw [Supplies, hpath]
    exact ⟨raw, hraw, rfl⟩

/-- Standard input that is not UTF-8 leaves an analysis without a status. -/
theorem run_undecodable :
    ∃ invocation, Invocation.ofArguments ["analyze".toList] = .ok invocation ∧
      ∀ exit stdout stderr after,
        run .still invocation ⟨[], []⟩ ⟨[0xFF], .kept⟩ ≠ .finished exit stdout stderr after := by
  refine ⟨⟨.standard, .analyze {}⟩, rfl, fun exit stdout stderr after h => ?_⟩
  have hrun : run .still ⟨.standard, .analyze {}⟩ ⟨[], []⟩ ⟨[0xFF], .kept⟩ =
      .interrupted (.undecodableInput
        ⟨.utf8, 0xFF, 0, 1, "invalid start byte".toList⟩) ⟨[], []⟩ := rfl
  exact absurd (hrun.symm.trans h) nofun

end Command

end PascalTokens
