import PascalTokens.Batch
import PascalTokens.Proofs.Profile

/-!
# A batch does not depend on its schedule

What becomes of a worker depends on its own moves only, and at any moment the shared counters have
been charged for the workers that have made their record. So every schedule that lets all workers
finish ends in one and the same state.

## Main definitions

* `Batch.Interleaves` says of a schedule that every worker makes its two moves in it.
* `Batch.recorded` are the charges of the workers that have made their record.

## Main statements

* `Batch.counters_run`: the counters after any schedule.
* `Batch.run_interleaving`: the state after a schedule that lets all workers finish.
* `Batch.analyzeAll_eq`: the results and the counters of a batch.
-/

namespace PascalTokens

namespace Batch

def Move.worker : Move → Nat
  | analyze worker => worker
  | record worker => worker

/-- Each of `n` workers makes its two moves once and in their order; otherwise the moves may come in
any order. -/
def Interleaves (n : Nat) (schedule : List Move) : Prop :=
  ∀ i < n, schedule.filter (·.worker = i) = [.analyze i, .record i]

/-- The analysis of one source of a batch. -/
def analysis (b : Batch) (source : Text) : Analysis :=
  PascalTokens.analyze ⟨b.config, none⟩ .still source

def charges (b : Batch) : List Charge :=
  b.sources.map fun source => .ofAnalysis source (b.analysis source)

/-- The charges of the workers that have made their record. -/
def recorded : List Text → List Progress → List Charge
  | source :: sources, .recorded a :: workers => .ofAnalysis source a :: recorded sources workers
  | _ :: sources, _ :: workers => recorded sources workers
  | _, _ => []

/-- What one of its own moves makes of a worker whose analysis is `a`. -/
def Progress.move (a : Analysis) : Progress → Move → Progress
  | .waiting, .analyze _ => .analyzed a
  | .analyzed a, .record _ => .recorded a
  | p, _ => p

variable (b : Batch)

/-! ## Each worker by itself -/

theorem workers_step_of_ne (s : State) {m : Move} {i : Nat} (hm : m.worker ≠ i) :
    (b.step s m).workers[i]? = s.workers[i]? := by
  unfold step
  cases m with
  | analyze worker =>
    dsimp only
    split
    · exact List.getElem?_set_ne hm
    · rfl
  | record worker =>
    dsimp only
    split
    · exact List.getElem?_set_ne hm
    · rfl

theorem workers_step_self (s : State) (m : Move) {source : Text}
    (hsource : b.sources[m.worker]? = some source) :
    (b.step s m).workers[m.worker]? =
      s.workers[m.worker]?.map fun p => p.move (b.analysis source) m := by
  cases m with
  | analyze worker =>
    simp only [Move.worker] at hsource ⊢
    simp only [step, hsource]
    cases hp : s.workers[worker]? with
    | none => simpa using hp
    | some p =>
      have hworker : worker < s.workers.length := (List.getElem?_eq_some_iff.1 hp).1
      cases p with
      | waiting => simp [hworker, Progress.move, analysis]
      | analyzed a => simp [hp, Progress.move]
      | recorded a => simp [hp, Progress.move]
  | record worker =>
    simp only [Move.worker] at hsource ⊢
    simp only [step, hsource]
    cases hp : s.workers[worker]? with
    | none => simpa using hp
    | some p =>
      have hworker : worker < s.workers.length := (List.getElem?_eq_some_iff.1 hp).1
      cases p with
      | waiting => simp [hp, Progress.move]
      | analyzed a => simp [hworker, Progress.move]
      | recorded a => simp [hp, Progress.move]

theorem workers_run (s : State) (schedule : List Move) (i : Nat) {source : Text}
    (hsource : b.sources[i]? = some source) :
    (b.run s schedule).workers[i]? =
      s.workers[i]?.map fun p =>
        (schedule.filter (·.worker = i)).foldl (Progress.move (b.analysis source)) p := by
  induction schedule generalizing s with
  | nil => simp [run]
  | cons m schedule ih =>
    have hrun : b.run s (m :: schedule) = b.run (b.step s m) schedule := rfl
    rw [hrun, ih]
    by_cases hm : m.worker = i
    · subst hm
      simp [workers_step_self b s m hsource, Function.comp_def]
    · simp [workers_step_of_ne b s hm, hm]

theorem length_workers_step (s : State) (m : Move) :
    (b.step s m).workers.length = s.workers.length := by
  unfold step
  cases m with
  | analyze worker => dsimp only; split <;> simp
  | record worker => dsimp only; split <;> simp

theorem length_workers_run (s : State) (schedule : List Move) :
    (b.run s schedule).workers.length = s.workers.length := by
  induction schedule generalizing s with
  | nil => rfl
  | cons m schedule ih => exact (ih (b.step s m)).trans (length_workers_step b s m)

/-! ## The shared counters -/

theorem recorded_waiting (sources : List Text) :
    recorded sources (sources.map fun _ => .waiting) = [] := by
  induction sources with
  | nil => rfl
  | cons source sources ih => simpa [recorded] using ih

theorem recorded_set_analyzed {sources : List Text} {workers : List Progress} {i : Nat}
    (a : Analysis) (h : workers[i]? = some .waiting) :
    recorded sources (workers.set i (.analyzed a)) = recorded sources workers := by
  induction sources generalizing workers i with
  | nil => simp [recorded]
  | cons source sources ih =>
    cases workers with
    | nil => simp at h
    | cons p workers =>
      cases i with
      | zero =>
        obtain rfl : p = .waiting := by simpa using h
        simp [recorded]
      | succ i =>
        have htail := ih (by simpa using h)
        cases p <;> simp [recorded, htail]

theorem recorded_set_recorded {sources : List Text} {workers : List Progress} {i : Nat}
    {source : Text} {a : Analysis} (hsource : sources[i]? = some source)
    (h : workers[i]? = some (.analyzed a)) :
    (recorded sources (workers.set i (.recorded a))).Perm
      (.ofAnalysis source a :: recorded sources workers) := by
  induction sources generalizing workers i with
  | nil => simp at hsource
  | cons first sources ih =>
    cases workers with
    | nil => simp at h
    | cons p workers =>
      cases i with
      | zero =>
        obtain rfl : p = .analyzed a := by simpa using h
        obtain rfl : first = source := by simpa using hsource
        simp [recorded]
      | succ i =>
        have htail := ih (by simpa using hsource) (by simpa using h)
        cases p with
        | waiting => simpa [recorded] using htail
        | analyzed a' => simpa [recorded] using htail
        | recorded a' =>
          simpa [recorded] using (htail.cons _).trans (List.Perm.swap _ _ _)

/-- The counters have been charged for the workers that have made their record, on top of `c`. -/
def Accounted (c : Counters) (s : State) : Prop :=
  s.counters = c.chargeAll (recorded b.sources s.workers)

theorem accounted_initial (c : Counters) : b.Accounted c (b.initial c) := by
  have hrecorded := recorded_waiting b.sources
  unfold Accounted initial
  rw [hrecorded]
  rfl

theorem Accounted.step {c : Counters} {s : State} (h : b.Accounted c s) (m : Move) :
    b.Accounted c (b.step s m) := by
  unfold Accounted Batch.step at *
  cases m with
  | analyze worker =>
    dsimp only
    split
    · next source hsource hworker => rw [recorded_set_analyzed _ hworker, h]
    · exact h
  | record worker =>
    dsimp only
    split
    · next source a hsource hworker =>
      have hrecorded := recorded_set_recorded hsource hworker
      rw [Counters.chargeAll_perm c hrecorded, ← Counters.charge_chargeAll, ← h,
        Counters.recordAnalysis_eq_charge]
    · exact h

/-- After any schedule, the counters have been charged for the workers that have finished. -/
theorem counters_run (c : Counters) (schedule : List Move) :
    (b.run (b.initial c) schedule).counters =
      c.chargeAll (recorded b.sources (b.run (b.initial c) schedule).workers) := by
  have hkept (s : State) (h : b.Accounted c s) : b.Accounted c (b.run s schedule) := by
    induction schedule generalizing s with
    | nil => exact h
    | cons m schedule ih => exact ih (b.step s m) (h.step b m)
  exact hkept (b.initial c) (b.accounted_initial c)

/-! ## When all workers have finished -/

theorem recorded_map_recorded (sources : List Text) (f : Text → Analysis) :
    recorded sources (sources.map fun source => .recorded (f source)) =
      sources.map fun source => .ofAnalysis source (f source) := by
  induction sources with
  | nil => rfl
  | cons source sources ih => simpa [recorded] using ih

/-- Every schedule that lets all workers finish ends in the same state. -/
theorem run_interleaving (c : Counters) {schedule : List Move}
    (h : Interleaves b.sources.length schedule) :
    b.run (b.initial c) schedule =
      ⟨b.sources.map fun source => .recorded (b.analysis source), c.chargeAll b.charges⟩ := by
  have hworkers : (b.run (b.initial c) schedule).workers =
      b.sources.map fun source => .recorded (b.analysis source) := by
    apply List.ext_getElem?
    intro i
    cases hsource : b.sources[i]? with
    | none =>
      have hlength : b.sources.length ≤ i := List.getElem?_eq_none_iff.1 hsource
      simp [hlength, length_workers_run, initial]
    | some source =>
      have hi : i < b.sources.length := (List.getElem?_eq_some_iff.1 hsource).1
      have hstart : (b.initial c).workers[i]? = some .waiting := by
        simp [initial, hi]
      rw [workers_run b _ schedule i hsource, h i hi, hstart]
      simp [hsource, Progress.move]
  have hcounters := counters_run b c schedule
  rw [hworkers, recorded_map_recorded] at hcounters
  exact congrArg₂ State.mk hworkers hcounters

theorem interleaves_inOrder : Interleaves b.sources.length b.inOrder := by
  unfold Interleaves inOrder
  generalize b.sources.length = n
  induction n with
  | zero => exact fun i hi => absurd hi (Nat.not_lt_zero i)
  | succ n ih =>
    intro i hi
    rw [List.range_succ, List.flatMap_append, List.filter_append]
    by_cases hin : i < n
    · have hne : n ≠ i := by omega
      rw [ih i hin]
      simp [Move.worker, hne]
    · obtain rfl : i = n := by omega
      have hbefore : ((List.range i).flatMap fun worker =>
          [Move.analyze worker, .record worker]).filter (·.worker = i) = [] := by
        rw [List.filter_eq_nil_iff]
        intro m hm
        obtain ⟨worker, hworker, hm⟩ := List.mem_flatMap.1 hm
        have hlt : worker < i := List.mem_range.1 hworker
        have hself : m.worker = worker := by
          have hmoves : m = .analyze worker ∨ m = .record worker := by simpa using hm
          rcases hmoves with rfl | rfl <;> rfl
        simp only [hself, decide_eq_true_eq]
        omega
      rw [hbefore]
      simp [Move.worker]

/-- The results and counters of a batch. -/
theorem analyzeAll_eq (c : Counters) :
    b.analyzeAll c = (b.sources.map b.analysis, c.chargeAll b.charges) := by
  unfold analyzeAll
  rw [run_interleaving b c b.interleaves_inOrder]
  simp [Progress.result?, List.filterMap_map, Function.comp_def]

end Batch

end PascalTokens
