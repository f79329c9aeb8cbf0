import PascalTokens.Proofs.Batch
import PascalTokens.Session.Run

/-!
# Work given to workers

A batch answers what analysing its sources one after the other answers, and charges the current
profile the same, in whatever order its workers move. An analysis on a worker is an analysis in
place. A named analyzer does all of this with its own options, whatever the ambient ones are.

## Main definitions

* `analyzeEach` analyses sources in turn.
* `analyzeScheduled` analyses a batch whose workers move in a given order.

## Main statements

* `analyzeScheduled_eq`: a batch does the same in whatever order its workers move.
* `analyzeMany_eq_analyzeEach`: all ways to analyse agree.
-/

namespace PascalTokens

namespace Session

/-! ## Charging the current profile -/

section Charge

variable (s : Session) (f g : Counters → Counters)

@[simp] theorem effective_charge (config : Option Config) :
    (s.charge f).effective config = s.effective config := rfl

theorem Store.update_update (t : Store) (profile : Option Nat) :
    (t.update profile f).update profile g = t.update profile (g ∘ f) := by
  cases profile with
  | none => rfl
  | some i => simp [update, List.modify_modify_eq]

theorem charge_charge : (s.charge f).charge g = s.charge (g ∘ f) := by
  simp [charge, Store.update_update]

theorem charge_id : s.charge id = s := by
  unfold charge Store.update
  cases s.context.profile <;> simp

end Charge

/-! ## One after the other -/

/-- Analyse sources in turn, with what each analysis answers. -/
def analyzeEach (s : Session) (config : Option Config) : List Text → Session × List Reply
  | [] => (s, [])
  | source :: rest =>
    let (s, reply) := s.step (.analyze ⟨source, none⟩ config)
    let (s, replies) := s.analyzeEach config rest
    (s, reply :: replies)

/-- Analyse a batch whose workers move in the given order. -/
def analyzeScheduled (s : Session) (b : Batch) (schedule : List Batch.Move) : Session × Reply :=
  (s.charge fun c => (b.run (b.initial c) schedule).counters,
    .batch ((b.run (b.initial {}) schedule).workers.filterMap Batch.Progress.result?))

variable (s : Session)

theorem analyzeEach_eq (config : Option Config) (sources : List Text) :
    s.analyzeEach config sources =
      let b : Batch := ⟨s.effective config, sources⟩
      (s.charge (·.chargeAll b.charges), (sources.map b.analysis).map .analyzed) := by
  induction sources generalizing s with
  | nil => exact congrArg (·, []) s.charge_id.symm
  | cons source rest ih =>
    have hfirst : s.step (.analyze ⟨source, none⟩ config) =
        s.analyzeJob (s.effective config) ⟨source, none⟩ := by rw [step]
    simp only [analyzeEach, hfirst, analyzeJob, ih, effective_charge, charge_charge]
    rfl

theorem analyzeScheduled_eq (b : Batch) {schedule : List Batch.Move}
    (h : Batch.Interleaves b.sources.length schedule) :
    s.analyzeScheduled b schedule =
      (s.charge (·.chargeAll b.charges), .batch (b.sources.map b.analysis)) := by
  unfold analyzeScheduled
  simp [Batch.run_interleaving b _ h, Batch.Progress.result?, List.filterMap_map, Function.comp_def]

theorem analyzeBatch_eq (b : Batch) (workers : Option Int) :
    s.analyzeBatch b workers =
      if workers.any (· ≤ 0) then (s, .tooFewWorkers)
      else s.analyzeScheduled b b.inOrder := rfl

theorem analyzeAside_eq (config : Option Config) (job : Job) :
    s.analyzeAside config job = s.analyzeJob (s.effective config) job := rfl

theorem withAnalyzer_eq {name : Text} {bound : Config} (run : Config → Session × Reply)
    (h : s.store.analyzer? name = some bound) : s.withAnalyzer name run = run bound := by
  simp [withAnalyzer, h]

/-- Every order in which the workers of a batch move gives the results of analysing its sources in
turn, charges the current profile the same, and leaves the context as it was. Without room for a
worker nothing happens. An analysis on a worker is one in place, and a named analyzer does the same
as an analysis with the options it was bound to. -/
theorem analyzeMany_eq_analyzeEach (sources : List Text) (config : Option Config)
    (workers : Option Int) (job : Job) :
    let b : Batch := ⟨s.effective config, sources⟩
    let results := sources.map b.analysis
    let each := s.analyzeEach config sources
    (each.2 = results.map .analyzed ∧
      (∀ schedule, Batch.Interleaves sources.length schedule →
        s.analyzeScheduled b schedule = (each.1, .batch results)) ∧
      each.1.context = s.context ∧ each.1.blocks = s.blocks) ∧
    s.step (.analyzeMany sources config workers) =
      (if workers.any (· ≤ 0) then (s, .tooFewWorkers) else (each.1, .batch results)) ∧
    s.step (.analyzeAsync job config) = s.step (.analyze job config) ∧
    (∀ name bound, s.store.analyzer? name = some bound →
      let inPlace := s.step (.analyze job (some bound))
      s.step (.call name job) = inPlace ∧ s.step (.callAsync name job) = inPlace ∧
        s.step (.callMany name sources workers) =
          s.step (.analyzeMany sources (some bound) workers)) ∧
    ∀ name given, (s.step (.bind name given)).1.store.analyzer? name =
      some (given.getD .permissive) := by
  intro b results each
  have heach : each = (s.charge (·.chargeAll b.charges), results.map .analyzed) :=
    s.analyzeEach_eq config sources
  have hscheduled (schedule : List Batch.Move)
      (h : Batch.Interleaves sources.length schedule) :
      s.analyzeScheduled b schedule = (each.1, .batch results) := by
    rw [s.analyzeScheduled_eq b h, heach]
  refine ⟨⟨by rw [heach], hscheduled, by rw [heach]; rfl, by rw [heach]; rfl⟩, ?_, ?_, ?_, ?_⟩
  · rw [step, analyzeBatch_eq, hscheduled _ b.interleaves_inOrder]
  · rw [step, step, analyzeAside_eq]
  · intro name bound hbound inPlace
    have hinPlace : inPlace = s.analyzeJob bound job := by
      simp only [inPlace, step]
      rfl
    have hmany : s.step (.analyzeMany sources (some bound) workers) =
        s.analyzeBatch ⟨bound, sources⟩ workers := by
      rw [step]
      rfl
    refine ⟨?_, ?_, ?_⟩
    · rw [step, withAnalyzer_eq s _ hbound, hinPlace]
    · rw [step, withAnalyzer_eq s _ hbound, hinPlace]
      rfl
    · rw [hmany, step, withAnalyzer_eq s _ hbound]
  · intro name given
    simp [step, Store.analyzer?]

/-- Two workers that both analyse before either makes its record, under strict ambient options. -/
theorem analyzeMany_eq_analyzeEach_crossed :
    let s : Session := {
      context := ⟨.ofFlags true false, some 0⟩
      store := ⟨[{}], [("lax".toList, .permissive)]⟩ }
    let sources := ["x y".toList, "'a".toList]
    let schedule : List Batch.Move := [.analyze 1, .analyze 0, .record 1, .record 0]
    let b : Batch := ⟨.ofFlags true false, sources⟩
    let t : Session := { s with store := { s.store with profiles := [⟨5, 2, 2, 1⟩] } }
    Batch.Interleaves 2 schedule ∧
      s.store.analyzer? "lax".toList = some .permissive ∧
      (s.analyzeScheduled b schedule).1 = t ∧
      s.step (.analyzeMany sources none (some 2)) = (t, .batch (sources.map b.analysis)) ∧
      s.step (.callMany "lax".toList sources (some 2)) =
        s.step (.analyzeMany sources (some .permissive) (some 2)) := by
  intro s sources schedule b t
  have hschedule : Batch.Interleaves 2 schedule := by
    intro i hi
    obtain rfl | rfl : i = 0 ∨ i = 1 := by omega
    · decide
    · decide
  have hcharges : b.charges = [⟨3, 2, false⟩, ⟨2, 0, true⟩] := by decide
  have heach : (s.analyzeEach none sources).1 = t := by
    have hsession := congrArg Prod.fst (s.analyzeEach_eq none sources)
    have hcharge : (s.charge (·.chargeAll b.charges)) = t := by
      rw [hcharges]
      rfl
    exact hsession.trans hcharge
  have hbound : s.store.analyzer? "lax".toList = some .permissive := rfl
  obtain ⟨⟨-, hschedules, -, -⟩, hmany, -, hnamed, -⟩ :=
    s.analyzeMany_eq_analyzeEach sources none (some 2) ⟨[], none⟩
  have hscheduled := hschedules schedule hschedule
  obtain ⟨-, -, hcallMany⟩ := hnamed "lax".toList .permissive hbound
  rw [heach] at hscheduled hmany
  exact ⟨hschedule, hbound, congrArg Prod.fst hscheduled, hmany, hcallMany⟩

end Session

end PascalTokens
