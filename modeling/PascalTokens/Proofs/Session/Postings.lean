import Mathlib.Data.List.Nodup
import PascalTokens.Proofs.Session.Scopes
import PascalTokens.Proofs.Session.Workers

/-!
# Every analysis is charged once

The replies of a session tell which analyses it has made and which records it has taken. Each of
them is posted to the profile that was current where it was made, and at every moment of a run the
counters of a profile are the sums over its postings, no more and no less.

## Main definitions

* `Step.charges` reads the charges of a step off its reply, and `postings` says whom they are for.
* `Passes` relates a moment of a run to a later one, also within copies and threads.

## Main statements

* `Ledger.passes`: the profiles of a session agree with what has been posted, at every moment.
* `profiles_step_of_ne`: a step leaves the profiles alone that are not current.
* `counters_eq_total`: what the counters of a profile are, and what never counts for it.
-/

namespace PascalTokens

namespace Session

/-! ## What is posted to whom -/

/-- The charges of a step that gets this reply, as far as they are its own. -/
def Step.charges : Step → Reply → List Charge
  | .record sourceLength tokenCount failed, .done => [⟨sourceLength, tokenCount, failed⟩]
  | .analyze job _, .analyzed a => [.ofAnalysis job.source a]
  | .analyzeAsync job _, .analyzed a => [.ofAnalysis job.source a]
  | .call _ job, .analyzed a => [.ofAnalysis job.source a]
  | .callAsync _ job, .analyzed a => [.ofAnalysis job.source a]
  | .analyzeMany sources _ _, .batch results => List.zipWith .ofAnalysis sources results
  | .callMany _ sources _, .batch results => List.zipWith .ofAnalysis sources results
  | _, _ => []

/-- A charge, with the profile that was current where it arose. -/
structure Posting where
  profile : Option Nat
  charge : Charge
  deriving DecidableEq, Repr

/-- Charges that arise where this profile is current. -/
def postTo (profile : Option Nat) (xs : List Charge) : List Posting := xs.map (⟨profile, ·⟩)

/-- The charges to profile number `i`. -/
def chargesTo (i : Nat) (log : List Posting) : List Charge :=
  (log.filter (·.profile = some i)).map (·.charge)

mutual

/-- What is posted while a step is carried out. -/
def postings (s : Session) : Step → List Posting
  | .inCopy steps => s.copied.postingsAll steps
  | .inThread steps => s.fresh.postingsAll steps
  | a => postTo s.context.profile (a.charges (s.step a).2)

/-- What is posted while steps are carried out in turn. -/
def postingsAll (s : Session) : List Step → List Posting
  | [] => []
  | first :: rest => s.postings first ++ (s.step first).1.postingsAll rest

end

/-- A session in the middle of a run, and what has been posted so far. -/
structure Moment where
  session : Session
  log : List Posting

/-- While the steps are carried out from the first moment on, the second one is passed. -/
inductive Passes : Moment → List Step → Moment → Prop where
  | here (m : Moment) (steps : List Step) : Passes m steps m
  | ended (m : Moment) : Passes m [] ⟨m.session.exitAll, m.log⟩
  | later {m n : Moment} {first : Step} {rest : List Step}
      (h : Passes ⟨(m.session.step first).1, m.log ++ m.session.postings first⟩ rest n) :
      Passes m (first :: rest) n
  | inCopy {m n : Moment} {steps rest : List Step}
      (h : Passes ⟨m.session.copied, m.log⟩ steps n) : Passes m (.inCopy steps :: rest) n
  | inThread {m n : Moment} {steps rest : List Step}
      (h : Passes ⟨m.session.fresh, m.log⟩ steps n) : Passes m (.inThread steps :: rest) n

/-- The end of a run is one of its moments. -/
theorem Passes.run (m : Moment) (steps : List Step) :
    Passes m steps ⟨(m.session.run steps).1, m.log ++ m.session.postingsAll steps⟩ := by
  induction steps generalizing m with
  | nil => simpa [run_nil, postingsAll] using Passes.ended m
  | cons first rest ih =>
    have hrest := ih ⟨(m.session.step first).1, m.log ++ m.session.postings first⟩
    rw [run_cons, postingsAll, ← List.append_assoc]
    exact .later hrest

/-! ## One step -/

/-- What a step that carries out no further steps does to the profiles: it charges the current one,
or it opens one, or it goes back to an outer one. -/
inductive Effect (s t : Session) : List Posting → Prop where
  | charged (xs : List Charge) (hscopes : t.scopes = s.scopes)
      (hprofiles : t.store.profiles =
        (s.store.update s.context.profile (·.chargeAll xs)).profiles) :
      Effect s t (postTo s.context.profile xs)
  | opened (hscopes : t.scopes = some s.store.profiles.length :: s.scopes)
      (hprofiles : t.store.profiles = s.store.profiles ++ [({} : Counters)]) : Effect s t []
  | closed (hscopes : s.scopes = s.context.profile :: t.scopes)
      (hprofiles : t.store.profiles = s.store.profiles) : Effect s t []

variable {s t : Session}

theorem Effect.of_charge (xs : List Charge) :
    Effect s (s.charge (·.chargeAll xs)) (postTo s.context.profile xs) :=
  .charged xs rfl rfl

/-- A step that neither charges nor enters nor leaves. -/
theorem Effect.of_eq (hscopes : t.scopes = s.scopes)
    (hprofiles : t.store.profiles = s.store.profiles) : Effect s t [] := by
  refine .charged [] hscopes ?_
  rw [hprofiles]
  exact (congrArg (·.store.profiles) s.charge_id).symm

theorem Effect.of_exit? (h : s.exit? = some t) : Effect s t [] := by
  obtain ⟨hstore, hscopes | hscopes⟩ := scopes_exit? h
  · exact .of_eq hscopes (by rw [hstore])
  · exact .closed hscopes (by rw [hstore])

/-- A source of which the result is given is charged. -/
theorem Effect.analyzeJob (s : Session) (config : Config) (job : Job)
    {charges : Reply → List Charge}
    (hcharges : ∀ a, charges (.analyzed a) = [.ofAnalysis job.source a]) :
    Effect s (s.analyzeJob config job).1
      (postTo s.context.profile (charges (s.analyzeJob config job).2)) := by
  have hreply : charges (s.analyzeJob config job).2 = [.ofAnalysis job.source _] := hcharges _
  rw [hreply]
  exact .of_charge [.ofAnalysis job.source _]

/-- Sources of which the results are given as a batch are charged one by one. -/
theorem Effect.analyzeBatch (s : Session) (b : Batch) (workers : Option Int)
    {charges : Reply → List Charge} (hrejected : charges .tooFewWorkers = [])
    (hcharges : ∀ results, charges (.batch results) =
      List.zipWith .ofAnalysis b.sources results) :
    Effect s (s.analyzeBatch b workers).1
      (postTo s.context.profile (charges (s.analyzeBatch b workers).2)) := by
  rw [analyzeBatch_eq]
  split
  · rw [hrejected]
    exact .of_eq rfl rfl
  · have hbatch : List.zipWith Charge.ofAnalysis b.sources (b.sources.map b.analysis) =
        b.charges := by simp [Batch.charges, List.zipWith_map_right, List.zipWith_self]
    rw [s.analyzeScheduled_eq b b.interleaves_inOrder, hcharges, hbatch]
    exact .of_charge b.charges

theorem postings_of_not_isNested (s : Session) {a : Step} (h : ¬ a.IsNested) :
    s.postings a = postTo s.context.profile (a.charges (s.step a).2) := by
  rw [postings]
  · rintro steps rfl
    exact h trivial
  · rintro steps rfl
    exact h trivial

/-- A step that carries out no further steps has one of the three effects. -/
theorem effect (s : Session) {a : Step} (h : ¬ a.IsNested) :
    Effect s (s.step a).1 (s.postings a) := by
  rw [postings_of_not_isNested s h]
  cases a with
  | inCopy steps => exact absurd trivial h
  | inThread steps => exact absurd trivial h
  | set config => rw [step]; exact .of_eq rfl rfl
  | reset => rw [step]; exact .of_eq rfl rfl
  | enterConfig config => rw [step]; exact .of_eq rfl rfl
  | enterProfile => rw [step]; exact .opened rfl rfl
  | bind name config => rw [step]; exact .of_eq rfl rfl
  | lex job config => rw [step]; exact .of_eq rfl rfl
  | exit =>
    rw [step]
    cases hexit : s.exit? with
    | none => exact .of_eq rfl rfl
    | some t => exact .of_exit? hexit
  | exitRaising message =>
    rw [step]
    cases hexit : s.exit? with
    | none => exact .of_eq rfl rfl
    | some t => exact .of_exit? hexit
  | record sourceLength tokenCount failed =>
    rw [step]
    cases hprofile : s.context.profile with
    | none => exact .of_eq rfl rfl
    | some i =>
      have hcharge := Effect.of_charge (s := s) [⟨sourceLength, tokenCount, failed⟩]
      rwa [hprofile] at hcharge
  | analyze job config =>
    rw [step]
    exact .analyzeJob s _ job fun _ => rfl
  | analyzeAsync job config =>
    rw [step, analyzeAside_eq]
    exact .analyzeJob s _ job fun _ => rfl
  | analyzeMany sources config workers =>
    rw [step]
    exact .analyzeBatch s _ workers rfl fun _ => rfl
  | call name job =>
    rw [step, withAnalyzer]
    cases s.store.analyzer? name with
    | none => exact .of_eq rfl rfl
    | some config => exact .analyzeJob s config job fun _ => rfl
  | callAsync name job =>
    rw [step, withAnalyzer]
    cases s.store.analyzer? name with
    | none => exact .of_eq rfl rfl
    | some config => exact .analyzeJob s config job fun _ => rfl
  | callMany name sources workers =>
    rw [step, withAnalyzer]
    cases s.store.analyzer? name with
    | none => exact .of_eq rfl rfl
    | some config => exact .analyzeBatch s _ workers rfl fun _ => rfl

/-! ## The books are in order -/

theorem chargesTo_append (i : Nat) (log others : List Posting) :
    chargesTo i (log ++ others) = chargesTo i log ++ chargesTo i others := by
  simp [chargesTo]

theorem chargesTo_postTo (i : Nat) (profile : Option Nat) (xs : List Charge) :
    chargesTo i (postTo profile xs) = if profile = some i then xs else [] := by
  unfold chargesTo postTo
  split
  · next h => simp [List.filter_map, Function.comp_def, h]
  · next h => simp [List.filter_map, Function.comp_def, h]

theorem Store.length_profiles_update (r : Store) (profile : Option Nat)
    (f : Counters → Counters) : (r.update profile f).profiles.length = r.profiles.length := by
  cases profile with
  | none => rfl
  | some j => exact List.length_modify f r.profiles j

theorem Store.getElem?_profiles_update (r : Store) (profile : Option Nat)
    (f : Counters → Counters) (i : Nat) :
    (r.update profile f).profiles[i]? =
      if profile = some i then r.profiles[i]?.map f else r.profiles[i]? := by
  cases profile with
  | none => rfl
  | some j =>
    by_cases hji : j = i <;> simp [update, hji]

/-- No profile is in force twice, only profiles that exist are in force or have been charged, and
each has the counters that its charges give. -/
structure Ledger (m : Moment) : Prop where
  nodup : m.session.scopes.Nodup
  scopes_lt : ∀ i, some i ∈ m.session.scopes → i < m.session.store.profiles.length
  log_lt : ∀ p ∈ m.log, ∀ i, p.profile = some i → i < m.session.store.profiles.length
  counters_eq : ∀ i c, m.session.store.profiles[i]? = some c →
    c = Counters.total (chargesTo i m.log)

variable {log : List Posting} {ps : List Posting}

theorem Effect.length_le (he : Effect s t ps) :
    s.store.profiles.length ≤ t.store.profiles.length := by
  cases he with
  | charged xs hscopes hprofiles => simp [hprofiles, Store.length_profiles_update]
  | opened hscopes hprofiles => simp [hprofiles]
  | closed hscopes hprofiles => simp [hprofiles]

theorem Ledger.charged (h : Ledger ⟨s, log⟩) (xs : List Charge) (hscopes : t.scopes = s.scopes)
    (hprofiles : t.store.profiles = (s.store.update s.context.profile (·.chargeAll xs)).profiles) :
    Ledger ⟨t, log ++ postTo s.context.profile xs⟩ := by
  have hlength : t.store.profiles.length = s.store.profiles.length := by
    rw [hprofiles, Store.length_profiles_update]
  refine ⟨?_, ?_, ?_, ?_⟩
  · exact hscopes ▸ h.nodup
  · intro i hi
    exact hlength ▸ h.scopes_lt i (hscopes ▸ hi)
  · intro p hp i hi
    refine hlength ▸ ?_
    rcases List.mem_append.1 hp with hp | hp
    · exact h.log_lt p hp i hi
    · obtain ⟨x, -, rfl⟩ := List.mem_map.1 hp
      exact h.scopes_lt i (hi ▸ List.mem_cons_self)
  · intro i c hc
    simp only [hprofiles, Store.getElem?_profiles_update] at hc
    rw [chargesTo_append, chargesTo_postTo]
    split
    · next hi =>
      rw [if_pos hi] at hc
      obtain ⟨before, hbefore, rfl⟩ := Option.map_eq_some_iff.1 hc
      rw [h.counters_eq i before hbefore, Counters.total_append]
    · next hi =>
      rw [List.append_nil]
      rw [if_neg hi] at hc
      exact h.counters_eq i c hc

theorem Ledger.opened (h : Ledger ⟨s, log⟩)
    (hscopes : t.scopes = some s.store.profiles.length :: s.scopes)
    (hprofiles : t.store.profiles = s.store.profiles ++ [({} : Counters)]) : Ledger ⟨t, log⟩ := by
  have hlength : t.store.profiles.length = s.store.profiles.length + 1 := by simp [hprofiles]
  have hnew : some s.store.profiles.length ∉ s.scopes := fun hmem =>
    Nat.lt_irrefl _ (h.scopes_lt _ hmem)
  refine ⟨?_, ?_, ?_, ?_⟩
  · exact hscopes ▸ List.nodup_cons.2 ⟨hnew, h.nodup⟩
  · intro i hi
    refine hlength ▸ Nat.lt_succ_iff.2 ?_
    rcases List.mem_cons.1 (hscopes ▸ hi) with heq | hmem
    · exact Nat.le_of_eq (Option.some.inj heq)
    · exact Nat.le_of_lt (h.scopes_lt i hmem)
  · intro p hp i hi
    exact hlength ▸ Nat.lt_succ_of_lt (h.log_lt p hp i hi)
  · intro i c hc
    simp only [hprofiles, List.getElem?_append] at hc
    split at hc
    · exact h.counters_eq i c hc
    · next hi =>
      -- Nothing has been posted yet to a profile that did not exist before.
      have hnone : chargesTo i log = [] := by
        unfold chargesTo
        rw [List.map_eq_nil_iff, List.filter_eq_nil_iff]
        intro p hp hpi
        exact hi (h.log_lt p hp i (by simpa using hpi))
      rw [hnone]
      have hzero : c = {} := List.mem_singleton.1 (List.mem_of_getElem? hc)
      rw [hzero]
      rfl

theorem Ledger.closed (h : Ledger ⟨s, log⟩) (hscopes : s.scopes = s.context.profile :: t.scopes)
    (hprofiles : t.store.profiles = s.store.profiles) : Ledger ⟨t, log⟩ := by
  refine ⟨?_, ?_, ?_, ?_⟩
  · exact (List.nodup_cons.1 (hscopes ▸ h.nodup)).2
  · intro i hi
    exact hprofiles ▸ h.scopes_lt i (hscopes ▸ List.mem_cons_of_mem _ hi)
  · intro p hp i hi
    exact hprofiles ▸ h.log_lt p hp i hi
  · intro i c hc
    exact h.counters_eq i c (hprofiles ▸ hc)

theorem Ledger.effect (h : Ledger ⟨s, log⟩) (he : Effect s t ps) : Ledger ⟨t, log ++ ps⟩ := by
  cases he with
  | charged xs hscopes hprofiles => exact h.charged xs hscopes hprofiles
  | opened hscopes hprofiles => simpa using h.opened hscopes hprofiles
  | closed hscopes hprofiles => simpa using h.closed hscopes hprofiles

/-! ## In copies and threads, and at the end of a run -/

theorem Ledger.copied (h : Ledger ⟨s, log⟩) : Ledger ⟨s.copied, log⟩ := by
  refine ⟨List.nodup_singleton _, ?_, h.log_lt, h.counters_eq⟩
  intro i hi
  exact h.scopes_lt i (List.mem_singleton.1 hi ▸ List.mem_cons_self)

theorem Ledger.fresh (h : Ledger ⟨s, log⟩) : Ledger ⟨s.fresh, log⟩ := by
  refine ⟨List.nodup_singleton _, ?_, h.log_lt, h.counters_eq⟩
  intro i hi
  exact absurd (List.mem_singleton.1 hi) nofun

theorem Ledger.exitAll (h : Ledger ⟨s, log⟩) : Ledger ⟨s.exitAll, log⟩ := by
  refine ⟨List.nodup_singleton _, ?_, h.log_lt, h.counters_eq⟩
  intro i hi
  exact h.scopes_lt i (List.mem_singleton.1 hi ▸ s.profile_exitAll_mem_scopes)

/-- Back in a session, after another one has gone on with its store. -/
theorem Ledger.rejoin (h : Ledger ⟨s, log⟩) {others : List Posting} (ht : Ledger ⟨t, others⟩)
    (hlength : s.store.profiles.length ≤ t.store.profiles.length) :
    Ledger ⟨s.rejoin t, others⟩ :=
  ⟨h.nodup, fun i hi => Nat.lt_of_lt_of_le (h.scopes_lt i hi) hlength, ht.log_lt, ht.counters_eq⟩

/-- The step keeps the books in order, and no profile is lost. -/
def Step.KeepsLedger (a : Step) : Prop :=
  ∀ s log, Ledger ⟨s, log⟩ → Ledger ⟨(s.step a).1, log ++ s.postings a⟩ ∧
    s.store.profiles.length ≤ (s.step a).1.store.profiles.length

theorem Ledger.run_of {steps : List Step} (hsteps : ∀ a ∈ steps, a.KeepsLedger)
    (h : Ledger ⟨s, log⟩) :
    Ledger ⟨(s.run steps).1, log ++ s.postingsAll steps⟩ ∧
      s.store.profiles.length ≤ (s.run steps).1.store.profiles.length := by
  induction steps generalizing s log with
  | nil => exact ⟨by simpa [run_nil, postingsAll] using h.exitAll, by simp [run_nil]⟩
  | cons first rest ih =>
    obtain ⟨hfirst, hle⟩ := hsteps first List.mem_cons_self s log h
    obtain ⟨hrest, hle'⟩ := ih (fun a ha => hsteps a (List.mem_cons_of_mem _ ha)) hfirst
    rw [run_cons, postingsAll, ← List.append_assoc]
    exact ⟨hrest, Nat.le_trans hle hle'⟩

theorem Step.keepsLedger (a : Step) : a.KeepsLedger := by
  induction a using Step.nested_induction with
  | single a ha =>
    intro s log h
    exact ⟨h.effect (s.effect ha), (s.effect ha).length_le⟩
  | inCopy steps ih =>
    intro s log h
    obtain ⟨hrun, hle⟩ := h.copied.run_of ih
    rw [step_inCopy, postings]
    exact ⟨h.rejoin hrun hle, hle⟩
  | inThread steps ih =>
    intro s log h
    obtain ⟨hrun, hle⟩ := h.fresh.run_of ih
    rw [step_inThread, postings]
    exact ⟨h.rejoin hrun hle, hle⟩

/-- The books are in order at every moment of a run. -/
theorem Ledger.passes {m n : Moment} {steps : List Step} (h : Ledger m) (hn : Passes m steps n) :
    Ledger n := by
  induction hn with
  | here => exact h
  | ended m => exact h.exitAll
  | later _ ih => exact ih (Step.keepsLedger _ _ _ h).1
  | inCopy _ ih => exact ih h.copied
  | inThread _ ih => exact ih h.fresh

theorem ledger_start : Ledger ⟨{}, []⟩ :=
  ⟨List.nodup_singleton _, by simp [scopes], nofun, by simp⟩

/-! ## Whose counters stay as they are -/

theorem Effect.profiles_of_ne (he : Effect s t ps) {i : Nat} (hi : i < s.store.profiles.length)
    (hne : s.context.profile ≠ some i) :
    t.store.profiles[i]? = s.store.profiles[i]? ∧ (some i ∉ s.scopes → some i ∉ t.scopes) := by
  cases he with
  | charged xs hscopes hprofiles =>
    rw [hprofiles, Store.getElem?_profiles_update, if_neg hne, hscopes]
    exact ⟨rfl, id⟩
  | opened hscopes hprofiles =>
    rw [hprofiles, List.getElem?_append_left hi, hscopes]
    refine ⟨rfl, fun hout hin => ?_⟩
    rcases List.mem_cons.1 hin with heq | hin
    · exact absurd (Option.some.inj heq) (Nat.ne_of_lt hi)
    · exact hout hin
  | closed hscopes hprofiles =>
    rw [hprofiles, hscopes]
    exact ⟨rfl, fun hout hin => hout (List.mem_cons_of_mem _ hin)⟩

/-- The step leaves the profiles alone that are not current, and brings none of them back. -/
def Step.KeepsOthers (a : Step) : Prop :=
  ∀ (s : Session) i, i < s.store.profiles.length → s.context.profile ≠ some i →
    (s.step a).1.store.profiles[i]? = s.store.profiles[i]? ∧
      (some i ∉ s.scopes → some i ∉ (s.step a).1.scopes)

theorem profiles_run_of {steps : List Step} (hsteps : ∀ a ∈ steps, a.KeepsOthers) {i : Nat}
    (hi : i < s.store.profiles.length) (hout : some i ∉ s.scopes) :
    (s.run steps).1.store.profiles[i]? = s.store.profiles[i]? := by
  induction steps generalizing s with
  | nil => rw [run_nil, store_exitAll]
  | cons first rest ih =>
    have hne : s.context.profile ≠ some i := fun h => hout (h ▸ List.mem_cons_self)
    obtain ⟨hfirst, hscopes⟩ := hsteps first List.mem_cons_self s i hi hne
    have hi' : i < (s.step first).1.store.profiles.length :=
      (List.getElem?_eq_some_iff.1 (hfirst.trans (List.getElem?_eq_getElem hi))).1
    rw [run_cons, ih (fun a ha => hsteps a (List.mem_cons_of_mem _ ha)) hi' (hscopes hout), hfirst]

theorem Step.keepsOthers (a : Step) : a.KeepsOthers := by
  induction a using Step.nested_induction with
  | single a ha => exact fun s i => (s.effect ha).profiles_of_ne
  | inCopy steps ih =>
    intro s i hi hne
    have hout : some i ∉ s.copied.scopes := fun hin => hne (List.mem_singleton.1 hin).symm
    rw [step_inCopy]
    exact ⟨profiles_run_of ih (s := s.copied) hi hout, id⟩
  | inThread steps ih =>
    intro s i hi hne
    have hout : some i ∉ s.fresh.scopes := fun hin => absurd (List.mem_singleton.1 hin) nofun
    rw [step_inThread]
    exact ⟨profiles_run_of ih (s := s.fresh) hi hout, id⟩

theorem store_analyzeBatch_copied (s : Session) (b : Batch) (workers : Option Int) :
    (s.copied.analyzeBatch b workers).1.store = (s.analyzeBatch b workers).1.store := by
  rw [analyzeBatch_eq, analyzeBatch_eq]
  split <;> rfl

/-- What a step makes of the store does not depend on the open blocks. -/
theorem store_step_copied (s : Session) (a : Step) :
    (s.copied.step a).1.store = (s.step a).1.store := by
  cases a with
  | exit =>
    rw [step, step]
    cases hexit : s.exit? with
    | none => rfl
    | some t => exact (scopes_exit? hexit).1.symm
  | exitRaising message =>
    rw [step, step]
    cases hexit : s.exit? with
    | none => rfl
    | some t => exact (scopes_exit? hexit).1.symm
  | record sourceLength tokenCount failed =>
    rw [step, step]
    cases hprofile : s.context.profile <;> simp [copied, hprofile, charge]
  | analyzeMany sources config workers =>
    rw [step, step]
    exact store_analyzeBatch_copied s _ workers
  | call name job | callAsync name job =>
    rw [step, step, withAnalyzer, withAnalyzer, store_copied]
    cases s.store.analyzer? name <;> rfl
  | callMany name sources workers =>
    rw [step, step, withAnalyzer, withAnalyzer, store_copied]
    cases s.store.analyzer? name with
    | none => rfl
    | some config => exact store_analyzeBatch_copied s _ workers
  | _ =>
    rw [step, step]
    rfl

/-- A single step in a copy does to the profiles what it does in place. -/
theorem store_step_inCopy_singleton (s : Session) (a : Step) :
    (s.step (.inCopy [a])).1.store = (s.step a).1.store := by
  rw [step_inCopy, run_cons, run_nil, store_rejoin, store_exitAll, store_step_copied]

/-- At every moment of a run, the counters of a profile are the sums over the analyses made and the
records taken so far where it was current. A profile that an open block has saved, or that a thread
was started under, gets nothing; one that a copy was made under gets what is done in the copy.
Nothing is charged for a scan without an analysis, or for a batch that is not carried out. -/
theorem counters_eq_total {steps : List Step} {m : Moment} (h : Passes ⟨{}, []⟩ steps m) :
    let s := m.session
    (∀ i c, s.store.profiles[i]? = some c → c = Counters.total (chargesTo i m.log)) ∧
    (∀ i, Block.profile (some i) ∈ s.blocks → ∀ a,
      (s.step a).1.store.profiles[i]? = s.store.profiles[i]?) ∧
    (∀ i < s.store.profiles.length, ∀ steps,
      (s.step (.inThread steps)).1.store.profiles[i]? = s.store.profiles[i]?) ∧
    (∀ a, (s.step (.inCopy [a])).1.store = (s.step a).1.store) ∧
    (∀ job config, (s.step (.lex job config)).1 = s) ∧
    ∀ sources config name n, n ≤ 0 →
      (s.step (.analyzeMany sources config (some n))).1 = s ∧
        (s.step (.callMany name sources (some n))).1 = s := by
  intro s
  have hledger : Ledger m := ledger_start.passes h
  refine ⟨hledger.counters_eq, ?_, ?_, s.store_step_inCopy_singleton, ?_, ?_⟩
  · intro i hblock a
    have hsaved : some i ∈ s.blocks.filterMap Block.saved? :=
      List.mem_filterMap.2 ⟨_, hblock, rfl⟩
    have hne : s.context.profile ≠ some i := fun heq =>
      (List.nodup_cons.1 hledger.nodup).1 (heq ▸ hsaved)
    exact (a.keepsOthers s i (hledger.scopes_lt i (List.mem_cons_of_mem _ hsaved)) hne).1
  · intro i hi steps
    have hout : some i ∉ s.fresh.scopes := fun hin => absurd (List.mem_singleton.1 hin) nofun
    rw [step_inThread]
    exact profiles_run_of (s := s.fresh) (fun a _ => a.keepsOthers) hi hout
  · intro job config
    rw [step]
  · intro sources config name n hn
    have hrejected (b : Batch) : s.analyzeBatch b (some n) = (s, .tooFewWorkers) := by
      simp [analyzeBatch, hn]
    constructor
    · rw [step, hrejected]
    · rw [step, withAnalyzer]
      cases s.store.analyzer? name with
      | none => rfl
      | some bound => exact congrArg Prod.fst (hrejected _)

/-- Analyses in place, in a copy, in a block within the copy, in a thread and in a batch. -/
theorem counters_eq_total_nested :
    let job (source : String) : Job := ⟨source.toList, none⟩
    let steps : List Step :=
      [.enterProfile, .analyze (job "x y") none,
        .inCopy [.record 7 1 true, .enterProfile, .analyze (job "x") none],
        .inThread [.analyze (job "x") none],
        .analyzeMany ["a".toList, "b c".toList] none (some 2)]
    let s := (Session.run {} steps).1
    s.store.profiles = [⟨14, 6, 4, 1⟩, ⟨1, 1, 1, 0⟩] ∧
      ∀ i c, s.store.profiles[i]? = some c →
        c = Counters.total (chargesTo i (postingsAll {} steps)) := by
  intro job steps s
  have hend := Passes.run ⟨{}, []⟩ steps
  exact ⟨by decide, (counters_eq_total hend).1⟩

end Session

end PascalTokens
