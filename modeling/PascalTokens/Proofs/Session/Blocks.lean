import Mathlib.Tactic.IntervalCases
import PascalTokens.Proofs.Session.Scopes

/-!
# Blocks restore what they found

A run is followed from step to step, and at its end from one open block to the next as they are
left. A block that a step opens stays on the stack, whatever happens above it, until it is left,
and then it restores the one part of the context that it changed, and no other. Copies and threads
have a context of their own.

## Main definitions

* `moment` is the session after so many moves of a run.
* `LeftAt` says which move leaves the block that a step has opened.

## Main statements

* `shift`: a step keeps the open blocks, opens one, or leaves the innermost one.
* `LeftAt.restores`: the move that leaves a block finds it on top, as it was opened.
* `block_restores_found`: what every block restores, and what copies and threads keep.
-/

namespace PascalTokens

namespace Session

/-! ## One step -/

/-- What a step does to the open blocks, and to the context as far as it leaves one of them. -/
inductive Shift (s t : Session) : Prop where
  | kept (hblocks : t.blocks = s.blocks)
  | opened (block : Block) (hblocks : t.blocks = block :: s.blocks)
  | left (block : Block) (hblocks : s.blocks = block :: t.blocks)
      (hcontext : t.context = s.context.restore block)

variable {s t : Session}

theorem Shift.of_exit? (h : s.exit? = some t) : Shift s t := by
  obtain ⟨context, blocks, store⟩ := s
  cases blocks with
  | nil => simp [exit?] at h
  | cons block rest =>
    obtain rfl := Option.some.inj h
    exact .left block rfl rfl

theorem blocks_analyzeBatch (s : Session) (b : Batch) (workers : Option Int) :
    (s.analyzeBatch b workers).1.blocks = s.blocks := by
  unfold analyzeBatch
  split <;> rfl

theorem blocks_withAnalyzer (s : Session) (name : Text) {run : Config → Session × Reply}
    (h : ∀ config, (run config).1.blocks = s.blocks) :
    (s.withAnalyzer name run).1.blocks = s.blocks := by
  unfold withAnalyzer
  split
  · exact h _
  · rfl

/-- A step keeps the open blocks, opens one, or leaves the innermost one. -/
theorem shift (s : Session) (a : Step) : Shift s (s.step a).1 := by
  cases a with
  | enterConfig config => rw [step]; exact .opened _ rfl
  | enterProfile => rw [step]; exact .opened _ rfl
  | exit =>
    rw [step]
    cases hexit : s.exit? with
    | none => exact .kept rfl
    | some t => exact .of_exit? hexit
  | exitRaising message =>
    rw [step]
    cases hexit : s.exit? with
    | none => exact .kept rfl
    | some t => exact .of_exit? hexit
  | record sourceLength tokenCount failed =>
    rw [step]
    cases s.context.profile <;> exact .kept rfl
  | analyzeMany sources config workers =>
    rw [step]
    exact .kept (s.blocks_analyzeBatch _ workers)
  | call name job | callAsync name job =>
    rw [step]
    exact .kept (s.blocks_withAnalyzer name fun _ => rfl)
  | callMany name sources workers =>
    rw [step]
    exact .kept (s.blocks_withAnalyzer name fun _ => s.blocks_analyzeBatch _ workers)
  | set | reset | lex | analyze | analyzeAsync | bind | inCopy | inThread =>
    rw [step]
    exact .kept rfl

/-- A block that is still open after the step stands where it stood. -/
theorem Shift.suffix (h : Shift s t) {block : Block} {rest : List Block}
    (hs : block :: rest <:+ s.blocks) (hopen : rest.length < t.blocks.length) :
    block :: rest <:+ t.blocks := by
  cases h with
  | kept hblocks => rwa [hblocks]
  | opened inner hblocks =>
    rw [hblocks]
    exact hs.trans (List.suffix_cons inner s.blocks)
  | left inner hblocks _ =>
    rw [hblocks, List.suffix_cons_iff] at hs
    rcases hs with heq | hs
    · have hrest : rest = t.blocks := (List.cons.inj heq).2
      exact absurd (congrArg List.length hrest) (by omega)
    · exact hs

/-- A block that is no longer open after the step was the innermost one, and it has restored what
it had saved. -/
theorem Shift.restores (h : Shift s t) {block : Block} {rest : List Block}
    (hs : block :: rest <:+ s.blocks) (hleft : t.blocks.length ≤ rest.length) :
    t.blocks = rest ∧ t.context = s.context.restore block := by
  have hlength := hs.length_le
  rw [List.length_cons] at hlength
  cases h with
  | kept hblocks =>
    rw [hblocks] at hleft
    omega
  | opened inner hblocks =>
    rw [hblocks, List.length_cons] at hleft
    omega
  | left inner hblocks hcontext =>
    rw [hblocks, List.length_cons] at hlength
    have heq : block :: rest = inner :: t.blocks := by
      rw [← hblocks]
      exact hs.eq_of_length (by simp [hblocks]; omega)
    obtain ⟨rfl, rfl⟩ := List.cons.inj heq
    exact ⟨rfl, hcontext⟩

/-! ## The moves of a run -/

/-- The session after `n` moves of a run: its steps, and then one exit after another, as the blocks
that are open at the end are left. -/
def moment (s : Session) (steps : List Step) : Nat → Session
  | 0 => s
  | n + 1 => ((s.moment steps n).step (steps.getD n .exit)).1

/-- Move `j` leaves the block that move `i` has opened: for the first time, there are no more open
blocks than before it was opened. -/
structure LeftAt (s : Session) (steps : List Step) (i j : Nat) : Prop where
  lt : i < j
  isOpen : ∀ k, i < k → k ≤ j →
    (s.moment steps i).blocks.length < (s.moment steps k).blocks.length
  isLeft : (s.moment steps (j + 1)).blocks.length ≤ (s.moment steps i).blocks.length

theorem shift_moment (s : Session) (steps : List Step) (n : Nat) :
    Shift (s.moment steps n) (s.moment steps (n + 1)) := shift _ _

theorem moment_succ (s : Session) (steps : List Step) (n : Nat) :
    s.moment steps (n + 1) = (s.step (steps.headD .exit)).1.moment steps.tail n := by
  induction n with
  | zero => cases steps <;> rfl
  | succ n ih =>
    have hstep : steps.getD (n + 1) .exit = steps.tail.getD n .exit := by cases steps <;> simp
    rw [moment, ih, hstep, moment]

/-- Once there are no more steps, as many exits as there are open blocks leave all of them. -/
theorem moment_nil {n : Nat} (h : s.blocks.length ≤ n) : s.moment [] n = s.exitAll := by
  induction n generalizing s with
  | zero =>
    obtain ⟨context, blocks, store⟩ := s
    obtain rfl : blocks = [] := List.length_eq_zero_iff.1 (Nat.le_zero.1 h)
    rfl
  | succ n ih =>
    obtain ⟨context, blocks, store⟩ := s
    rw [moment_succ, List.headD_nil, List.tail_nil]
    cases blocks with
    | nil =>
      rw [step]
      exact ih (Nat.zero_le n)
    | cons block rest =>
      rw [step]
      exact ih (Nat.le_of_succ_le_succ h)

/-- The moves of a run lead to its end. -/
theorem exists_moment_eq_run (s : Session) (steps : List Step) :
    ∃ n, ∀ m, n ≤ m → s.moment steps m = (s.run steps).1 := by
  induction steps generalizing s with
  | nil => exact ⟨s.blocks.length, fun m hm => by rw [moment_nil hm, run_nil]⟩
  | cons a rest ih =>
    obtain ⟨n, hn⟩ := ih (s.step a).1
    refine ⟨n + 1, fun m hm => ?_⟩
    obtain ⟨m, rfl⟩ := Nat.exists_eq_add_of_le' hm
    rw [run_cons, ← hn (m + n) (Nat.le_add_left n m)]
    exact moment_succ s (a :: rest) (m + n)

theorem blocks_run (s : Session) (steps : List Step) : (s.run steps).1.blocks = [] := by
  induction steps generalizing s with
  | nil => rw [run_nil]; rfl
  | cons a rest ih => rw [run_cons, ih]

/-! ## From the opening of a block to its end -/

section Opened

variable {steps : List Step} {i j : Nat} {block : Block}

/-- A block is left sooner or later, at the end of the run at the latest. -/
theorem exists_leftAt (hopened : (s.moment steps (i + 1)).blocks =
    block :: (s.moment steps i).blocks) : ∃ j, LeftAt s steps i j := by
  have hleft : ∃ j, i < j ∧
      (s.moment steps (j + 1)).blocks.length ≤ (s.moment steps i).blocks.length := by
    obtain ⟨n, hn⟩ := s.exists_moment_eq_run steps
    refine ⟨n + i + 1, by omega, ?_⟩
    rw [hn _ (by omega), blocks_run]
    exact Nat.zero_le _
  refine ⟨Nat.find hleft, (Nat.find_spec hleft).1, fun k hik hkj => ?_, (Nat.find_spec hleft).2⟩
  rcases Nat.lt_or_ge (i + 1) k with hlt | hge
  · -- Move `k` does not leave the block, since it comes before the first one that does.
    obtain ⟨k, rfl⟩ := Nat.exists_eq_add_one_of_ne_zero (by omega : k ≠ 0)
    have hfirst := Nat.find_min hleft (m := k) (by omega)
    exact Nat.lt_of_not_le fun hle => hfirst ⟨by omega, hle⟩
  · obtain rfl : k = i + 1 := by omega
    simp [hopened]

theorem suffix_of_open (hopened : (s.moment steps (i + 1)).blocks =
    block :: (s.moment steps i).blocks) (hij : i + 1 ≤ j)
    (hopen : ∀ k, i < k → k ≤ j →
      (s.moment steps i).blocks.length < (s.moment steps k).blocks.length) :
    block :: (s.moment steps i).blocks <:+ (s.moment steps j).blocks := by
  induction j, hij using Nat.le_induction with
  | base => exact hopened ▸ List.suffix_rfl
  | succ k hik ih =>
    have hbefore := ih fun m him hmk => hopen m him (Nat.le_succ_of_le hmk)
    exact (s.shift_moment steps k).suffix hbefore (hopen (k + 1) (by omega) (Nat.le_refl _))

theorem LeftAt.restores (h : LeftAt s steps i j) (hopened : (s.moment steps (i + 1)).blocks =
    block :: (s.moment steps i).blocks) :
    (s.moment steps (j + 1)).blocks = (s.moment steps i).blocks ∧
      (s.moment steps (j + 1)).context = (s.moment steps j).context.restore block :=
  (s.shift_moment steps j).restores (suffix_of_open hopened h.lt h.isOpen) h.isLeft

end Opened

/-- A block is left once, however that happens. A configuration block then brings back the options
that were in force before it was opened, a profile block the profile, and neither changes the
other part of the context, whatever has been done inside. No step in a copy or in a thread reaches
the context outside, and a thread answers the same whatever that context is. -/
theorem block_restores_found (s : Session) (steps : List Step) :
    (∃ n, ∀ m, n ≤ m → s.moment steps m = (s.run steps).1) ∧
    (∀ i config, steps[i]? = some (.enterConfig config) →
      (∃ j, LeftAt s steps i j) ∧ ∀ j, LeftAt s steps i j →
        (s.moment steps (j + 1)).context =
          { (s.moment steps j).context with config := (s.moment steps i).context.config }) ∧
    (∀ i, steps[i]? = some .enterProfile →
      (∃ j, LeftAt s steps i j) ∧ ∀ j, LeftAt s steps i j →
        (s.moment steps (j + 1)).context =
          { (s.moment steps j).context with profile := (s.moment steps i).context.profile }) ∧
    (∀ nested, (s.step (.inCopy nested)).1.context = s.context ∧
      (s.step (.inThread nested)).1.context = s.context) ∧
    ∀ (t : Session) nested, t.store = s.store →
      (t.step (.inThread nested)).2 = (s.step (.inThread nested)).2 ∧
        (t.step (.inThread nested)).1.store = (s.step (.inThread nested)).1.store := by
  refine ⟨s.exists_moment_eq_run steps, fun i config hi => ?_, fun i hi => ?_, fun nested => ?_,
    fun t nested hstore => ?_⟩
  · have hopened : (s.moment steps (i + 1)).blocks =
        .config (s.moment steps i).context.config :: (s.moment steps i).blocks := by
      rw [moment, List.getD_eq_getElem?_getD, hi, Option.getD_some, step]
    exact ⟨exists_leftAt hopened, fun j hj => (hj.restores hopened).2⟩
  · have hopened : (s.moment steps (i + 1)).blocks =
        .profile (s.moment steps i).context.profile :: (s.moment steps i).blocks := by
      rw [moment, List.getD_eq_getElem?_getD, hi, Option.getD_some, step]
      rfl
    exact ⟨exists_leftAt hopened, fun j hj => (hj.restores hopened).2⟩
  · rw [step_inCopy, step_inThread]
    exact ⟨rfl, rfl⟩
  · have hfresh : t.fresh = s.fresh := by rw [fresh, fresh, hstore]
    rw [step, step, hfresh]
    exact ⟨rfl, rfl⟩

/-- A profile block that is left by an error, with the options set anew inside, and a configuration
block around it that is open until the end. -/
theorem block_restores_found_raised :
    let strict : Config := .ofFlags true false
    let rejecting : Config := .ofFlags false true
    let steps : List Step :=
      [.enterConfig strict, .enterProfile, .set rejecting, .inThread [.enterProfile, .reset],
        .exitRaising ['x'], .reset]
    LeftAt {} steps 1 4 ∧ LeftAt {} steps 0 6 ∧
      (moment {} steps 5).context = ⟨rejecting, none⟩ ∧
      (Session.run {} steps).1.context = ⟨.permissive, none⟩ := by
  intro strict rejecting steps
  have hprofile : LeftAt {} steps 1 4 := by
    refine ⟨by decide, fun k hk hk' => ?_, by decide⟩
    interval_cases k <;> decide
  have hconfig : LeftAt {} steps 0 6 := by
    refine ⟨by decide, fun k hk hk' => ?_, by decide⟩
    interval_cases k <;> decide
  obtain ⟨-, hconfigs, hprofiles, -⟩ := block_restores_found {} steps
  exact ⟨hprofile, hconfig, (hprofiles 1 rfl).2 4 hprofile, (hconfigs 0 strict rfl).2 6 hconfig⟩

end Session

end PascalTokens
