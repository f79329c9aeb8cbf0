import PascalTokens.Session.Run

/-!
# The profiles that a context can come back to

The current profile stands on top of those that the open profile blocks have saved. Only entering
and leaving a profile block changes this stack; steps in a copy or in a thread have a stack of their
own. Steps nest in steps, and what holds of a step follows by one induction on that nesting.

## Main definitions

* `scopes` is the current profile with the saved ones, the innermost first.
* `Step.IsNested` holds of the steps that carry out further steps.

## Main statements

* `Step.nested_induction`: induction on steps within steps.
* `scopes_exit?` and `profile_exitAll_mem_scopes`: leaving blocks goes down the stack.
-/

namespace PascalTokens

namespace Session

/-! ## Steps within steps -/

namespace Step

/-- The step carries out further steps. -/
def IsNested : Step → Prop
  | inCopy _ => True
  | inThread _ => True
  | _ => False

/-- A step either stands by itself, or carries out steps of which the same is known. -/
theorem nested_induction {P : Step → Prop} (single : ∀ a, ¬ a.IsNested → P a)
    (inCopy : ∀ steps, (∀ a ∈ steps, P a) → P (inCopy steps))
    (inThread : ∀ steps, (∀ a ∈ steps, P a) → P (inThread steps)) (a : Step) : P a := by
  match a with
  | .inCopy steps =>
    exact inCopy steps fun b _ => nested_induction single inCopy inThread b
  | .inThread steps =>
    exact inThread steps fun b _ => nested_induction single inCopy inThread b
  | .set _ | .reset | .enterConfig _ | .enterProfile | .exit | .exitRaising _ | .record .. | .lex ..
  | .analyze .. | .analyzeAsync .. | .analyzeMany .. | .bind .. | .call .. | .callAsync ..
  | .callMany .. => exact single _ id

end Step

variable (s : Session)

theorem step_inCopy (steps : List Step) :
    (s.step (.inCopy steps)).1 = s.rejoin (s.copied.run steps).1 := by rw [step]

theorem step_inThread (steps : List Step) :
    (s.step (.inThread steps)).1 = s.rejoin (s.fresh.run steps).1 := by rw [step]

theorem run_nil : (s.run []).1 = s.exitAll := by rw [run]

theorem run_cons (a : Step) (steps : List Step) :
    (s.run (a :: steps)).1 = ((s.step a).1.run steps).1 := by rw [run]

/-! ## The stack of profiles -/

/-- The profile that leaving the block brings back. -/
def Block.saved? : Block → Option (Option Nat)
  | config _ => none
  | profile saved => some saved

/-- The current profile, then those that the open blocks will bring back. -/
def scopes : List (Option Nat) := s.context.profile :: s.blocks.filterMap Block.saved?

@[simp] theorem store_rejoin (t : Session) : (s.rejoin t).store = t.store := rfl

@[simp] theorem store_copied : s.copied.store = s.store := rfl

@[simp] theorem store_exitAll : s.exitAll.store = s.store := rfl

/-- Leaving a block keeps the stack or takes its top away. -/
theorem scopes_exit? {s t : Session} (h : s.exit? = some t) :
    t.store = s.store ∧ (t.scopes = s.scopes ∨ s.scopes = s.context.profile :: t.scopes) := by
  obtain ⟨context, blocks, store⟩ := s
  cases blocks with
  | nil => simp [exit?] at h
  | cons block rest =>
    obtain rfl := Option.some.inj h
    cases block with
    | config saved => exact ⟨rfl, .inl rfl⟩
    | profile saved => exact ⟨rfl, .inr rfl⟩

/-- When all blocks are left, some profile of the stack is the current one. -/
theorem profile_exitAll_mem_scopes : s.exitAll.context.profile ∈ s.scopes := by
  obtain ⟨context, blocks, store⟩ := s
  induction blocks generalizing context with
  | nil => exact List.mem_cons_self
  | cons block rest ih =>
    have hrest := ih (context.restore block)
    cases block with
    | config saved => simpa [exitAll, scopes, Context.restore, Block.saved?] using hrest
    | profile saved =>
      refine List.mem_cons_of_mem _ ?_
      simpa [exitAll, scopes, Context.restore, Block.saved?] using hrest

end Session

end PascalTokens
