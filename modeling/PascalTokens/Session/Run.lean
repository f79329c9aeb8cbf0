import PascalTokens.Session.Basic

/-!
# Running a session

Each step changes the session and answers. Every analysis is charged to the profile that is
current where it runs; a batch is charged once for each of its sources.
-/

namespace PascalTokens

namespace Session

/-- Leave a block: the value that it saved is in force again. -/
def Context.restore (c : Context) : Block → Context
  | .config saved => { c with config := saved }
  | .profile saved => { c with profile := saved }

/-- The given options, or the ambient ones. -/
def effective (s : Session) (config : Option Config) : Config := config.getD s.context.config

def view (s : Session) : View := ⟨s.context.config, s.store.counters? s.context.profile⟩

/-- Leave the innermost block, if there is one. -/
def exit? (s : Session) : Option Session :=
  match s.blocks with
  | [] => none
  | block :: rest => some { s with context := s.context.restore block, blocks := rest }

/-- Leave all open blocks, the innermost first. -/
def exitAll (s : Session) : Session :=
  { s with context := s.blocks.foldl Context.restore s.context, blocks := [] }

/-- Change the counters of the current profile, if there is one. -/
def charge (s : Session) (f : Counters → Counters) : Session :=
  { s with store := s.store.update s.context.profile f }

/-- Analyse one source and charge it. -/
def analyzeJob (s : Session) (config : Config) (job : Job) : Session × Reply :=
  let a := PascalTokens.analyze ⟨config, job.file⟩ .still job.source
  (s.charge fun c => c.recordAnalysis job.source a, .analyzed a)

/-- A session for a copy of the context, with no open blocks. -/
def copied (s : Session) : Session := { s with blocks := [] }

/-- A session for a new thread, with the default context. -/
def fresh (s : Session) : Session := { store := s.store }

/-- Go on with what another session, started from this one, made of the store. -/
def rejoin (s t : Session) : Session := { s with store := t.store }

/-- Analyse one source on a worker, in a copy of the context. -/
def analyzeAside (s : Session) (config : Option Config) (job : Job) : Session × Reply :=
  let t := s.copied
  let (t, reply) := t.analyzeJob (t.effective config) job
  (s.rejoin t, reply)

/-- Analyse a batch and charge it. There must be room for at least one worker. -/
def analyzeBatch (s : Session) (b : Batch) (workers : Option Int) : Session × Reply :=
  if workers.any fun n => n ≤ 0 then (s, .tooFewWorkers)
  else
    (s.charge fun c => (b.analyzeAll c).2,
      .batch (b.analyzeAll {}).1)

/-- Run with the options of a named analyzer. -/
def withAnalyzer (s : Session) (name : Text) (run : Config → Session × Reply) :
    Session × Reply :=
  match s.store.analyzer? name with
  | some config => run config
  | none => (s, .unknownAnalyzer name)

/-- Open a profile and enter a block for it. -/
def enterProfile (s : Session) : Session where
  context := { s.context with profile := some s.store.profiles.length }
  blocks := .profile s.context.profile :: s.blocks
  store := { s.store with profiles := s.store.profiles ++ [{}] }

mutual

/-- Carry out one step. -/
def step (s : Session) : Step → Session × Reply
  | .set config => ({ s with context := { s.context with config := config } }, .done)
  | .reset => ({ s with context := { s.context with config := .permissive } }, .done)
  | .enterConfig config =>
    ({ s with
        context := { s.context with config := config }
        blocks := .config s.context.config :: s.blocks }, .done)
  | .enterProfile => (s.enterProfile, .done)
  | .exit =>
    match s.exit? with
    | some s => (s, .done)
    | none => (s, .noBlock)
  | .exitRaising message =>
    match s.exit? with
    | some s => (s, .raised message)
    | none => (s, .noBlock)
  | .record sourceLength tokenCount failed =>
    match s.context.profile with
    | some _ => (s.charge fun c => c.record sourceLength tokenCount failed, .done)
    | none => (s, .noProfile)
  | .lex job config =>
    (s, .drained (Scan.drain ⟨s.effective config, job.file⟩ job.source))
  | .analyze job config => s.analyzeJob (s.effective config) job
  | .analyzeAsync job config => s.analyzeAside config job
  | .analyzeMany sources config workers =>
    s.analyzeBatch ⟨s.effective config, sources⟩ workers
  | .bind name config =>
    let config := config.getD .permissive
    ({ s with store := { s.store with analyzers := (name, config) :: s.store.analyzers } },
      .bound config)
  | .call name job => s.withAnalyzer name fun config => s.analyzeJob config job
  | .callAsync name job => s.withAnalyzer name fun config => s.analyzeAside (some config) job
  | .callMany name sources workers =>
    s.withAnalyzer name fun config => s.analyzeBatch ⟨config, sources⟩ workers
  | .inCopy steps =>
    let (t, answers) := s.copied.run steps
    (s.rejoin t, .nested answers)
  | .inThread steps =>
    let (t, answers) := s.fresh.run steps
    (s.rejoin t, .nested answers)

/-- Carry out steps in turn, with what is seen after each, and leave the blocks that are open at
the end. -/
def run (s : Session) : List Step → Session × List (Reply × View)
  | [] => (s.exitAll, [])
  | first :: rest =>
    let (s, reply) := s.step first
    let (t, answers) := s.run rest
    (t, (reply, s.view) :: answers)

end

end Session

end PascalTokens
