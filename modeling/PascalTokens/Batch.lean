import PascalTokens.Profile

/-!
# Batches

Several sources are analysed by workers that run side by side. Each worker first analyses its
source and then adds the outcome to the counters that all workers share; nobody decides in which
order the workers make these two moves. A schedule is one such order, and `Batch.run` carries it
out.
-/

namespace PascalTokens

/-- Sources to analyse, one for each worker, all under the same options. -/
structure Batch where
  config : Config
  sources : List Text

namespace Batch

/-- A move of one worker. -/
inductive Move where
  | analyze (worker : Nat)
  | record (worker : Nat)
  deriving DecidableEq, Repr

/-- How far one worker has come with its source. -/
inductive Progress where
  | waiting
  | analyzed (a : Analysis)
  | recorded (a : Analysis)
  deriving DecidableEq, Repr

namespace Progress

def result? : Progress → Option Analysis
  | waiting => none
  | analyzed a => some a
  | recorded a => some a

end Progress

/-- The progress of every worker, and the shared counters. -/
structure State where
  workers : List Progress
  counters : Counters
  deriving DecidableEq, Repr

def initial (b : Batch) (counters : Counters) : State :=
  ⟨b.sources.map fun _ => .waiting, counters⟩

/-- Carry out a move. A worker that cannot make it stays as it is. -/
def step (b : Batch) (s : State) : Move → State
  | .analyze worker =>
    match b.sources[worker]?, s.workers[worker]? with
    | some source, some .waiting =>
      let a := PascalTokens.analyze ⟨b.config, none⟩ .still source
      { s with workers := s.workers.set worker (.analyzed a) }
    | _, _ => s
  | .record worker =>
    match b.sources[worker]?, s.workers[worker]? with
    | some source, some (.analyzed a) =>
      ⟨s.workers.set worker (.recorded a), s.counters.recordAnalysis source a⟩
    | _, _ => s

def run (b : Batch) (s : State) (schedule : List Move) : State := schedule.foldl b.step s

/-- The schedule that finishes one worker before the next one begins. -/
def inOrder (b : Batch) : List Move :=
  (List.range b.sources.length).flatMap fun worker => [.analyze worker, .record worker]

/-- The results in the order of the sources, and the counters after all workers are done. -/
def analyzeAll (b : Batch) (counters : Counters) : List Analysis × Counters :=
  let s := b.run (b.initial counters) b.inOrder
  (s.workers.filterMap Progress.result?, s.counters)

end Batch

end PascalTokens
