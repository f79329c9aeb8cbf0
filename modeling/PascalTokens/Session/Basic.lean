import PascalTokens.Batch

/-!
# Sessions

A session runs steps in a context that carries the ambient options and the current profile.
Blocks change one of the two for a while and restore what they found. A copy of the context
starts from the same options and the same profile, a thread from the defaults; neither changes
the context it was started from. Profiles are shared objects, so the session keeps all of them
in one store and contexts refer to them by number.

## Main definitions

* `Context`, `Block` and `Store` are the parts of a session.
* `Step` is the language of steps, and `Reply` what a step answers.
-/

namespace PascalTokens

namespace Session

/-- The ambient options, and the number of the current profile if there is one. -/
structure Context where
  config : Config := .permissive
  profile : Option Nat := none

/-- An open block with the value that it will restore. -/
inductive Block where
  | config (saved : Config)
  | profile (saved : Option Nat)

/-- What all contexts share: the profiles opened so far, and the named analyzers. -/
structure Store where
  profiles : List Counters := []
  analyzers : List (Text × Config) := []

namespace Store

/-- The counters of a profile. -/
def counters? (s : Store) (profile : Option Nat) : Option Counters :=
  profile.bind fun i => s.profiles[i]?

/-- Change the counters of a profile, if there is one. -/
def update (s : Store) (profile : Option Nat) (f : Counters → Counters) : Store :=
  match profile with
  | some i => { s with profiles := s.profiles.modify i f }
  | none => s

def analyzer? (s : Store) (name : Text) : Option Config := s.analyzers.lookup name

end Store

/-- A source to analyse, with the name of its file if it has one. -/
structure Job where
  source : Text
  file : Option Text := none

/-- One step. Where options may be left out, the ambient ones apply. -/
inductive Step where
  | set (config : Config)
  | reset
  | enterConfig (config : Config)
  | enterProfile
  | exit
  | exitRaising (message : Text)
  | record (sourceLength tokenCount : Int) (failed : Bool)
  | lex (job : Job) (config : Option Config)
  | analyze (job : Job) (config : Option Config)
  | analyzeAsync (job : Job) (config : Option Config)
  | analyzeMany (sources : List Text) (config : Option Config) (workers : Option Int)
  | bind (name : Text) (config : Option Config)
  | call (name : Text) (job : Job)
  | callAsync (name : Text) (job : Job)
  | callMany (name : Text) (sources : List Text) (workers : Option Int)
  | inCopy (steps : List Step)
  | inThread (steps : List Step)

/-- The ambient options and the counters of the current profile, as seen after a step. -/
structure View where
  config : Config
  counters : Option Counters

inductive Reply where
  | done
  | noBlock
  | noProfile
  | raised (message : Text)
  | drained (d : Scan.Drain)
  | analyzed (a : Analysis)
  | batch (results : List Analysis)
  | tooFewWorkers
  | bound (config : Config)
  | unknownAnalyzer (name : Text)
  | nested (answers : List (Reply × View))

end Session

/-- A running session: its context, its open blocks from the innermost on, and the store. -/
structure Session where
  context : Session.Context := {}
  blocks : List Session.Block := []
  store : Session.Store := {}

end PascalTokens
