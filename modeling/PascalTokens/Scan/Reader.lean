import PascalTokens.Scan.Stream

/-!
# Readers

A reader gives the tokens of one source on demand. It may be restarted at any time: the stream
begins again at the first line, while the scan state stays what it is.
-/

namespace PascalTokens

namespace Scan

structure Reader where
  setting : Setting
  source : Text
  state : State
  stream : Stream

namespace Reader

/-- A reader that has read nothing yet. -/
def ofSource (setting : Setting) (source : Text) : Reader :=
  ⟨setting, source, .initial, .ofSource source⟩

/-- The next token, or that there is none. -/
def next (r : Reader) : Reader × Pull :=
  let (state, stream, pull) := r.stream.next r.setting r.state
  ({ r with state := state, stream := stream }, pull)

/-- All tokens that are left. -/
def drain (r : Reader) : Reader × Drain :=
  let (state, d) := r.stream.drain r.setting r.state
  ({ r with state := state, stream := .exhausted }, d)

/-- Begin the source again. -/
def restart (r : Reader) : Reader := { r with stream := .ofSource r.source }

end Reader

end Scan

end PascalTokens
