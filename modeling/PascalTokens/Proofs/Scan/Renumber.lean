import PascalTokens.Proofs.Scan.Line

/-!
# Renumbering lines

The scan copies line numbers and never looks at them. So any renumbering of the lines passes
through a scan: it gives the same tokens and the same failure with other line numbers.

## Main definitions

* `Drain.renumber` and its companions apply a function to every line number.
* `State.scanContent` scans lines that are given by their numbers and words.

## Main statements

* `State.scanContent_renumber`: renumbering the lines first or renumbering what comes out is one.
-/

namespace PascalTokens

def Token.renumber (f : Int → Int) (t : Token) : Token := { t with line := f t.line }

def LexicalError.renumber (f : Int → Int) (e : LexicalError) : LexicalError :=
  { e with line := f e.line }

namespace Scan

variable (f : Int → Int) (setting : Setting)

def Emission.renumber : Emission → Emission
  | nothing => nothing
  | token t => token (t.renumber f)
  | failure e => failure (e.renumber f)

def State.renumber (s : State) : State :=
  { s with
    line := f s.line
    stringStart := f s.stringStart
    commentStart := f s.commentStart }

def Ending.renumber : Ending → Ending
  | clean => clean
  | dropped construct line => dropped construct (f line)
  | failed e => failed (e.renumber f)

def Drain.renumber (d : Drain) : Drain :=
  ⟨d.tokens.map (·.renumber f), d.ending.renumber f⟩

namespace Progress

def renumber (p : Progress) : Progress :=
  ⟨p.state.renumber f, p.tokens.map (·.renumber f), p.failure.map (·.renumber f)⟩

theorem renumber_ofStep (s : State) (e : Emission) :
    (ofStep (s, e)).renumber f = ofStep (s.renumber f, e.renumber f) := by
  cases e <;> rfl

theorem renumber_andThen (p : Progress) {g h : State → Progress}
    (next : ∀ s, (g s).renumber f = h (s.renumber f)) :
    (p.andThen g).renumber f = (p.renumber f).andThen h := by
  obtain ⟨s, ts, _ | e⟩ := p
  · have := next s
    simp [renumber, andThen, prepend, ← this]
  · rfl

theorem renumber_drain (p : Progress) :
    (p.renumber f).drain setting = (p.drain setting).renumber f := by
  obtain ⟨s, ts, _ | e⟩ := p
  · simp only [drain, renumber, State.finish_snd, Drain.renumber, Option.map_none]
    obtain ⟨_ | _ | _, n, b, i, j⟩ := s <;> cases setting.config.isStrict <;> rfl
  · rfl

end Progress

namespace State

theorem scanWord_renumber (s : State) (w : Text) :
    (s.renumber f).scanWord setting w =
      ((s.scanWord setting w).1.renumber f, (s.scanWord setting w).2.renumber f) := by
  obtain ⟨_ | _ | _, n, b, i, j⟩ := s
  · simp only [scanWord, scanNormal, renumber]
    cases tokenClass? w with
    | some tokenClass => rfl
    | none =>
      cases Word.stringSeed? w with
      | some seed => rfl
      | none =>
        rcases Word.commentLeftOpen? w with _ | _ | _
        · dsimp only
          split <;> rfl
        · rfl
        · rfl
  · simp only [scanWord, scanString, renumber]
    split <;> rfl
  · simp only [scanWord, scanComment, renumber]
    split <;> rfl

theorem scanWords_renumber (s : State) (ws : List Text) :
    (s.renumber f).scanWords setting ws = (s.scanWords setting ws).renumber f := by
  induction ws generalizing s with
  | nil => rfl
  | cons w ws ih =>
    rw [scanWords_cons, scanWords_cons, scanWord_renumber, ← Progress.renumber_ofStep]
    exact (Progress.renumber_andThen f _ fun s => (ih s).symm).symm

theorem beginWords_renumber (s : State) (n : Int) (ws : List Text) :
    (s.renumber f).beginWords (f n) ws =
      ((s.beginWords n ws).1.renumber f, (s.beginWords n ws).2) := by
  obtain ⟨_ | _ | _, m, b, i, j⟩ := s
  · rfl
  · rfl
  · simp only [beginWords, renumber, if_true]
    cases afterClosing? ws <;> rfl

/-- Scan lines that are given by their numbers and the words before their line comments. -/
def scanContent (s : State) : List (Int × List Text) → Progress
  | [] => ⟨s, [], none⟩
  | (n, ws) :: rest =>
    ((s.beginWords n ws).1.scanWords setting (s.beginWords n ws).2).andThen
      fun s => s.scanContent rest

theorem scanContent_renumber (s : State) (content : List (Int × List Text)) :
    (s.renumber f).scanContent setting (content.map fun line => (f line.1, line.2)) =
      (s.scanContent setting content).renumber f := by
  induction content generalizing s with
  | nil => rfl
  | cons line rest ih =>
    obtain ⟨n, ws⟩ := line
    simp only [List.map_cons, scanContent, beginWords_renumber, scanWords_renumber]
    exact (Progress.renumber_andThen f _ fun s => (ih s).symm).symm

end State

end Scan

end PascalTokens
