import PascalTokens.Proofs.Scan.Renumber

/-!
# What a scan resumes from

Where the last literal and the last comment were opened is remembered after they are closed, and
text is collected only while a literal is open. So what a scan gives depends on its state through
what is open in it, and between constructs nothing of what was read before is left.

## Main definitions

* `State.Alike` relates states that differ in what is closed only.
* `State.Tidy` says that text has been collected only if a literal is open.

## Main statements

* `State.drain_scanLines_congr`: a scan that goes on from alike states gives the same drain.
* `State.Tidy.scanLines`: scanning lines keeps a state tidy.
* `State.scanLines_renumber`: a scan of lines further down gives the same, further down.
-/

namespace PascalTokens

namespace Scan

namespace State

/-- The states agree in all that a scan can still look at. -/
structure Alike (s t : State) : Prop where
  mode_eq : s.mode = t.mode
  line_eq : s.line = t.line
  buffer_eq : s.buffer = t.buffer
  start_eq : ∀ construct, s.mode.construct? = some construct → s.start construct = t.start construct

/-- Text has been collected only if a literal is open. -/
def Tidy (s : State) : Prop := s.mode ≠ .string → s.buffer = .empty

variable {setting : Setting} {s t : State}

/-- Between constructs it does not matter where the last ones were opened. -/
theorem alike_of_normal (hs : s.mode = .normal) (ht : t.mode = .normal) (hline : s.line = t.line)
    (hbuffer : s.buffer = t.buffer) : s.Alike t :=
  ⟨hs.trans ht.symm, hline, hbuffer, by simp [hs, Mode.construct?]⟩

theorem Alike.onLine (h : s.Alike t) (n : Int) :
    ({ s with line := n } : State).Alike { t with line := n } :=
  ⟨h.mode_eq, rfl, h.buffer_eq, h.start_eq⟩

end State

/-- Two parts of a scan that give the same and leave alike states. -/
structure Progress.Alike (p q : Progress) : Prop where
  state : p.state.Alike q.state
  tokens_eq : p.tokens = q.tokens
  failure_eq : p.failure = q.failure

theorem Progress.Alike.andThen {p q : Progress} {f g : State → Progress} (h : p.Alike q)
    (next : ∀ {s t : State}, s.Alike t → (f s).Alike (g t)) :
    (p.andThen f).Alike (q.andThen g) := by
  obtain ⟨s, ts, e⟩ := p
  obtain ⟨t, us, e'⟩ := q
  obtain ⟨hstate, rfl, rfl⟩ := h
  cases e with
  | some e => exact ⟨hstate, rfl, rfl⟩
  | none =>
    obtain ⟨hnext, htokens, hfailure⟩ := next hstate
    exact ⟨hnext, congrArg (ts ++ ·) htokens, hfailure⟩

theorem Progress.Alike.drain_andThen_eq {setting : Setting} {p q : Progress}
    {f g : State → Progress} (h : p.Alike q)
    (next : ∀ {s t : State}, s.Alike t → (f s).drain setting = (g t).drain setting) :
    (p.andThen f).drain setting = (q.andThen g).drain setting := by
  obtain ⟨s, ts, e⟩ := p
  obtain ⟨t, us, e'⟩ := q
  obtain ⟨hstate, rfl, rfl⟩ := h
  cases e with
  | some e => rfl
  | none => rw [andThen_ok, andThen_ok, drain_prepend, drain_prepend, next hstate]

namespace State

variable {setting : Setting} {s t : State}

/-! ## Scanning from alike states -/

theorem Alike.scanWord (h : s.Alike t) (w : Text) :
    (Progress.ofStep (s.scanWord setting w)).Alike (Progress.ofStep (t.scanWord setting w)) := by
  obtain ⟨mode, line, buffer, i, j⟩ := s
  obtain ⟨mode', line', buffer', i', j'⟩ := t
  obtain ⟨rfl, rfl, rfl, hstart⟩ := h
  cases mode with
  | normal =>
    have hclosed : Alike ⟨.normal, line, buffer, i, j⟩ ⟨.normal, line, buffer, i', j'⟩ :=
      alike_of_normal rfl rfl rfl rfl
    simp only [State.scanWord, scanNormal]
    cases tokenClass? w with
    | some tokenClass => exact ⟨hclosed, rfl, rfl⟩
    | none =>
      cases Word.stringSeed? w with
      | some seed => exact ⟨⟨rfl, rfl, rfl, by simp [openString, Mode.construct?, start]⟩, rfl, rfl⟩
      | none =>
        rcases Word.commentLeftOpen? w with _ | _ | _
        · dsimp only
          split
          · exact ⟨hclosed, rfl, rfl⟩
          · exact ⟨hclosed, rfl, rfl⟩
        · exact ⟨hclosed, rfl, rfl⟩
        · exact ⟨⟨rfl, rfl, rfl, by simp [openComment, Mode.construct?, start]⟩, rfl, rfl⟩
  | string =>
    simp only [State.scanWord, scanString]
    split
    · exact ⟨alike_of_normal rfl rfl rfl rfl, rfl, rfl⟩
    · exact ⟨⟨rfl, rfl, rfl, hstart⟩, rfl, rfl⟩
  | comment =>
    simp only [State.scanWord, scanComment]
    split
    · exact ⟨alike_of_normal rfl rfl rfl rfl, rfl, rfl⟩
    · exact ⟨⟨rfl, rfl, rfl, hstart⟩, rfl, rfl⟩

theorem Alike.scanWords (h : s.Alike t) (ws : List Text) :
    (s.scanWords setting ws).Alike (t.scanWords setting ws) := by
  induction ws generalizing s t with
  | nil => exact ⟨h, rfl, rfl⟩
  | cons w ws ih =>
    rw [scanWords_cons, scanWords_cons]
    exact (h.scanWord w).andThen ih

/-- A line begins with its own number, so the lines that the states were on do not matter. -/
theorem alike_beginLine {n : Int}
    (h : ({ s with line := n } : State).Alike { t with line := n }) (line : Text) :
    (s.beginLine n line).1.Alike (t.beginLine n line).1 ∧
      (s.beginLine n line).2 = (t.beginLine n line).2 := by
  unfold beginLine
  generalize ({ s with line := n } : State) = s' at h ⊢
  generalize ({ t with line := n } : State) = t' at h ⊢
  have hmode : t'.mode = s'.mode := h.mode_eq.symm
  by_cases hcomment : s'.mode = .comment
  · simp only [uncomment, hmode, hcomment, if_true]
    cases Text.after? Symbol.commentClosing (Text.before Symbol.lineComment line) with
    | none => exact ⟨h, rfl⟩
    | some rest => exact ⟨alike_of_normal rfl rfl h.line_eq h.buffer_eq, rfl⟩
  · simpa [uncomment, wordsOf, hmode, hcomment] using h

theorem drain_scanLines_congr {n : Int}
    (h : ({ s with line := n } : State).Alike { t with line := n }) (lines : List Text) :
    (s.scanLines setting n lines).drain setting = (t.scanLines setting n lines).drain setting := by
  induction lines generalizing s t n with
  | nil =>
    have hmode : s.mode = t.mode := h.mode_eq
    have hstart (construct : Construct) (hopen : s.mode.construct? = some construct) :
        s.start construct = t.start construct := h.start_eq construct hopen
    simp only [scanLines_nil, Progress.drain, finish_snd, ← hmode]
    cases hopen : s.mode.construct? with
    | none => rfl
    | some construct =>
      dsimp only
      rw [hstart construct hopen]
  | cons line rest ih =>
    obtain ⟨hbegin, hwords⟩ := alike_beginLine h line
    rw [scanLines_cons, scanLines_cons, hwords]
    exact (hbegin.scanWords _).drain_andThen_eq fun hnext => ih (hnext.onLine (n + 1))

/-- Every line that is begun sets the line anew. -/
theorem drain_scanLines_line (s : State) (m n : Int) (lines : List Text) :
    (({ s with line := m } : State).scanLines setting n lines).drain setting =
      (s.scanLines setting n lines).drain setting :=
  drain_scanLines_congr (s := { s with line := m }) (t := s) ⟨rfl, rfl, rfl, fun _ _ => rfl⟩ lines

/-! ## Text is collected in literals only -/

theorem tidy_initial : State.initial.Tidy := fun _ => rfl

theorem Tidy.scanWord (h : s.Tidy) (w : Text) : (s.scanWord setting w).1.Tidy := by
  have hstep := wordStep setting s w
  generalize s.scanWord setting w = out at hstep ⊢
  cases hstep with
  | normal hmode hstep =>
    cases hstep with
    | opensString seed hclass hseed => exact fun hne => absurd rfl hne
    | opensComment => exact fun _ => h (by simp [hmode])
    | _ => exact h
  | string hmode hstep =>
    cases hstep with
    | closes => exact fun _ => rfl
    | collects => exact fun hne => absurd hmode hne
  | closesComment hmode => exact fun _ => h (by simp [hmode])
  | skipped => exact h

theorem Tidy.scanWords (h : s.Tidy) (ws : List Text) : (s.scanWords setting ws).state.Tidy := by
  induction ws generalizing s with
  | nil => exact h
  | cons w ws ih =>
    rw [scanWords_cons]
    exact Progress.state_andThen (by simpa using h.scanWord w) fun _ => ih

theorem Tidy.beginLine (h : s.Tidy) (n : Int) (line : Text) : (s.beginLine n line).1.Tidy := by
  have hleft := uncommented { s with line := n } line
  rw [State.beginLine]
  generalize State.uncomment { s with line := n } line = out at hleft ⊢
  cases hleft with
  | kept => exact h
  | resumed rest hmode => exact fun _ => h (by rw [hmode]; decide)
  | skipped => exact h

theorem Tidy.scanLines (h : s.Tidy) (n : Int) (lines : List Text) :
    (s.scanLines setting n lines).state.Tidy := by
  induction lines generalizing s n with
  | nil => exact h
  | cons line lines ih =>
    rw [scanLines_cons]
    exact Progress.state_andThen ((h.beginLine n line).scanWords _) fun _ hs => ih hs (n + 1)

/-! ## Moving lines -/

/-- Lines may be renumbered in front of a scan when their new numbers follow each other. -/
theorem scanLines_renumber_of_step (setting : Setting) {f : Int → Int} {n : Int} (s : State)
    (hf : ∀ m, n ≤ m → f (m + 1) = f m + 1) (lines : List Text) :
    (s.renumber f).scanLines setting (f n) lines = (s.scanLines setting n lines).renumber f := by
  induction lines generalizing s n with
  | nil => rfl
  | cons line lines ih =>
    have hbegin := beginWords_renumber f s n (lineWords line)
    rw [scanLines_cons, scanLines_cons, beginLine_eq_beginWords, beginLine_eq_beginWords, hbegin,
      scanWords_renumber, ← hf n (Int.le_refl n)]
    exact (Progress.renumber_andThen _ _ fun s => (ih s fun m hm => hf m (by omega)).symm).symm

/-- Lines may be scanned where they stand or as many lines further down. -/
theorem scanLines_renumber (k : Int) (s : State) (n : Int) (lines : List Text) :
    (s.renumber (· + k)).scanLines setting (n + k) lines =
      (s.scanLines setting n lines).renumber (· + k) :=
  s.scanLines_renumber_of_step setting (f := (· + k)) (fun m _ => by omega) lines

end State

end Scan

end PascalTokens
