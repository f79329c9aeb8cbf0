import Mathlib.Data.List.TakeWhile
import PascalTokens.Proofs.Scan.Progress

/-!
# Options only decide where a scan stops

Under every setting the scan goes through the same words in the same states, and gives the same
tokens on the way, until it stops. A setting that rejects unrecognized words stops at the first of
them. A strict setting stops at the end, when something is still open.

## Main definitions

* `visits` are the words that the permissive scan of a source comes to, with its states there.
* `Visit.Unrecognized` says that a word is neither a token nor an opening mark nor a symbol.
* `Progress.haltAt` stops a scan at the first word that the setting rejects.

## Main statements

* `drain_eq_haltAt`: the drain under any setting is found from the permissive one.
* `drain_ofFlags`: how the four combinations of the options relate.
-/

namespace PascalTokens

namespace Scan

/-- A word that a scan has come to, and the state in which it has. -/
structure Visit where
  state : State
  word : Text
  deriving DecidableEq

namespace Visit

variable (v : Visit)

/-- Between constructs, the word has no class, opens neither a literal nor a comment, is no comment
by itself, and is no symbol. -/
structure Unrecognized : Prop where
  mode_eq : v.state.mode = .normal
  classify_eq : Word.classify v.word = none
  opensString_eq : Word.opensString v.word = false
  opensComment_eq : Word.opensComment v.word = false
  isPunctuation_eq : Word.isPunctuation v.word = false

theorem unrecognized_iff : v.Unrecognized ↔ v.state.mode = .normal ∧
    Word.classify v.word = none ∧ Word.opensString v.word = false ∧
    Word.opensComment v.word = false ∧ Word.isPunctuation v.word = false :=
  ⟨fun ⟨hm, hc, hs, ho, hp⟩ => ⟨hm, hc, hs, ho, hp⟩,
    fun ⟨hm, hc, hs, ho, hp⟩ => ⟨hm, hc, hs, ho, hp⟩⟩

instance : Decidable v.Unrecognized := decidable_of_iff' _ v.unrecognized_iff

/-- What the permissive scan makes of the word. -/
def progress : Progress := .ofStep (v.state.scanWord {} v.word)

/-- The token that the permissive scan gives for the word, if it gives one. -/
def tokens : List Token := v.progress.tokens

/-- The failure of a scan that rejects the word. -/
def failure (file : Option Text) : LexicalError := ⟨.unrecognized v.word, v.state.line, file⟩

end Visit

/-- The setting makes a scan stop at this word. -/
def Setting.stopsAt (setting : Setting) (v : Visit) : Bool :=
  setting.config.rejects && decide v.Unrecognized

namespace State

/-- The words that the permissive scan comes to on a line. -/
def visitWords (s : State) : List Text → List Visit
  | [] => []
  | w :: rest => ⟨s, w⟩ :: (s.scanWord {} w).1.visitWords rest

/-- The words that the permissive scan comes to in lines, the first of which has number
`number`. -/
def visitLines (s : State) (number : Int) : List Text → List Visit
  | [] => []
  | line :: rest =>
    let (s, words) := s.beginLine number line
    s.visitWords words ++ (s.scanWords {} words).state.visitLines (number + 1) rest

end State

/-- The words that the permissive scan of a source comes to. -/
def visits (source : Text) : List Visit := State.initial.visitLines 1 (sourceLines source)

namespace Progress

/-- Of a scan that has come to the words `vs`, what there is of it when it stops at the first word
that the setting rejects. -/
def haltAt (setting : Setting) (vs : List Visit) (p : Progress) : Progress :=
  match vs.find? setting.stopsAt with
  | some v =>
    ⟨v.state, (vs.takeWhile (!setting.stopsAt ·)).flatMap Visit.tokens,
      some (v.failure setting.file)⟩
  | none => p

/-- The scan has come to the words `vs`, and no further failure stands behind its tokens. -/
structure Through (vs : List Visit) (p : Progress) : Prop where
  failure_eq : p.failure = none
  tokens_eq : p.tokens = vs.flatMap Visit.tokens

end Progress

/-! ## One word -/

variable {setting : Setting}

namespace State

/-- A word on which the options have no say is scanned as by the permissive scan. -/
theorem scanWord_eq (setting : Setting) (s : State) (w : Text) :
    s.scanWord setting w =
      if setting.stopsAt ⟨s, w⟩ then
        (s, .failure ((⟨s, w⟩ : Visit).failure setting.file))
      else s.scanWord {} w := by
  cases hmode : s.mode with
  | string => simp [Setting.stopsAt, Visit.unrecognized_iff, scanWord, hmode]
  | comment => simp [Setting.stopsAt, Visit.unrecognized_iff, scanWord, hmode]
  | normal =>
    rw [scanWord_of_normal hmode, scanWord_of_normal hmode]
    simp only [scanNormal, tokenClass?_eq_classify, Setting.stopsAt, Visit.unrecognized_iff, hmode,
      Word.stringSeed?, Word.commentLeftOpen?, Config.rejects_permissive, Visit.failure, fail]
    cases hclass : Word.classify w with
    | some tokenClass => simp
    | none =>
      cases hstring : Word.opensString w with
      | true => simp
      | false =>
        cases hcomment : Word.opensComment w with
        | true => cases Word.closesComment w <;> simp
        | false => cases Word.isPunctuation w <;> simp

end State

namespace Visit

theorem ofStep_scanWord (setting : Setting) (v : Visit) :
    Progress.ofStep (v.state.scanWord setting v.word) = v.progress.haltAt setting [v] := by
  rw [State.scanWord_eq]
  by_cases h : setting.stopsAt v
  · simp [Progress.haltAt, Progress.ofStep, h]
  · simp [Progress.haltAt, progress, h]

theorem through_progress (v : Visit) : v.progress.Through [v] := by
  refine ⟨?_, by simp [tokens]⟩
  unfold progress State.scanWord
  cases v.state.mode with
  | normal =>
    have hstep := State.normalStep {} v.state v.word
    dsimp only
    generalize v.state.scanNormal {} v.word = out at hstep ⊢
    cases hstep with
    | rejected hclass hrejects => simp at hrejects
    | _ => rfl
  | string =>
    have hstep := State.stringStep v.state v.word
    dsimp only
    generalize v.state.scanString v.word = out at hstep ⊢
    cases hstep <;> rfl
  | comment => rfl

end Visit

/-! ## Words and lines -/

namespace Progress

variable {us vs : List Visit} {p : Progress} {f g : State → Progress}

theorem Through.andThen (hp : p.Through us) (hg : (g p.state).Through vs) :
    (p.andThen g).Through (us ++ vs) := by
  obtain ⟨s, ts, e⟩ := p
  obtain ⟨rfl, rfl⟩ := hp
  exact ⟨hg.failure_eq, by simp [hg.tokens_eq]⟩

/-- A scan that stops in its first part stops there, and otherwise it goes on. -/
theorem haltAt_andThen (hp : p.Through us) (hf : f p.state = (g p.state).haltAt setting vs) :
    (p.haltAt setting us).andThen f = (p.andThen g).haltAt setting (us ++ vs) := by
  obtain ⟨s, ts, e⟩ := p
  obtain ⟨rfl, rfl⟩ := hp
  cases hu : us.find? setting.stopsAt with
  | some v =>
    have hne : (us.takeWhile (!setting.stopsAt ·)).length ≠ us.length := by
      intro hlen
      have hself : us.takeWhile (!setting.stopsAt ·) = us :=
        List.IsPrefix.eq_of_length (List.takeWhile_prefix _) hlen
      have hall := List.takeWhile_eq_self_iff.1 hself
      have hv := hall v (List.mem_of_find?_eq_some hu)
      simp [List.find?_some hu] at hv
    simp [haltAt, hu, List.takeWhile_append, hne]
  | none =>
    have hall : ∀ v ∈ us, setting.stopsAt v = false := by simpa using hu
    have htake : (us ++ vs).takeWhile (!setting.stopsAt ·) =
        us ++ vs.takeWhile (!setting.stopsAt ·) :=
      List.takeWhile_append_of_pos fun v hv => by simp [hall v hv]
    simp only [haltAt, hu, List.find?_append, Option.none_or, htake, andThen_ok, hf]
    cases vs.find? setting.stopsAt with
    | none => rfl
    | some v => simp [prepend]

end Progress

namespace State

theorem through_scanWords (s : State) (ws : List Text) :
    (s.scanWords {} ws).Through (s.visitWords ws) := by
  induction ws generalizing s with
  | nil => exact ⟨rfl, rfl⟩
  | cons w ws ih =>
    rw [scanWords_cons]
    exact (Visit.through_progress ⟨s, w⟩).andThen (by simpa [Visit.progress] using ih _)

theorem scanWords_eq_haltAt (setting : Setting) (s : State) (ws : List Text) :
    s.scanWords setting ws = (s.scanWords {} ws).haltAt setting (s.visitWords ws) := by
  induction ws generalizing s with
  | nil => rfl
  | cons w ws ih =>
    have hword := Visit.ofStep_scanWord setting ⟨s, w⟩
    rw [scanWords_cons, scanWords_cons, hword]
    exact Progress.haltAt_andThen (Visit.through_progress ⟨s, w⟩)
      (by simpa [Visit.progress] using ih _)

theorem through_scanLines (s : State) (n : Int) (lines : List Text) :
    (s.scanLines {} n lines).Through (s.visitLines n lines) := by
  induction lines generalizing s n with
  | nil => exact ⟨rfl, rfl⟩
  | cons line lines ih =>
    rw [scanLines_cons]
    exact (through_scanWords _ _).andThen (ih _ (n + 1))

theorem scanLines_eq_haltAt (setting : Setting) (s : State) (n : Int) (lines : List Text) :
    s.scanLines setting n lines =
      (s.scanLines {} n lines).haltAt setting (s.visitLines n lines) := by
  induction lines generalizing s n with
  | nil => rfl
  | cons line lines ih =>
    rw [scanLines_cons, scanLines_cons, scanWords_eq_haltAt]
    exact Progress.haltAt_andThen (through_scanWords _ _) (ih _ (n + 1))

variable {s : State} {n : Int} {lines : List Text}

/-- Lines that are scanned without a failure are scanned as by the permissive scan. -/
theorem scanLines_eq_permissive (h : (s.scanLines setting n lines).failure = none) :
    s.scanLines setting n lines = s.scanLines {} n lines := by
  rw [scanLines_eq_haltAt, Progress.haltAt] at h ⊢
  cases hstop : (s.visitLines n lines).find? setting.stopsAt with
  | some v => simp [hstop] at h
  | none => rfl

/-- Before the end, a scan fails because of a word only. -/
theorem exists_unrecognized_of_failure {e : LexicalError}
    (h : (s.scanLines setting n lines).failure = some e) : ∃ w, e.fault = .unrecognized w := by
  rw [scanLines_eq_haltAt, Progress.haltAt] at h
  cases hstop : (s.visitLines n lines).find? setting.stopsAt with
  | some v =>
    have hfailure : v.failure setting.file = e := by simpa [hstop] using h
    exact ⟨v.word, by rw [← hfailure]; rfl⟩
  | none => simp [hstop, (through_scanLines s n lines).failure_eq] at h

end State

/-! ## Whole sources -/

/-- What strict checking makes of an ending: what is dropped becomes a failure. -/
def Ending.checked (strict : Bool) (file : Option Text) : Ending → Ending
  | dropped construct line =>
    if strict then .failed ⟨.unterminated construct, line, file⟩ else .dropped construct line
  | ending => ending

theorem Ending.checked_false (file : Option Text) (ending : Ending) :
    ending.checked false file = ending := by cases ending <;> rfl

theorem State.finish_eq_checked (setting : Setting) (s : State) :
    (s.finish setting).2 = (s.finish {}).2.checked setting.config.isStrict setting.file := by
  rw [finish_snd, finish_snd]
  cases s.mode.construct? with
  | none => rfl
  | some construct => simp [Ending.checked, fail]

theorem State.failure?_finish_permissive (s : State) : (s.finish {}).2.failure? = none := by
  rw [finish_snd]
  cases s.mode.construct? with
  | none => rfl
  | some construct => simp [Ending.failure?]

/-- The drain under any setting: the permissive one up to the first word that the setting rejects,
or all of it with its ending checked. -/
theorem drain_eq_haltAt (setting : Setting) (source : Text) :
    drain setting source =
      match (visits source).find? setting.stopsAt with
      | some v =>
        ⟨((visits source).takeWhile (!setting.stopsAt ·)).flatMap Visit.tokens,
          .failed (v.failure setting.file)⟩
      | none =>
        ⟨(visits source).flatMap Visit.tokens,
          (drain {} source).ending.checked setting.config.isStrict setting.file⟩ := by
  obtain ⟨hfailure, htokens⟩ := State.through_scanLines .initial 1 (sourceLines source)
  rw [drain_eq_scanLines, drain_eq_scanLines, State.scanLines_eq_haltAt, visits]
  generalize State.initial.visitLines 1 (sourceLines source) = vs at htokens ⊢
  generalize State.initial.scanLines {} 1 (sourceLines source) = p at hfailure htokens ⊢
  cases hstop : vs.find? setting.stopsAt with
  | some v => simp [Progress.haltAt, Progress.drain, hstop]
  | none =>
    simp only [Progress.haltAt, hstop, Progress.drain, hfailure, htokens]
    rw [State.finish_eq_checked setting]

section Options

variable (setting : Setting) (source : Text)

theorem tokens_drain_permissive :
    (drain {} source).tokens = (visits source).flatMap Visit.tokens := by
  have hstop : (visits source).find? ({} : Setting).stopsAt = none := by
    simp [Setting.stopsAt]
  rw [drain_eq_haltAt, hstop]

theorem failure?_drain_permissive : (drain {} source).failure? = none := by
  obtain ⟨hfailure, -⟩ := State.through_scanLines .initial 1 (sourceLines source)
  rw [drain_eq_scanLines, Progress.drain, hfailure]
  exact State.failure?_finish_permissive _

/-- The first word that is rejected ends the scan, with the tokens that stand before it. -/
theorem drain_of_unrecognized (hrejects : setting.config.rejects) {before after : List Visit}
    {v : Visit} (hvisits : visits source = before ++ v :: after)
    (hbefore : ∀ u ∈ before, ¬ u.Unrecognized) (hv : v.Unrecognized) :
    drain setting source = ⟨before.flatMap Visit.tokens, .failed (v.failure setting.file)⟩ := by
  have hpass : ∀ u ∈ before, setting.stopsAt u = false := by
    intro u hu
    simp [Setting.stopsAt, hbefore u hu]
  have hstop : setting.stopsAt v = true := by simp [Setting.stopsAt, hrejects, hv]
  have hfind : (visits source).find? setting.stopsAt = some v := by
    rw [hvisits, List.find?_append, List.find?_eq_none.2 (by simpa using hpass)]
    simp [hstop]
  have htake : (visits source).takeWhile (!setting.stopsAt ·) = before := by
    rw [hvisits, List.takeWhile_append_of_pos fun u hu => by simp [hpass u hu]]
    simp [hstop]
  rw [drain_eq_haltAt, hfind, htake]

/-- Without such a word, only the ending depends on the setting. -/
theorem drain_of_recognized (h : setting.config.rejects → ∀ v ∈ visits source, ¬ v.Unrecognized) :
    drain setting source =
      ⟨(drain {} source).tokens,
        (drain {} source).ending.checked setting.config.isStrict setting.file⟩ := by
  have hfind : (visits source).find? setting.stopsAt = none := by
    refine List.find?_eq_none.2 fun v hv => ?_
    simpa [Setting.stopsAt] using fun hrejects => h hrejects v hv
  rw [drain_eq_haltAt, hfind, tokens_drain_permissive]

/-- Of the options, only their truth counts. -/
theorem drain_congr_config {c d : Config} (file : Option Text) (hstrict : c.isStrict = d.isStrict)
    (hrejects : c.rejects = d.rejects) : drain ⟨c, file⟩ source = drain ⟨d, file⟩ source := by
  have hstop : (⟨c, file⟩ : Setting).stopsAt = (⟨d, file⟩ : Setting).stopsAt := by
    funext v
    simp [Setting.stopsAt, hrejects]
  rw [drain_eq_haltAt, drain_eq_haltAt ⟨d, file⟩, hstop, hstrict]

theorem drain_permissive (file : Option Text) :
    drain ⟨.ofFlags false false, file⟩ source = drain {} source := by
  have hdrain := drain_of_recognized ⟨.ofFlags false false, file⟩ source (by simp)
  rwa [Config.isStrict_ofFlags, Ending.checked_false] at hdrain

/-- An option that an object does not name is not set. -/
theorem drain_ofJson? {fields : Json.Fields} {config : Config} (file : Option Text)
    (h : Config.ofJson? (.obj fields) = some config) :
    drain ⟨config, file⟩ source =
      drain ⟨.ofFlags ((Json.fieldOf "strict".toList fields).any Json.isTruthy)
        ((Json.fieldOf "reject_unrecognized".toList fields).any Json.isTruthy), file⟩ source := by
  have hgetD (value : Option Json) :
      (value.getD (.bool false)).isTruthy = value.any Json.isTruthy := by cases value <;> rfl
  obtain rfl := Option.some.inj h
  exact drain_congr_config source file (hgetD _) (hgetD _)

/-- Rejecting changes nothing when no word is rejected. -/
theorem drain_reject_of_recognized (strict : Bool) (file : Option Text)
    (h : ∀ v ∈ visits source, ¬ v.Unrecognized) :
    drain ⟨.ofFlags strict true, file⟩ source = drain ⟨.ofFlags strict false, file⟩ source := by
  rw [drain_of_recognized _ source fun _ => h, drain_of_recognized ⟨.ofFlags strict false, file⟩
    source (by simp)]
  rfl

/-- A scan either meets no word that is rejected, or it meets a first one. -/
theorem recognized_or_exists_unrecognized :
    (∀ v ∈ visits source, ¬ v.Unrecognized) ∨ ∃ before v after,
      visits source = before ++ v :: after ∧ (∀ u ∈ before, ¬ u.Unrecognized) ∧ v.Unrecognized := by
  cases h : (visits source).find? (decide ·.Unrecognized) with
  | none => exact .inl (by simpa using h)
  | some v =>
    obtain ⟨hv, before, after, hvisits, hbefore⟩ := List.find?_eq_some_iff_append.1 h
    exact .inr ⟨before, v, after, hvisits, by simpa using hbefore, by simpa using hv⟩

end Options

/-- The four combinations of the options go through the same words. The permissive scan never fails;
a strict one may do so at its end, a rejecting one at the first unrecognized word. If both options
are set, the word comes before the end. Of options that are read from an object, only the truth of
their values counts. -/
theorem drain_ofFlags (file : Option Text) (source : Text) :
    let run (strict rejects : Bool) := drain ⟨.ofFlags strict rejects, file⟩ source
    (run false false).failure? = none ∧
      (run true false).tokens = (run false false).tokens ∧
      (run false true).tokens <+: (run false false).tokens ∧
      ((run false true).failure? = none → (run false true).tokens = (run false false).tokens) ∧
      (run true true =
        if (run false true).failure?.isSome then run false true else run true false) ∧
      (run false false).tokens = (visits source).flatMap Visit.tokens ∧
      ((run false true).failure?.isSome ↔ ∃ v ∈ visits source, v.Unrecognized) ∧
      (∀ before v after, visits source = before ++ v :: after →
        (∀ u ∈ before, ¬ u.Unrecognized) → v.Unrecognized →
        run false true = ⟨before.flatMap Visit.tokens,
          .failed ⟨.unrecognized v.word, v.state.line, file⟩⟩) ∧
      ∀ fields config, Config.ofJson? (.obj fields) = some config →
        drain ⟨config, file⟩ source =
          run ((Json.fieldOf "strict".toList fields).any Json.isTruthy)
            ((Json.fieldOf "reject_unrecognized".toList fields).any Json.isTruthy) := by
  intro run
  have hpermissive : run false false = drain {} source := drain_permissive source file
  have hstrict : run true false =
      ⟨(drain {} source).tokens, (drain {} source).ending.checked true file⟩ :=
    drain_of_recognized ⟨.ofFlags true false, file⟩ source (by simp)
  have hnever : (run false false).failure? = none := by
    rw [hpermissive, failure?_drain_permissive]
  have htokens : (run false false).tokens = (visits source).flatMap Visit.tokens := by
    rw [hpermissive, tokens_drain_permissive]
  have hfirst : ∀ before v after, visits source = before ++ v :: after →
      (∀ u ∈ before, ¬ u.Unrecognized) → v.Unrecognized → ∀ strict,
      run strict true = ⟨before.flatMap Visit.tokens, .failed (v.failure file)⟩ := by
    intro before v after hvisits hbefore hv strict
    exact drain_of_unrecognized ⟨.ofFlags strict true, file⟩ source rfl hvisits hbefore hv
  refine ⟨hnever, by rw [hstrict, hpermissive], ?_⟩
  rcases recognized_or_exists_unrecognized source with
    hnone | ⟨before, v, after, hvisits, hbefore, hv⟩
  · have hreject (strict : Bool) : run strict true = run strict false :=
      drain_reject_of_recognized source strict file hnone
    rw [hreject, hreject, hnever]
    refine ⟨List.prefix_rfl, fun _ => rfl, rfl, htokens, by simpa using hnone, ?_, ?_⟩
    · intro before v after hvisits hbefore hv
      exact absurd hv (hnone v (by simp [hvisits]))
    · exact fun fields config h => drain_ofJson? source file h
  · have hreject := hfirst before v after hvisits hbefore hv
    have hfailure : (run false true).failure? = some (v.failure file) := by
      rw [hreject]
      rfl
    have hexists : ∃ v ∈ visits source, v.Unrecognized := ⟨v, by simp [hvisits], hv⟩
    rw [hfailure]
    refine ⟨?_, nofun, by rw [hreject, hreject]; rfl, htokens, by simpa using hexists, ?_, ?_⟩
    · rw [hreject, htokens, hvisits, List.flatMap_append]
      exact List.prefix_append _ _
    · exact fun before v after hvisits hbefore hv => hfirst before v after hvisits hbefore hv false
    · exact fun fields config h => drain_ofJson? source file h

/-- A word that is rejected stands before a comment that is left open. -/
theorem drain_ofFlags_comment :
    let source := "x\n'a b' $ /*".toList
    let run (strict rejects : Bool) := drain ⟨.ofFlags strict rejects, none⟩ source
    let line (n : Int) (start : Int) : State := ⟨.normal, n, .empty, start, 0⟩
    let before : List Visit := [⟨line 1 0, ['x']⟩, ⟨line 2 0, "'a".toList⟩,
      ⟨⟨.string, 2, Fragments.empty.append ['a'], 2, 0⟩, "b'".toList⟩]
    let after : List Visit := [⟨line 2 2, ['/', '*']⟩]
    visits source = before ++ ⟨line 2 2, ['$']⟩ :: after ∧
      run false true = ⟨[⟨['x'], .identifier, 1⟩, ⟨"a b".toList, .stringLiteral, 2⟩],
        .failed ⟨.unrecognized ['$'], 2, none⟩⟩ ∧
      run true true = run false true ∧
      (run true false).failure? = some ⟨.unterminated .blockComment, 2, none⟩ ∧
      drain ⟨⟨.int 1, .str []⟩, none⟩ source = run true false := by
  intro source run line before after
  obtain ⟨_, _, _, _, hboth, _, _, hfirst, hobject⟩ := drain_ofFlags none source
  have hvisits : visits source = before ++ ⟨line 2 2, ['$']⟩ :: after := by decide
  have hreject := hfirst before _ after hvisits (by decide) (by decide)
  refine ⟨hvisits, hreject, ?_, by decide, ?_⟩
  · refine hboth.trans (if_pos ?_)
    rw [hreject]
    rfl
  · exact hobject [("strict".toList, .int 1), ("reject_unrecognized".toList, .str [])] _ rfl

end Scan

end PascalTokens
