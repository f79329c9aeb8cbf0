import Mathlib.Data.List.Forall2
import PascalTokens.Command.Invocation
import PascalTokens.Proofs.Except

/-!
# The arguments of an analysis

How a source is to be analysed is said by options in any order, and the file may stand anywhere
among them.

## Main definitions

* `Choice` is one such option, with its arguments and what it asks for.
* `Grammar.Marks` gives the form of an argument that is no pair of dashes.

## Main statements

* `ofArguments_choices` and `ofArguments_choices_file`: what is read from options, and from options
  before and after a file.
-/

namespace PascalTokens

namespace Command

/-- The name of a format. -/
def Format.name : Format → Text
  | table => "table".toList
  | json => "json".toList

/-- A choice of how to analyse a source. -/
inductive Choice where
  | strict
  | rejectUnrecognized
  | format (format : Format)
  deriving DecidableEq, Repr

namespace Choice

/-- The arguments that make a choice. -/
def arguments : Choice → List Text
  | strict => ["--strict".toList]
  | rejectUnrecognized => ["--reject-unrecognized".toList]
  | format f => ["--format".toList, f.name]

/-- The request once the choice is made. -/
def apply (r : AnalyzeRequest) : Choice → AnalyzeRequest
  | strict => { r with strict := true }
  | rejectUnrecognized => { r with rejectUnrecognized := true }
  | format f => { r with format := f }

/-- What the choice is for the command it is made for. -/
def items : Choice → List (Item AnalyzeOption)
  | strict => [.option .strict true none]
  | rejectUnrecognized => [.option .rejectUnrecognized true none]
  | format f => [.option .format true none, .operand f.name]

/-- What the choice is before the command is known. -/
def generalItems : Choice → List (Item GeneralOption)
  | strict => [.unknown]
  | rejectUnrecognized => [.unknown]
  | format f => [.unknown, .operand f.name]

end Choice

/-! ## Sorting -/

namespace Grammar

variable {α : Type} {g : Grammar α} {t : Text} {ts : List Text} {items : List (Item α)}

/-- The argument has this form, and it does not end the options. -/
structure Marks (g : Grammar α) (t : Text) (item : Item α) : Prop where
  ne_dashes : t ≠ dashes
  itemOf_eq : g.itemOf t = .ok item

theorem classify_eq (h : List.Forall₂ g.Marks ts items) : g.classify ts = .ok items := by
  induction h with
  | nil => rfl
  | cons hmarks _ ih =>
    rw [classify, if_neg hmarks.ne_dashes, hmarks.itemOf_eq, ih]
    rfl

theorem length_classify (h : g.classify ts = .ok items) : items.length = ts.length := by
  induction ts generalizing items with
  | nil =>
    obtain rfl := Except.ok.inj h
    rfl
  | cons t ts ih =>
    rw [classify] at h
    split at h
    · obtain rfl := Except.ok.inj h
      simp
    · cases hitem : g.itemOf t with
      | error stop => simp [hitem, Bind.bind, Except.bind] at h
      | ok item =>
        cases hrest : g.classify ts with
        | error stop => simp [hitem, hrest, Bind.bind, Except.bind] at h
        | ok others =>
          simp only [hitem, hrest, Bind.bind, Except.bind, Pure.pure, Except.pure] at h
          obtain rfl := Except.ok.inj h
          rw [List.length_cons, List.length_cons, ih hrest]

theorem marks_flatMap {f : Choice → List (Item α)}
    (h : ∀ c : Choice, List.Forall₂ g.Marks c.arguments (f c)) (choices : List Choice) :
    List.Forall₂ g.Marks (choices.flatMap Choice.arguments) (choices.flatMap f) := by
  induction choices with
  | nil => exact .nil
  | cons c choices ih => exact List.rel_append (h c) ih

end Grammar

namespace Choice

theorem marks_items (c : Choice) : List.Forall₂ analyzeGrammar.Marks c.arguments c.items := by
  cases c with
  | strict => exact .cons ⟨by decide, rfl⟩ .nil
  | rejectUnrecognized => exact .cons ⟨by decide, rfl⟩ .nil
  | format f => cases f <;> exact .cons ⟨by decide, rfl⟩ (.cons ⟨by decide, rfl⟩ .nil)

theorem marks_generalItems (c : Choice) :
    List.Forall₂ generalGrammar.Marks c.arguments c.generalItems := by
  cases c with
  | strict => exact .cons ⟨by decide, rfl⟩ .nil
  | rejectUnrecognized => exact .cons ⟨by decide, rfl⟩ .nil
  | format f => cases f <;> exact .cons ⟨by decide, rfl⟩ (.cons ⟨by decide, rfl⟩ .nil)

end Choice

/-! ## Reading -/

namespace Reading

theorem operands_take {σ : Type} {r : Reading σ} {t : Text} (hstanding : r.standing ≠ .afterDashes)
    (hne : t ≠ dashes) : (r.take t).operands = r.operands ++ [some t] := by
  simp [take, hstanding, given, hne]

variable (r : Reading AnalyzeRequest) (choices : List Choice)

/-- What has been read once the choices are made. -/
def choose (r : Reading AnalyzeRequest) (choices : List Choice) : Reading AnalyzeRequest :=
  choices.foldl (fun r c => r.adopt (c.apply r.settings)) r

theorem choose_cons (c : Choice) :
    r.choose (c :: choices) = (r.adopt (c.apply r.settings)).choose choices := rfl

theorem settings_choose : (r.choose choices).settings = choices.foldl Choice.apply r.settings := by
  induction choices generalizing r with
  | nil => rfl
  | cons c choices ih => exact ih _

theorem operands_choose : (r.choose choices).operands = r.operands := by
  induction choices generalizing r with
  | nil => rfl
  | cons c choices ih => exact ih _

theorem stray_choose : (r.choose choices).stray = r.stray := by
  induction choices generalizing r with
  | nil => rfl
  | cons c choices ih => exact ih _

theorem standing_choose (h : r.standing ≠ .afterDashes) :
    (r.choose choices).standing ≠ .afterDashes := by
  induction choices generalizing r with
  | nil => exact h
  | cons c choices ih => exact ih _ nofun

end Reading

section Items

variable {α σ : Type} {g : Grammar α} {effect : Effect α σ} {capacity : Nat} {r : Reading σ} {o : α}
  {long : Bool} {settings : σ} {t : Text} {rest : List (Item α)}

theorem readItems_option (hvalue : g.takesValue o = false)
    (heffect : effect r.settings o none = .ok settings) :
    readItems g effect capacity r (.option o long none :: rest) =
      readItems g effect capacity (r.adopt settings) rest := by
  rw [readItems.eq_def]
  simp [hvalue, heffect, Grammar.expand, applyAll, Bind.bind, Except.bind]

theorem readItems_option_operand (hvalue : g.takesValue o)
    (heffect : effect r.settings o (given t) = .ok settings) :
    readItems g effect capacity r (.option o long none :: .operand t :: rest) =
      readItems g effect capacity (r.adopt settings) rest := by
  rw [readItems.eq_def]
  simp [hvalue, heffect, Bind.bind, Except.bind]

theorem readItems_operand (h : r.operands.length < capacity) :
    readItems g effect capacity r (.operand t :: rest) =
      readItems g effect capacity (r.take t) rest := by
  rw [readItems.eq_def]
  simp [h]

end Items

theorem readItems_choice (r : Reading AnalyzeRequest) (c : Choice)
    (rest : List (Item AnalyzeOption)) :
    readItems analyzeGrammar analyzeEffect 1 r (c.items ++ rest) =
      readItems analyzeGrammar analyzeEffect 1 (r.adopt (c.apply r.settings)) rest := by
  cases c with
  | strict => exact readItems_option rfl rfl
  | rejectUnrecognized => exact readItems_option rfl rfl
  | format f => cases f <;> exact readItems_option_operand rfl rfl

theorem readItems_choices (r : Reading AnalyzeRequest) (choices : List Choice)
    (rest : List (Item AnalyzeOption)) :
    readItems analyzeGrammar analyzeEffect 1 r (choices.flatMap Choice.items ++ rest) =
      readItems analyzeGrammar analyzeEffect 1 (r.choose choices) rest := by
  induction choices generalizing r with
  | nil => rfl
  | cons c choices ih =>
    rw [List.flatMap_cons, List.append_assoc, readItems_choice, ih, Reading.choose_cons]

/-! ## Whole commands -/

theorem ofArguments_analyze (arguments : List Text) :
    Invocation.ofArguments ("analyze".toList :: arguments) = (do
      let _ ← generalGrammar.classify arguments
      let request ← readAnalyze arguments
      return ⟨.standard, request⟩) := by
  have hcommand : generalGrammar.itemOf "analyze".toList = .ok (.operand "analyze".toList) := rfl
  rw [Invocation.ofArguments, Grammar.classify, if_neg (by decide), hcommand]
  cases hitems : generalGrammar.classify arguments with
  | error stop => rfl
  | ok items =>
    have harguments : (items.zip arguments).map (·.2) = arguments :=
      List.map_snd_zip (Nat.le_of_eq (Grammar.length_classify hitems).symm)
    dsimp only [Bind.bind, Except.bind, Pure.pure, Except.pure, List.zip_cons_cons]
    rw [Invocation.readFrom, harguments, readCommand, if_pos rfl]
    cases readAnalyze arguments <;> rfl

theorem readAnalyze_eq_ok_iff {arguments : List Text} {request : Request} :
    readAnalyze arguments = .ok request ↔ ∃ items r, analyzeGrammar.classify arguments = .ok items ∧
      readItems analyzeGrammar analyzeEffect 1 { settings := {} } items = .ok r ∧
      r.stray = false ∧ request = .analyze { r.settings with file := r.operands.head?.join } := by
  simp only [readAnalyze, bind_eq_ok]
  refine exists_congr fun items => ?_
  rw [← exists_and_left]
  refine exists_congr fun r => and_congr_right fun _ => and_congr_right fun _ => ?_
  cases r.stray with
  | true => simp [throw, throwThe, MonadExceptOf.throw, Bind.bind, Except.bind]
  | false => simp [Pure.pure, Except.pure, eq_comm]

/-- An option is no operand. -/
theorem operands_readItems_option {α σ : Type} {g : Grammar α} {effect : Effect α σ}
    {capacity : Nat} {r s : Reading σ} {o : α} {long : Bool} {attached : Option Text}
    (h : readItems g effect capacity r [.option o long attached] = .ok s) :
    s.operands = r.operands := by
  rw [readItems.eq_def] at h
  dsimp only at h
  split at h
  · cases attached with
    | none => exact absurd h nofun
    | some v =>
      obtain ⟨settings, -, h⟩ := bind_eq_ok.1 h
      rw [readItems] at h
      obtain rfl := Except.ok.inj h
      rfl
  · obtain ⟨options, -, h⟩ := bind_eq_ok.1 h
    obtain ⟨settings, -, h⟩ := bind_eq_ok.1 h
    rw [readItems] at h
    obtain rfl := Except.ok.inj h
    rfl

/-- An argument that is taken as the file is an operand. -/
theorem marks_of_ofArguments {file : Text}
    (h : Invocation.ofArguments ["analyze".toList, file] =
      .ok ⟨.standard, .analyze { file := some file }⟩) :
    analyzeGrammar.Marks file (.operand file) ∧ ∃ item, generalGrammar.Marks file item := by
  rw [ofArguments_analyze] at h
  obtain ⟨general, hgeneral, h⟩ := bind_eq_ok.1 h
  obtain ⟨request, hrequest, h⟩ := bind_eq_ok.1 h
  obtain rfl : request = .analyze { file := some file } :=
    congrArg Invocation.request (Except.ok.inj h)
  have hne : file ≠ dashes := by
    rintro rfl
    exact absurd hrequest (by decide)
  obtain ⟨items, r, hitems, hread, hstray, hr⟩ := readAnalyze_eq_ok_iff.1 hrequest
  have hfile : some file = r.operands.head?.join :=
    congrArg AnalyzeRequest.file (Request.analyze.inj hr)
  rw [Grammar.classify, if_neg hne] at hgeneral hitems
  obtain ⟨mark, hmark, -⟩ := bind_eq_ok.1 hgeneral
  obtain ⟨item, hitem, hrest⟩ := bind_eq_ok.1 hitems
  obtain rfl : [item] = items := Except.ok.inj hrest
  refine ⟨⟨hne, ?_⟩, mark, hne, hmark⟩
  cases item with
  | operand t =>
    rw [readItems_operand (by decide), readItems] at hread
    obtain rfl := Except.ok.inj hread
    have hgiven : some file = given t := hfile
    rw [given] at hgiven
    split at hgiven
    · exact absurd hgiven nofun
    · rw [hitem, Option.some.inj hgiven]
  | separator =>
    rw [readItems, readItems] at hread
    obtain rfl := Except.ok.inj hread
    exact absurd hfile nofun
  | unknown =>
    rw [readItems, readItems] at hread
    obtain rfl := Except.ok.inj hread
    exact absurd hstray nofun
  | option o long attached =>
    rw [operands_readItems_option hread] at hfile
    exact absurd hfile nofun

/-- The request that the choices make, for this file. -/
def AnalyzeRequest.choosing (file : Option Text) (choices : List Choice) : AnalyzeRequest :=
  { choices.foldl Choice.apply {} with file := file }

theorem ofArguments_choices (choices : List Choice) :
    Invocation.ofArguments ("analyze".toList :: choices.flatMap Choice.arguments) =
      .ok ⟨.standard, .analyze (.choosing none choices)⟩ := by
  have hgeneral := Grammar.classify_eq (Grammar.marks_flatMap Choice.marks_generalItems choices)
  have hitems := Grammar.classify_eq (Grammar.marks_flatMap Choice.marks_items choices)
  have hread := readItems_choices { settings := {} } choices []
  rw [List.append_nil, readItems] at hread
  have hrequest : readAnalyze (choices.flatMap Choice.arguments) =
      .ok (.analyze (.choosing none choices)) := by
    refine readAnalyze_eq_ok_iff.2 ⟨_, _, hitems, hread, Reading.stray_choose _ _, ?_⟩
    rw [Reading.operands_choose, Reading.settings_choose]
    rfl
  rw [ofArguments_analyze, hgeneral, hrequest]
  rfl

/-- A file that is taken by itself is taken among options as well. -/
theorem ofArguments_choices_file {file : Text}
    (h : Invocation.ofArguments ["analyze".toList, file] =
      .ok ⟨.standard, .analyze { file := some file }⟩) (before after : List Choice) :
    Invocation.ofArguments ("analyze".toList ::
        (before.flatMap Choice.arguments ++ file :: after.flatMap Choice.arguments)) =
      .ok ⟨.standard, .analyze (.choosing (some file) (before ++ after))⟩ := by
  obtain ⟨hfile, mark, hmark⟩ := marks_of_ofArguments h
  have hgeneral := Grammar.classify_eq (List.rel_append
    (Grammar.marks_flatMap Choice.marks_generalItems before)
    (.cons hmark (Grammar.marks_flatMap Choice.marks_generalItems after)))
  have hitems := Grammar.classify_eq (List.rel_append
    (Grammar.marks_flatMap Choice.marks_items before)
    (.cons hfile (Grammar.marks_flatMap Choice.marks_items after)))
  let chosen : Reading AnalyzeRequest := Reading.choose { settings := {} } before
  have hnone : chosen.operands = [] := Reading.operands_choose _ before
  have hstanding : chosen.standing ≠ .afterDashes :=
    Reading.standing_choose { settings := {} } before (by decide)
  have hoperands : (chosen.take file).operands = [some file] := by
    rw [Reading.operands_take hstanding hfile.ne_dashes, hnone]
    rfl
  have hsettings : (chosen.take file).settings = before.foldl Choice.apply {} :=
    Reading.settings_choose _ before
  have hstray : (chosen.take file).stray = false := Reading.stray_choose _ before
  have hbefore := readItems_choices { settings := {} } before
    (.operand file :: after.flatMap Choice.items)
  have hafter := readItems_choices (chosen.take file) after []
  rw [List.append_nil, readItems] at hafter
  rw [readItems_operand (by simp [Reading.operands_choose])] at hbefore
  have hrequest : readAnalyze
      (before.flatMap Choice.arguments ++ file :: after.flatMap Choice.arguments) =
        .ok (.analyze (.choosing (some file) (before ++ after))) := by
    refine readAnalyze_eq_ok_iff.2 ⟨_, _, hitems, hbefore.trans hafter, ?_, ?_⟩
    · rw [Reading.stray_choose, hstray]
    · rw [Reading.operands_choose, Reading.settings_choose, hoperands, hsettings,
        AnalyzeRequest.choosing, List.foldl_append]
      rfl
  rw [ofArguments_analyze, hgeneral, hrequest]
  rfl

end Command

end PascalTokens
