import PascalTokens.Analysis
import PascalTokens.Proofs.Scan.Layout
import PascalTokens.Proofs.Scan.Options
import PascalTokens.Proofs.Text.Decimal
import PascalTokens.Proofs.Text.LineEnding

/-!
# Where a source comes from

Of a source that is read from a file, the name and the last line feed do not come from what is
written in it. The name stands in the messages of failures and nowhere else, and the line feed
makes no difference at all.

## Main definitions

* `LexicalError.inFile`, `Scan.Drain.inFile` and `Analysis.inFile` give a file name to a failure.

## Main statements

* `LexicalError.text_inFile`: the name stands before the line number.
* `Analysis.analyze_inFile`: a named source is analysed like one without a name.
* `Analysis.analyze_terminated`: so is a source whose last line is ended.
-/

namespace PascalTokens

/-! ## Messages -/

namespace Text

theorem ofInt_ne_nil (n : Int) : ofInt n ≠ [] := by
  cases n with
  | ofNat n => exact Nat.toDigits_ne_nil
  | negSucc n => exact List.cons_ne_nil _ _

theorem colon_notMem_ofInt (n : Int) : ':' ∉ ofInt n := by
  have hdigits (n : Nat) : ':' ∉ ofNat n := by
    intro h
    exact absurd (allDigits_ofNat n _ h) (by decide)
  cases n with
  | ofNat n => exact hdigits n
  | negSucc n =>
    intro h
    rcases List.mem_cons.1 h with h | h
    · exact absurd h (by decide)
    · exact hdigits (n + 1) h

/-- Only the last colon is dropped when no other one stands right before it. -/
theorem dropEndWhile_colon (a : Text) {b : Text} (hne : b ≠ []) (hb : ':' ∉ b) :
    dropEndWhile (· = ':') (a ++ b ++ [':']) = a ++ b := by
  obtain ⟨b, c, rfl⟩ := (List.eq_nil_or_concat b).resolve_left hne
  have hc : c ≠ ':' := by
    rintro rfl
    simp at hb
  simp [dropEndWhile, hc]

end Text

namespace LexicalError

/-- The error in a file of this name. -/
def inFile (e : LexicalError) (file : Option Text) : LexicalError := { e with file := file }

/-- Without a file name, a message begins with the line number. -/
theorem text_inFile_none (e : LexicalError) :
    (e.inFile none).text = Text.ofInt e.line ++ ' ' :: e.fault.message := by
  have hdrop : Text.dropEndWhile (· = ':') (Text.ofInt e.line ++ [':']) = Text.ofInt e.line :=
    Text.dropEndWhile_colon [] (Text.ofInt_ne_nil _) (Text.colon_notMem_ofInt _)
  have hlocation : (e.inFile none).diagnostic.location = Text.ofInt e.line ++ [':'] := rfl
  rw [text, Diagnostic.text, hlocation, if_neg (by simp), hdrop]
  rfl

/-- A file name stands before the line number, with a colon between them. -/
theorem text_inFile (e : LexicalError) {file : Text} (hfile : file ≠ []) :
    (e.inFile (some file)).text = file ++ ':' :: (e.inFile none).text := by
  have hdrop : Text.dropEndWhile (· = ':') (file ++ [':'] ++ Text.ofInt e.line ++ [':']) =
      file ++ [':'] ++ Text.ofInt e.line :=
    Text.dropEndWhile_colon _ (Text.ofInt_ne_nil _) (Text.colon_notMem_ofInt _)
  have hlocation : (e.inFile (some file)).diagnostic.location =
      file ++ [':'] ++ Text.ofInt e.line ++ [':'] := by
    simp [Diagnostic.location, diagnostic, inFile, hfile]
  rw [text_inFile_none, text, Diagnostic.text, hlocation, if_neg (by simp), hdrop]
  simp [diagnostic, inFile]

end LexicalError

/-! ## Scans -/

namespace Scan

/-- The ending of the scan of a file of this name. -/
def Ending.inFile (file : Option Text) : Ending → Ending
  | failed e => .failed (e.inFile file)
  | ending => ending

/-- The drain of a file of this name. -/
def Drain.inFile (d : Drain) (file : Option Text) : Drain :=
  { d with ending := d.ending.inFile file }

theorem Ending.checked_inFile {ending : Ending} (h : ending.failure? = none) (strict : Bool)
    (file : Option Text) :
    ending.checked strict file = (ending.checked strict none).inFile file := by
  cases ending with
  | clean => rfl
  | dropped construct line => cases strict <;> rfl
  | failed e => exact absurd h nofun

/-- The scan goes its way whatever the file is called. -/
theorem drain_inFile (config : Config) (file : Option Text) (source : Text) :
    drain ⟨config, file⟩ source = (drain ⟨config, none⟩ source).inFile file := by
  have hstops : (⟨config, file⟩ : Setting).stopsAt = (⟨config, none⟩ : Setting).stopsAt := rfl
  rw [drain_eq_haltAt, drain_eq_haltAt ⟨config, none⟩, hstops]
  cases (visits source).find? (⟨config, none⟩ : Setting).stopsAt with
  | some v => rfl
  | none =>
    dsimp only
    rw [Ending.checked_inFile (failure?_drain_permissive source)]
    rfl

/-- A line without words at the end counts for nothing. -/
theorem contentFrom_append_nil (n : Int) (lines : List Text) :
    contentFrom n (lines ++ [[]]) = contentFrom n lines := by
  induction lines generalizing n with
  | nil => rfl
  | cons line lines ih => simp only [List.cons_append, contentFrom, ih]

theorem content_terminated (source : Text) : content (Text.terminated source) = content source := by
  rcases Text.terminated_cases source with h | h
  · rw [h]
  · have hlines : Text.lines (source ++ ['\n']) = Text.lines source ++ [[]] :=
      Text.lines_append_cons source []
    rw [h, content, hlines, contentFrom_append_nil, content]

theorem drain_terminated (setting : Setting) (source : Text) :
    drain setting (Text.terminated source) = drain setting source := by
  rw [drain_eq_content, drain_eq_content, content_terminated]

end Scan

/-! ## Analyses -/

namespace Analysis

/-- The analysis of a file of this name. -/
def inFile (file : Option Text) : Analysis → Analysis
  | success tokens elapsed => .success tokens elapsed
  | failure e elapsed => .failure (e.inFile file) elapsed

theorem analyze_of_drain {setting : Scan.Setting} (clock : Clock) {source : Text} {d : Scan.Drain}
    (h : Scan.drain setting source = d) :
    analyze setting clock source = .ofDrain clock.elapsed d := by
  rw [analyze, h]

theorem ofDrain_inFile (elapsed : Double) (d : Scan.Drain) (file : Option Text) :
    ofDrain elapsed (d.inFile file) = (ofDrain elapsed d).inFile file := by
  obtain ⟨tokens, ending⟩ := d
  cases ending <;> rfl

theorem analyze_inFile (config : Config) (file : Option Text) (clock : Clock) (source : Text) :
    analyze ⟨config, file⟩ clock source = (analyze ⟨config, none⟩ clock source).inFile file := by
  rw [analyze, analyze, Scan.drain_inFile, ofDrain_inFile]

theorem analyze_terminated (setting : Scan.Setting) (clock : Clock) (source : Text) :
    analyze setting clock (Text.terminated source) = analyze setting clock source :=
  analyze_of_drain clock (Scan.drain_terminated setting source)

end Analysis

end PascalTokens
