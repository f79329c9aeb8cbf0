import PascalTokens.Proofs.Scan.Renumber

/-!
# Layout does not matter

Of a source only the words of its lines count, and of an empty line nothing does: blanks, line
comments, carriage returns and lines without words can move line numbers and nothing else. This
also holds for lines inside a string literal or a block comment.

## Main definitions

* `content` gives the lines of a source that hold words, each with its number.
* `lineMap` takes the numbers of these lines in one source to those in another, in order.

## Main statements

* `drain_scanLines`: lines without words may be left out.
* `drain_eq_renumber_of_contentWords_eq`: sources with the same words on the lines that hold any
  have the same drain, up to the numbers of these lines.
-/

namespace PascalTokens

namespace Scan

/-- The lines that hold words, each with its number and its words. The first line has number
`n`. -/
def contentFrom (n : Int) : List Text → List (Int × List Text)
  | [] => []
  | line :: rest =>
    if lineWords line = [] then contentFrom (n + 1) rest
    else (n, lineWords line) :: contentFrom (n + 1) rest

/-- The lines of a source that hold words before their line comment. -/
def content (source : Text) : List (Int × List Text) := contentFrom 1 (Text.lines source)

def contentNumbers (source : Text) : List Int := (content source).map (·.1)

def contentWords (source : Text) : List (List Text) := (content source).map (·.2)

/-! ## Lines without words -/

/-- A state that differs in the line it is on gives the same drain, since every line that is begun
sets the line anew. -/
theorem drain_scanContent_line (setting : Setting) (s : State) (m : Int)
    (content : List (Int × List Text)) :
    (({ s with line := m } : State).scanContent setting content).drain setting =
      (s.scanContent setting content).drain setting := by
  cases content with
  | nil =>
    simp only [State.scanContent, Progress.drain, State.finish_snd]
    rfl
  | cons line rest => rfl

theorem Progress.drain_andThen_congr (setting : Setting) (p : Progress) {f g : State → Progress}
    (h : ∀ s, (f s).drain setting = (g s).drain setting) :
    (p.andThen f).drain setting = (p.andThen g).drain setting := by
  obtain ⟨s, ts, _ | e⟩ := p
  · simp only [andThen_ok, drain_prepend, h]
  · rfl

/-- Only lines that hold words count. -/
theorem drain_scanLines (setting : Setting) (s : State) (n : Int) (lines : List Text) :
    (s.scanLines setting n lines).drain setting =
      (s.scanContent setting (contentFrom n lines)).drain setting := by
  induction lines generalizing s n with
  | nil => rfl
  | cons line rest ih =>
    rw [State.scanLines_cons, State.beginLine_eq_beginWords, contentFrom]
    split
    · next hwords =>
      have hbegin : s.beginWords n [] = ({ s with line := n }, []) := by
        cases hs : s.mode <;> simp [State.beginWords, afterClosing?, Spacing.respace, hs]
      rw [hwords, hbegin, State.scanWords_nil, Progress.andThen_ok, Progress.prepend_nil, ih,
        drain_scanContent_line]
    · exact Progress.drain_andThen_congr setting _ fun s => ih s (n + 1)

theorem drain_eq_content (setting : Setting) (source : Text) :
    drain setting source = (State.initial.scanContent setting (content source)).drain setting := by
  rw [drain_eq_lines, drain_scanLines, content]

/-! ## The order-preserving map of line numbers -/

/-- The function that takes the numbers `xs` to the numbers `ys`, in order, and no other number
anywhere. -/
def pairing (xs ys : List Int) (n : Int) : Int := ((xs.zip ys).lookup n).getD n

section Pairing

variable {x y n : Int} {xs ys : List Int}

theorem pairing_cons_self : pairing (x :: xs) (y :: ys) x = y := by simp [pairing]

theorem pairing_cons_of_ne (h : n ≠ x) : pairing (x :: xs) (y :: ys) n = pairing xs ys n := by
  have hne : (n == x) = false := by simpa using h
  simp [pairing, List.lookup_cons, hne]

theorem pairing_of_notMem (h : n ∉ xs) : pairing xs ys n = n := by
  induction xs generalizing ys with
  | nil => rfl
  | cons x xs ih =>
    cases ys with
    | nil => rfl
    | cons y ys =>
      rw [List.mem_cons, not_or] at h
      rw [pairing_cons_of_ne h.1, ih h.2]

theorem map_pairing (hx : xs.Pairwise (· < ·)) (hlen : xs.length = ys.length) :
    xs.map (pairing xs ys) = ys := by
  induction xs generalizing ys with
  | nil => simpa using hlen.symm
  | cons x xs ih =>
    cases ys with
    | nil => simp at hlen
    | cons y ys =>
      obtain ⟨hlt, hxs⟩ := List.pairwise_cons.1 hx
      have hrest : xs.map (pairing (x :: xs) (y :: ys)) = xs.map (pairing xs ys) :=
        List.map_congr_left fun n hn => pairing_cons_of_ne (Int.ne_of_gt (hlt n hn))
      rw [List.map_cons, pairing_cons_self, hrest, ih hxs (by simpa using hlen)]

theorem pairing_lt_pairing (hx : xs.Pairwise (· < ·)) (hy : ys.Pairwise (· < ·))
    (hlen : xs.length = ys.length) {m n : Int} (hm : m ∈ xs) (hn : n ∈ xs) (hmn : m < n) :
    pairing xs ys m < pairing xs ys n := by
  induction xs generalizing ys with
  | nil => simp at hm
  | cons x xs ih =>
    cases ys with
    | nil => simp at hlen
    | cons y ys =>
      obtain ⟨hltx, hxs⟩ := List.pairwise_cons.1 hx
      obtain ⟨hlty, hys⟩ := List.pairwise_cons.1 hy
      have hlens : xs.length = ys.length := by simpa using hlen
      rcases List.mem_cons.1 hm with rfl | hm
      · have hnxs : n ∈ xs := (List.mem_cons.1 hn).resolve_left (Int.ne_of_gt hmn)
        -- The number that `n` goes to is among `ys`, and all of these are larger than `y`.
        have hmem : pairing xs ys n ∈ xs.map (pairing xs ys) := List.mem_map_of_mem hnxs
        rw [map_pairing hxs hlens] at hmem
        rw [pairing_cons_self, pairing_cons_of_ne (Int.ne_of_gt hmn)]
        exact hlty _ hmem
      · have hxm := hltx m hm
        have hnx : n ≠ x := by omega
        have hnxs : n ∈ xs := (List.mem_cons.1 hn).resolve_left hnx
        rw [pairing_cons_of_ne (Int.ne_of_gt hxm), pairing_cons_of_ne hnx]
        exact ih hxs hys hlens hm hnxs

end Pairing

/-- The numbers of the lines of `source` that hold words go to those of `target`, in order. -/
def lineMap (source target : Text) : Int → Int :=
  pairing (contentNumbers source) (contentNumbers target)

theorem le_of_mem_contentFrom {n : Int} {lines : List Text} {line : Int × List Text}
    (h : line ∈ contentFrom n lines) : n ≤ line.1 := by
  induction lines generalizing n with
  | nil => simp [contentFrom] at h
  | cons l lines ih =>
    rw [contentFrom] at h
    split at h
    · have := ih h
      omega
    · rcases List.mem_cons.1 h with rfl | h
      · exact Int.le_refl n
      · have := ih h
        omega

theorem pairwise_contentFrom (n : Int) (lines : List Text) :
    ((contentFrom n lines).map (·.1)).Pairwise (· < ·) := by
  induction lines generalizing n with
  | nil => exact List.Pairwise.nil
  | cons l lines ih =>
    rw [contentFrom]
    split
    · exact ih (n + 1)
    · rw [List.map_cons, List.pairwise_cons]
      refine ⟨fun m hm => ?_, ih (n + 1)⟩
      obtain ⟨line, hline, rfl⟩ := List.mem_map.1 hm
      have := le_of_mem_contentFrom hline
      dsimp only
      omega

theorem content_eq_map {s t : Text} (h : contentWords s = contentWords t) :
    content t = (content s).map fun line => (lineMap s t line.1, line.2) := by
  have hlen : (contentNumbers s).length = (contentNumbers t).length := by
    simpa [contentWords, contentNumbers] using congrArg List.length h
  have hnumbers : (contentNumbers s).map (lineMap s t) = contentNumbers t :=
    map_pairing (pairwise_contentFrom 1 _) hlen
  have hfst : ((content s).map fun line => (lineMap s t line.1, line.2)).map Prod.fst =
      contentNumbers t := by
    rw [← hnumbers, contentNumbers, List.map_map, List.map_map]
    rfl
  have hsnd : ((content s).map fun line => (lineMap s t line.1, line.2)).map Prod.snd =
      contentWords t := by
    rw [← h, contentWords, List.map_map]
    rfl
  rw [List.zip_of_prod hfst hsnd]
  exact List.zip_of_prod rfl rfl

/-- Two sources whose lines hold the same words, lines without words left out, have the same
drain, up to the line numbers. These go over in the only way that keeps their order. -/
theorem drain_eq_renumber_of_contentWords_eq (setting : Setting) (s t : Text)
    (h : contentWords s = contentWords t) :
    (∀ m ∈ contentNumbers s, ∀ n ∈ contentNumbers s, m < n → lineMap s t m < lineMap s t n) ∧
      (contentNumbers s).map (lineMap s t) = contentNumbers t ∧
      drain setting t = (drain setting s).renumber (lineMap s t) := by
  have hlen : (contentNumbers s).length = (contentNumbers t).length := by
    simpa [contentWords, contentNumbers] using congrArg List.length h
  have hs : (contentNumbers s).Pairwise (· < ·) := pairwise_contentFrom 1 _
  have ht : (contentNumbers t).Pairwise (· < ·) := pairwise_contentFrom 1 _
  refine ⟨fun m hm n hn => pairing_lt_pairing hs ht hlen hm hn, map_pairing hs hlen, ?_⟩
  have hzero : lineMap s t 0 = 0 := by
    refine pairing_of_notMem fun hm => ?_
    obtain ⟨line, hline, hn⟩ := List.mem_map.1 hm
    have := le_of_mem_contentFrom hline
    omega
  have hinitial : State.initial.renumber (lineMap s t) = State.initial := by
    simp only [State.renumber, State.initial, hzero]
  rw [drain_eq_content, drain_eq_content, content_eq_map h, ← Progress.renumber_drain,
    ← State.scanContent_renumber, hinitial]

/-- A literal and a comment that lines without words lengthen, and a failure that they move. -/
theorem drain_eq_renumber_blank_lines :
    let setting : Setting := ⟨.ofFlags false true, none⟩
    let s := "x 'a\nb' /*\n? */ $".toList
    let t := "// x\r\nx\t 'a//b'\r\n\r\n b'  /*\r\n\t\r\n? */ $\r\n".toList
    contentWords s = contentWords t ∧
      (contentNumbers s).map (lineMap s t) = [2, 4, 6] ∧
      drain setting t = (drain setting s).renumber (lineMap s t) ∧
      drain setting t =
        ⟨[⟨['x'], .identifier, 2⟩, ⟨['a', ' ', 'b'], .stringLiteral, 4⟩],
          .failed ⟨.unrecognized ['$'], 6, none⟩⟩ := by
  intro setting s t
  have hwords : contentWords s = contentWords t := by decide
  obtain ⟨_, hnumbers, hdrain⟩ := drain_eq_renumber_of_contentWords_eq setting s t hwords
  exact ⟨hwords, hnumbers.trans (by decide), hdrain, by decide⟩

end Scan

end PascalTokens
