import PascalTokens.Proofs.Spacing.Rest

/-!
# What the spacing inserts

A line is taken apart from the left: where a symbol begins outside quotes, the longest one is taken,
and anywhere else a single character. The spacing puts spaces next to these symbols and nothing
anywhere else, and so makes each of them a word. It finds the same words in what it has made.

## Main definitions

* `Outside` counts the quotes in front of a place.
* `Parted` takes a line apart, by the longest symbol.
* `Slot` is a piece of a line with what is inserted around it.

## Main statements

* `parted_cut`: the pieces of a line are those of the longest match.
* `pad_eq_flatMap_slots`: a spaced line is made of slots.
* `words_pad_pad`: to space a line twice is to space it once.
* `pad_inserts`: all of it, with the place of every symbol.
-/

namespace PascalTokens

namespace Symbol

variable {c : Char} {s t : Text}

/-- A symbol at the beginning of a text is its first character or its first two. -/
theorem cases_of_prefix_cons (hs : s ∈ all) (h : s <+: c :: t) :
    c ∈ punctuation ∧ (s = [c] ∨ ∃ d ∈ t.head?, s = [c, d] ∧ [c, d] ∈ compounds) := by
  obtain ⟨d, u, rfl⟩ := List.exists_cons_of_ne_nil (isWord_of_mem_all hs).ne_nil
  obtain ⟨rfl, hu⟩ := List.cons_prefix_cons.1 h
  refine ⟨mem_punctuation_of_mem_all hs (by simp), ?_⟩
  rcases List.mem_append.1 hs with hs | hs
  · have hlength : (d :: u).length = 2 := (by decide : ∀ s ∈ compounds, s.length = 2) _ hs
    obtain ⟨e, rfl⟩ := List.length_eq_one_iff.1 (Nat.succ.inj hlength)
    obtain ⟨rest, rfl⟩ := hu
    exact .inr ⟨e, by simp, rfl, hs⟩
  · obtain ⟨e, -, he⟩ := List.mem_map.1 hs
    obtain ⟨rfl, rfl⟩ := List.cons.inj he
    exact .inl rfl

theorem mem_all_of_mem_punctuation (hc : c ∈ punctuation) : [c] ∈ all :=
  List.mem_append_right _ (List.mem_map.2 ⟨c, hc, rfl⟩)

end Symbol

namespace Spacing

variable {inString : Bool} {before t a b : Text} {c : Char} {s run : Text} {q : Quotes}
  {ps : List Piece}

/-! ## The longest match -/

/-- What follows `before` on a line is outside quotes. Each kind of quote is counted by itself; a
line that goes on with a string literal has one more of its quotes in front. -/
def Outside (inString : Bool) (before : Text) : Prop :=
  (Even (before.count Symbol.stringQuote) ↔ inString = false) ∧
    Even (before.count Symbol.otherQuote)

theorem outside_iff :
    Outside inString before ↔ ((Quotes.atStart inString).after before).isOpen = false := by
  rw [Quotes.after_eq, Outside]
  cases inString <;> simp [Quotes.isOpen, Quotes.atStart]

/-- The longest symbol with which a text begins. -/
structure IsLongest (s t : Text) : Prop where
  mem_all : s ∈ Symbol.all
  begins : s <+: t
  length_le : ∀ u ∈ Symbol.all, u <+: t → u.length ≤ s.length

theorem isLongest_compound {d : Char} (h : [c, d] ∈ Symbol.compounds) (t : Text) :
    IsLongest [c, d] ([c, d] ++ t) where
  mem_all := Symbol.mem_all_of_mem_compounds h
  begins := List.prefix_append _ _
  length_le u hu _ := (by decide : ∀ u ∈ Symbol.all, u.length ≤ 2) u hu

theorem isLongest_single (hc : c ∈ Symbol.punctuation)
    (hnext : ∀ d ∈ t.head?, [c, d] ∉ Symbol.compounds) : IsLongest [c] ([c] ++ t) where
  mem_all := Symbol.mem_all_of_mem_punctuation hc
  begins := List.prefix_append _ _
  length_le u hu hbegins := by
    obtain ⟨-, rfl | ⟨d, hd, -, hcompound⟩⟩ := Symbol.cases_of_prefix_cons hu hbegins
    · exact Nat.le_refl _
    · exact absurd hcompound (hnext d hd)

/-- The pieces of what follows `before` on a line. -/
inductive Parted (inString : Bool) : Text → Text → List Piece → Prop where
  | nil {before : Text} : Parted inString before [] []
  | symbol {before s rest : Text} {ps : List Piece} (houtside : Outside inString before)
      (hs : IsLongest s (s ++ rest)) (h : Parted inString (before ++ s) rest ps) :
      Parted inString before (s ++ rest) (.symbol s :: ps)
  | plain {before rest : Text} {c : Char} {ps : List Piece}
      (hc : Outside inString before → ∀ s ∈ Symbol.all, ¬ s <+: c :: rest)
      (h : Parted inString (before ++ [c]) rest ps) :
      Parted inString before (c :: rest) (.plain c :: ps)

/-- A character that does not begin a symbol of two is a symbol of its own or none at all. -/
theorem parted_single (hq : q = (Quotes.atStart inString).after before)
    (hnext : q.isOpen = false → ∀ d ∈ t.head?, [c, d] ∉ Symbol.compounds)
    (h : Parted inString (before ++ [c]) t ps) :
    Parted inString before (c :: t) (.single q c :: ps) := by
  unfold Piece.single
  split
  · next hmark =>
    obtain ⟨hclosed, hc⟩ : q.isOpen = false ∧ c ∈ Symbol.punctuation := by simpa using hmark
    exact .symbol (outside_iff.2 (hq ▸ hclosed)) (isLongest_single hc (hnext hclosed)) h
  · next hmark =>
    refine .plain (fun houtside s hs hbegins => hmark ?_) h
    have hclosed : q.isOpen = false := hq ▸ outside_iff.1 houtside
    simpa [hclosed] using (Symbol.cases_of_prefix_cons hs hbegins).1

/-- The pieces of a line are those of the longest match. -/
theorem parted_cut (inString : Bool) (before t : Text) :
    Parted inString before t (Piece.cut ((Quotes.atStart inString).after before) t) := by
  generalize hq : (Quotes.atStart inString).after before = q
  fun_induction Piece.cut q t generalizing before with
  | case1 => exact .nil
  | case2 q c => exact parted_single hq.symm (by simp) .nil
  | case3 q c d rest hmark ih =>
    obtain ⟨hclosed, hcompound⟩ : q.isOpen = false ∧ [c, d] ∈ Symbol.compounds := by
      simpa using hmark
    have hall := Symbol.mem_all_of_mem_compounds hcompound
    have hafter : (Quotes.atStart inString).after (before ++ [c, d]) = q := by
      rw [Quotes.after_append, hq, Quotes.after_cons, Quotes.after_cons, Quotes.after_nil,
        Quotes.step_of_mem_punctuation (Symbol.mem_punctuation_of_mem_all hall (by simp)),
        Quotes.step_of_mem_punctuation (Symbol.mem_punctuation_of_mem_all hall (by simp))]
    exact .symbol (outside_iff.2 (hq ▸ hclosed)) (isLongest_compound hcompound rest)
      (ih _ hafter)
  | case4 q c d rest hmark ih =>
    refine parted_single hq.symm (fun hclosed e he => ?_) (ih _ (by simp [hq]))
    obtain rfl : d = e := by simpa using he
    simpa [hclosed] using hmark

namespace Parted

theorem flatMap_text (h : Parted inString before t ps) : ps.flatMap Piece.text = t := by
  induction h with
  | nil => rfl
  | symbol _ _ _ ih => rw [List.flatMap_cons, ih, Piece.text]
  | plain _ _ ih => rw [List.flatMap_cons, ih, Piece.text, List.singleton_append]

theorem mem_all (h : Parted inString before t ps) (hs : .symbol s ∈ ps) : s ∈ Symbol.all := by
  induction h with
  | nil => simp at hs
  | symbol _ hlongest _ ih =>
    rcases List.mem_cons.1 hs with hs | hs
    · obtain rfl := Piece.symbol.inj hs
      exact hlongest.mem_all
    · exact ih hs
  | plain _ _ ih => exact ih (by simpa using hs)

/-- Punctuation outside quotes lies in a symbol. -/
theorem exists_symbol (h : Parted inString before t ps) (ht : t = a ++ c :: b)
    (hc : c ∈ Symbol.punctuation) (houtside : Outside inString (before ++ a)) :
    ∃ left right u v, ps = left ++ .symbol (u ++ c :: v) :: right ∧
      a = left.flatMap Piece.text ++ u := by
  induction h generalizing a with
  | nil => simp at ht
  | @symbol before s rest ps _ _ _ ih =>
    rcases List.append_eq_append_iff.1 ht with ⟨x, rfl, hrest⟩ | ⟨x, rfl, hx⟩
    · obtain ⟨left, right, u, v, rfl, rfl⟩ := ih hrest (by rwa [List.append_assoc])
      exact ⟨.symbol s :: left, right, u, v, rfl, by simp [Piece.text]⟩
    · cases x with
      | nil =>
        have happend : Outside inString (before ++ (a ++ []) ++ []) := by simpa using houtside
        obtain ⟨left, right, u, v, rfl, hu⟩ := ih (a := []) hx.symm happend
        refine ⟨.symbol (a ++ []) :: left, right, u, v, rfl, ?_⟩
        rw [List.flatMap_cons, List.append_assoc, ← hu]
        simp [Piece.text]
      | cons e x =>
        obtain ⟨rfl, -⟩ := List.cons.inj hx
        exact ⟨[], ps, a, x, rfl, rfl⟩
  | @plain before rest d ps hnone _ ih =>
    cases a with
    | nil =>
      obtain ⟨rfl, rfl⟩ := List.cons.inj ht
      rw [List.append_nil] at houtside
      refine absurd ?_ (hnone houtside _ (Symbol.mem_all_of_mem_punctuation hc))
      exact List.prefix_append [d] rest
    | cons e a =>
      obtain ⟨rfl, rfl⟩ := List.cons.inj ht
      obtain ⟨left, right, u, v, rfl, rfl⟩ := ih rfl (by simpa using houtside)
      exact ⟨.plain d :: left, right, u, v, rfl, by simp [Piece.text]⟩

end Parted

/-! ## What stands around a piece -/

/-- A piece of a line, and what is inserted before it and after it. -/
structure Slot where
  before : Text
  piece : Piece
  after : Text

namespace Slot

def text (p : Slot) : Text := p.before ++ p.piece.text ++ p.after

/-- Nothing is inserted around a character, and at most a space on each side of a symbol. -/
def Tight (p : Slot) : Prop :=
  match p.piece with
  | .plain _ => p.before = [] ∧ p.after = []
  | .symbol _ => (p.before = [] ∨ p.before = [' ']) ∧ (p.after = [] ∨ p.after = [' '])

/-- The slot of a piece that is the first one or not, and the last one or not. -/
def ofPiece (first last : Bool) : Piece → Slot
  | .plain c => ⟨[], .plain c, []⟩
  | .symbol s => ⟨if first then [] else [' '], .symbol s, if last then [] else [' ']⟩

/-- The slots of pieces, with which a line begins or does not. -/
def ofPieces (first : Bool) : List Piece → List Slot
  | [] => []
  | p :: rest => ofPiece first rest.isEmpty p :: ofPieces false rest

@[simp] theorem piece_ofPiece (first last : Bool) (p : Piece) :
    (ofPiece first last p).piece = p := by cases p <;> rfl

theorem text_ofPiece (first last : Bool) (p : Piece) :
    (ofPiece first last p).text = p.spaced first last := by
  cases p with
  | plain c => rfl
  | symbol s => rfl

theorem tight_ofPiece (first last : Bool) (p : Piece) : (ofPiece first last p).Tight := by
  cases p with
  | plain c => exact ⟨rfl, rfl⟩
  | symbol s => cases first <;> cases last <;> simp [ofPiece, Tight]

@[simp] theorem map_piece_ofPieces (first : Bool) (ps : List Piece) :
    (ofPieces first ps).map piece = ps := by
  induction ps generalizing first with
  | nil => rfl
  | cons p ps ih => rw [ofPieces, List.map_cons, ih, piece_ofPiece]

theorem eq_ofPiece {first : Bool} {left right : List Slot} {p : Slot}
    (h : ofPieces first ps = left ++ p :: right) :
    p = ofPiece (first && left.isEmpty) right.isEmpty p.piece := by
  induction ps generalizing first left with
  | nil => simp [ofPieces] at h
  | cons r ps ih =>
    cases left with
    | nil =>
      obtain ⟨rfl, rfl⟩ := List.cons.inj h
      cases ps <;> simp [ofPieces]
    | cons l left =>
      have hrest := ih (List.cons.inj h).2
      simpa using hrest

theorem tight_of_mem {first : Bool} {p : Slot} (h : p ∈ ofPieces first ps) : p.Tight := by
  obtain ⟨left, right, hsplit⟩ := List.append_of_mem h
  rw [eq_ofPiece hsplit]
  exact tight_ofPiece _ _ _

end Slot

theorem flatMap_text_ofPieces (ps : List Piece) :
    (Slot.ofPieces false ps).flatMap Slot.text = Piece.spacedRest ps := by
  induction ps with
  | nil => rfl
  | cons p ps ih =>
    rw [Slot.ofPieces, List.flatMap_cons, ih, Slot.text_ofPiece, Piece.spacedRest]

/-- A spaced line is made of slots. -/
theorem pad_eq_flatMap_slots (inString : Bool) (line : Text) :
    pad inString line =
      (Slot.ofPieces true (Piece.cut (Quotes.atStart inString) line)).flatMap Slot.text := by
  unfold pad
  cases Piece.cut (Quotes.atStart inString) line with
  | nil => rfl
  | cons p ps =>
    rw [Slot.ofPieces, List.flatMap_cons, flatMap_text_ofPieces, Slot.text_ofPiece,
      Piece.spacedLine]

example : pad false "x<>=/*/".toList = "x <>  =  /*  /".toList := by decide

/-- Between `a` and `b` stands one word, with blanks or nothing around it. -/
structure Delimited (a w b : Text) : Prop where
  word : Text.IsWord w
  left : ∀ c ∈ a.getLast?, Text.isBlank c
  right : ∀ c ∈ b.head?, Text.isBlank c

/-- A symbol is a word of the spaced line. -/
theorem delimited_symbol {left right : List Slot} {p : Slot} (hs : s ∈ Symbol.all)
    (h : Slot.ofPieces true ps = left ++ p :: right) (hp : p.piece = .symbol s) :
    Delimited (left.flatMap Slot.text ++ p.before) s (p.after ++ right.flatMap Slot.text) := by
  have hslot := Slot.eq_ofPiece h
  rw [hp] at hslot
  have hblank : Text.isBlank ' ' := by decide
  refine ⟨Symbol.isWord_of_mem_all hs, ?_, ?_⟩
  · cases left with
    | nil => simp [hslot, Slot.ofPiece]
    | cons l left => simp [hslot, Slot.ofPiece, hblank]
  · cases right with
    | nil => simp [hslot, Slot.ofPiece]
    | cons r right => simp [hslot, Slot.ofPiece, hblank]

/-! ## Spacing what is spaced -/

/-- With quotes in state `q` in front of the text, none of its characters is a symbol. -/
def Unmarked (q : Quotes) : Text → Prop
  | [] => True
  | c :: t => (q.isOpen ∨ c ∉ Symbol.punctuation) ∧ Unmarked (q.step c) t

theorem unmarked_append : Unmarked q (a ++ b) ↔ Unmarked q a ∧ Unmarked (q.after a) b := by
  induction a generalizing q with
  | nil => simp [Unmarked]
  | cons c a ih => simp [Unmarked, ih, and_assoc]

theorem Unmarked.cut_eq (h : Unmarked q t) : Piece.cut q t = t.map .plain := by
  induction t generalizing q with
  | nil => rfl
  | cons c t ih =>
    rw [List.map_cons, ← ih h.2]
    rcases h.1 with hopen | hc
    · exact Piece.cut_cons_of_isOpen hopen
    · exact Piece.cut_cons_of_notMem hc

theorem Unmarked.respace_words (hrun : Text.Solid run) (h : Unmarked q run) :
    respace q (Text.words run) = Text.words run := by
  rw [hrun.words_eq]
  split
  · rfl
  · next hne => simp [respace, wordsFrom_of_cut_eq ⟨hne, hrun⟩ h.cut_eq]

theorem after_flatten_words (hrun : Text.Solid run) (q : Quotes) :
    q.after (Text.words run).flatten = q.after run := by
  rw [hrun.words_eq]
  split
  · next hnil => simp [hnil]
  · simp

/-- The words of pieces are spaced already. The run in front of the pieces is the beginning of a
word; it has no symbol in it, since it lies in quotes wherever it has punctuation. -/
theorem Parted.respace_wordsFrom (h : Parted inString before t ps) (hrun : Text.Solid run)
    (hplain : Unmarked q run) (hq : q.after run = (Quotes.atStart inString).after before) :
    respace q (Piece.wordsFrom run ps) = Piece.wordsFrom run ps := by
  induction h generalizing run q with
  | nil => exact hplain.respace_words hrun
  | @symbol before s rest ps _ hlongest _ ih =>
    have hrest := ih Text.solid_nil trivial (q := (q.after run).after s) (by simp [hq])
    rw [Piece.wordsFrom, respace_append, hplain.respace_words hrun, after_flatten_words hrun,
      respace, wordsFrom_cut_of_mem_all _ hlongest.mem_all, hrest]
    rfl
  | @plain before rest c ps hnone _ ih =>
    rw [Piece.wordsFrom]
    split
    · next hblank =>
      have hstep : q.after run = (Quotes.atStart inString).after (before ++ [c]) := by
        rw [Quotes.after_append, ← hq, Quotes.after_cons, Quotes.step_of_isBlank hblank,
          Quotes.after_nil]
      have hrest := ih (q := q.after run) Text.solid_nil trivial hstep
      rw [respace_append, hplain.respace_words hrun, after_flatten_words hrun, hrest]
    · next hblank =>
      have hc : (q.after run).isOpen ∨ c ∉ Symbol.punctuation := by
        cases hopen : (q.after run).isOpen with
        | true => exact .inl rfl
        | false =>
          refine .inr fun hmem => ?_
          have houtside : Outside inString before := outside_iff.2 (hq ▸ hopen)
          exact hnone houtside _ (Symbol.mem_all_of_mem_punctuation hmem)
            (List.prefix_append [c] rest)
      exact ih (by simpa [hrun] using hblank) (unmarked_append.2 ⟨hplain, hc, trivial⟩)
        (by simp [hq])

/-- To space a line twice is to space it once, as far as its words go. -/
theorem words_pad_pad (inString : Bool) (line : Text) :
    Text.words (pad inString (pad inString line)) = Text.words (pad inString line) := by
  rw [words_pad_eq_respace, words_pad]
  exact (parted_cut inString [] line).respace_wordsFrom Text.solid_nil trivial rfl

/-- A line in a literal is spaced as if its opening quote stood right before it. -/
theorem pad_stringQuote (line : Text) :
    pad false (Symbol.stringQuote :: line) = Symbol.stringQuote :: pad true line := by
  have hcut : Piece.cut (Quotes.atStart false) (Symbol.stringQuote :: line) =
      .plain Symbol.stringQuote :: Piece.cut (Quotes.atStart true) line :=
    Piece.cut_cons_of_notMem (by decide)
  rw [pad, pad, hcut]
  cases line with
  | nil => rfl
  | cons c line =>
    -- No symbol comes first, so nothing is inserted at the start in either line.
    rw [Piece.cut_cons_of_isOpen rfl]
    rfl

/-- A line is taken apart by the longest match outside quotes. The spacing inserts spaces only, each
right next to a symbol, and makes a word of every symbol; so all punctuation outside quotes comes to
lie in a word that is one symbol. What is spaced has the same words when it is spaced again, and a
line in a literal is spaced as behind its opening quote. -/
theorem pad_inserts (inString : Bool) (line : Text) :
    (∃ slots : List Slot,
      Parted inString [] line (slots.map Slot.piece) ∧
      line = slots.flatMap (Piece.text ·.piece) ∧
      pad inString line = slots.flatMap Slot.text ∧
      (∀ p ∈ slots, p.Tight) ∧
      ∀ a c b, line = a ++ c :: b → c ∈ Symbol.punctuation → Outside inString a →
        ∃ left p right u v, slots = left ++ p :: right ∧ p.piece = .symbol (u ++ c :: v) ∧
          u ++ c :: v ∈ Symbol.all ∧ a = left.flatMap (Piece.text ·.piece) ++ u ∧
          Delimited (left.flatMap Slot.text ++ p.before) (u ++ c :: v)
            (p.after ++ right.flatMap Slot.text)) ∧
    Text.words (pad inString (pad inString line)) = Text.words (pad inString line) ∧
    pad false (Symbol.stringQuote :: line) = Symbol.stringQuote :: pad true line := by
  refine ⟨?_, words_pad_pad inString line, pad_stringQuote line⟩
  have hparted : Parted inString [] line (Piece.cut (Quotes.atStart inString) line) :=
    parted_cut inString [] line
  have hpad := pad_eq_flatMap_slots inString line
  generalize Piece.cut (Quotes.atStart inString) line = ps at hparted hpad
  have hpieces : (Slot.ofPieces true ps).map Slot.piece = ps := Slot.map_piece_ofPieces true ps
  refine ⟨Slot.ofPieces true ps, by rwa [hpieces], ?_, hpad, fun p hp => Slot.tight_of_mem hp, ?_⟩
  · have htext := hparted.flatMap_text
    rw [← hpieces, List.flatMap_map] at htext
    exact htext.symm
  · intro a c b hline hc houtside
    obtain ⟨before, after, u, v, hsplit, ha⟩ := hparted.exists_symbol hline hc houtside
    have hs : u ++ c :: v ∈ Symbol.all := hparted.mem_all (by simp [hsplit])
    obtain ⟨left, rest, hslots, rfl, hrest⟩ := List.map_eq_append_iff.1 (hpieces.trans hsplit)
    obtain ⟨p, right, rfl, hp, rfl⟩ := List.map_eq_cons_iff.1 hrest
    refine ⟨left, p, right, u, v, hslots, hp, hs, ?_, delimited_symbol hs hslots hp⟩
    rw [ha, List.flatMap_map]

end Spacing

end PascalTokens
