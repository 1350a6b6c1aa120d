/-
Far2l.Editor.VPaste — pasting a vertical block: the loop of `Editor::VPaste` of
`far/src/editor.cpp` over the text of the clipboard.

The editor is what the loop asks it and does to it: whether there is a line below the
current one, and the keys it sends. A character key goes into the current line. The
text ends with a NUL, which is none of its characters; what is behind the NUL is not
known, so the run is not followed any further when it is read.
-/
import Far2l.Editor.VerticalBlock

namespace Far2l

namespace VPaste

/-- What the loop sends to the editor: a character, `KEY_DOWN` with the start column, or
`KEY_END`, `KEY_ENTER` and the spaces up to the start column. -/
inductive Key where
  | char (c : WChar)
  | down
  | newLine
  deriving DecidableEq, Repr

/-- What a run has done: the keys, `VBlockSizeY`, and whether something behind the NUL
has been read. -/
structure Paste where
  keys : List Key
  sizeY : Nat
  beyond : Bool
  deriving DecidableEq, Repr

/-- `EolLength`, with the next character. -/
def eolLength (c next : WChar) : Nat := if c = CR ∨ next = LF then 2 else 1

/-- The keys at a line end, and the number of lines that are below then. -/
def endRow (below : Nat) (more : Bool) : List Key × Nat :=
  if below = 0 then (if more then [.newLine] else [], 0) else ([.down], below - 1)

/-- One more line end, in front of a run. -/
def Paste.afterRow (p : Paste) (keys : List Key) : Paste := { p with keys := keys ++ p.keys, sizeY := p.sizeY + 1 }

/-- One more character, in front of a run. -/
def Paste.afterChar (p : Paste) (c : WChar) : Paste := { p with keys := .char c :: p.keys }

/-- The loop, with the number of lines below the current one. -/
def vPasteLoop : WStr → Nat → Paste
  | [], _ => ⟨[], 0, false⟩
  | [c], below =>
      if c ≠ CR ∧ c ≠ LF then ⟨[.char c], 0, false⟩
      else ⟨(endRow below false).1, 1, eolLength c 0 = 2⟩
  | c :: d :: rest, below =>
      if c ≠ CR ∧ c ≠ LF then (vPasteLoop (d :: rest) below).afterChar c
      else if eolLength c d = 2 then
        (vPasteLoop rest (endRow below !rest.isEmpty).2).afterRow (endRow below !rest.isEmpty).1
      else (vPasteLoop (d :: rest) (endRow below true).2).afterRow (endRow below true).1

/-- The loop, and `VBlockSizeY` afterwards. -/
def vPaste (clipText : WStr) (below : Nat) : Paste :=
  let p := vPasteLoop clipText below
  { p with sizeY := if p.sizeY = 0 then 1 else p.sizeY }

/-! ## Rows -/

/-- What is typed into the lines, from the current one on. -/
def rowsTyped : List Key → List WStr
  | [] => [[]]
  | .char c :: keys => (rowsTyped keys).modifyHead (c :: ·)
  | .down :: keys => [] :: rowsTyped keys
  | .newLine :: keys => [] :: rowsTyped keys

/-- The rows of a text: they end at `\n`, `\r\n` or `\r`. What is behind the last line
end counts as a row too, an empty one if there is nothing. -/
def textRows : WStr → List WStr
  | [] => [[]]
  | [c] => if c = CR ∨ c = LF then [[], []] else [[c]]
  | c :: d :: rest =>
      if c = CR ∧ d = LF then [] :: textRows rest
      else if c = CR ∨ c = LF then [] :: textRows (d :: rest)
      else (textRows (d :: rest)).modifyHead (c :: ·)

end VPaste

end Far2l

/-! # Where the rows of a text go when it is pasted as a

vertical block.

The length of a line end is taken to be two when it begins with `\r` or when a `\n`
follows. So two `\n` are one line end, and a `\r` takes the next character with it
whatever that is, at the end of the text the NUL. The rows are right as long as every
line end is met in a form that this fits; once they are wrong, characters or line
ends have been lost, and nothing makes up for them later. -/

namespace Far2l

namespace VPaste

/-- Every line end is `\r\n`, a `\n` that no `\n` follows, or a `\r\r\n` that no `\n`
follows (the loop takes its first two characters for one line end). -/
def clean : WStr → Bool
  | [] => true
  | [c] => decide (c ≠ CR)
  | c :: d :: rest =>
      if c = LF then decide (d ≠ LF) && clean (d :: rest)
      else if c = CR then
        if d = LF then clean rest
        else decide (d = CR) && decide (rest.head? = some LF) && clean rest
      else clean (d :: rest)

/-! ## How the functions go on -/

theorem LF_ne_CR : LF ≠ CR := by decide

section Text

variable {c : WChar}

theorem textRows_char (hcr : c ≠ CR) (hlf : c ≠ LF) (rest : WStr) :
    textRows (c :: rest) = (textRows rest).modifyHead (c :: ·) := by
  have hend : ¬ (c = CR ∨ c = LF) := not_or.mpr ⟨hcr, hlf⟩
  cases rest with
  | nil => exact if_neg hend
  | cons d rest => exact (if_neg fun h => hcr h.1).trans (if_neg hend)

/-- A line end of one character. -/
theorem textRows_end (hend : c = CR ∨ c = LF) {rest : WStr} (h : ¬ (c = CR ∧ rest.head? = some LF)) :
    textRows (c :: rest) = [] :: textRows rest := by
  cases rest with
  | nil => exact if_pos hend
  | cons d rest => exact (if_neg fun hcrlf => h ⟨hcrlf.1, congrArg some hcrlf.2⟩).trans (if_pos hend)

theorem textRows_crlf (rest : WStr) : textRows (CR :: LF :: rest) = [] :: textRows rest := if_pos ⟨rfl, rfl⟩

theorem clean_char (hcr : c ≠ CR) (hlf : c ≠ LF) (rest : WStr) : clean (c :: rest) = clean rest := by
  cases rest with
  | nil => exact decide_eq_true hcr
  | cons d rest => exact (if_neg hlf).trans (if_neg hcr)

theorem clean_lf (rest : WStr) : clean (LF :: rest) = (decide (rest.head? ≠ some LF) && clean rest) := by
  cases rest with
  | nil => rfl
  | cons d rest =>
    refine (if_pos rfl).trans (congrArg (· && _) (decide_eq_decide.mpr ?_))
    rw [List.head?_cons]
    exact not_congr Option.some_inj.symm

theorem clean_crlf (rest : WStr) : clean (CR :: LF :: rest) = clean rest := rfl

/-- A `\r` that no `\n` follows. -/
theorem clean_cr {d : WChar} (hd : d ≠ LF) (rest : WStr) :
    clean (CR :: d :: rest) = (decide (d = CR) && decide (rest.head? = some LF) && clean rest) := by
  refine (if_neg LF_ne_CR.symm).trans ?_
  exact (if_pos rfl).trans (if_neg hd)

theorem vPasteLoop_char (hcr : c ≠ CR) (hlf : c ≠ LF) (rest : WStr) (below : Nat) :
    vPasteLoop (c :: rest) below = (vPasteLoop rest below).afterChar c := by
  cases rest with
  | nil => exact if_pos ⟨hcr, hlf⟩
  | cons d rest => exact if_pos ⟨hcr, hlf⟩

/-- A line end that is taken to be two characters long. -/
theorem vPasteLoop_two {d : WChar} (hend : c = CR ∨ c = LF) (hlen : c = CR ∨ d = LF) (rest : WStr) (below : Nat) :
    vPasteLoop (c :: d :: rest) below =
      (vPasteLoop rest (endRow below !rest.isEmpty).2).afterRow (endRow below !rest.isEmpty).1 := by
  have hend' : ¬ (c ≠ CR ∧ c ≠ LF) := fun h => hend.elim h.1 h.2
  have hlen' : eolLength c d = 2 := if_pos hlen
  exact (if_neg hend').trans (if_pos hlen')

/-- A `\n` that is taken for what it is. -/
theorem vPasteLoop_lf {rest : WStr} (h : rest.head? ≠ some LF) (below : Nat) :
    vPasteLoop (LF :: rest) below =
      (vPasteLoop rest (endRow below !rest.isEmpty).2).afterRow (endRow below !rest.isEmpty).1 := by
  have hend : ¬ (LF ≠ CR ∧ LF ≠ LF) := fun h => h.2 rfl
  cases rest with
  | nil =>
    refine (if_neg hend).trans ?_
    show _ = Paste.mk ((endRow below false).1 ++ []) 1 false
    rw [List.append_nil]
    rfl
  | cons d rest =>
    have hlen : ¬ eolLength LF d = 2 := by
      rw [eolLength, if_neg]
      · decide
      · rintro (hcr | rfl)
        · exact LF_ne_CR hcr
        · exact h rfl
    exact (if_neg hend).trans (if_neg hlen)

/-- At the end of the text a `\r` takes the NUL with it. -/
theorem vPasteLoop_cr (below : Nat) :
    vPasteLoop [CR] below = Paste.afterRow ⟨[], 0, true⟩ (endRow below false).1 := by
  show Paste.mk (endRow below false).1 1 true = Paste.mk ((endRow below false).1 ++ []) 1 true
  rw [List.append_nil]

end Text

/-! ## Rows, apart from empty ones at the end -/

/-- The same text goes into every line. -/
def SameRows (a b : List WStr) : Prop := ∀ k, a.getD k [] = b.getD k []

theorem sameRows_cons {x y : WStr} {a b : List WStr} : SameRows (x :: a) (y :: b) ↔ x = y ∧ SameRows a b := by
  constructor
  · exact fun h => ⟨h 0, fun k => h (k + 1)⟩
  · rintro ⟨hhead, h⟩ k
    cases k with
    | zero => exact hhead
    | succ k => exact h k

theorem length_flatten_of_nil : ∀ {b : List WStr}, SameRows [] b → b.flatten.length = 0
  | [], _ => rfl
  | y :: b, h => by
    have hy : [] = y := h 0
    have hb := length_flatten_of_nil (b := b) fun k => h (k + 1)
    rw [List.flatten_cons, List.length_append, ← hy, hb]
    rfl

/-- Then there are as many characters in all. -/
theorem SameRows.length_flatten : ∀ {a b : List WStr}, SameRows a b → a.flatten.length = b.flatten.length
  | [], _, h => (length_flatten_of_nil h).symm
  | _ :: _, [], h => length_flatten_of_nil fun k => (h k).symm
  | _ :: _, _ :: _, h => by
    obtain ⟨hhead, htail⟩ := sameRows_cons.mp h
    rw [List.flatten_cons, List.flatten_cons, List.length_append, List.length_append, hhead, htail.length_flatten]

theorem rowsTyped_ne_nil (keys : List Key) : rowsTyped keys ≠ [] := by
  induction keys with
  | nil => exact List.cons_ne_nil _ _
  | cons key keys ih =>
    cases key with
    | char c =>
      rw [rowsTyped]
      exact fun h => ih (List.modifyHead_eq_nil_iff.mp h)
    | down => exact List.cons_ne_nil _ _
    | newLine => exact List.cons_ne_nil _ _

theorem textRows_ne_nil : ∀ s : WStr, textRows s ≠ []
  | [] => List.cons_ne_nil _ _
  | [c] => by
    rw [textRows]
    split
    · exact List.cons_ne_nil _ _
    · exact List.cons_ne_nil _ _
  | c :: d :: rest => by
    rw [textRows]
    split
    · exact List.cons_ne_nil _ _
    · split
      · exact List.cons_ne_nil _ _
      · exact fun h => textRows_ne_nil (d :: rest) (List.modifyHead_eq_nil_iff.mp h)

theorem sameRows_modifyHead {a b : List WStr} (c : WChar) (ha : a ≠ []) (hb : b ≠ []) (h : SameRows a b) :
    SameRows (a.modifyHead (c :: ·)) (b.modifyHead (c :: ·)) := by
  obtain ⟨x, a, rfl⟩ := List.exists_cons_of_ne_nil ha
  obtain ⟨y, b, rfl⟩ := List.exists_cons_of_ne_nil hb
  obtain ⟨hhead, htail⟩ := sameRows_cons.mp h
  exact sameRows_cons.mpr ⟨congrArg (c :: ·) hhead, htail⟩

theorem length_flatten_modifyHead {a : List WStr} (c : WChar) (ha : a ≠ []) :
    (a.modifyHead (c :: ·)).flatten.length = a.flatten.length + 1 := by
  obtain ⟨x, a, rfl⟩ := List.exists_cons_of_ne_nil ha
  rw [List.modifyHead_cons, List.flatten_cons, List.flatten_cons, List.length_append, List.length_append,
    List.length_cons]
  omega

/-- At a line end the typed rows go on with the next line, unless nothing follows in
the last line. -/
theorem rowsTyped_endRow (below : Nat) (more : Bool) (keys : List Key) :
    rowsTyped ((endRow below more).1 ++ keys) =
      if below = 0 ∧ more = false then rowsTyped keys else [] :: rowsTyped keys := by
  cases below with
  | zero =>
    cases more with
    | true => rfl
    | false => rfl
  | succ below => rfl

/-! ## Texts that are pasted right -/

/-- What a run does right: every row goes into its line, `VBlockSizeY` is the number of
line ends, or one, and nothing behind the NUL is read. -/
structure RowsPasted (text : WStr) (p : Paste) : Prop where
  rows : SameRows (rowsTyped p.keys) (textRows text)
  sizeY : p.sizeY = max 1 ((textRows text).length - 1)
  inside : p.beyond = false

/-- The same for the loop alone. -/
structure LoopRight (text : WStr) (p : Paste) : Prop where
  rows : SameRows (rowsTyped p.keys) (textRows text)
  ends : p.sizeY + 1 = (textRows text).length
  inside : p.beyond = false

/-- A line end of the text that the loop takes for one. -/
theorem LoopRight.afterRow {text rest : WStr} {below : Nat} {p : Paste} (h : LoopRight rest p)
    (hrows : textRows text = [] :: textRows rest) (hkeys : rest = [] → p.keys = []) :
    LoopRight text (p.afterRow (endRow below !rest.isEmpty).1) := by
  refine ⟨?_, ?_, h.inside⟩
  · show SameRows (rowsTyped ((endRow below !rest.isEmpty).1 ++ p.keys)) _
    rw [rowsTyped_endRow, hrows]
    split
    · next hlast =>
      have hnil : rest = [] := List.isEmpty_iff.mp (by simpa using hlast.2)
      rw [hkeys hnil, hnil]
      exact sameRows_cons.mpr ⟨rfl, fun k => by cases k <;> rfl⟩
    · exact sameRows_cons.mpr ⟨rfl, h.rows⟩
  · rw [hrows, List.length_cons, ← h.ends]
    rfl

/-- A character other than a line end. -/
theorem LoopRight.afterChar {rest : WStr} {p : Paste} (h : LoopRight rest p) {text : WStr} {c : WChar}
    (hrows : textRows text = (textRows rest).modifyHead (c :: ·)) : LoopRight text (p.afterChar c) := by
  refine ⟨?_, ?_, h.inside⟩
  · rw [hrows]
    exact sameRows_modifyHead c (rowsTyped_ne_nil _) (textRows_ne_nil _) h.rows
  · rw [hrows, List.length_modifyHead]
    exact h.ends

/-- What holds of a text when it holds of the shorter ones. -/
theorem shorter_induction {P : WStr → Prop} (h : ∀ s, (∀ t : WStr, t.length < s.length → P t) → P s) (s : WStr) : P s :=
  (measure fun s : WStr => s.length).wf.induction s h

/-- Of a clean text every row is pasted right. -/
theorem vPasteLoop_clean (text : WStr) :
    ∀ below : Nat, clean text = true → LoopRight text (vPasteLoop text below) := by
  induction text using shorter_induction with | h text ih => ?_
  intro below h
  cases text with
  | nil => exact ⟨fun _ => rfl, rfl, rfl⟩
  | cons c rest =>
    by_cases hlf : c = LF
    · subst hlf
      rw [clean_lf, Bool.and_eq_true, decide_eq_true_iff] at h
      rw [vPasteLoop_lf h.1]
      exact (ih rest (Nat.lt_succ_self _) _ h.2).afterRow
        (textRows_end (.inr rfl) fun hcr => LF_ne_CR hcr.1) (fun hnil => by rw [hnil]; rfl)
    · by_cases hcr : c = CR
      · subst hcr
        cases rest with
        | nil => exact absurd h (by decide)
        | cons d rest =>
          rw [vPasteLoop_two (.inl rfl) (.inl rfl)]
          by_cases hd : d = LF
          · subst hd
            exact (ih rest (Nat.lt_succ_of_lt (Nat.lt_succ_self _)) _ h).afterRow (textRows_crlf rest) (fun hnil => by rw [hnil]; rfl)
          · -- `\r\r\n`: two line ends, and the loop finds two
            rw [clean_cr hd, Bool.and_eq_true, Bool.and_eq_true, decide_eq_true_iff, decide_eq_true_iff] at h
            obtain ⟨⟨rfl, hhead⟩, hrest⟩ := h
            obtain ⟨rest, rfl⟩ := List.head?_eq_some_iff.mp hhead
            refine (ih (LF :: rest) (Nat.lt_succ_of_lt (Nat.lt_succ_self _)) _ hrest).afterRow ?_ (fun hnil => absurd hnil (List.cons_ne_nil _ _))
            have hfirst : ¬ (CR = CR ∧ (CR :: LF :: rest).head? = some LF) := fun hcrlf => hd (Option.some.inj hcrlf.2)
            rw [textRows_end (.inl rfl) hfirst, textRows_crlf, textRows_end (.inr rfl) fun hcr => LF_ne_CR hcr.1]
      · rw [clean_char hcr hlf] at h
        rw [vPasteLoop_char hcr hlf]
        exact (ih rest (Nat.lt_succ_self _) below h).afterChar (textRows_char hcr hlf rest)

/-! ## Texts that are not -/

/-- Characters typed and line ends counted. -/
def tokensTyped (p : Paste) : Nat := (rowsTyped p.keys).flatten.length + p.sizeY

/-- Characters and line ends of a text. -/
def tokensOf (text : WStr) : Nat := (textRows text).flatten.length + ((textRows text).length - 1)

theorem tokensTyped_afterRow (p : Paste) (below : Nat) (more : Bool) :
    tokensTyped (p.afterRow (endRow below more).1) = tokensTyped p + 1 := by
  show (rowsTyped ((endRow below more).1 ++ p.keys)).flatten.length + (p.sizeY + 1) = _
  rw [rowsTyped_endRow]
  split
  · rfl
  · rfl

theorem tokensTyped_afterChar (p : Paste) (c : WChar) : tokensTyped (p.afterChar c) = tokensTyped p + 1 := by
  show ((rowsTyped p.keys).modifyHead (c :: ·)).flatten.length + p.sizeY = _
  rw [length_flatten_modifyHead c (rowsTyped_ne_nil _), tokensTyped]
  omega

theorem tokensOf_row {text rest : WStr} (h : textRows text = [] :: textRows rest) :
    tokensOf text = tokensOf rest + 1 := by
  have hpos := List.length_pos_iff.mpr (textRows_ne_nil rest)
  rw [tokensOf, tokensOf, h, List.flatten_cons, List.nil_append, List.length_cons]
  omega

theorem tokensOf_char {c : WChar} (hcr : c ≠ CR) (hlf : c ≠ LF) (rest : WStr) :
    tokensOf (c :: rest) = tokensOf rest + 1 := by
  rw [tokensOf, tokensOf, textRows_char hcr hlf, length_flatten_modifyHead c (textRows_ne_nil _), List.length_modifyHead]
  omega

/-- Nothing is typed or counted that is not in the text, and in a text that is not clean
something is lost. -/
theorem vPasteLoop_tokens (text : WStr) : ∀ below : Nat,
    tokensTyped (vPasteLoop text below) ≤ tokensOf text ∧
      (clean text = false →
        (vPasteLoop text below).beyond = true ∨ tokensTyped (vPasteLoop text below) < tokensOf text) := by
  induction text using shorter_induction with | h text ih => ?_
  intro below
  cases text with
  | nil => exact ⟨Nat.le_refl _, fun h => absurd h (by decide)⟩
  | cons c rest =>
    by_cases hlf : c = LF
    · subst hlf
      have hrows : textRows (LF :: rest) = [] :: textRows rest := textRows_end (.inr rfl) fun hcr => LF_ne_CR hcr.1
      by_cases hhead : rest.head? = some LF
      · -- two line ends are taken for one
        obtain ⟨rest, rfl⟩ := List.head?_eq_some_iff.mp hhead
        have hrows' : textRows (LF :: rest) = [] :: textRows rest := textRows_end (.inr rfl) fun hcr => LF_ne_CR hcr.1
        have ih := ih rest (Nat.lt_succ_of_lt (Nat.lt_succ_self _)) (endRow below !rest.isEmpty).2
        rw [vPasteLoop_two (.inr rfl) (.inr rfl), tokensTyped_afterRow, tokensOf_row hrows, tokensOf_row hrows']
        exact ⟨by omega, fun _ => .inr (by omega)⟩
      · have ih := ih rest (Nat.lt_succ_self _) (endRow below !rest.isEmpty).2
        rw [vPasteLoop_lf hhead, tokensTyped_afterRow, tokensOf_row hrows, clean_lf, decide_eq_true hhead, Bool.true_and]
        exact ⟨by omega, fun h => (ih.2 h).imp id Nat.succ_lt_succ⟩
    · by_cases hcr : c = CR
      · subst hcr
        cases rest with
        | nil =>
          rw [vPasteLoop_cr, tokensTyped_afterRow]
          exact ⟨Nat.le_refl 1, fun _ => .inl rfl⟩
        | cons d rest =>
          rw [vPasteLoop_two (.inl rfl) (.inl rfl), tokensTyped_afterRow]
          by_cases hd : d = LF
          · subst hd
            have ih := ih rest (Nat.lt_succ_of_lt (Nat.lt_succ_self _)) (endRow below !rest.isEmpty).2
            rw [tokensOf_row (textRows_crlf rest), clean_crlf]
            exact ⟨by omega, fun h => (ih.2 h).imp id Nat.succ_lt_succ⟩
          · have hrows : textRows (CR :: d :: rest) = [] :: textRows (d :: rest) :=
              textRows_end (.inl rfl) fun hcrlf => hd (Option.some.inj hcrlf.2)
            rw [tokensOf_row hrows, clean_cr hd]
            by_cases hthree : d = CR ∧ rest.head? = some LF
            · obtain ⟨rfl, hhead⟩ := hthree
              obtain ⟨rest, rfl⟩ := List.head?_eq_some_iff.mp hhead
              have ih := ih (LF :: rest) (Nat.lt_succ_of_lt (Nat.lt_succ_self _)) (endRow below !(LF :: rest).isEmpty).2
              have hlf : tokensOf (LF :: rest) = tokensOf rest + 1 :=
                tokensOf_row (textRows_end (.inr rfl) fun hcr => LF_ne_CR hcr.1)
              rw [tokensOf_row (textRows_crlf rest), ← hlf, decide_eq_true rfl, decide_eq_true hhead, Bool.true_and,
                Bool.true_and]
              exact ⟨by omega, fun h => (ih.2 h).imp id Nat.succ_lt_succ⟩
            · -- the second character is lost
              have ih := ih rest (Nat.lt_succ_of_lt (Nat.lt_succ_self _)) (endRow below !rest.isEmpty).2
              have hd' : tokensOf (d :: rest) = tokensOf rest + 1 := by
                by_cases hdcr : d = CR
                · exact tokensOf_row (textRows_end (.inl hdcr) hthree)
                · exact tokensOf_char hdcr hd rest
              rw [hd']
              exact ⟨by omega, fun _ => .inr (by omega)⟩
      · have ih := ih rest (Nat.lt_succ_self _) below
        rw [vPasteLoop_char hcr hlf, tokensTyped_afterChar, tokensOf_char hcr hlf, clean_char hcr hlf]
        exact ⟨by omega, fun h => (ih.2 h).imp id Nat.succ_lt_succ⟩

/-- Without a line end there is one row. -/
theorem length_textRows_of_sizeY : ∀ (text : WStr) (below : Nat), (vPasteLoop text below).sizeY = 0 →
    (textRows text).length = 1
  | [], _, _ => rfl
  | c :: rest, below, h => by
    by_cases hend : c = CR ∨ c = LF
    · refine absurd h ?_
      cases rest with
      | nil =>
        have hloop : vPasteLoop [c] below = _ := if_neg fun hc => hend.elim hc.1 hc.2
        rw [hloop]
        exact Nat.one_ne_zero
      | cons d rest =>
        have hloop : vPasteLoop (c :: d :: rest) below = _ := if_neg fun hc => hend.elim hc.1 hc.2
        rw [hloop]
        split
        · exact Nat.succ_ne_zero _
        · exact Nat.succ_ne_zero _
    · rw [not_or] at hend
      rw [vPasteLoop_char hend.1 hend.2] at h
      rw [textRows_char hend.1 hend.2, List.length_modifyHead]
      exact length_textRows_of_sizeY rest below h

end VPaste

end Far2l
