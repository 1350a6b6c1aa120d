/-
Far2l.Editor.VerticalBlock — a vertical block as text: `Editor::VBlock2Text` of
`far/src/editor.cpp`.

The lines are those from `VBlockStart` on. Memory does not run out.
-/
import Far2l.Editor.CellTheorems

namespace Far2l

namespace VBlock

variable (conf : EditConf)

/-- `NATIVE_EOLW` -/
def NATIVE_EOLW : WStr := [LF]

/-- Where a block lies on the screen. -/
structure Block where
  blockX : Nat
  sizeX : Nat
  sizeY : Nat
  deriving DecidableEq, Repr

/-- `TBlockX` -/
def Block.realX (b : Block) (e : Edit) : Nat := e.cellPosToReal conf b.blockX

/-- `TBlockSizeX` -/
def Block.realSizeX (b : Block) (e : Edit) : Nat := e.cellPosToReal conf (b.blockX + b.sizeX) - b.realX conf e

/-- What a line contributes, in front of the line end. -/
def Block.row (b : Block) (e : Edit) : WStr :=
  let size := b.realSizeX conf e
  if e.length > b.realX conf e then
    let copySize := min (e.length - b.realX conf e) size
    (e.str.drop (b.realX conf e)).take copySize ++ List.replicate (size - copySize) SPACE
  else List.replicate size SPACE

/-- `VBlock2Text`: the text, without the terminator. -/
def vBlock2Text (b : Block) (lines : List Edit) (initData : WStr) : WStr :=
  initData ++ (lines.take b.sizeY).flatMap fun e => b.row conf e ++ NATIVE_EOLW

/-- `TotalChars` -/
def Block.totalChars (b : Block) (initData : WStr) : Nat :=
  initData.length + (b.sizeX + NATIVE_EOLW.length) * b.sizeY + 1

end VBlock

end Far2l

/-! # Whether the text of a vertical block fits into the

buffer that is allocated for it.

A row is as long as the positions between two columns. Combining characters that go
with the character in front of them are positions without a column, so a row with
one of them can be longer than the block is wide; without any of them it never is. -/

namespace Far2l

namespace Edit

variable {conf : EditConf}

/-! ## Positions between two columns -/

/-- No combining character goes with the character in front of it. The flag says
whether there is such a character. -/
def uncombined (conf : EditConf) : Bool → WStr → Bool
  | _, [] => true
  | base, c :: rest => !(base && conf.xxxfix c) && uncombined conf (!isKeptTab conf c) rest

theorem uncombined_cons {base : Bool} {c : WChar} {s : WStr} (h : uncombined conf base (c :: s) = true) :
    ¬ (base = true ∧ conf.xxxfix c = true) ∧ uncombined conf (!isKeptTab conf c) s = true := by
  rw [uncombined, Bool.and_eq_true, Bool.not_eq_true', Bool.and_eq_false_iff] at h
  refine ⟨fun hc => ?_, h.2⟩
  rcases h.1 with h | h
  · exact Bool.false_ne_true (h.symm.trans hc.1)
  · exact Bool.false_ne_true (h.symm.trans hc.2)

/-- Without combined characters there are no more positions than columns. -/
theorem realFrom_le (htab : 0 < conf.tabSize) (s : WStr) : ∀ (base : Bool) (col pos : Nat),
    uncombined conf base s = true → realFrom conf s base col pos ≤ pos - col := by
  induction s with
  | nil =>
    intro base col pos _
    exact Nat.le_of_eq (realFrom_nil base col pos)
  | cons c s ih =>
    intro base col pos h
    obtain ⟨hc, hrest⟩ := uncombined_cons h
    rcases Nat.lt_or_ge col pos with hlt | hge
    · cases hkept : isKeptTab conf c with
      | true =>
        rw [hkept] at hrest
        rw [realFrom_tab hc hkept s hlt, tabStop_eq htab]
        split
        · exact Nat.zero_le _
        · have := ih false (col + (conf.tabSize - col % conf.tabSize)) pos hrest
          have := tabStop_gt htab col
          omega
      | false =>
        rw [hkept] at hrest
        rw [realFrom_char hc hkept s hlt]
        have := ih true (col + if conf.fullWidth c then 2 else 1) pos hrest
        have hwide : col < col + if conf.fullWidth c then 2 else 1 := by
          split
          · omega
          · omega
        omega
    · rw [realFrom_reached hc s hge]
      exact Nat.zero_le _

/-- Nor between two columns. -/
theorem realFrom_add_le (htab : 0 < conf.tabSize) (s : WStr) : ∀ (base : Bool) (col pos n : Nat),
    uncombined conf base s = true → realFrom conf s base col (pos + n) ≤ realFrom conf s base col pos + n := by
  induction s with
  | nil =>
    intro base col pos n _
    rw [realFrom_nil, realFrom_nil]
    omega
  | cons c s ih =>
    intro base col pos n h
    obtain ⟨hc, hrest⟩ := uncombined_cons h
    rcases Nat.lt_or_ge col pos with hlt | hge
    · cases hkept : isKeptTab conf c with
      | true =>
        rw [hkept] at hrest
        rw [realFrom_tab hc hkept s hlt, realFrom_tab hc hkept s (by omega), tabStop_eq htab]
        by_cases hstop : col + (conf.tabSize - col % conf.tabSize) > pos
        · have := realFrom_le htab s false (col + (conf.tabSize - col % conf.tabSize)) (pos + n) hrest
          rw [if_pos hstop]
          split
          · exact Nat.zero_le _
          · omega
        · have := ih false (col + (conf.tabSize - col % conf.tabSize)) pos n hrest
          rw [if_neg hstop, if_neg (by omega)]
          omega
      | false =>
        rw [hkept] at hrest
        have := ih true (col + if conf.fullWidth c then 2 else 1) pos n hrest
        rw [realFrom_char hc hkept s hlt, realFrom_char hc hkept s (by omega)]
        omega
    · have := realFrom_le htab (c :: s) base col (pos + n) h
      rw [realFrom_reached hc s hge]
      omega

/-- With a combined character two positions or more lie between a column and the next. -/
theorem combined_jump (htab : 0 < conf.tabSize) (s : WStr) : ∀ (base : Bool) (col : Nat),
    uncombined conf base s = false →
      (∃ pos, col ≤ pos ∧ realFrom conf s base col pos + 2 ≤ realFrom conf s base col (pos + 1)) ∨
        (base = true ∧ ∃ c rest, s = c :: rest ∧ conf.xxxfix c = true) := by
  induction s with
  | nil => exact fun base col h => absurd h (by simp [uncombined])
  | cons c s ih =>
    intro base col h
    by_cases hc : base = true ∧ conf.xxxfix c = true
    · exact .inr ⟨hc.1, c, s, rfl, hc.2⟩
    · left
      have hrest : uncombined conf (!isKeptTab conf c) s = false := by
        rw [uncombined] at h
        have hfree : (base && conf.xxxfix c) = false := by
          rw [← Bool.not_eq_true, Bool.and_eq_true]
          exact hc
        rwa [hfree] at h
      cases hkept : isKeptTab conf c with
      | true =>
        rw [hkept] at hrest
        rcases ih false (col + (conf.tabSize - col % conf.tabSize)) hrest with ⟨pos, hpos, hjump⟩ | ⟨hbase, -⟩
        · have := tabStop_gt htab col
          refine ⟨pos, by omega, ?_⟩
          rw [realFrom_tab hc hkept s (by omega), realFrom_tab hc hkept s (by omega), tabStop_eq htab,
            if_neg (by omega), if_neg (by omega)]
          omega
        · exact absurd hbase Bool.false_ne_true
      | false =>
        rw [hkept] at hrest
        have hwide : col < col + if conf.fullWidth c then 2 else 1 := by
          split
          · omega
          · omega
        rcases ih true (col + if conf.fullWidth c then 2 else 1) hrest with ⟨pos, hpos, hjump⟩ | ⟨-, c', rest, rfl, hcomb⟩
        · refine ⟨pos, by omega, ?_⟩
          rw [realFrom_char hc hkept s (by omega), realFrom_char hc hkept s (by omega)]
          omega
        · -- the character and the one combined with it lie in front of the next column
          refine ⟨col, Nat.le_refl _, ?_⟩
          rw [realFrom_reached hc _ (Nat.le_refl _), realFrom_char hc hkept _ (Nat.lt_succ_self _),
            realFrom_combining hcomb]
          omega

end Edit

namespace VBlock

open Edit

variable {conf : EditConf}

theorem realX_eq (b : Block) (e : Edit) : b.realX conf e = realFrom conf e.str false 0 b.blockX := rfl

theorem realSizeX_eq (b : Block) (e : Edit) :
    b.realSizeX conf e = realFrom conf e.str false 0 (b.blockX + b.sizeX) - realFrom conf e.str false 0 b.blockX := rfl

/-- A row has as many characters as there are positions between its columns. -/
theorem length_row (b : Block) (e : Edit) : (b.row conf e).length = b.realSizeX conf e := by
  rw [Block.row]
  split
  · rw [List.length_append, List.length_take, List.length_drop, List.length_replicate]
    have : e.length = e.str.length := rfl
    omega
  · exact List.length_replicate

/-- What the allocation rests on, for one text of a block: no row is longer than the
block is wide, and the text with its terminator fits. -/
structure Fits (conf : EditConf) (b : Block) (lines : List Edit) (initData : WStr) : Prop where
  rows : ∀ e ∈ lines, b.realSizeX conf e ≤ b.sizeX
  buffer : (vBlock2Text conf b lines initData).length + 1 ≤ b.totalChars initData

/-- Rows that are no longer than the block is wide fit. -/
theorem length_rows_le {b : Block} : ∀ {lines : List Edit}, (∀ e ∈ lines, b.realSizeX conf e ≤ b.sizeX) →
    (lines.flatMap fun e => b.row conf e ++ NATIVE_EOLW).length ≤ (b.sizeX + NATIVE_EOLW.length) * lines.length
  | [], _ => Nat.zero_le _
  | e :: lines, h => by
    obtain ⟨he, hlines⟩ := List.forall_mem_cons.mp h
    have ih := length_rows_le hlines
    rw [List.flatMap_cons, List.length_append, List.length_append, length_row, List.length_cons, Nat.mul_succ]
    omega

theorem buffer_of_rows {b : Block} {lines : List Edit} (h : ∀ e ∈ lines, b.realSizeX conf e ≤ b.sizeX)
    (initData : WStr) : (vBlock2Text conf b lines initData).length + 1 ≤ b.totalChars initData := by
  have htaken : ∀ e ∈ lines.take b.sizeY, b.realSizeX conf e ≤ b.sizeX :=
    fun e he => h e (List.mem_of_mem_take he)
  have hrows := length_rows_le htaken
  have hcount : (lines.take b.sizeY).length ≤ b.sizeY := List.length_take_le _ _
  have hmul := Nat.mul_le_mul_left (b.sizeX + NATIVE_EOLW.length) hcount
  rw [vBlock2Text, Block.totalChars, List.length_append]
  omega

/-- **The text of a vertical block fits into its buffer, whatever the block and the
initial text are, exactly when no line has a combining character that goes with the
character in front of it.** -/
theorem vBlock2Text_fits_iff (htab : 0 < conf.tabSize) (lines : List Edit) :
    (∀ (b : Block) (initData : WStr), Fits conf b lines initData) ↔
      ∀ e ∈ lines, uncombined conf false e.str = true := by
  constructor
  · intro h e he
    refine Classical.byContradiction fun hcomb => ?_
    rw [Bool.not_eq_true] at hcomb
    rcases combined_jump htab e.str false 0 hcomb with ⟨pos, -, hjump⟩ | ⟨hbase, -⟩
    · have hrow : realFrom conf e.str false 0 (pos + 1) - realFrom conf e.str false 0 pos ≤ 1 :=
        (h ⟨pos, 1, 1⟩ []).rows e he
      omega
    · exact Bool.false_ne_true hbase
  · intro h b initData
    have hrows : ∀ e ∈ lines, b.realSizeX conf e ≤ b.sizeX := fun e he => by
      have := realFrom_add_le htab e.str false 0 b.blockX b.sizeX (h e he)
      rw [realSizeX_eq]
      omega
    exact ⟨hrows, buffer_of_rows hrows initData⟩

/-- A line with a tab and a wide character. -/
theorem vBlock2Text_fits_wide :
    (∀ (b : Block) (initData : WStr), Fits accents b [{ str := [TAB, 0x4E00, 0x61] }] initData) ↔
      ∀ e ∈ [({ str := [TAB, 0x4E00, 0x61] } : Edit)], uncombined accents false e.str = true :=
  vBlock2Text_fits_iff (by decide) [{ str := [TAB, 0x4E00, 0x61] }]

/-- A letter with an accent in a block of one column: four characters are written
where three have been allocated. -/
theorem accent_overruns :
    (vBlock2Text accents ⟨0, 1, 1⟩ [{ str := [0x61, 0x301] }] []).length + 1 = 4 ∧
      Block.totalChars ⟨0, 1, 1⟩ [] = 3 ∧
      ¬ ∀ (conf : EditConf) (b : Block) (lines : List Edit) (initData : WStr), 0 < conf.tabSize →
        (vBlock2Text conf b lines initData).length + 1 ≤ b.totalChars initData := by
  refine ⟨by decide, by decide, fun h => ?_⟩
  exact absurd (h accents ⟨0, 1, 1⟩ [{ str := [0x61, 0x301] }] [] (by decide)) (by decide)

end VBlock

end Far2l
