/-
Far2l.VT.ToggleTheorems — what `AlternativeScreenBuffer::Toggle` leaves of the screen
that it shows again.

The saved cells are written into the first row and column of the screen, those of the
last saved rows when it has become lower. What is left of a larger screen is to be filled
with spaces; but the loops begin one row and one column too late, so that these keep what
the other screen has shown. The row of the cursor is only cut behind a test of its column.
-/
import Far2l.VT.CursorTheorems

namespace Far2l

/-- A size of a screen: `dwSize`. -/
structure ScreenSize where
  width : Nat
  height : Nat
  columns : 0 < width ∧ width ≤ 32767
  rows : 0 < height ∧ height ≤ 32767

/-- The cells are as many as a size has. -/
structure ConsoleBuffer.Shows (B : ConsoleBuffer) (s : ScreenSize) : Prop where
  width : B.width = s.width
  length : B.chars.length = s.height * s.width

theorem ConsoleBuffer.Shows.sized {B : ConsoleBuffer} {s : ScreenSize} (h : B.Shows s) : B.Sized s.height :=
  ⟨h.width ▸ s.columns, s.rows, h.width ▸ h.length⟩

theorem ConsoleBuffer.SameSize.shows {B B' : ConsoleBuffer} {s : ScreenSize} (hsame : B.SameSize B')
    (h : B.Shows s) : B'.Shows s := ⟨hsame.width.trans h.width, hsame.length.trans h.length⟩

/-! ## Filling beside a cell -/

namespace ConsoleOutput

open ConsoleBuffer

variable {cc : CharClasses} {O O' : ConsoleOutput} {h X R : Nat} {f : CharInfo → CharInfo}

theorem Redrawn.alone (hdrawn : Redrawn O O') (hO : O.buf.Sized h) {y : Nat} (halone : O.Alone y) : O'.Alone y := by
  obtain ⟨B, temp, rfl, hsame⟩ := hdrawn
  have hheight : B.height = O.buf.height := by rw [(hsame.sized hO).height_eq, hO.height_eq]
  have hedge : ({ O with buf := B, tempChars := temp } : ConsoleOutput).scrollEdge = O.scrollEdge :=
    congrArg (min · (O.scrollBottom + 1)) hheight
  exact ⟨hedge.trans halone.edge, by rw [hedge]; exact halone.rows⟩

/-- Another cell than the one that is filled. -/
theorem fillAt_beside (hO : O.buf.Sized h) (hX : X < O.buf.width) (hR : R < h) {px py : Int}
    (hpos : px ≠ X ∨ py ≠ R) : (O.fillAt f ⟨px, py⟩).1.buf.cell X R = O.buf.cell X R := by
  obtain ⟨B, hfill, hsome, hnone⟩ := fillAt_fst O f ⟨px, py⟩
  rw [hfill]
  cases hread : O.buf.read ⟨px, py⟩ with
  | none => rw [hnone hread]
  | some c =>
    dsimp only
    rw [hsome c hread, cell_write hO hX hR, if_neg (by omega)]

/-- A cell that is not between the first and the last place that are filled. -/
theorem fillLoop_beside : ∀ (n : Nat) {O : ConsoleOutput} (px : Nat) (y : Int), O.buf.Sized h →
    X < O.buf.width → R < h → (X < px ∨ y ≠ R) → px + n ≤ O.buf.width →
    ∃ O', fillLoop f n O ⟨px, y⟩ = some (O', ⟨(px + n : Nat), y⟩) ∧ Redrawn O O'
      ∧ O'.buf.cell X R = O.buf.cell X R
  | 0, O, px, y, _, _, _, _, _ => ⟨O, rfl, .refl O, rfl⟩
  | n + 1, O, px, y, hO, hX, hR, hbeside, hend => by
    have hwidth := hO.width
    have hdrawn := fillAt_redrawn O f ⟨px, y⟩
    obtain ⟨O', hloop, hdrawn', hcell⟩ := fillLoop_beside n (px + 1) y (hdrawn.sameSize.sized hO)
      (hdrawn.sameSize.width ▸ hX) hR (by omega) (by rw [hdrawn.sameSize.width]; omega)
    refine ⟨O', ?_, hdrawn.trans hdrawn', hcell.trans (fillAt_beside hO hX hR (by omega))⟩
    rw [fillLoop, leaveMargin, if_neg (by dsimp only; omega), Option.bind_some]
    dsimp only
    rw [fillAt_snd, short_eq (by omega) (by omega), show px + (n + 1) = px + 1 + n by omega]
    exact hloop

/-- Behind the last column, where nothing is scrolled. -/
theorem leaveMargin_beside {last : Nat} (halone : O.Alone last) (y : Int) :
    ∃ temp y', O.leaveMargin true ⟨O.buf.width, y⟩ = some ({ O with tempChars := temp }, ⟨0, y'⟩) := by
  obtain ⟨temp, hscroll⟩ := halone.scroll
  rw [leaveMargin, if_pos (Int.le_refl _), if_pos rfl, nextRow]
  dsimp only
  split
  · exact ⟨temp, _, by rw [hscroll, Option.map_some]⟩
  · exact ⟨O.tempChars, _, rfl⟩

/-- **A row that is filled one place too far**: the last space is in the first column. -/
theorem fillLoop_margin (hO : O.buf.Sized h) {last : Nat} (halone : O.Alone last) (hX : X < O.buf.width)
    (hR : R < h) (hfirst : 0 < X) {px n : Nat} (hbeside : X < px) (hend : px + n = O.buf.width) (y : Int) :
    ∃ O', (fillLoop f (n + 1) O ⟨px, y⟩).map Prod.fst = some O' ∧ Redrawn O O'
      ∧ O'.buf.cell X R = O.buf.cell X R := by
  obtain ⟨O1, hloop, hdrawn1, hcell1⟩ := fillLoop_beside (f := f) n px y hO hX hR (.inl hbeside) (Nat.le_of_eq hend)
  have hO1 := hdrawn1.sameSize.sized hO
  obtain ⟨temp, y', hmargin⟩ := leaveMargin_beside (hdrawn1.alone hO halone) y
  have hdrawn2 := fillAt_redrawn { O1 with tempChars := temp } f ⟨0, y'⟩
  refine ⟨_, ?_, hdrawn1.trans ((leaveMargin_redrawn hmargin).trans hdrawn2), ?_⟩
  · rw [fillLoop_add, hloop, Option.bind_some, hend, ← hdrawn1.sameSize.width]
    dsimp only
    rw [fillLoop, hmargin, Option.bind_some]
    rfl
  · refine Eq.trans (fillAt_beside (O := { O1 with tempChars := temp }) hO1 ?_ hR (.inl (by omega))) hcell1
    dsimp only
    rw [hdrawn1.sameSize.width]
    exact hX

end ConsoleOutput

namespace VT

/-! ## Saving and showing -/

/-- What is saved of a console: `GetConsoleScreenBufferInfo`, and all of its cells. -/
structure SavedScreenBuffer.Saves (S : SavedScreenBuffer) (O : ConsoleOutput) (s : ScreenSize) : Prop where
  info : S.info = ⟨⟨s.width, s.height⟩, O.cursorPos, O.attributes, ⟨0, 0, s.width - 1, s.height - 1⟩⟩
  length : S.chars.length = s.height * s.width
  cells : ∀ x y, x < s.width → y < s.height → S.chars[y * s.width + x]? = O.buf.cell x y

namespace Terminal

open ConsoleBuffer ConsoleOutput

variable {Font : Type} (ops : FontOps Font) (cc : CharClasses) {T T' P P' : Terminal Font} {s s₀ s₁ : ScreenSize}
  {O O' : ConsoleOutput} {S S₁ : SavedScreenBuffer}

theorem info_shows (hT : T.console.buf.Shows s) :
    T.info = ⟨⟨s.width, s.height⟩, T.console.cursorPos, T.console.attributes, ⟨0, 0, s.width - 1, s.height - 1⟩⟩ := by
  have hw := s.columns
  have hh := s.rows
  rw [info, getConsoleScreenBufferInfo, hT.sized.height_eq, hT.width, short_eq (by omega) (by omega),
    short_eq (by omega) (by omega), short_eq (by omega) (by omega), short_eq (by omega) (by omega)]

/-- All cells are read. -/
theorem readArea_saves (hO : O.buf.Shows s) :
    ∃ chars, O.buf.readArea (List.replicate (s.height * s.width) default) ⟨s.width, s.height⟩ ⟨0, 0⟩
        ⟨0, 0, s.width - 1, s.height - 1⟩ = some (chars, ⟨0, 0, s.width - 1, s.height - 1⟩)
      ∧ chars.length = s.height * s.width
      ∧ ∀ x y, x < s.width → y < s.height → chars[y * s.width + x]? = O.buf.cell x y := by
  have hw := s.columns
  have hh := s.rows
  have hlast : min (s.height - 1) (0 + (s.height - 0) - 1) = s.height - 1 := by omega
  have hfit : (0 + (s.height - 1 - 0)) * s.width + 0 + (s.width - 1 - 0) < s.height * s.width := by
    have hmul := Nat.sub_one_mul s.height s.width
    have hle : s.width ≤ s.height * s.width := Nat.le_mul_of_pos_left _ hh.1
    rw [show 0 + (s.height - 1 - 0) = s.height - 1 by omega]
    omega
  obtain ⟨chars, hread, hlength, hcells⟩ := readArea_inside hO.sized
    (List.replicate (s.height * s.width) default) s.width s.height 0 0 0 0 (s.width - 1) (s.height - 1)
    (by omega) (by omega) (by rw [hO.width]; omega) (by omega) (by omega)
    (by rw [hlast, List.length_replicate]; exact hfit)
  rw [hlast] at hread hcells
  refine ⟨chars, ?_, hlength.trans List.length_replicate, fun x y hx hy => ?_⟩
  · rw [← Int.natCast_pred_of_pos hw.1, ← Int.natCast_pred_of_pos hh.1]
    exact hread
  · rw [hcells x y hx, if_pos (by omega), cell]
    simp only [Nat.zero_add, Nat.sub_zero]

/-- **`Toggle` saves the screen that it leaves.** -/
theorem toggle_saves {on : Bool} (hT : T.console.buf.Shows s) (hon : T.alternative ≠ on)
    (h : T.toggle ops cc on = some T') : ∃ S, T'.other = some S ∧ S.Saves T.console s := by
  obtain ⟨chars, hread, hlength, hcells⟩ := readArea_saves hT
  have hw := s.columns.1
  have hh := s.rows.1
  rw [toggle, if_neg hon, info_shows hT] at h
  dsimp only at h
  rw [if_pos (by omega), Int.toNat_natCast, Int.toNat_natCast, hread] at h
  refine ⟨⟨chars, _⟩, ?_, rfl, hlength, hcells⟩
  obtain ⟨read, hsome, h⟩ := Option.bind_eq_some_iff.mp h
  obtain rfl := Option.some.inj hsome
  split at h
  · obtain ⟨next, -, h⟩ := Option.bind_eq_some_iff.mp h
    obtain rfl := Option.some.inj h
    rfl
  · obtain ⟨O1, -, h⟩ := Option.bind_eq_some_iff.mp h
    obtain ⟨O2, -, h⟩ := Option.bind_eq_some_iff.mp h
    obtain rfl := Option.some.inj h
    rfl

/-- **`Toggle` to a screen that is saved.** -/
theorem toggle_shown (on : Bool) (hT : T.console.buf.Shows s) (hon : T.alternative ≠ on) (hother : T.other = some S) :
    ∃ S', S'.Saves T.console s ∧ T.toggle ops cc on = (showOther cc S'.info S.info S.chars T.console).map fun O =>
      { ({ T with console := O } : Terminal Font).setAttributes S.info.attributes with
        fontState := ops.fromConsoleAttributes T.fontState S.info.attributes
        other := some S'
        alternative := on } := by
  obtain ⟨chars, hread, hlength, hcells⟩ := readArea_saves hT
  have hw := s.columns.1
  have hh := s.rows.1
  refine ⟨⟨chars, _⟩, ⟨rfl, hlength, hcells⟩, ?_⟩
  rw [toggle, if_neg hon, info_shows hT, hother]
  dsimp only
  rw [if_pos (by omega), Int.toNat_natCast, Int.toNat_natCast, hread]
  dsimp only [bind, Option.bind]
  cases showOther cc _ S.info S.chars T.console <;> rfl

/-- The saved cells are written, from the first row and column on. -/
theorem writeArea_saved (hO : O.buf.Shows s₁) (hS : S.Saves P.console s₀) :
    ∃ B r, O.buf.writeArea S.chars ⟨s₀.width, s₀.height⟩ ⟨0, (s₀.height - s₁.height : Nat)⟩
        ⟨0, 0, s₀.width - 1, s₀.height - 1⟩ = some (B, r) ∧ SameSize O.buf B
      ∧ ∀ x y, x < s₁.width → y < s₁.height →
        B.cell x y = if x < s₀.width ∧ y < s₀.height then P.console.buf.cell x (y + (s₀.height - s₁.height))
          else O.buf.cell x y := by
  have hw₀ := s₀.columns
  have hh₀ := s₀.rows
  have hw₁ := s₁.columns
  have hh₁ := s₁.rows
  generalize hd : s₀.height - s₁.height = d
  have hcut : O.buf.cutRect s₁.height ⟨s₀.width, s₀.height⟩ ⟨0, d⟩ ⟨0, 0, s₀.width - 1, s₀.height - 1⟩
      = ⟨0, 0, min s₀.width s₁.width - 1, min s₀.height s₁.height - 1⟩ := by
    rw [cutRect, SmallRect.mk.injEq, hO.width]
    dsimp only
    omega
  obtain ⟨chars, hwrite, hlength, hcells, hkept⟩ := @writeArea_copies O.buf s₁.height
    ⟨s₀.width, s₀.height⟩ ⟨0, d⟩ ⟨0, 0, s₀.width - 1, s₀.height - 1⟩ (hO.width ▸ hO.length) (hO.width ▸ hw₁.1) S.chars
    (by simp only [Coord.IsShort]; omega) (by simp only [Coord.IsShort]; omega)
    (by simp only [SmallRect.IsShort]; omega) (by dsimp only; rw [hS.length, Int.toNat_natCast, Int.toNat_natCast])
    (by simp only [GoodData]; omega) (by rw [hcut, hO.width]; simp only [SmallRect.OnScreen]; omega)
    (by rw [hcut]; dsimp only; omega)
  rw [hcut] at hwrite hcells hkept
  refine ⟨_, _, hwrite, ⟨rfl, hlength⟩, fun x y hx hy => ?_⟩
  have hhas : (⟨0, 0, min s₀.width s₁.width - 1, min s₀.height s₁.height - 1⟩ : SmallRect).Has x y
      ↔ x < s₀.width ∧ y < s₀.height := by
    simp only [SmallRect.Has]
    omega
  split
  · next hin =>
    rw [cell, hcells x y (hhas.mpr hin), elementOf]
    dsimp only
    rw [show ((d : Int) + ((y : Int) - 0)).toNat = y + d by omega,
      show ((0 : Int) + ((x : Int) - 0)).toNat = x by omega, Int.toNat_natCast]
    exact hS.cells x (y + d) hin.1 (by omega)
  · next hout =>
    refine hkept _ fun x' y' hin heq => hout ?_
    have hx' : x' < O.buf.width := by
      have hle : (x' : Int) ≤ min s₀.width s₁.width - 1 := hin.2.1
      rw [hO.width]
      omega
    obtain ⟨rfl, rfl⟩ := index_inj (by rw [hO.width]; exact hx) hx' heq
    exact hhas.mp hin

/-- What `showOther` makes of the cells: the saved ones are written, and the two loops fill rows. -/
theorem showOther_eq (hS : S.Saves P.console s₀) (hS₁ : S₁.Saves O s₁) {B : ConsoleBuffer} {r : SmallRect}
    (hwrite : O.buf.writeArea S.chars ⟨s₀.width, s₀.height⟩ ⟨0, (s₀.height - s₁.height : Nat)⟩
      ⟨0, 0, s₀.width - 1, s₀.height - 1⟩ = some (B, r)) :
    ∃ pos, showOther cc S₁.info S.info S.chars O
        = ((if s₀.height < s₁.height then fillRows cc 0 s₁.width (s₁.height - s₀.height)
              ((s₀.height : Int) + 1) { O with buf := B } else some { O with buf := B }).bind fun O =>
            if s₀.width < s₁.width then fillRows cc (s₀.width + 1) (s₁.width - s₀.width) (s₁.height + 1) 0 O
              else some O).map (·.setCursor pos)
      ∧ (0 ≤ P.console.cursorPos.x → pos = ⟨min P.console.cursorPos.x (s₁.width - 1), P.console.cursorPos.y⟩) := by
  have hw₀ := s₀.columns
  have hh₀ := s₀.rows
  have hw₁ := s₁.columns
  have hh₁ := s₁.rows
  have horigin : (if (s₁.height : Int) < s₀.height then short ((s₀.height : Int) - s₁.height) else 0)
      = (s₀.height - s₁.height : Nat) := by
    split
    · rw [short_eq (by omega) (by omega)]
      omega
    · omega
  rw [showOther, hS.info, hS₁.info]
  dsimp only [bind]
  rw [horigin, hwrite, Option.bind_some]
  dsimp only
  generalize hx : (if P.console.cursorPos.x ≥ s₁.width then
    if (s₁.width : Int) > 0 then short ((s₁.width : Int) - 1) else 0 else P.console.cursorPos.x) = x
  generalize hy : (if x ≥ s₁.width then
    if (s₁.height : Int) > 0 then short ((s₁.height : Int) - 1) else 0 else P.console.cursorPos.y) = y
  refine ⟨⟨x, y⟩, ?_, fun hcursor => ?_⟩
  · have hcolumns : ∀ O : ConsoleOutput, (if (s₁.width : Int) > s₀.width then (fillRows cc (short (0 + s₀.width + 1))
          ((s₁.width : Int) - s₀.width).toNat ((s₁.height : Int) + 1).toNat 0 O).bind fun O => some (O.setCursor ⟨x, y⟩)
          else some (O.setCursor ⟨x, y⟩))
        = (if s₀.width < s₁.width then fillRows cc (s₀.width + 1) (s₁.width - s₀.width) (s₁.height + 1) 0 O
          else some O).map (·.setCursor ⟨x, y⟩) := by
      intro O
      by_cases hlt : s₀.width < s₁.width
      · rw [if_pos hlt, if_pos (Int.ofNat_lt.mpr hlt), short_eq (by omega) (by omega), Int.zero_add,
          show ((s₁.width : Int) - s₀.width).toNat = s₁.width - s₀.width by omega,
          show ((s₁.height : Int) + 1).toNat = s₁.height + 1 by omega]
        cases fillRows cc (s₀.width + 1) (s₁.width - s₀.width) (s₁.height + 1) 0 O <;> rfl
      · rw [if_neg hlt, if_neg (fun h => hlt (Int.ofNat_lt.mp h)), Option.map_some]
    by_cases hlt : s₀.height < s₁.height
    · rw [if_pos hlt, if_pos (Int.ofNat_lt.mpr hlt), short_eq (by omega) (by omega), Int.toNat_natCast,
        show ((s₁.height : Int) - s₀.height).toNat = s₁.height - s₀.height by omega]
      cases fillRows cc 0 s₁.width (s₁.height - s₀.height) (s₀.height + 1) { O with buf := B } with
      | none => rfl
      | some O1 => exact hcolumns O1
    · rw [if_neg hlt, if_neg (fun h => hlt (Int.ofNat_lt.mp h)), Option.bind_some]
      exact hcolumns { O with buf := B }
  · -- A column of the screen: the row is not looked at.
    rw [short_eq (by omega) (by omega)] at hx
    have hcolumn : x = min P.console.cursorPos.x (s₁.width - 1) := by
      rw [← hx]
      split
      · rw [if_pos (by omega)]
        omega
      · omega
    rw [if_neg (by omega)] at hy
    rw [← hcolumn, ← hy]

/-! ## Screens that are not larger -/

/-- **A saved screen comes back** on a screen that is neither wider nor higher. -/
theorem showOther_smaller (hS : S.Saves P.console s₀) (hS₁ : S₁.Saves O s₁) (hO : O.buf.Shows s₁)
    (hwidth : s₁.width ≤ s₀.width) (hheight : s₁.height ≤ s₀.height) (hcursor : 0 ≤ P.console.cursorPos.x) :
    ∃ O', showOther cc S₁.info S.info S.chars O = some O' ∧ O'.buf.Shows s₁
      ∧ (∀ x y, x < s₁.width → y < s₁.height →
        O'.buf.cell x y = P.console.buf.cell x (y + (s₀.height - s₁.height)))
      ∧ O'.cursorPos = ⟨min P.console.cursorPos.x (s₁.width - 1), P.console.cursorPos.y⟩ := by
  obtain ⟨B, r, hwrite, hsame, hcells⟩ := writeArea_saved hO hS
  obtain ⟨pos, hshow, hpos⟩ := showOther_eq cc hS hS₁ hwrite
  rw [if_neg (Nat.not_lt.mpr hheight), Option.bind_some, if_neg (Nat.not_lt.mpr hwidth), Option.map_some] at hshow
  refine ⟨_, hshow, hsame.shows hO, fun x y hx hy => ?_, hpos hcursor⟩
  exact (hcells x y hx hy).trans (if_pos ⟨Nat.lt_of_lt_of_le hx hwidth, Nat.lt_of_lt_of_le hy hheight⟩)

/-! ## Screens that are larger -/

variable {h X R : Nat}

/-- Rows that are filled below a cell. -/
theorem fillRows_below (hX : X < O.buf.width) (hR : R < h) {count : Nat} (hcount : count ≤ O.buf.width) :
    ∀ (rows : Nat) {y : Int} {O₁ : ConsoleOutput}, Redrawn O O₁ → O.buf.Sized h → R < y → y + rows ≤ 32768 →
    fillRows cc 0 count rows y O₁ = some O' → Redrawn O O' ∧ O'.buf.cell X R = O₁.buf.cell X R
  | 0, y, O₁, hdrawn, _, _, _, hfill => by
    obtain rfl := Option.some.inj hfill
    exact ⟨hdrawn, rfl⟩
  | n + 1, y, O₁, hdrawn, hO, hy, hlast, hfill => by
    obtain ⟨O₂, hrow, hrest⟩ := Option.bind_eq_some_iff.mp hfill
    obtain ⟨O₃, hloop, hdrawn₃, hcell⟩ := fillLoop_beside (f := withChar SPACE) count 0 y
      (hdrawn.sameSize.sized hO) (hdrawn.sameSize.width ▸ hX) hR (.inr (by omega))
      (by rw [hdrawn.sameSize.width]; omega)
    rw [fillCharacter_eq, show (⟨0, y⟩ : Coord) = ⟨(0 : Nat), y⟩ from rfl, hloop] at hrow
    obtain rfl := Option.some.inj hrow
    have hnext := fillRows_below hX hR hcount n (hdrawn.trans hdrawn₃) hO (y := short (y + 1))
    cases n with
    | zero =>
      obtain rfl := Option.some.inj hrest
      exact ⟨hdrawn.trans hdrawn₃, hcell⟩
    | succ n =>
      rw [short_eq (by omega) (by omega)] at hrest hnext
      obtain ⟨hdrawn', hcell'⟩ := hnext (by omega) (by omega) hrest
      exact ⟨hdrawn', hcell'.trans hcell⟩

/-- Rows that are filled on the right of a cell, and one place too far. -/
theorem fillRows_beside (hO : O.buf.Sized h) {last : Nat} (halone : O.Alone last) (hX : X < O.buf.width) (hR : R < h)
    (hfirst : 0 < X) (px n : Nat) (hbeside : X < px) (hend : px + n = O.buf.width) :
    ∀ (rows : Nat) {y : Int} {O₁ : ConsoleOutput}, Redrawn O O₁ →
    fillRows cc px (n + 1) rows y O₁ = some O' → O'.buf.cell X R = O₁.buf.cell X R
  | 0, y, O₁, _, hfill => by
    obtain rfl := Option.some.inj hfill
    rfl
  | rows + 1, y, O₁, hdrawn, hfill => by
    obtain ⟨O₂, hrow, hrest⟩ := Option.bind_eq_some_iff.mp hfill
    obtain ⟨O₃, hloop, hdrawn₃, hcell⟩ := fillLoop_margin (f := withChar SPACE) (hdrawn.sameSize.sized hO)
      (hdrawn.alone hO halone) (hdrawn.sameSize.width ▸ hX) hR hfirst hbeside
      (by rw [hdrawn.sameSize.width]; exact hend) y
    rw [fillCharacter_eq, hloop] at hrow
    obtain rfl := Option.some.inj hrow
    exact (fillRows_beside hO halone hX hR hfirst px n hbeside hend rows (hdrawn.trans hdrawn₃) hrest).trans hcell

/-- A cell of a larger screen that neither the saved cells nor the loops reach. -/
def forgotten (s₀ s₁ : ScreenSize) : Nat × Nat :=
  (if s₀.width < s₁.width then s₀.width else 0, if s₀.height < s₁.height then s₀.height else 0)

/-- **A cell of a larger screen keeps what the other screen has shown.** -/
theorem showOther_larger (hS : S.Saves P.console s₀) (hS₁ : S₁.Saves O s₁) (hO : O.buf.Shows s₁)
    (halone : O.Alone (s₁.height - 1)) (hlarger : s₀.width < s₁.width ∨ s₀.height < s₁.height)
    (hshown : showOther cc S₁.info S.info S.chars O = some O') :
    O'.buf.cell (forgotten s₀ s₁).1 (forgotten s₀ s₁).2 = O.buf.cell (forgotten s₀ s₁).1 (forgotten s₀ s₁).2 := by
  have hw₀ := s₀.columns
  have hh₁ := s₁.rows
  have hX : (forgotten s₀ s₁).1 < O.buf.width := by
    rw [hO.width, forgotten]
    have hw₁ := s₁.columns
    dsimp only
    split <;> omega
  have hR : (forgotten s₀ s₁).2 < s₁.height := by
    rw [forgotten]
    dsimp only
    split <;> omega
  obtain ⟨B, r, hwrite, hsame, hcells⟩ := writeArea_saved hO hS
  obtain ⟨pos, hshow, -⟩ := showOther_eq cc hS hS₁ hwrite
  have hwritten : B.cell (forgotten s₀ s₁).1 (forgotten s₀ s₁).2
      = O.buf.cell (forgotten s₀ s₁).1 (forgotten s₀ s₁).2 := by
    rw [hcells _ _ (hO.width ▸ hX) hR, if_neg]
    rw [forgotten]
    rintro ⟨hx, hy⟩
    rcases hlarger with hlt | hlt
    · rw [if_pos hlt] at hx
      exact Nat.lt_irrefl _ hx
    · rw [if_pos hlt] at hy
      exact Nat.lt_irrefl _ hy
  rw [hshow] at hshown
  obtain ⟨O₂, hfilled, rfl⟩ := Option.map_eq_some_iff.mp hshown
  obtain ⟨O₁, hrows, hcolumns⟩ := Option.bind_eq_some_iff.mp hfilled
  have hdrawn : Redrawn O { O with buf := B } := ⟨B, O.tempChars, rfl, hsame⟩
  have hbelow : Redrawn O O₁ ∧ O₁.buf.cell (forgotten s₀ s₁).1 (forgotten s₀ s₁).2
      = B.cell (forgotten s₀ s₁).1 (forgotten s₀ s₁).2 := by
    split at hrows
    · next hlt =>
      refine fillRows_below cc hX hR (Nat.le_of_eq hO.width.symm) _ hdrawn hO.sized ?_ (by omega) hrows
      rw [forgotten, if_pos hlt]
      exact Int.lt_succ_self _
    · obtain rfl := Option.some.inj hrows
      exact ⟨hdrawn, rfl⟩
  refine Eq.trans (show O₂.buf.cell _ _ = _ from ?_) (hbelow.2.trans hwritten)
  split at hcolumns
  · next hlt =>
    have hfirst : (forgotten s₀ s₁).1 = s₀.width := if_pos hlt
    have hfilled : fillRows cc (s₀.width + 1 : Nat) (s₁.width - s₀.width - 1 + 1) (s₁.height + 1) 0 O₁ = some O₂ := by
      rw [show s₁.width - s₀.width - 1 + 1 = s₁.width - s₀.width by omega]
      exact hcolumns
    exact fillRows_beside cc hO.sized halone hX hR (by omega) (s₀.width + 1) (s₁.width - s₀.width - 1) (by omega)
      (by rw [hO.width]; omega) (s₁.height + 1) hbelow.1 hfilled
  · obtain rfl := Option.some.inj hcolumns
    rfl

/-! ## Leaving the alternative screen -/

/-- **The primary screen `P` is restored** in `P'`, on a screen of another size: the cells that both have are the
saved ones, from the last row on when the screen is lower; the others are blank; and the cursor is on the screen. -/
structure Restored (P P' : Terminal Font) (s₀ s₁ : ScreenSize) : Prop where
  size : P'.console.buf.Shows s₁
  saved : ∀ x y, x < s₁.width → y < s₁.height → x < s₀.width → y < s₀.height →
    P'.console.buf.cell x y = P.console.buf.cell x (y + (s₀.height - s₁.height))
  blank : ∀ x y, x < s₁.width → y < s₁.height → ¬(x < s₀.width ∧ y < s₀.height) →
    (P'.console.buf.cell x y).map CharInfo.unicodeChar = some SPACE.toUInt64
  cursor : P'.console.cursorPos
    = ⟨min P.console.cursorPos.x (s₁.width - 1), min P.console.cursorPos.y (s₁.height - 1)⟩

/-- **`Toggle(true)` and `Toggle(false)` restore** every primary screen of a size and with a cursor, whatever the
alternative screen `A` shows when its size is another one. -/
def Restores (ops : FontOps Font) (cc : CharClasses) (s₀ s₁ : ScreenSize) (cursor : Coord) : Prop :=
  ∀ P P₁ A : Terminal Font, P.console.buf.Shows s₀ → P.console.cursorPos = cursor → P.alternative = false →
    P.toggle ops cc true = some P₁ → A.console.buf.Shows s₁ → A.alternative = true → A.other = P₁.other →
    ∃ P', A.toggle ops cc false = some P' ∧ Restored P P' s₀ s₁

theorem restores_smaller (ops : FontOps Font) (cc : CharClasses) {cursor : Coord} (hwidth : s₁.width ≤ s₀.width)
    (hheight : s₁.height ≤ s₀.height) (hx : 0 ≤ cursor.x) (hy : cursor.y < s₁.height) :
    Restores ops cc s₀ s₁ cursor := by
  intro P P₁ A hP hcursor hprimary hon hA halternative hother
  obtain ⟨S, hsome, hS⟩ := toggle_saves ops cc hP (by rw [hprimary]; decide) hon
  obtain ⟨S₁, hS₁, htoggle⟩ := toggle_shown ops cc false hA (by rw [halternative]; decide)
    (hother.trans hsome)
  obtain ⟨O', hshown, hsize, hcells, hpos⟩ := showOther_smaller cc hS hS₁ hA hwidth hheight
    (by rw [hcursor]; exact hx)
  rw [hshown] at htoggle
  refine ⟨_, htoggle, hsize, fun x y hx hy _ _ => hcells x y hx hy, fun x y hx hy hout => ?_, hpos.trans ?_⟩
  · exact absurd ⟨Nat.lt_of_lt_of_le hx hwidth, Nat.lt_of_lt_of_le hy hheight⟩ hout
  · rw [hcursor, min_eq_left (a := cursor.y) (by omega)]

/-- A screen that shows one character everywhere; the scroll region is its last row. -/
def filled (ops : FontOps Font) (s : ScreenSize) (cursor : Coord) (other : Option SavedScreenBuffer) : Terminal Font where
  console :=
    { buf := ⟨s.width, List.replicate (s.height * s.width) ⟨(wch 'x').toUInt64, 7⟩⟩
      cursorPos := cursor
      scrollTop := s.height - 1
      scrollBottom := s.height - 1 }
  fontState := ops.initial
  other := other

theorem filled_shows (ops : FontOps Font) (s : ScreenSize) (cursor : Coord) (other : Option SavedScreenBuffer) :
    (filled ops s cursor other).console.buf.Shows s := ⟨rfl, List.length_replicate⟩

theorem filled_cell (ops : FontOps Font) (s : ScreenSize) (cursor : Coord) (other : Option SavedScreenBuffer)
    {x y : Nat} (hx : x < s.width) (hy : y < s.height) :
    (filled ops s cursor other).console.buf.cell x y = some ⟨(wch 'x').toUInt64, 7⟩ := by
  have hlt : y * s.width + x < s.height * s.width := by
    have hmul : (y + 1) * s.width ≤ s.height * s.width := Nat.mul_le_mul_right _ hy
    rw [Nat.succ_mul] at hmul
    omega
  exact (List.getElem?_replicate).trans (if_pos hlt)

theorem filled_alone (ops : FontOps Font) (s : ScreenSize) (cursor : Coord) (other : Option SavedScreenBuffer) :
    (filled ops s cursor other).console.Alone (s.height - 1) := by
  have hh := s.rows.1
  have hedge : (filled ops s cursor other).console.scrollEdge = s.height - 1 + 1 := by
    rw [scrollEdge, (filled_shows ops s cursor other).sized.height_eq]
    exact Nat.min_eq_right (by dsimp only [filled]; omega)
  refine ⟨hedge, .inl ?_⟩
  rw [hedge]
  dsimp only [filled]
  omega

/-- A screen that is left for the alternative one, and has been left before. -/
theorem filled_leaves (ops : FontOps Font) (cc : CharClasses) (s : ScreenSize) {cursor : Coord} (hx : 0 ≤ cursor.x) :
    ∃ other P₁, (filled ops s cursor other).toggle ops cc true = some P₁ := by
  obtain ⟨chars, -, hlength, hcells⟩ := readArea_saves (filled_shows ops s cursor none)
  obtain ⟨S', hS', htoggle⟩ := toggle_shown ops cc true
    (S := ⟨chars, ⟨⟨s.width, s.height⟩, cursor, 7, ⟨0, 0, s.width - 1, s.height - 1⟩⟩⟩)
    (filled_shows ops s cursor _) Bool.false_ne_true rfl
  obtain ⟨O', hshown, -⟩ := showOther_smaller cc (P := filled ops s cursor none)
    (S := ⟨chars, ⟨⟨s.width, s.height⟩, cursor, 7, ⟨0, 0, s.width - 1, s.height - 1⟩⟩⟩) ⟨rfl, hlength, hcells⟩ hS'
    (filled_shows ops s cursor _) (Nat.le_refl _) (Nat.le_refl _) hx
  rw [hshown] at htoggle
  exact ⟨_, _, htoggle⟩

/-- **A larger screen, or one without the row of the cursor, is not restored.** -/
theorem not_restores (ops : FontOps Font) (cc : CharClasses) {cursor : Coord} (hx : 0 ≤ cursor.x)
    (h : s₀.width < s₁.width ∨ s₀.height < s₁.height ∨ s₁.height ≤ cursor.y) : ¬Restores ops cc s₀ s₁ cursor := by
  intro hrestores
  have hw₀ := s₀.columns.1
  have hh₀ := s₀.rows.1
  have hw₁ := s₁.columns.1
  have hh₁ := s₁.rows.1
  obtain ⟨other, P₁, hon⟩ := filled_leaves ops cc s₀ hx
  obtain ⟨S, hsome, hS⟩ := toggle_saves ops cc (filled_shows ops s₀ cursor other) Bool.false_ne_true hon
  obtain ⟨P', hoff, hrestored⟩ := hrestores _ P₁ { filled ops s₁ ⟨0, 0⟩ P₁.other with alternative := true }
    (filled_shows ops s₀ cursor other) rfl rfl hon (filled_shows ops s₁ ⟨0, 0⟩ P₁.other) rfl rfl
  obtain ⟨S₁, hS₁, htoggle⟩ := toggle_shown ops cc false
    (T := { filled ops s₁ ⟨0, 0⟩ P₁.other with alternative := true }) (filled_shows ops s₁ ⟨0, 0⟩ P₁.other)
    (Ne.symm Bool.false_ne_true) hsome
  rw [htoggle] at hoff
  obtain ⟨O', hshown, rfl⟩ := Option.map_eq_some_iff.mp hoff
  by_cases hlarger : s₀.width < s₁.width ∨ s₀.height < s₁.height
  · -- The cell that is left out still has the character.
    have hkept := showOther_larger cc hS hS₁ (filled_shows ops s₁ ⟨0, 0⟩ P₁.other) (filled_alone ops s₁ ⟨0, 0⟩ P₁.other)
      hlarger hshown
    have hX : (forgotten s₀ s₁).1 < s₁.width := by
      dsimp only [forgotten]
      split <;> omega
    have hR : (forgotten s₀ s₁).2 < s₁.height := by
      dsimp only [forgotten]
      split <;> omega
    have hout : ¬((forgotten s₀ s₁).1 < s₀.width ∧ (forgotten s₀ s₁).2 < s₀.height) := by
      dsimp only [forgotten]
      split <;> split <;> omega
    have hblank : (O'.buf.cell (forgotten s₀ s₁).1 (forgotten s₀ s₁).2).map CharInfo.unicodeChar
        = some SPACE.toUInt64 := hrestored.blank _ _ hX hR hout
    rw [hkept.trans (filled_cell ops s₁ ⟨0, 0⟩ P₁.other hX hR)] at hblank
    exact absurd hblank (by decide)
  · obtain ⟨hwidth, hheight⟩ := not_or.mp hlarger
    obtain ⟨O₁, hshown₁, -, -, hpos⟩ := showOther_smaller cc hS hS₁ (filled_shows ops s₁ ⟨0, 0⟩ P₁.other)
      (Nat.not_lt.mp hwidth) (Nat.not_lt.mp hheight) hx
    rw [hshown] at hshown₁
    obtain rfl := Option.some.inj hshown₁
    have hrow := congrArg Coord.y (hpos.symm.trans hrestored.cursor)
    dsimp only [filled] at hrow
    omega

/-- **Leaving the alternative screen restores the primary one** exactly when the screen has become neither wider nor
higher, and still has the row of the saved cursor. -/
theorem restores_iff (ops : FontOps Font) (cc : CharClasses) (s₀ s₁ : ScreenSize) (x : Nat) (y : Fin s₀.height) :
    Restores ops cc s₀ s₁ ⟨x, y.val⟩ ↔ s₁.width ≤ s₀.width ∧ s₁.height ≤ s₀.height ∧ y.val < s₁.height := by
  constructor
  · intro hrestores
    by_contra hnot
    exact not_restores ops cc (Int.natCast_nonneg x) (by dsimp only; omega) hrestores
  · rintro ⟨hwidth, hheight, hy⟩
    exact restores_smaller ops cc hwidth hheight (Int.natCast_nonneg x) (Int.ofNat_lt.mpr hy)

/-- A screen of 80 columns and 25 rows. -/
def screen80 : ScreenSize := ⟨80, 25, by decide, by decide⟩

/-- **One more column** keeps what the alternative screen has shown in it. -/
theorem wider_not_restored :
    ¬Restores Session.plain CharClasses.table screen80 ⟨81, 25, by decide, by decide⟩ ⟨0, 0⟩ :=
  not_restores Session.plain CharClasses.table (Int.le_refl 0) (.inl (by decide))

end Terminal

end VT

end Far2l
