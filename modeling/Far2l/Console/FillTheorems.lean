/-
Far2l.Console.FillTheorems — filling a number of cells with a character or with
attributes.

In the row it begins in, a cell is filled once. Behind the last column it goes on
in the next row, or in the same one where there is no next: the text is scrolled
then, unless the region has one row only.
-/
import Far2l.Console.CaretTheorems
import Far2l.Console.ScrollTheorems

namespace Far2l

namespace ConsoleOutput

open ConsoleBuffer

variable {cc : CharClasses} {O : ConsoleOutput} {h : Nat} {f : CharInfo → CharInfo}

/-! ## The loop -/

/-- The loop of `ModifySequenceAt` that fills cells. -/
def fillLoop (f : CharInfo → CharInfo) :
    (count : Nat) → ConsoleOutput → Coord → Option (ConsoleOutput × Coord)
  | 0, O, pos => some (O, pos)
  | n + 1, O, pos =>
      (O.leaveMargin true pos).bind fun (O, pos) =>
        fillLoop f n (O.fillAt f pos).1 { pos with x := short (pos.x + (O.fillAt f pos).2) }

/-- What `FillConsoleOutputCharacter` makes of a cell. -/
def withChar (chr : WChar) (c : CharInfo) : CharInfo := { c with unicodeChar := chr.toUInt64 }

/-- What `FillConsoleOutputAttribute` makes of a cell. -/
def withAttr (attr : UInt64) (c : CharInfo) : CharInfo := { c with attributes := attr }

theorem turns_fillChar (chr : WChar) : ∀ (n : Nat) (O : ConsoleOutput) (pos : Coord) (rv : Nat),
    (Writing.turns cc n ⟨O, .fillChar chr n, pos, rv⟩).map Writing.out
      = (fillLoop (withChar chr) n O pos).map Prod.fst
  | 0, _, _, _ => rfl
  | n + 1, O, pos, rv => by
    have hturn : Writing.turns cc (n + 1) ⟨O, .fillChar chr (n + 1), pos, rv⟩
        = (Writing.turnFill ⟨O, .fillChar chr (n + 1), pos, rv⟩ (withChar chr) (.fillChar chr n)).bind
            (Writing.turns cc n) := rfl
    rw [hturn, Writing.turnFill, fillLoop]
    dsimp only
    cases O.leaveMargin true pos with
    | none => rfl
    | some next => exact turns_fillChar chr n _ _ _

theorem turns_fillAttr (attr : UInt64) : ∀ (n : Nat) (O : ConsoleOutput) (pos : Coord) (rv : Nat),
    (Writing.turns cc n ⟨O, .fillAttr attr n, pos, rv⟩).map Writing.out
      = (fillLoop (withAttr attr) n O pos).map Prod.fst
  | 0, _, _, _ => rfl
  | n + 1, O, pos, rv => by
    have hturn : Writing.turns cc (n + 1) ⟨O, .fillAttr attr (n + 1), pos, rv⟩
        = (Writing.turnFill ⟨O, .fillAttr attr (n + 1), pos, rv⟩ (withAttr attr)
            (.fillAttr attr n)).bind (Writing.turns cc n) := rfl
    rw [hturn, Writing.turnFill, fillLoop]
    dsimp only
    cases O.leaveMargin true pos with
    | none => rfl
    | some next => exact turns_fillAttr attr n _ _ _

theorem fillCharacter_eq (O : ConsoleOutput) (chr : WChar) (n : Nat) (pos : Coord) :
    O.fillCharacter cc chr n pos = (fillLoop (withChar chr) n O pos).map Prod.fst :=
  turns_fillChar chr n O pos 0

theorem fillAttribute_eq (O : ConsoleOutput) (attr : UInt64) (n : Nat) (pos : Coord) :
    O.fillAttribute cc attr n pos = (fillLoop (withAttr attr) n O pos).map Prod.fst :=
  turns_fillAttr attr n O pos 0

theorem fillLoop_add (f : CharInfo → CharInfo) (m n : Nat) (O : ConsoleOutput) (pos : Coord) :
    fillLoop f (m + n) O pos = (fillLoop f m O pos).bind fun (O, pos) => fillLoop f n O pos := by
  induction m generalizing O pos with
  | zero => rw [Nat.zero_add, fillLoop, Option.bind_some]
  | succ m ih =>
    rw [Nat.succ_add, fillLoop, fillLoop]
    cases O.leaveMargin true pos with
    | none => rfl
    | some next => exact ih _ _

/-! ## One cell -/

theorem fillAt_snd (O : ConsoleOutput) (f : CharInfo → CharInfo) (pos : Coord) :
    (O.fillAt f pos).2 = 1 := by
  rw [fillAt]
  split <;> rfl

theorem fillAt_fst (O : ConsoleOutput) (f : CharInfo → CharInfo) (pos : Coord) :
    ∃ B, (O.fillAt f pos).1 = { O with buf := B }
      ∧ (∀ c, O.buf.read pos = some c → B = (O.buf.write (f c) pos).2)
      ∧ (O.buf.read pos = none → B = O.buf) := by
  rw [fillAt]
  cases hread : O.buf.read pos with
  | none => exact ⟨O.buf, rfl, fun c hc => absurd hc (by simp), fun _ => rfl⟩
  | some c =>
    refine ⟨(O.buf.write (f c) pos).2, ?_, fun c' hc => by rw [Option.some.inj hc],
      fun hnone => absurd hnone (by simp)⟩
    show O.writeEntity (f c) pos 1 = _
    rw [writeEntity]
    cases O.buf.write (f c) pos with
    | mk result buf => cases result <;> rfl

/-- A cell of the screen that is filled; the other members are kept. -/
theorem fillAt_spec (hO : O.buf.Sized h) (f : CharInfo → CharInfo) (px py : Nat)
    (hx : px < O.buf.width) (hy : py < h) :
    ∃ B, (O.fillAt f ⟨px, py⟩).1 = { O with buf := B } ∧ SameSize O.buf B
      ∧ ∀ x y, x < O.buf.width → y < h →
        B.cell x y = if x = px ∧ y = py then (O.buf.cell x y).map f else O.buf.cell x y := by
  obtain ⟨B, hfill, hsome, -⟩ := fillAt_fst O f ⟨px, py⟩
  obtain ⟨c, hc⟩ : ∃ c, O.buf.cell px py = some c :=
    ⟨_, List.getElem?_eq_getElem (hO.index_lt hx hy)⟩
  have hread : O.buf.read ⟨px, py⟩ = some c := by
    rw [ConsoleBuffer.read, if_pos ⟨Int.natCast_nonneg _, Int.natCast_nonneg _, Int.ofNat_lt.mpr hx⟩]
    exact hc
  obtain rfl := hsome c hread
  refine ⟨_, hfill, sameSize_write _ _ _, fun x y hxw hyh => ?_⟩
  rw [cell_write hO hxw hyh]
  by_cases hpos : x = px ∧ y = py
  · obtain ⟨rfl, rfl⟩ := hpos
    rw [if_pos ⟨rfl, rfl⟩, if_pos ⟨rfl, rfl⟩, hc, Option.map_some]
  · rw [if_neg hpos, if_neg]
    rintro ⟨h1, h2⟩
    exact hpos ⟨by omega, by omega⟩

/-! ## A row -/

/-- **Filling inside a row.** -/
theorem fillLoop_row (f : CharInfo → CharInfo) :
    ∀ (n : Nat) {O : ConsoleOutput} (px py : Nat), O.buf.Sized h → py < h → px + n ≤ O.buf.width →
    ∃ B, fillLoop f n O ⟨px, py⟩ = some ({ O with buf := B }, ⟨(px + n : Nat), py⟩)
      ∧ SameSize O.buf B
      ∧ ∀ x y, x < O.buf.width → y < h →
        B.cell x y = if y = py ∧ px ≤ x ∧ x < px + n then (O.buf.cell x y).map f
          else O.buf.cell x y := by
  intro n
  induction n with
  | zero =>
    intro O px py hO _ _
    exact ⟨O.buf, rfl, .refl _, fun x y _ _ => by rw [if_neg (by omega)]⟩
  | succ n ih =>
    intro O px py hO hy hx
    have hwidth := hO.width
    obtain ⟨B1, hfill, hsame, hcells⟩ := fillAt_spec hO f px py (by omega) hy
    obtain ⟨B, hloop, hsame', hcells'⟩ := @ih { O with buf := B1 } (px + 1) py (hsame.sized hO) hy
      (by dsimp only; rw [hsame.width]; omega)
    refine ⟨B, ?_, hsame.trans hsame', fun x y hxw hyh => ?_⟩
    · rw [fillLoop, leaveMargin, if_neg (by dsimp only; omega), Option.bind_some]
      dsimp only
      rw [fillAt_snd, hfill, short_eq (by omega) (by omega)]
      rw [show px + (n + 1) = px + 1 + n from by omega]
      exact hloop
    · rw [hcells' x y (by dsimp only; rw [hsame.width]; exact hxw) hyh]
      dsimp only
      rw [hcells x y hxw hyh]
      by_cases hpos : x = px ∧ y = py
      · rw [if_neg (by omega), if_pos hpos, if_pos (by omega)]
      · rw [if_neg hpos]
        by_cases hin : y = py ∧ px ≤ x ∧ x < px + (n + 1)
        · rw [if_pos hin, if_pos (by omega)]
        · rw [if_neg hin, if_neg (by omega)]

/-- The last row of the region is the only one: nothing is scrolled. -/
structure Alone (O : ConsoleOutput) (y : Nat) : Prop where
  edge : O.scrollEdge = y + 1
  rows : ((O.scrollEdge : Int) - O.scrollTop) % 2 ^ 32 < 2 ∨ O.scrollEdge = 1

theorem Alone.scroll {y : Nat} (halone : O.Alone y) :
    ∃ temp, O.scrollOutputOnOverflow = some { O with tempChars := temp } := by
  rw [scrollOutputOnOverflow]
  dsimp only
  split
  · exact ⟨O.tempChars, rfl⟩
  · next hrows =>
    rcases halone.rows with h' | h'
    · exact absurd (.inl h') hrows
    · have hempty : resize O.tempChars (O.buf.width * (min O.buf.height (O.scrollBottom + 1) - 1))
          = [] := by
        refine List.eq_nil_of_length_eq_zero ?_
        rw [scrollEdge] at h'
        rw [length_resize, h', Nat.sub_self, Nat.mul_zero]
      rw [if_pos hempty]
      exact ⟨_, rfl⟩

/-- Behind the last column of a row that is alone. -/
theorem leaveMargin_alone (hO : O.buf.Sized h) {x y : Nat} (halone : O.Alone y)
    (hx : O.buf.width ≤ x) (hy : y < h) :
    ∃ temp, O.leaveMargin true ⟨x, y⟩ = some ({ O with tempChars := temp }, ⟨0, y⟩) := by
  have hheight := hO.height
  have hedge := halone.edge
  obtain ⟨temp, hscroll⟩ := halone.scroll
  refine ⟨temp, ?_⟩
  rw [leaveMargin, if_pos (by dsimp only; omega), if_pos rfl, nextRow]
  dsimp only
  rw [short_eq (v := (y : Int) + 1) (by omega) (by omega), if_pos (by omega), hscroll, Option.map_some,
    short_eq (by omega) (by omega), Int.add_sub_cancel]

/-- **Filling a row that is alone**, from a place with all cells in front of it filled. -/
theorem fillLoop_alone (f : CharInfo → CharInfo) (hf : ∀ c, f (f c) = f c) (py : Nat) (hy : py < h) :
    ∀ (n : Nat) {O : ConsoleOutput} (px : Nat), O.buf.Sized h → O.Alone py → px ≤ O.buf.width →
    (∀ x, x < px → (O.buf.cell x py).map f = O.buf.cell x py) →
    ∃ O' pos, fillLoop f n O ⟨px, py⟩ = some (O', pos) ∧ SameSize O.buf O'.buf ∧ O'.Alone py
      ∧ ∀ x y, x < O.buf.width → y < h →
        O'.buf.cell x y = if y = py ∧ x < px + n then (O.buf.cell x y).map f
          else O.buf.cell x y := by
  intro n
  induction n with
  | zero =>
    intro O px hO halone hx hfixed
    refine ⟨O, ⟨px, py⟩, rfl, .refl _, halone, fun x y _ _ => ?_⟩
    split
    · next hin =>
      obtain ⟨rfl, hlt⟩ := hin
      exact (hfixed x (by omega)).symm
    · rfl
  | succ n ih =>
    intro O px hO halone hx hfixed
    have hwidth := hO.width
    -- the place that is filled, and the cells in front of it
    obtain ⟨O1, px', hmargin, hsame1, hcell1, halone1, hlt, hle, hfront, hcover⟩ : ∃ O1 px',
        O.leaveMargin true ⟨px, py⟩ = some (O1, ⟨(px' : Nat), py⟩) ∧ SameSize O.buf O1.buf
        ∧ O1.buf = O.buf ∧ O1.Alone py ∧ px' < O.buf.width ∧ px' ≤ px
        ∧ (∀ x, x < px' → (O.buf.cell x py).map f = O.buf.cell x py)
        ∧ ∀ x, x < O.buf.width → ¬x < px' + (n + 1) → x < px + (n + 1) →
          (O.buf.cell x py).map f = O.buf.cell x py := by
      by_cases hend : px = O.buf.width
      · obtain ⟨temp, hmargin⟩ := leaveMargin_alone hO halone (Nat.le_of_eq hend.symm) hy
        exact ⟨_, 0, hmargin, .refl _, rfl, ⟨halone.edge, halone.rows⟩, hwidth.1, Nat.zero_le px,
          fun x hx => absurd hx (Nat.not_lt_zero x), fun x hx _ _ => hfixed x (by omega)⟩
      · refine ⟨O, px, ?_, .refl _, rfl, halone, by omega, Nat.le_refl px, hfixed, fun x _ hn h => absurd h hn⟩
        rw [leaveMargin, if_neg (by dsimp only; omega)]
    have hO1 : O1.buf.Sized h := hcell1 ▸ hO
    obtain ⟨B, hfill, hsame, hcells⟩ := fillAt_spec hO1 f px' py
      (by rw [hcell1]; exact hlt) hy
    rw [hcell1] at hcells hsame
    have halone2 : ({ O1 with buf := B } : ConsoleOutput).Alone py := by
      have hheight : B.height = O1.buf.height := by
        rw [(hsame.sized hO).height_eq, hO1.height_eq]
      have hedge : ({ O1 with buf := B } : ConsoleOutput).scrollEdge = O1.scrollEdge := by
        rw [scrollEdge, scrollEdge, hheight]
      exact ⟨hedge.trans halone1.edge, by rw [hedge]; exact halone1.rows⟩
    obtain ⟨O', pos, hloop, hsame', halone', hcells'⟩ := @ih { O1 with buf := B } (px' + 1)
      (hsame.sized hO) halone2 (by dsimp only; rw [hsame.width]; omega)
      (fun x hx' => by
        dsimp only
        rw [hcells x py (by omega) hy]
        split
        · cases O.buf.cell x py with
          | none => rfl
          | some c => simp only [Option.map_some, hf]
        · exact hfront x (by omega))
    refine ⟨O', pos, ?_, hsame.trans hsame', halone', fun x y hxw hyh => ?_⟩
    · rw [fillLoop, hmargin, Option.bind_some]
      dsimp only
      rw [fillAt_snd, hfill, short_eq (by omega) (by omega)]
      exact hloop
    · rw [hcells' x y (by dsimp only; rw [hsame.width]; exact hxw) hyh]
      dsimp only
      rw [hcells x y hxw hyh]
      by_cases hrow : y = py
      · subst hrow
        by_cases hpos : x = px'
        · rw [if_pos ⟨rfl, by omega⟩, if_pos ⟨hpos, rfl⟩]
          rw [if_pos ⟨rfl, by omega⟩]
          cases O.buf.cell x y with
          | none => rfl
          | some c => simp only [Option.map_some, hf]
        · rw [if_neg (by omega : ¬(x = px' ∧ y = y))]
          by_cases hin : x < px' + 1 + n
          · rw [if_pos ⟨rfl, hin⟩, if_pos ⟨rfl, by omega⟩]
          · rw [if_neg (by omega)]
            split
            · next hin' => exact (hcover x hxw (by omega) hin'.2).symm
            · rfl
      · rw [if_neg (by omega), if_neg (by omega), if_neg (by omega)]

/-! ## Scrolling at the last row -/

/-- Only cells have changed: the size and the other members are kept. -/
def Redrawn (O O' : ConsoleOutput) : Prop :=
  ∃ B temp, O' = { O with buf := B, tempChars := temp } ∧ SameSize O.buf B

theorem Redrawn.refl (O : ConsoleOutput) : Redrawn O O := ⟨O.buf, O.tempChars, rfl, .refl _⟩

theorem Redrawn.trans {O' O'' : ConsoleOutput} (h : Redrawn O O') (h' : Redrawn O' O'') :
    Redrawn O O'' := by
  obtain ⟨B, temp, rfl, hsame⟩ := h
  obtain ⟨B', temp', rfl, hsame'⟩ := h'
  exact ⟨B', temp', rfl, hsame.trans hsame'⟩

theorem Redrawn.sameSize {O' : ConsoleOutput} (h : Redrawn O O') : SameSize O.buf O'.buf := by
  obtain ⟨B, temp, rfl, hsame⟩ := h
  exact hsame

theorem sameSize_writeArea {B B' : ConsoleBuffer} {data : List CharInfo} {size pos : Coord}
    {rect r : SmallRect} (h : B.writeArea data size pos rect = some (B', r)) : SameSize B B' := by
  rw [writeArea] at h
  split at h
  · cases Option.some.inj h
    exact .refl B
  · obtain ⟨rows, -, hcopy⟩ := Option.bind_eq_some_iff.mp h
    obtain ⟨chars, hchars, heq⟩ := Option.map_eq_some_iff.mp hcopy
    cases heq
    exact ⟨rfl, (mem_copyRows hchars).1⟩

theorem scrollOutputOnOverflow_redrawn {O' : ConsoleOutput}
    (h : O.scrollOutputOnOverflow = some O') : Redrawn O O' := by
  rw [scrollOutputOnOverflow] at h
  dsimp only at h
  split at h
  · cases Option.some.inj h
    exact .refl O
  split at h
  · cases Option.some.inj h
    exact ⟨O.buf, _, rfl, .refl _⟩
  obtain ⟨temp, -, h⟩ := Option.bind_eq_some_iff.mp h
  obtain ⟨⟨temp', rect⟩, -, h⟩ := Option.bind_eq_some_iff.mp h
  dsimp only at h
  split at h
  · cases Option.some.inj h
    exact ⟨O.buf, _, rfl, .refl _⟩
  obtain ⟨⟨buf1, rect1⟩, hwrite1, h⟩ := Option.bind_eq_some_iff.mp h
  obtain ⟨temp'', -, h⟩ := Option.bind_eq_some_iff.mp h
  obtain ⟨⟨buf2, rect2⟩, hwrite2, h⟩ := Option.bind_eq_some_iff.mp h
  cases Option.some.inj h
  exact ⟨buf2, _, rfl, (sameSize_writeArea hwrite1).trans (sameSize_writeArea hwrite2)⟩

theorem leaveMargin_redrawn {O' : ConsoleOutput} {wraps : Bool} {pos pos' : Coord}
    (h : O.leaveMargin wraps pos = some (O', pos')) : Redrawn O O' := by
  rw [leaveMargin] at h
  split at h
  · split at h
    · rw [nextRow] at h
      dsimp only at h
      split at h
      · obtain ⟨O1, hscroll, heq⟩ := Option.map_eq_some_iff.mp h
        cases heq
        exact scrollOutputOnOverflow_redrawn hscroll
      · cases Option.some.inj h
        exact .refl O
    · cases Option.some.inj h
      exact .refl O
  · cases Option.some.inj h
    exact .refl O

theorem fillAt_redrawn (O : ConsoleOutput) (f : CharInfo → CharInfo) (pos : Coord) :
    Redrawn O (O.fillAt f pos).1 := by
  obtain ⟨B, hfill, hsome, hnone⟩ := fillAt_fst O f pos
  rw [hfill]
  refine ⟨B, O.tempChars, rfl, ?_⟩
  cases hread : O.buf.read pos with
  | none =>
    rw [hnone hread]
    exact .refl _
  | some c =>
    rw [hsome c hread]
    exact sameSize_write _ _ _

theorem fillLoop_redrawn (f : CharInfo → CharInfo) :
    ∀ (n : Nat) {O O' : ConsoleOutput} {pos pos' : Coord},
    fillLoop f n O pos = some (O', pos') → Redrawn O O'
  | 0, O, _, _, _, h => by
    cases Option.some.inj h
    exact .refl O
  | n + 1, O, O', pos, pos', h => by
    rw [fillLoop] at h
    obtain ⟨⟨O1, pos1⟩, hmargin, h⟩ := Option.bind_eq_some_iff.mp h
    exact (leaveMargin_redrawn hmargin).trans
      ((fillAt_redrawn O1 f pos1).trans (fillLoop_redrawn f n h))

/-- **The rows of the region go up by one.** -/
theorem scrollOutputOnOverflow_cells (hO : O.buf.Sized h) (hrows : O.scrollTop + 1 < O.scrollEdge)
    {O' : ConsoleOutput} (hscroll : O.scrollOutputOnOverflow = some O') {x y : Nat}
    (hx : x < O.buf.width) (hy : O.scrollTop ≤ y ∧ y + 1 < O.scrollEdge) :
    O'.buf.cell x y = O.buf.cell x (y + 1) := by
  have hheight := hO.height
  have hedge : O.scrollEdge ≤ h := by
    rw [scrollEdge, hO.height_eq]
    exact Nat.min_le_left _ _
  obtain ⟨O'', hscroll', hscrolled⟩ :=
    scrollOutputOnOverflow_scrolled hO.length hO.height_eq.symm hO.width hrows (by omega)
  cases hscroll.symm.trans hscroll'
  exact hscrolled.moved x y hx hy.1 hy.2

/-! ## One turn -/

theorem Redrawn.scrollEdge {O' : ConsoleOutput} (h : Redrawn O O') : O'.scrollEdge = O.scrollEdge := by
  obtain ⟨B, temp, rfl, hsame⟩ := h
  rw [ConsoleOutput.scrollEdge, ConsoleOutput.scrollEdge, ConsoleBuffer.height, ConsoleBuffer.height,
    hsame.width, hsame.length]

theorem Redrawn.scrollTop {O' : ConsoleOutput} (h : Redrawn O O') : O'.scrollTop = O.scrollTop := by
  obtain ⟨B, temp, rfl, -⟩ := h
  rfl

theorem scrollEdge_le (hO : O.buf.Sized h) : O.scrollEdge ≤ h := by
  rw [ConsoleOutput.scrollEdge, hO.height_eq]
  exact Nat.min_le_left _ _

/-- The place a turn goes on at: the same one, or the first one of the next row, or of the same row
once it has been scrolled. -/
inductive Goes (O : ConsoleOutput) : ConsoleOutput → Nat → Nat → Nat → Nat → Prop where
  | stays {px py : Nat} (h : px < O.buf.width) : Goes O O px py px py
  | next {py : Nat} (h : py + 1 < O.scrollEdge) : Goes O O O.buf.width py 0 (py + 1)
  | scrolls {O1 : ConsoleOutput} {py : Nat} (h : py + 1 = O.scrollEdge)
      (hscroll : O.scrollOutputOnOverflow = some O1) : Goes O O1 O.buf.width py 0 py

theorem Goes.redrawn {O1 : ConsoleOutput} {px py px' py' : Nat} (hgoes : Goes O O1 px py px' py') :
    Redrawn O O1 := by
  cases hgoes with
  | stays => exact .refl O
  | next => exact .refl O
  | scrolls _ hscroll => exact scrollOutputOnOverflow_redrawn hscroll

theorem leaveMargin_goes (hO : O.buf.Sized h) {px py : Nat} (hx : px ≤ O.buf.width)
    (hy : py < O.scrollEdge) {O1 : ConsoleOutput} {pos : Coord}
    (hmargin : O.leaveMargin true ⟨px, py⟩ = some (O1, pos)) :
    ∃ px' py' : Nat, pos = ⟨px', py'⟩ ∧ Goes O O1 px py px' py' ∧ px' < O.buf.width
      ∧ py' < O.scrollEdge := by
  have hwidth := hO.width
  have hheight := hO.height
  have hedge := scrollEdge_le hO
  rw [leaveMargin] at hmargin
  by_cases hend : px = O.buf.width
  · subst hend
    rw [if_pos (Int.le_refl _), if_pos rfl, nextRow] at hmargin
    dsimp only at hmargin
    rw [short_eq (v := (py : Int) + 1) (by omega) (by omega)] at hmargin
    by_cases hlast : py + 1 < O.scrollEdge
    · rw [if_neg (by omega)] at hmargin
      cases Option.some.inj hmargin
      exact ⟨0, py + 1, rfl, .next hlast, hwidth.1, hlast⟩
    · rw [if_pos (by omega), short_eq (by omega) (by omega), Int.add_sub_cancel] at hmargin
      obtain ⟨O2, hscroll, heq⟩ := Option.map_eq_some_iff.mp hmargin
      cases heq
      exact ⟨0, py, rfl, .scrolls (by omega) hscroll, hwidth.1, hy⟩
  · rw [if_neg (by dsimp only; omega)] at hmargin
    cases Option.some.inj hmargin
    exact ⟨px, py, rfl, .stays (by omega), by omega, hy⟩

/-- **One turn of the loop.** -/
theorem fillLoop_turn (hO : O.buf.Sized h) {px py n : Nat} (hx : px ≤ O.buf.width)
    (hy : py < O.scrollEdge) {r : ConsoleOutput × Coord}
    (hloop : fillLoop f (n + 1) O ⟨px, py⟩ = some r) :
    ∃ O1 O2 px' py', Goes O O1 px py px' py' ∧ Redrawn O O2 ∧ px' < O.buf.width
      ∧ py' < O.scrollEdge ∧ fillLoop f n O2 ⟨(px' + 1 : Nat), (py' : Nat)⟩ = some r
      ∧ ∀ x y, x < O.buf.width → y < h →
        O2.buf.cell x y = if x = px' ∧ y = py' then (O1.buf.cell x y).map f else O1.buf.cell x y := by
  have hwidth := hO.width
  have hedge := scrollEdge_le hO
  rw [fillLoop] at hloop
  obtain ⟨⟨O1, pos⟩, hmargin, hrest⟩ := Option.bind_eq_some_iff.mp hloop
  obtain ⟨px', py', rfl, hgoes, hx', hy'⟩ := leaveMargin_goes hO hx hy hmargin
  have hsame := hgoes.redrawn.sameSize
  obtain ⟨B, hfill, hsameB, hcells⟩ := fillAt_spec (hsame.sized hO) f px' py'
    (by rw [hsame.width]; exact hx') (by omega)
  refine ⟨O1, { O1 with buf := B }, px', py', hgoes,
    hgoes.redrawn.trans ⟨B, O1.tempChars, rfl, hsameB⟩, hx', hy', ?_, fun x y hxw hyh => ?_⟩
  · dsimp only at hrest
    rw [fillAt_snd, hfill, short_eq (by omega) (by omega)] at hrest
    exact hrest
  · exact hcells x y (by rw [hsame.width]; exact hxw) hyh

/-! ## More cells than the row has -/

/-- The cell has the attributes. -/
def HasAttr (O : ConsoleOutput) (attr : UInt64) (x y : Nat) : Prop :=
  (O.buf.cell x y).map CharInfo.attributes = some attr

/-- There is a cell with the attributes that is none of the row `row` from `column` on: the last one
that has been filled, or one of the row above, where the row has been scrolled to, or one in front of
the column. -/
inductive Stray (O : ConsoleOutput) (attr : UInt64) (column row px py : Nat) : Prop where
  | behind (hrow : row < py) (hpx : 0 < px) (hattr : O.HasAttr attr (px - 1) py)
  | scrolled (hrow : py = row) (hedge : row + 1 = O.scrollEdge) (htop : O.scrollTop < row)
      (hpx : 0 < px) (hattr : O.HasAttr attr (px - 1) row)
      (habove : O.HasAttr attr (O.buf.width - 1) (row - 1))
  | front (hrow : py = row) (hedge : row + 1 = O.scrollEdge) (halone : O.Alone row)
      (hcolumn : 0 < column) (hattr : O.HasAttr attr 0 row)

variable {attr : UInt64} {column row px py px' py' : Nat} {O1 O2 : ConsoleOutput}

/-- A cell that has been filled has the attributes, and one that has them keeps them. -/
theorem hasAttr_fill {x y : Nat}
    (hcell : O2.buf.cell x y = if x = px' ∧ y = py' then (O1.buf.cell x y).map (withAttr attr)
      else O1.buf.cell x y) (h : O1.HasAttr attr x y) : O2.HasAttr attr x y := by
  rw [HasAttr, hcell]
  split
  · rw [HasAttr] at h
    cases hc : O1.buf.cell x y with
    | none => rw [hc] at h; cases h
    | some c => rfl
  · exact h

theorem hasAttr_filled (hO : O1.buf.Sized h) (hx : px' < O1.buf.width) (hy : py' < h)
    (hcell : O2.buf.cell px' py' = if px' = px' ∧ py' = py' then
      (O1.buf.cell px' py').map (withAttr attr) else O1.buf.cell px' py') :
    O2.HasAttr attr px' py' := by
  rw [HasAttr, hcell, if_pos ⟨rfl, rfl⟩, cell, List.getElem?_eq_getElem (hO.index_lt hx hy)]
  rfl

theorem alone_redrawn (h : Redrawn O O2) (halone : O.Alone row) : O2.Alone row :=
  ⟨h.scrollEdge.trans halone.edge, by rw [h.scrollEdge, h.scrollTop]; exact halone.rows⟩

/-- **A turn leaves a stray cell.** Where the row has been scrolled, its last cell is in the row
above. -/
theorem Stray.turn (hO : O.buf.Sized h) (hstray : Stray O attr column row px py)
    (hgoes : Goes O O1 px py px' py') (hO2 : Redrawn O O2) (hx : px' < O.buf.width)
    (hy : py' < O.scrollEdge)
    (hcells : ∀ x y, x < O.buf.width → y < h →
      O2.buf.cell x y = if x = px' ∧ y = py' then (O1.buf.cell x y).map (withAttr attr)
        else O1.buf.cell x y) :
    Stray O2 attr column row (px' + 1) py' := by
  have hedge := scrollEdge_le hO
  have hwidth := hO.width
  have hsame1 := hgoes.redrawn.sameSize
  have hfilled : O2.HasAttr attr px' py' :=
    hasAttr_filled (hsame1.sized hO) (by rw [hsame1.width]; exact hx) (by omega)
      (hcells px' py' hx (by omega))
  cases hstray with
  | behind hrow hpx hattr =>
    refine .behind ?_ (Nat.succ_pos _) hfilled
    cases hgoes with
    | stays => exact hrow
    | next => exact Nat.lt_succ_of_lt hrow
    | scrolls => exact hrow
  | scrolled hrow hlast htop hpx hattr habove =>
    subst hrow
    cases hgoes with
    | stays h =>
      refine .scrolled rfl (hO2.scrollEdge.symm ▸ hlast) (hO2.scrollTop.symm ▸ htop) (Nat.succ_pos _)
        hfilled ?_
      rw [hO2.sameSize.width]
      exact hasAttr_fill (hcells _ _ (by omega) (by omega)) habove
    | next h => omega
    | scrolls h hscroll =>
      refine .scrolled rfl (hO2.scrollEdge.symm ▸ hlast) (hO2.scrollTop.symm ▸ htop) (Nat.succ_pos _)
        hfilled ?_
      rw [hO2.sameSize.width]
      refine hasAttr_fill (hcells _ _ (by omega) (by omega)) ?_
      rw [HasAttr, scrollOutputOnOverflow_cells hO (by omega) hscroll (by omega) (by omega),
        show py - 1 + 1 = py from by omega]
      exact hattr
  | front hrow hlast halone hcolumn hattr =>
    subst hrow
    have hsame : O1.buf = O.buf ∧ py' = py := by
      cases hgoes with
      | stays h => exact ⟨rfl, rfl⟩
      | next h => omega
      | scrolls h hscroll =>
        obtain ⟨temp, hscroll'⟩ := halone.scroll
        cases Option.some.inj (hscroll.symm.trans hscroll')
        exact ⟨rfl, rfl⟩
    obtain ⟨hbuf, rfl⟩ := hsame
    refine .front rfl (hO2.scrollEdge.symm ▸ hlast) (alone_redrawn hO2 halone) hcolumn ?_
    refine hasAttr_fill (hcells _ _ hwidth.1 (by omega)) ?_
    rw [HasAttr, hbuf]
    exact hattr

/-- The first turn behind the row leaves a stray cell. -/
theorem stray_first (hO : O.buf.Sized h) (hattr : O.HasAttr attr (O.buf.width - 1) row)
    (hedge : row < O.scrollEdge) (hrows : row + 1 = O.scrollEdge → O.scrollTop < row
      ∨ O.Alone row ∧ 0 < column)
    (hgoes : Goes O O1 O.buf.width row px' py') (hO2 : Redrawn O O2)
    (hcells : ∀ x y, x < O.buf.width → y < h →
      O2.buf.cell x y = if x = px' ∧ y = py' then (O1.buf.cell x y).map (withAttr attr)
        else O1.buf.cell x y) :
    Stray O2 attr column row (px' + 1) py' := by
  have hle := scrollEdge_le hO
  have hwidth := hO.width
  have hsame1 := hgoes.redrawn.sameSize
  have hfilled : py' < O.scrollEdge → px' < O.buf.width → O2.HasAttr attr px' py' := fun hy hx =>
    hasAttr_filled (hsame1.sized hO) (by rw [hsame1.width]; exact hx) (by omega)
      (hcells px' py' hx (by omega))
  cases hgoes with
  | stays h => omega
  | next h => exact .behind (Nat.lt_succ_self row) (Nat.succ_pos _) (hfilled h hwidth.1)
  | scrolls h hscroll =>
    rcases hrows h with htop | ⟨halone, hcolumn⟩
    · refine .scrolled rfl (hO2.scrollEdge.symm ▸ h) (hO2.scrollTop.symm ▸ htop) (Nat.succ_pos _)
        (hfilled hedge hwidth.1) ?_
      rw [hO2.sameSize.width]
      refine hasAttr_fill (hcells _ _ (by omega) (by omega)) ?_
      rw [HasAttr, scrollOutputOnOverflow_cells hO (by omega) hscroll (by omega) (by omega),
        show row - 1 + 1 = row from by omega]
      exact hattr
    · exact .front rfl (hO2.scrollEdge.symm ▸ h) (alone_redrawn hO2 halone) hcolumn
        (hfilled hedge hwidth.1)

/-- A stray cell is on the screen, and none of those that are to be filled. -/
theorem Stray.cell (hO : O.buf.Sized h) (hstray : Stray O attr column row px py)
    (hx : px ≤ O.buf.width) (hy : py < O.scrollEdge) :
    ∃ x y, x < O.buf.width ∧ y < h ∧ ¬(y = row ∧ column ≤ x) ∧ O.HasAttr attr x y := by
  have hedge := scrollEdge_le hO
  have hwidth := hO.width
  cases hstray with
  | behind hrow hpx hattr => exact ⟨px - 1, py, by omega, by omega, by omega, hattr⟩
  | scrolled hrow hlast htop hpx hattr habove =>
    exact ⟨O.buf.width - 1, row - 1, by omega, by omega, by omega, habove⟩
  | front hrow hlast halone hcolumn hattr => exact ⟨0, row, by omega, by omega, by omega, hattr⟩

/-- The loop leaves a stray cell. -/
theorem fillLoop_stray : ∀ (n : Nat) {O : ConsoleOutput} {px py : Nat} {r : ConsoleOutput × Coord},
    O.buf.Sized h → Stray O attr column row px py → px ≤ O.buf.width → py < O.scrollEdge →
    fillLoop (withAttr attr) n O ⟨px, py⟩ = some r →
    ∃ x y, x < O.buf.width ∧ y < h ∧ ¬(y = row ∧ column ≤ x) ∧ r.1.HasAttr attr x y
  | 0, O, px, py, r, hO, hstray, hx, hy, hloop => by
    cases Option.some.inj hloop
    exact hstray.cell hO hx hy
  | n + 1, O, px, py, r, hO, hstray, hx, hy, hloop => by
    obtain ⟨O1, O2, px', py', hgoes, hO2, hx', hy', hrest, hcells⟩ := fillLoop_turn hO hx hy hloop
    have hsame := hO2.sameSize
    obtain ⟨x, y, hxw, hyh, hout, hattr⟩ := fillLoop_stray n (hsame.sized hO)
      (hstray.turn hO hgoes hO2 hx' hy' hcells) (by rw [hsame.width]; omega)
      (by rw [hO2.scrollEdge]; exact hy') hrest
    exact ⟨x, y, by rw [← hsame.width]; exact hxw, hyh, hout, hattr⟩

/-- **More cells than the rest of a row.** A cell that is not in the rest gets the attributes, unless
the row is filled as a whole and stays where it is. -/
theorem fillLoop_beyond (hO : O.buf.Sized h) (column row n : Nat) (hcolumn : column < O.buf.width)
    (hedge : row < O.scrollEdge) (hn : O.buf.width < column + n)
    (hrows : row + 1 = O.scrollEdge → O.scrollTop < row ∨ O.Alone row ∧ 0 < column)
    {r : ConsoleOutput × Coord} (hloop : fillLoop (withAttr attr) n O ⟨column, row⟩ = some r) :
    ∃ x y, x < O.buf.width ∧ y < h ∧ ¬(y = row ∧ column ≤ x) ∧ r.1.HasAttr attr x y := by
  have hle := scrollEdge_le hO
  obtain ⟨m, rfl⟩ : ∃ m, n = O.buf.width - column + (m + 1) :=
    ⟨n - (O.buf.width - column) - 1, by omega⟩
  obtain ⟨B, hfirst, hsame, hcells⟩ := fillLoop_row (withAttr attr) (O.buf.width - column) column row
    hO (by omega) (by omega)
  rw [fillLoop_add, hfirst, Option.bind_some,
    show column + (O.buf.width - column) = O.buf.width from by omega] at hloop
  have hB : ({ O with buf := B } : ConsoleOutput).buf.Sized h := hsame.sized hO
  have hredrawn : Redrawn O { O with buf := B } := ⟨B, O.tempChars, rfl, hsame⟩
  have hattr : ({ O with buf := B } : ConsoleOutput).HasAttr attr (B.width - 1) row := by
    rw [HasAttr]
    dsimp only
    rw [hsame.width, hcells _ _ (by omega) (by omega), if_pos (by omega), ConsoleBuffer.cell,
      List.getElem?_eq_getElem (hO.index_lt (by omega) (by omega))]
    rfl
  have hedgeB := hredrawn.scrollEdge
  rw [← hsame.width] at hloop
  obtain ⟨O1, O2, px', py', hgoes, hO2, hx', hy', hrest, hcells'⟩ :=
    fillLoop_turn hB (Nat.le_refl _) (by rw [hedgeB]; exact hedge) hloop
  have hstray : Stray O2 attr column row (px' + 1) py' := by
    refine stray_first hB hattr (by rw [hedgeB]; exact hedge) (fun hlast => ?_) hgoes hO2 hcells'
    exact (hrows (hedgeB ▸ hlast)).imp id fun h => ⟨alone_redrawn hredrawn h.1, h.2⟩
  have hsame2 := hO2.sameSize
  obtain ⟨x, y, hxw, hyh, hout, hfound⟩ := fillLoop_stray m (hsame2.sized hB) hstray
    (by rw [hsame2.width]; omega) (by rw [hO2.scrollEdge]; exact hy') hrest
  refine ⟨x, y, ?_, hyh, hout, hfound⟩
  rw [hsame2.width] at hxw
  exact hsame.width ▸ hxw

end ConsoleOutput

end Far2l
