/-
Far2l.Console.Cursor — where the cursor of a console is, and what keeps it there.

Text keeps the cursor on the screen, or up to two columns behind it, by itself.
So do the functions that move and fill cells: they leave the cursor alone.
-/
import Far2l.Console.FillTheorems

namespace Far2l

namespace ConsoleOutput

variable {cc : CharClasses} {O O' : ConsoleOutput}

/-! ## Positions on the screen -/

/-- The position is on the screen, or up to two columns behind it. -/
def Within (O : ConsoleOutput) (pos : Coord) : Prop :=
  0 ≤ pos.x ∧ pos.x ≤ O.buf.width + 1 ∧ 0 ≤ pos.y ∧ pos.y < O.buf.height

instance (O : ConsoleOutput) (pos : Coord) : Decidable (O.Within pos) :=
  inferInstanceAs (Decidable (_ ∧ _))

/-- A console as it is kept, whose columns and rows have numbers. -/
structure Numbered (O : ConsoleOutput) : Prop where
  sane : O.Sane
  width : O.buf.width ≤ 32766
  height : O.buf.height ≤ 32767

/-- Such a console with its cursor on the screen. -/
structure Steady (O : ConsoleOutput) : Prop where
  numbered : O.Numbered
  cursor : O.Within O.cursorPos

theorem Kept.height (h : Kept O O') : O'.buf.height = O.buf.height :=
  congrArg Screen.height h.screen

theorem Kept.within (h : Kept O O') {pos : Coord} (hpos : O.Within pos) : O'.Within pos := by
  rw [Within, h.width, h.height]
  exact hpos

theorem Kept.numbered (h : Kept O O') (hO : O.Numbered) : O'.Numbered :=
  ⟨h.sane hO.sane, by rw [h.width]; exact hO.width, by rw [h.height]; exact hO.height⟩

theorem Kept.steady (h : Kept O O') (hO : O.Numbered) (hpos : O.Within O'.cursorPos) : O'.Steady :=
  ⟨h.numbered hO, h.within hpos⟩

theorem Redrawn.kept (h : Redrawn O O') : Kept O O' := by
  obtain ⟨B, temp, rfl, hsame⟩ := h
  exact ⟨hsame.width, hsame.length, rfl, rfl, rfl, rfl⟩

/-- What leaves the cursor alone. -/
theorem Redrawn.steady (h : Redrawn O O') (hO : O.Steady) : O'.Steady := by
  refine h.kept.steady hO.numbered ?_
  obtain ⟨B, temp, rfl, -⟩ := h
  exact hO.cursor

theorem Numbered.setCursor (hO : O.Numbered) {pos : Coord} (hpos : O.Within pos) :
    (O.setCursor pos).Steady := ⟨⟨⟨hO.sane.wf, ⟨hO.sane.region.bottom, hO.sane.region.top⟩⟩, hO.width,
  hO.height⟩, hpos⟩

/-! ## Text -/

theorem Within.isRow (hO : O.Numbered) {pos : Coord} (hpos : O.Within pos) : O.IsRow pos.y := by
  have hheight := hO.height
  obtain ⟨-, -, hy0, hy⟩ := hpos
  exact ⟨hy0, hy, by omega⟩

/-- A character that is no tabulator has a next place. -/
theorem put_ne_none (hO : O.Numbered) {pos : Coord} {c : WChar} (joined : Bool)
    (hx : O.IsColumn pos.x) (hy : O.IsRow pos.y) (htab : ¬(c = TAB ∧ O.processed = true)) :
    O.screen.put cc c ⟨pos.x, pos.y, joined⟩ ≠ none := by
  have hwidth := hO.width
  have hheight := hO.height
  have hprocessed : O.screen.processed = O.processed := rfl
  rw [Screen.put, hprocessed]
  split
  · simp
  split
  · simp
  split
  · rw [Screen.down, if_neg (by have hlt := hy.2.1; dsimp only; omega)]
    simp
  · have hcolumns := columns_range cc c joined
    rw [Screen.forward, if_pos (by have hlt := hx.2.1; dsimp only; omega)]
    simp

end ConsoleOutput

namespace Writing

open ConsoleOutput

variable {cc : CharClasses} {W W' : Writing}

/-- **A turn for a character keeps the position on the screen.** -/
theorem turnChar_within {c : WChar} {str : WStr} (hO : W.out.Numbered)
    (hpos : W.out.Within W.pos) (hturn : W.turnChar cc c str = some W') :
    (∃ str', W'.sm = .writeStr str') ∧ Kept W.out W'.out ∧ W.out.Within W'.pos := by
  have hwidth := hO.width
  have hheight := hO.height
  by_cases hbel : c = 0x07 ∧ W.out.processed = true
  · rw [turnChar, if_pos hbel] at hturn
    obtain rfl := Option.some.inj hturn
    exact ⟨⟨str, rfl⟩, .refl _, hpos⟩
  obtain ⟨O1, pos1, hmargin, hkept1, -, hsettle⟩ := leaveMargin_spec c hO.sane
    ⟨hpos.1, by have hx := hpos.2.1; omega⟩ (hpos.isRow hO) W.out.joined
  rcases hsettle with ⟨hnone, hwraps, -, -⟩ | ⟨-, hcolumn, hrow⟩
  · -- There is a next row: no row is the last one that has a number.
    refine absurd hnone ?_
    have hw : W.out.screen.wraps c = true := hwraps
    rw [Screen.settle, hw, if_pos rfl]
    split
    · simp
    · have hlt := hpos.2.2.2
      rw [Screen.down, if_neg (by dsimp only; omega)]
      simp
  have hcolumn1 : O1.IsColumn pos1.x :=
    ⟨hcolumn.1, by rw [hkept1.width]; exact hcolumn.2.1, hcolumn.2.2⟩
  have hrow1 : O1.IsRow pos1.y := isRow_kept hkept1 hrow
  rw [turnChar_settle cc str hbel hmargin hkept1 hcolumn1.2.1] at hturn
  by_cases htab : c = TAB ∧ W.out.processed = true
  · obtain ⟨rfl, hp⟩ := htab
    obtain ⟨W2, hturn2, hkept2, -, hpos2, hsm2⟩ := turnChar_tab cc str
      (W := { W with out := O1, pos := pos1 }) hcolumn1 (hkept1.processed.trans hp)
    rw [hturn2] at hturn
    obtain rfl := Option.some.inj hturn
    refine ⟨⟨_, hsm2⟩, hkept1.trans hkept2, ?_⟩
    have hlt := hcolumn.2.1
    have hx0 := hcolumn.1
    rw [hpos2]
    dsimp only
    rw [short_eq (by omega) (by omega)]
    exact ⟨by dsimp only; omega, by dsimp only; omega, hrow.1, hrow.2.1⟩
  · obtain ⟨W2, hturn2, hresult⟩ := turnChar_put cc c str
      (W := { W with out := O1, pos := pos1 }) (hkept1.sane hO.sane) hcolumn1 hrow1
      (by rw [hkept1.processed]; exact hbel) (by rw [hkept1.processed]; exact htab)
    rw [hturn2] at hturn
    obtain rfl := Option.some.inj hturn
    rcases hresult with ⟨hnone, -⟩ | ⟨k, -, hnext⟩
    · exact absurd hnone (put_ne_none (hkept1.numbered hO) _ hcolumn1 hrow1
        (by rw [hkept1.processed]; exact htab))
    · have hkept := hkept1.trans hnext.kept
      obtain ⟨hx, hxw, -, hy, hyh, -⟩ := hnext.fits
      rw [hkept.width] at hxw
      rw [hkept.height] at hyh
      exact ⟨⟨str, hnext.sm⟩, hkept, hx, hxw, hy, hyh⟩

theorem turn_within {str : WStr} (hsm : W.sm = .writeStr str) (hO : W.out.Numbered)
    (hpos : W.out.Within W.pos) (hturn : W.turn cc = some W') :
    (∃ str', W'.sm = .writeStr str') ∧ Kept W.out W'.out ∧ W.out.Within W'.pos := by
  rw [turn, hsm] at hturn
  cases str with
  | nil =>
    obtain rfl := Option.some.inj hturn
    exact ⟨⟨[], hsm⟩, .refl _, hpos⟩
  | cons c str => exact turnChar_within hO hpos hturn

theorem turns_within : ∀ (fuel : Nat) {W W' : Writing} {str : WStr}, W.sm = .writeStr str →
    W.out.Numbered → W.out.Within W.pos → turns cc fuel W = some W' →
    Kept W.out W'.out ∧ W.out.Within W'.pos
  | 0, W, W', str, _, _, hpos, h => by
    rw [turns] at h
    split at h
    · obtain rfl := Option.some.inj h
      exact ⟨.refl _, hpos⟩
    · cases h
  | fuel + 1, W, W', str, hsm, hO, hpos, h => by
    rw [turns] at h
    split at h
    · obtain rfl := Option.some.inj h
      exact ⟨.refl _, hpos⟩
    · obtain ⟨W1, hturn, hrest⟩ := Option.bind_eq_some_iff.mp h
      obtain ⟨⟨str1, hsm1⟩, hkept, hpos1⟩ := turn_within hsm hO hpos hturn
      obtain ⟨hkept', hpos'⟩ := turns_within fuel hsm1 (hkept.numbered hO) (hkept.within hpos1) hrest
      refine ⟨hkept.trans hkept', ?_⟩
      rw [Within, ← hkept.width, ← hkept.height]
      exact hpos'

end Writing

namespace ConsoleOutput

variable {cc : CharClasses} {O O' : ConsoleOutput}

/-! ## Moving and filling cells -/

theorem sameSize_fillArea {B B' : ConsoleBuffer} {fill : CharInfo} {rect : SmallRect}
    (h : B.fillArea fill rect = some B') : ConsoleBuffer.SameSize B B' := by
  rw [ConsoleBuffer.fillArea] at h
  split at h
  · cases h
  · obtain rfl := Option.some.inj h
    exact ConsoleBuffer.sameSize_fillRows _ _ _ _ _ _

theorem scroll_redrawn {rect : SmallRect} {clip : Option SmallRect} {origin : Coord}
    {fill : CharInfo} (h : O.scroll rect clip origin fill = some O') : Redrawn O O' := by
  rw [scroll] at h
  split at h
  · obtain rfl := Option.some.inj h
    exact .refl O
  dsimp only at h
  split at h
  · cases h
  obtain ⟨⟨temp, src⟩, -, h⟩ := Option.bind_eq_some_iff.mp h
  obtain ⟨buf1, hfill, h⟩ := Option.bind_eq_some_iff.mp h
  obtain ⟨⟨buf2, rect2⟩, hwrite, h⟩ := Option.bind_eq_some_iff.mp h
  obtain rfl := Option.some.inj h
  exact ⟨buf2, temp, rfl, (sameSize_fillArea hfill).trans (sameSize_writeArea hwrite)⟩

theorem fillCharacter_redrawn {chr : WChar} {n : Nat} {pos : Coord}
    (h : O.fillCharacter cc chr n pos = some O') : Redrawn O O' := by
  rw [fillCharacter_eq] at h
  obtain ⟨⟨O1, pos1⟩, hloop, rfl⟩ := Option.map_eq_some_iff.mp h
  exact fillLoop_redrawn _ n hloop

theorem fillAttribute_redrawn {attr : UInt64} {n : Nat} {pos : Coord}
    (h : O.fillAttribute cc attr n pos = some O') : Redrawn O O' := by
  rw [fillAttribute_eq] at h
  obtain ⟨⟨O1, pos1⟩, hloop, rfl⟩ := Option.map_eq_some_iff.mp h
  exact fillLoop_redrawn _ n hloop

/-! ## Regions, modes and attributes -/

theorem Steady.setScrollRegion (hO : O.Steady) {top bottom : Int} (htop : top ≤ 32767)
    (hbottom : bottom ≤ 32767) : (O.setScrollRegion top bottom).Steady :=
  ⟨⟨⟨hO.numbered.sane.wf, regionOk_setScrollRegion hO.numbered.sane.wf htop hbottom⟩,
    hO.numbered.width, hO.numbered.height⟩, hO.cursor⟩

/-- Members that do not tell where the cursor may be. -/
theorem Steady.congr (hO : O.Steady) (hbuf : O'.buf = O.buf) (htop : O'.scrollTop = O.scrollTop)
    (hbottom : O'.scrollBottom = O.scrollBottom) (hcursor : O'.cursorPos = O.cursorPos) :
    O'.Steady := by
  obtain ⟨⟨⟨hwf, hregion⟩, hwidth, hheight⟩, hpos⟩ := hO
  refine ⟨⟨⟨hbuf ▸ hwf, ⟨hbottom ▸ hregion.bottom, ?_⟩⟩, hbuf ▸ hwidth, hbuf ▸ hheight⟩, ?_⟩
  · rw [htop, hbottom]
    exact hregion.top
  · rw [Within, hbuf, hcursor]
    exact hpos

end ConsoleOutput

end Far2l
