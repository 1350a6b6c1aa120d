/-
Far2l.VT.CursorTheorems — the cursor of the terminal does not leave the screen in
a run of safe actions.

Only the sequences that move the cursor have to be safe. Text, what is erased and
what is scrolled keep the cursor on the screen, whatever their arguments are.
-/
import Far2l.VT.Session

namespace Far2l

namespace ConsoleOutput

variable {cc : CharClasses} {O O' : ConsoleOutput}

/-! ## The console -/

/-- **Text keeps the cursor on the screen.** -/
theorem writeString_steady {fuel : Nat} {str : WStr} (hO : O.Steady)
    (h : O.writeString cc fuel str = some O') : O'.Steady := by
  obtain ⟨W, hturns, rfl⟩ := Option.map_eq_some_iff.mp h
  obtain ⟨hkept, hpos⟩ := Writing.turns_within fuel (W := ⟨O, .writeStr str, O.cursorPos, 0⟩) rfl
    hO.numbered hO.cursor hturns
  have hkept' : Kept O { W.out with cursorPos := W.pos } :=
    ⟨hkept.width, hkept.length, hkept.mode, hkept.attributes, hkept.scrollTop, hkept.scrollBottom⟩
  exact hkept'.steady hO.numbered hpos

theorem setMode_steady (hO : O.Steady) (mode : UInt32) : (O.setMode mode).Steady :=
  hO.congr rfl rfl rfl rfl

theorem getConsoleScreenBufferInfo_eq (hO : O.Numbered) :
    O.getConsoleScreenBufferInfo = ⟨⟨O.buf.width, O.buf.height⟩, O.cursorPos, O.attributes,
      ⟨0, 0, O.buf.width - 1, O.buf.height - 1⟩⟩ := by
  have hw := hO.width
  have hh := hO.height
  have hw24 := hO.sane.wf.width
  have hh12 := hO.sane.wf.height
  rw [getConsoleScreenBufferInfo, short_eq (by omega) (by omega), short_eq (by omega) (by omega),
    short_eq (by omega) (by omega), short_eq (by omega) (by omega)]

/-- `SetSize` to the size that the console has. -/
theorem setSize_same (hO : O.Steady) (h : O.setSize O.buf.width O.buf.height = some O') :
    O'.Steady := by
  have hwf := hO.numbered.sane.wf
  have hw := hO.numbered.width
  have hh := hO.numbered.height
  have hw24 := hwf.width
  have hh12 := hwf.height
  obtain ⟨hx, -, hy, hyh⟩ := hO.cursor
  rw [setSize, Nat.max_eq_left hw24, Nat.max_eq_left hh12,
    if_pos ⟨rfl, by rw [hwf.length, Nat.mul_comm]⟩] at h
  obtain rfl := Option.some.inj h
  refine ⟨⟨⟨hwf, ⟨Nat.le_refl 32767, .inl (Nat.zero_le _)⟩⟩, hw, hh⟩, ?_⟩
  dsimp only
  rw [if_neg (by omega : ¬O.cursorPos.y ≥ O.buf.height)]
  split
  · rw [short_eq (by omega) (by omega)]
    exact ⟨by dsimp only; omega, by dsimp only; omega, hy, hyh⟩
  · exact ⟨hx, by dsimp only; omega, hy, hyh⟩

theorem setWindowInfo_same (hO : O.Steady) {rect : SmallRect}
    (hx : rect.right - rect.left + 1 = O.buf.width) (hy : rect.bottom - rect.top + 1 = O.buf.height)
    (h : O.setWindowInfo rect = some O') : O'.Steady := by
  rw [setWindowInfo, hx, hy, if_neg (by omega)] at h
  exact setSize_same hO h

end ConsoleOutput

namespace VT.Terminal

open ConsoleOutput

variable {Font : Type} {ops : FontOps Font} {cc : CharClasses} {fuel : Nat} {T T' : Terminal Font}

/-! ## Printing -/

theorem onConsole_some {O : Option ConsoleOutput} (h : T.onConsole O = some T') :
    ∃ O', O = some O' ∧ T'.console = O' := by
  obtain ⟨O', hO', rfl⟩ := Option.map_eq_some_iff.mp h
  exact ⟨O', hO', rfl⟩

theorem flushChars_steady : ∀ (str : WStr) {T T' : Terminal Font},
    flushChars cc fuel str T = some T' → T.console.Steady → T'.console.Steady
  | [], T, T', h, hT => by
    obtain rfl := Option.some.inj h
    exact hT
  | c :: str, T, T', h, hT => by
    obtain ⟨console, hwrite, hrest⟩ := Option.bind_eq_some_iff.mp h
    exact flushChars_steady str hrest (writeString_steady hT hwrite)

theorem flushBuffer_steady {crm : Bool} (h : T.flushBuffer cc fuel crm = some T')
    (hT : T.console.Steady) : T'.console.Steady := by
  rw [flushBuffer] at h
  split at h
  · obtain rfl := Option.some.inj h
    exact hT
  split at h
  · obtain ⟨console, hwrite, h⟩ := Option.bind_eq_some_iff.mp h
    obtain rfl := Option.some.inj h
    exact setMode_steady (writeString_steady (setMode_steady hT _) hwrite) _
  · obtain ⟨T1, hchars, rfl⟩ := Option.map_eq_some_iff.mp h
    have hT1 := flushChars_steady _ hchars hT
    exact hT1

theorem writeConsoleIfEnabled_steady {str : WStr} (h : T.writeConsoleIfEnabled cc fuel str = some T')
    (hT : T.console.Steady) : T'.console.Steady := by
  rw [writeConsoleIfEnabled] at h
  split at h
  · obtain rfl := Option.some.inj h
    exact hT
  · obtain ⟨O', hwrite, rfl⟩ := onConsole_some h
    exact writeString_steady hT hwrite

theorem pushNewline_steady (h : T.pushNewline cc fuel = some T') (hT : T.console.Steady) :
    T'.console.Steady := by
  rw [pushNewline] at h
  split at h
  · obtain ⟨blank, -, h⟩ := Option.bind_eq_some_iff.mp h
    dsimp only at h
    split at h
    · split at h
      · obtain rfl := Option.some.inj h
        exact hT
      · exact writeConsoleIfEnabled_steady h hT
    · exact writeConsoleIfEnabled_steady h hT
  · exact writeConsoleIfEnabled_steady h hT

theorem pushBuffer_steady {c charset : WChar} {crm : Bool} (h : T.pushBuffer cc fuel c charset crm = some T')
    (hT : T.console.Steady) : T'.console.Steady := by
  rw [pushBuffer] at h
  split at h
  · split at h
    · obtain ⟨T1, hflush, h⟩ := Option.bind_eq_some_iff.mp h
      have hT1 : T1.console.Steady := flushBuffer_steady hflush hT
      split at h
      · exact writeConsoleIfEnabled_steady h hT1
      · obtain rfl := Option.some.inj h
        exact hT1
    · obtain ⟨T1, hflush, h⟩ := Option.bind_eq_some_iff.mp h
      exact pushNewline_steady h (flushBuffer_steady hflush hT)
  · dsimp only at h
    split at h
    · exact flushBuffer_steady h hT
    · obtain rfl := Option.some.inj h
      exact hT

/-! ## Erasing, lines and characters -/

theorem fillBlank_steady {len : Int} {pos : Coord} (h : T.fillBlank cc len pos = some T')
    (hT : T.console.Steady) : T'.console.Steady := by
  obtain ⟨O1, hchars, h⟩ := Option.bind_eq_some_iff.mp h
  obtain ⟨O2, hattrs, h⟩ := Option.bind_eq_some_iff.mp h
  obtain rfl := Option.some.inj h
  exact (fillAttribute_redrawn hattrs).steady ((fillCharacter_redrawn hchars).steady hT)

theorem scroll_steady {rect : SmallRect} {clip : Option SmallRect} {pos : Coord}
    (h : T.scroll rect clip pos = some T') (hT : T.console.Steady) : T'.console.Steady := by
  obtain ⟨O', hscroll, rfl⟩ := onConsole_some h
  exact (scroll_redrawn hscroll).steady hT

/-- The window is the screen. -/
theorem info_eq (hT : T.console.Steady) :
    T.info = ⟨⟨T.console.buf.width, T.console.buf.height⟩, T.console.cursorPos, T.console.attributes,
      ⟨0, 0, T.console.buf.width - 1, T.console.buf.height - 1⟩⟩ :=
  getConsoleScreenBufferInfo_eq hT.numbered

theorem setCursor_steady {pos : Coord} (hT : T.console.Steady) (hpos : T.console.Within pos) :
    (T.setCursor pos).console.Steady := hT.numbered.setCursor hpos

/-- The first place of the screen. -/
theorem within_origin (hT : T.console.Steady) : T.console.Within ⟨0, 0⟩ := by
  have hh12 := hT.numbered.sane.wf.height
  exact ⟨Int.le_refl 0, by dsimp only; omega, Int.le_refl 0, by dsimp only; omega⟩

/-- The screen is filled, and the cursor goes to its first place. -/
theorem home_steady {len : Int} (hT : T.console.Steady)
    (h : (T.fillBlank cc len ⟨0, 0⟩).bind (fun T => some (T.setCursor ⟨0, 0⟩)) = some T') :
    T'.console.Steady := by
  obtain ⟨T1, hfill, h⟩ := Option.bind_eq_some_iff.mp h
  obtain rfl := Option.some.inj h
  have hT1 := fillBlank_steady hfill hT
  exact setCursor_steady hT1 (within_origin hT1)

/-- **The screen is not cut down when it is cleared**: nothing is scrolled, and the window is the
screen already. -/
theorem clearScreenAndHomeCursor_steady (h : T.clearScreenAndHomeCursor cc = some T')
    (hT : T.console.Steady) : T'.console.Steady := by
  have hw := hT.numbered.width
  have hh := hT.numbered.height
  have hh12 := hT.numbered.sane.wf.height
  obtain ⟨-, -, hy, hyh⟩ := hT.cursor
  rw [clearScreenAndHomeCursor, info_eq hT] at h
  dsimp only at h
  rw [if_pos (.inr rfl)] at h
  split at h
  · next hlt =>
    have hy0 : T.console.cursorPos.y = 0 := by omega
    obtain ⟨⟨O1, window⟩, heq, h⟩ := Option.bind_eq_some_iff.mp h
    obtain ⟨rfl, rfl⟩ := Prod.mk.inj (Option.some.inj heq)
    obtain ⟨console, hset, h⟩ := Option.bind_eq_some_iff.mp h
    dsimp only at hset h
    rw [hy0] at hset h
    refine home_steady (T := { T with console := console, screenTop := 0 }) ?_ h
    refine setWindowInfo_same hT ?_ ?_ hset
    · dsimp only
      omega
    · dsimp only
      rw [short_eq (by omega) (by omega)]
      omega
  · next hlt =>
    obtain ⟨⟨O1, window⟩, heq, h⟩ := Option.bind_eq_some_iff.mp h
    obtain ⟨O1', hscroll, heq⟩ := Option.map_eq_some_iff.mp heq
    obtain ⟨rfl, rfl⟩ := Prod.mk.inj heq
    obtain ⟨console, hset, h⟩ := Option.bind_eq_some_iff.mp h
    rw [short_eq (v := (T.console.buf.height : Int) - 1) (by omega) (by omega),
      show (T.console.buf.height : Int) - 1 - (T.console.buf.height - 1 - 0) = 0 from by omega] at hscroll hset h
    have hO1 := (scroll_redrawn hscroll).steady hT
    have hkept := (scroll_redrawn hscroll).kept
    refine home_steady (T := { T with console := console, screenTop := 0 }) ?_ h
    refine setWindowInfo_same hO1 ?_ ?_ hset
    · rw [hkept.width]
      dsimp only
      omega
    · rw [hkept.height]
      show (T.console.buf.height : Int) - 1 - short 0 + 1 = _
      rw [short_eq (by omega) (by omega)]
      omega

theorem eraseDisplay_steady {n : Int} (h : T.eraseDisplay cc n = some T')
    (hT : T.console.Steady) : T'.console.Steady := by
  rw [eraseDisplay] at h
  split at h
  · exact fillBlank_steady h hT
  split at h
  · exact fillBlank_steady h hT
  split at h
  · exact clearScreenAndHomeCursor_steady h hT
  · obtain rfl := Option.some.inj h
    exact hT

theorem eraseLine_steady {n : Int} (h : T.eraseLine cc n = some T')
    (hT : T.console.Steady) : T'.console.Steady := by
  rw [eraseLine] at h
  split at h
  · exact fillBlank_steady h hT
  split at h
  · exact fillBlank_steady h hT
  split at h
  · exact fillBlank_steady h hT
  · obtain rfl := Option.some.inj h
    exact hT

/-! ## Movements -/

theorem rowUp_range {n : Int} (hT : T.console.Steady)
    (hn : short (T.info.cursorPosition.y - n) < T.info.size.y) :
    0 ≤ T.rowUp n ∧ T.rowUp n < T.console.buf.height := by
  have hh12 := hT.numbered.sane.wf.height
  rw [info_eq hT] at hn
  dsimp only at hn
  rw [rowUp, info_eq hT]
  dsimp only
  split <;> omega

theorem rowDown_range {n : Int} (hT : T.console.Steady)
    (hn : 0 ≤ short (T.info.cursorPosition.y + n)) :
    0 ≤ T.rowDown n ∧ T.rowDown n < T.console.buf.height := by
  have hh12 := hT.numbered.sane.wf.height
  rw [info_eq hT] at hn
  dsimp only at hn
  rw [rowDown, info_eq hT]
  dsimp only
  split <;> omega

theorem cutColumn_range {x : Int} (hT : T.console.Steady) (hx : 0 ≤ x) :
    0 ≤ T.cutColumn x ∧ T.cutColumn x < T.console.buf.width := by
  have hw := hT.numbered.width
  have hw24 := hT.numbered.sane.wf.width
  rw [cutColumn, info_eq hT]
  dsimp only
  split
  · rw [short_eq (by omega) (by omega)]
    omega
  · omega

theorem firstColumn_range {x : Int} (hx : x ≤ T.console.buf.width + 1) :
    0 ≤ firstColumn x ∧ firstColumn x ≤ T.console.buf.width + 1 := by
  rw [firstColumn]
  split <;> omega

theorem rowOf_range (n : Int) (hT : T.console.Steady) :
    0 ≤ T.rowOf n ∧ T.rowOf n < T.console.buf.height := by
  have hh12 := hT.numbered.sane.wf.height
  rw [rowOf, info_eq hT]
  dsimp only
  split <;> split <;> omega

/-- The column of `ESC[#G`: what is over the one end is not over the other. -/
theorem cut_firstColumn (x : Int) (hT : T.console.Steady) :
    0 ≤ firstColumn (T.cutColumn x) ∧ firstColumn (T.cutColumn x) < T.console.buf.width := by
  have hw := hT.numbered.width
  have hw24 := hT.numbered.sane.wf.width
  rw [firstColumn, cutColumn, info_eq hT]
  dsimp only
  rw [short_eq (v := (T.console.buf.width : Int) - 1) (by omega) (by omega)]
  split <;> split at * <;> omega

/-- **A sequence that moves the cursor lands on the screen.** -/
theorem movedBy_within {suffix : Byte} {n : Int} {pos : Coord} (hT : T.console.Steady)
    (hn : T.Lands suffix n) (h : T.movedBy suffix n = some pos) : T.console.Within pos := by
  have hw24 := hT.numbered.sane.wf.width
  obtain ⟨hx, hxw, hy, hyh⟩ := hT.cursor
  have hcursor : T.info.cursorPosition = T.console.cursorPos := rfl
  have hsize : T.info.size.x = T.console.buf.width := by rw [info_eq hT]
  rw [movedBy, hcursor] at h
  split at h
  · next hs =>
    obtain rfl := Option.some.inj h
    rw [Lands, if_pos (by rcases hs with rfl | rfl <;> decide)] at hn
    exact ⟨hx, hxw, rowUp_range hT hn⟩
  split at h
  · next hs =>
    obtain rfl := Option.some.inj h
    rw [Lands, if_neg (by rcases hs with rfl | rfl <;> decide),
      if_pos (by rcases hs with rfl | rfl <;> decide)] at hn
    exact ⟨hx, hxw, rowDown_range hT hn⟩
  split at h
  · next hs =>
    obtain rfl := Option.some.inj h
    rw [Lands, if_neg (by rcases hs with rfl | rfl <;> decide),
      if_neg (by rcases hs with rfl | rfl <;> decide), if_pos hs, hcursor] at hn
    obtain ⟨h0, hlt⟩ := cutColumn_range hT hn
    exact ⟨h0, by dsimp only; omega, hy, hyh⟩
  split at h
  · next hs =>
    obtain rfl := Option.some.inj h
    rw [Lands, if_neg (by rcases hs with rfl | rfl <;> decide),
      if_neg (by rcases hs with rfl | rfl <;> decide),
      if_neg (by rcases hs with rfl | rfl <;> decide), if_pos hs] at hn
    rw [hsize] at hn
    obtain ⟨h0, hle⟩ := firstColumn_range (T := T) hn
    exact ⟨h0, hle, hy, hyh⟩
  split at h
  · next hs =>
    obtain rfl := Option.some.inj h
    rw [Lands, if_neg (by rw [hs]; decide), if_pos (by rw [hs]; decide)] at hn
    exact ⟨Int.le_refl 0, by dsimp only; omega, rowDown_range hT hn⟩
  split at h
  · next hs =>
    obtain rfl := Option.some.inj h
    rw [Lands, if_pos (by rw [hs]; decide)] at hn
    exact ⟨Int.le_refl 0, by dsimp only; omega, rowUp_range hT hn⟩
  split at h
  · obtain rfl := Option.some.inj h
    obtain ⟨h0, hlt⟩ := cut_firstColumn (short (n - 1)) hT
    exact ⟨h0, by dsimp only; omega, hy, hyh⟩
  split at h
  · obtain rfl := Option.some.inj h
    exact ⟨hx, hxw, rowOf_range n hT⟩
  split at h
  · next hs =>
    obtain rfl := Option.some.inj h
    rw [Lands, if_neg (by rw [hs]; decide), if_neg (by rw [hs]; decide),
      if_neg (by rw [hs]; decide), if_neg (by rw [hs]; decide), if_pos hs] at hn
    obtain ⟨h0, hlt⟩ := cutColumn_range hT hn
    exact ⟨h0, by dsimp only [tabForward] at hlt ⊢; omega, hy, hyh⟩
  split at h
  · next hs =>
    obtain rfl := Option.some.inj h
    rw [Lands, if_neg (by rw [hs]; decide), if_neg (by rw [hs]; decide),
      if_neg (by rw [hs]; decide), if_neg (by rw [hs]; decide), if_neg (by rw [hs]; decide),
      if_pos hs] at hn
    rw [hsize] at hn
    obtain ⟨h0, hle⟩ := firstColumn_range (T := T) hn
    exact ⟨h0, hle, hy, hyh⟩
  · cases h

/-- The sequences that change lines or characters do not move the cursor. -/
theorem changedBy_steady {suffix : Byte} {n : Int} {r : Option (Terminal Font)}
    (hT : T.console.Steady) (hn : T.Lands suffix n) (hr : T.changedBy cc suffix n = some r)
    (h : r = some T') : T'.console.Steady := by
  rw [changedBy] at hr
  split at hr
  · rw [← Option.some.inj hr, eraseChars] at h
    exact fillBlank_steady h hT
  split at hr
  · rw [← Option.some.inj hr, insertLines] at h
    exact scroll_steady h hT
  split at hr
  · rw [← Option.some.inj hr, scrollUp] at h
    exact scroll_steady h hT
  split at hr
  · rw [← Option.some.inj hr, scrollDown] at h
    exact scroll_steady h hT
  split at hr
  · rw [← Option.some.inj hr, deleteLines] at h
    exact scroll_steady h hT
  split at hr
  · rw [← Option.some.inj hr, deleteChars] at h
    exact scroll_steady h hT
  split at hr
  · rw [← Option.some.inj hr, insertChars] at h
    exact scroll_steady h hT
  · obtain ⟨pos, hpos, rfl⟩ := Option.map_eq_some_iff.mp hr
    obtain rfl := Option.some.inj h
    exact setCursor_steady hT (movedBy_within hT hn hpos)

/-- `ESC[u` -/
theorem recallPos_within (hT : T.console.Steady) (hx : 0 ≤ T.savedPos.x)
    (hy : 0 ≤ short (T.savedPos.y + T.info.window.top)) : T.console.Within T.recallPos := by
  have hh12 := hT.numbered.sane.wf.height
  obtain ⟨h0, hlt⟩ := cutColumn_range hT hx
  rw [info_eq hT] at hy
  dsimp only at hy
  rw [recallPos, info_eq hT]
  refine ⟨h0, by dsimp only; omega, ?_⟩
  dsimp only
  split <;> omega

theorem interpretSuffix_steady {p : Parser} (h : T.interpretSuffix ops cc p = some T')
    (hp : T.SafeSuffix p) (hT : T.console.Steady) : T'.console.Steady := by
  rw [interpretSuffix] at h
  split at h
  · obtain rfl := Option.some.inj h
    exact hT.congr rfl rfl rfl rfl
  split at h
  · split at h
    · exact eraseDisplay_steady h hT
    · obtain rfl := Option.some.inj h
      exact hT
  split at h
  · split at h
    · exact eraseLine_steady h hT
    · obtain rfl := Option.some.inj h
      exact hT
  split at h
  · split at h
    · obtain rfl := Option.some.inj h
      exact hT
    · obtain rfl := Option.some.inj h
      have hcolumn := cutColumn_range hT (x := firstColumn (short (p.interpretSuffix.1.arg 1 - 1))) (by
        rw [firstColumn]
        split <;> omega)
      exact setCursor_steady hT ⟨hcolumn.1, by dsimp only; omega, rowOf_range _ hT⟩
  split at h
  · split at h
    · obtain rfl := Option.some.inj h
      exact hT
    · obtain rfl := Option.some.inj h
      exact hT
  split at h
  · next hs =>
    split at h
    · obtain rfl := Option.some.inj h
      exact hT
    · next hargc =>
      obtain rfl := Option.some.inj h
      rw [SafeSuffix, if_pos hs] at hp
      obtain ⟨hx, hy⟩ := hp (not_not.mp hargc)
      exact setCursor_steady hT (recallPos_within hT hx hy)
  split at h
  · obtain rfl := Option.some.inj h
    exact hT.setScrollRegion (short_range _).2 (short_range _).2
  split at h
  · next hu _ hs =>
    split at h
    · next hargc =>
      rw [SafeSuffix, if_neg hu, if_pos hs] at hp
      cases hr : T.changedBy cc p.suffix (p.interpretSuffix.1.arg 0) with
      | none =>
        rw [hr] at h
        obtain rfl := Option.some.inj h
        exact hT
      | some r =>
        rw [hr] at h
        exact changedBy_steady hT (hp hargc) hr h
    · obtain rfl := Option.some.inj h
      exact hT
  · obtain rfl := Option.some.inj h
    exact hT

/-! ## The other screen -/

theorem fillRows_redrawn {O' : ConsoleOutput} (x : Int) (count : Nat) :
    ∀ (rows : Nat) {y : Int} {O : ConsoleOutput}, fillRows cc x count rows y O = some O' →
      Redrawn O O'
  | 0, _, O, h => by
    obtain rfl := Option.some.inj h
    exact .refl O
  | n + 1, y, O, h => by
    obtain ⟨O1, hfill, hrest⟩ := Option.bind_eq_some_iff.mp h
    exact (fillCharacter_redrawn hfill).trans (fillRows_redrawn x count n hrest)

/-- The cursor of the other screen, in a screen that may be narrower. -/
theorem shown_within {saved other : ScreenBufferInfo} {O : ConsoleOutput} (hO : O.Numbered)
    (hsaved : saved.size = ⟨O.buf.width, O.buf.height⟩) (hx : 0 ≤ other.cursorPosition.x)
    (hy : 0 ≤ other.cursorPosition.y ∧ other.cursorPosition.y < O.buf.height) {x y : Int}
    (hxeq : x = if other.cursorPosition.x ≥ saved.size.x then
      if saved.size.x > 0 then short (saved.size.x - 1) else 0 else other.cursorPosition.x)
    (hyeq : y = if x ≥ saved.size.x then
      if saved.size.y > 0 then short (saved.size.y - 1) else 0 else other.cursorPosition.y) :
    O.Within ⟨x, y⟩ := by
  have hw := hO.width
  have hw24 := hO.sane.wf.width
  rw [hsaved] at hxeq hyeq
  dsimp only at hxeq hyeq
  rw [short_eq (by omega) (by omega)] at hxeq
  have hx' : 0 ≤ x ∧ x < O.buf.width := by
    split at hxeq
    · split at hxeq <;> omega
    · omega
  rw [if_neg (by omega)] at hyeq
  exact ⟨hx'.1, by dsimp only; omega, hyeq ▸ hy.1, hyeq ▸ hy.2⟩

theorem showOther_steady {saved other : ScreenBufferInfo} {chars : List CharInfo}
    {O O' : ConsoleOutput} (hO : O.Steady)
    (hsaved : saved.size = ⟨O.buf.width, O.buf.height⟩) (hx : 0 ≤ other.cursorPosition.x)
    (hy : 0 ≤ other.cursorPosition.y ∧ other.cursorPosition.y < O.buf.height)
    (h : showOther cc saved other chars O = some O') : O'.Steady := by
  rw [showOther] at h
  dsimp only at h
  generalize hxeq : (if other.cursorPosition.x ≥ saved.size.x then
    if saved.size.x > 0 then short (saved.size.x - 1) else 0 else other.cursorPosition.x) = x at h
  generalize hyeq : (if x ≥ saved.size.x then
    if saved.size.y > 0 then short (saved.size.y - 1) else 0 else other.cursorPosition.y) = y at h
  have hpos := shown_within hO.numbered hsaved hx hy hxeq.symm hyeq.symm
  obtain ⟨⟨buf, rect⟩, hwrite, h⟩ := Option.bind_eq_some_iff.mp h
  have hdrawn : Redrawn O { O with buf := buf } := ⟨buf, O.tempChars, rfl, sameSize_writeArea hwrite⟩
  have hend : ∀ {O1 : ConsoleOutput}, Redrawn O O1 → O1.setCursor ⟨x, y⟩ = O' → O'.Steady := by
    intro O1 hO1 heq
    subst heq
    exact (hO1.kept.numbered hO.numbered).setCursor (hO1.kept.within hpos)
  dsimp only at h
  have hright : ∀ {O1 : ConsoleOutput}, Redrawn O O1 →
      ((if saved.size.x > other.size.x then
        (fillRows cc (short (saved.window.left + other.size.x + 1))
          (saved.size.x - other.size.x).toNat (saved.size.y + 1).toNat 0 O1).bind fun O =>
            some (O.setCursor ⟨x, y⟩)
      else some (O1.setCursor ⟨x, y⟩)) = some O') → O'.Steady := by
    intro O1 hO1 h
    split at h
    · obtain ⟨O2, hfill, h⟩ := Option.bind_eq_some_iff.mp h
      exact hend (hO1.trans (fillRows_redrawn _ _ _ hfill)) (Option.some.inj h)
    · exact hend hO1 (Option.some.inj h)
  split at h
  · obtain ⟨O1, hfill, h⟩ := Option.bind_eq_some_iff.mp h
    exact hright (hdrawn.trans (fillRows_redrawn _ _ _ hfill)) h
  · exact hright hdrawn h

/-- `ESC[?1049h` and `ESC[?1049l` -/
theorem toggle_steady {on : Bool} (h : T.toggle ops cc on = some T') (hT : T.console.Steady)
    (hother : T.alternative ≠ on → ∀ other ∈ T.other, T.Recalled other.info.cursorPosition) :
    T'.console.Steady := by
  rw [toggle] at h
  split at h
  · obtain rfl := Option.some.inj h
    exact hT
  next hon =>
  have hw24 := hT.numbered.sane.wf.width
  have hh12 := hT.numbered.sane.wf.height
  have hsize : T.info.size = ⟨T.console.buf.width, T.console.buf.height⟩ := by rw [info_eq hT]
  have hseen : T.info.size.y > 0 ∧ T.info.size.x > 0 := by
    rw [hsize]
    exact ⟨by dsimp only; omega, by dsimp only; omega⟩
  rw [if_pos hseen] at h
  obtain ⟨⟨chars, window⟩, -, h⟩ := Option.bind_eq_some_iff.mp h
  split at h
  · next other hsome =>
    obtain ⟨⟨O1, attributes⟩, hshow, h⟩ := Option.bind_eq_some_iff.mp h
    obtain ⟨O2, hshown, heq⟩ := Option.map_eq_some_iff.mp hshow
    obtain ⟨rfl, rfl⟩ := Prod.mk.inj heq
    obtain rfl := Option.some.inj h
    obtain ⟨hx, hy, hyh⟩ := hother hon other hsome
    rw [hsize] at hyh
    have hO2 := showOther_steady hT (by exact hsize) hx ⟨hy, hyh⟩ hshown
    exact hO2.congr rfl rfl rfl rfl
  · obtain ⟨O1, hchars, h⟩ := Option.bind_eq_some_iff.mp h
    obtain ⟨O2, hattrs, h⟩ := Option.bind_eq_some_iff.mp h
    obtain rfl := Option.some.inj h
    have hdrawn := (fillCharacter_redrawn hchars).trans (fillAttribute_redrawn hattrs)
    have hO2 := (hdrawn.kept.numbered hT.numbered).setCursor
      (hdrawn.kept.within (within_origin (T := T) hT))
    exact hO2.congr rfl rfl rfl rfl

theorem privateMode_steady {on : Bool} {n : Int} (h : T.privateMode ops cc on n = some T')
    (hT : T.console.Steady)
    (hother : n = 1049 → T.alternative ≠ on →
      ∀ other ∈ T.other, T.Recalled other.info.cursorPosition) : T'.console.Steady := by
  rw [privateMode] at h
  split at h
  · next hn => exact toggle_steady h hT (hother hn)
  split at h
  · obtain rfl := Option.some.inj h
    exact setMode_steady hT _
  · obtain rfl := Option.some.inj h
    exact hT

theorem toggle_alternative {on : Bool} (h : T.toggle ops cc on = some T') : T'.alternative = on := by
  rw [toggle] at h
  split at h
  · next hon =>
    obtain rfl := Option.some.inj h
    exact hon
  dsimp only at h
  split at h
  all_goals
    obtain ⟨⟨chars, window⟩, -, h⟩ := Option.bind_eq_some_iff.mp h
    split at h
    · obtain ⟨⟨O1, attributes⟩, -, h⟩ := Option.bind_eq_some_iff.mp h
      obtain rfl := Option.some.inj h
      rfl
    · obtain ⟨O1, -, h⟩ := Option.bind_eq_some_iff.mp h
      obtain ⟨O2, -, h⟩ := Option.bind_eq_some_iff.mp h
      obtain rfl := Option.some.inj h
      rfl

/-- The screens are not exchanged by another mode, and not twice by the same one. -/
theorem privateMode_other {on : Bool} {n : Int} (h : T.privateMode ops cc on n = some T') :
    T'.alternative = on ∨ T'.alternative = T.alternative ∧ T'.other = T.other
      ∧ T'.console.buf = T.console.buf := by
  rw [privateMode] at h
  split at h
  · exact .inl (toggle_alternative h)
  split at h
  · obtain rfl := Option.some.inj h
    exact .inr ⟨rfl, rfl, rfl⟩
  · obtain rfl := Option.some.inj h
    exact .inr ⟨rfl, rfl, rfl⟩

theorem privateModes_steady {on : Bool} : ∀ (args : List Int) {T T' : Terminal Font},
    args.foldlM (fun T n => T.privateMode ops cc on n) T = some T' → T.console.Steady →
    (1049 ∈ args → T.alternative ≠ on → ∀ other ∈ T.other, T.Recalled other.info.cursorPosition) →
    T'.console.Steady
  | [], T, T', h, hT, _ => by
    obtain rfl := Option.some.inj h
    exact hT
  | n :: args, T, T', h, hT, hother => by
    rw [List.foldlM_cons] at h
    obtain ⟨T1, hmode, h⟩ := Option.bind_eq_some_iff.mp h
    have hT1 := privateMode_steady hmode hT fun hn => hother (hn ▸ List.mem_cons_self)
    refine privateModes_steady args h hT1 fun hmem halternative other hsome => ?_
    rcases privateMode_other hmode with hon | ⟨hsame, hkept, hbuf⟩
    · exact absurd hon halternative
    · have hrecalled := hother (List.mem_cons_of_mem n hmem) (hsame ▸ halternative) other
        (hkept ▸ hsome)
      rw [Recalled, info_eq hT] at hrecalled
      rw [Recalled, info_eq hT1, hbuf]
      exact hrecalled

/-! ## Actions -/

/-- A row of the region, on the screen. -/
def cutRow (T : Terminal Font) (row : Int) : Int :=
  let row := if row < T.info.window.top then T.info.window.top else row
  if row > T.info.window.bottom then T.info.window.bottom else row

theorem reverseIndex_eq (T : Terminal Font) :
    T.reverseIndex = if T.info.cursorPosition.y ≠ T.cutRow T.console.scrollRegionTop then
        some (T.setCursor { T.info.cursorPosition with y := short (T.info.cursorPosition.y - 1) })
      else if T.cutRow T.console.scrollRegionTop ≥ T.cutRow T.console.scrollRegionBottom then some T
      else T.scroll ⟨T.info.window.left, T.cutRow T.console.scrollRegionTop, T.info.window.right,
          short (T.cutRow T.console.scrollRegionBottom - 1)⟩ none
        ⟨0, short (T.cutRow T.console.scrollRegionTop + 1)⟩ := rfl

/-- The first row of the screen is that of the region, unless the region begins below it. -/
theorem cutRow_first {row : Int} (hT : T.console.Steady) (hrow : row ≤ 0) : T.cutRow row = 0 := by
  have hh12 := hT.numbered.sane.wf.height
  rw [cutRow, info_eq hT]
  dsimp only
  split <;> split <;> omega

theorem reverseIndex_steady (h : T.reverseIndex = some T') (hT : T.console.Steady)
    (htop : T.info.cursorPosition.y = 0 → T.console.scrollRegionTop ≤ 0) : T'.console.Steady := by
  have hh := hT.numbered.height
  have hcursor : T.info.cursorPosition = T.console.cursorPos := rfl
  obtain ⟨hx, hxw, hy, hyh⟩ := hT.cursor
  rw [reverseIndex_eq, hcursor] at h
  split at h
  · next hne =>
    obtain rfl := Option.some.inj h
    have hpos : 0 < T.console.cursorPos.y := by
      by_cases h0 : T.console.cursorPos.y = 0
      · exact absurd (h0.trans (cutRow_first hT (htop h0)).symm) hne
      · omega
    refine setCursor_steady hT ⟨hx, hxw, ?_⟩
    dsimp only
    rw [short_eq (by omega) (by omega)]
    omega
  split at h
  · obtain rfl := Option.some.inj h
    exact hT
  · exact scroll_steady h hT

/-- **A safe action keeps the cursor on the screen.** -/
theorem perform_steady {action : Action} (h : T.perform ops cc fuel action = some T')
    (hsafe : T.Safe action) (hT : T.console.Steady) : T'.console.Steady := by
  cases action with
  | pushBuffer c charset crm => exact pushBuffer_steady h hT
  | flushBuffer crm => exact flushBuffer_steady h hT
  | interpretEscSeq p =>
    rw [perform, interpretEscSeq] at h
    split at h
    · next hprefix =>
      have hsafe := hsafe hprefix
      split at h
      · next hmode =>
        rw [if_pos hmode] at hsafe
        exact privateModes_steady _ h hT hsafe
      · next hmode =>
        rw [if_neg hmode] at hsafe
        split at h
        · obtain rfl := Option.some.inj h
          exact hT
        · next hzero => exact interpretSuffix_steady h (hsafe (not_not.mp hzero)) hT
    · obtain rfl := Option.some.inj h
      exact hT
  | interpretControlString p =>
    obtain rfl := Option.some.inj h
    rw [interpretControlString]
    split
    · exact hT
    split
    · exact hT
    split
    · exact hT
    split
    · rw [popAttr]
      split
      · exact hT
      · exact hT.congr rfl rfl rfl rfl
    · exact hT
  | reverseIndex => exact reverseIndex_steady h hT hsafe
  | saveCursor =>
    obtain rfl := Option.some.inj h
    exact hT
  | restoreCursor =>
    obtain rfl := Option.some.inj h
    exact setCursor_steady hT hsafe
  | clearScreenAndHomeCursor => exact clearScreenAndHomeCursor_steady h hT
  | resetTerminal =>
    obtain rfl := Option.some.inj h
    exact hT.setScrollRegion (by decide) (by decide)

end VT.Terminal

namespace VT.Session

open ConsoleOutput

variable {Font : Type} {ops : FontOps Font} {cc : CharClasses}

/-! ## Runs -/

/-- A step that is careful keeps the cursor on the screen. -/
theorem step_steady {s : Option (Session Font)} {op : Op} (hcareful : Careful s op)
    (hs : ∀ S ∈ s, S.terminal.console.Steady) :
    ∀ S ∈ step ops cc s op, S.terminal.console.Steady := by
  intro S' hstep
  obtain ⟨S, rfl, h⟩ := Option.bind_eq_some_iff.mp hstep
  have hS := hs S rfl
  split at h
  · obtain rfl := Option.some.inj h
    exact hS
  · obtain rfl := Option.some.inj h
    exact hS
  · next action rest hpending =>
    obtain ⟨T, hperform, rfl⟩ := Option.map_eq_some_iff.mp h
    have hsafe := hcareful S rfl action (by rw [hpending]; rfl)
    exact Terminal.perform_steady hperform hsafe hS
  · obtain rfl := Option.some.inj h
    exact hS

/-- **The cursor does not leave the screen in a run of careful steps**, whatever the characters, the
scroll region and the arguments are. -/
theorem reach_onScreen {start : Session Font} {s : Option (Session Font)}
    (h : Reach (step ops cc) Careful (some start) s) (hstart : start.terminal.console.Numbered)
    (hcursor : start.OnScreen) : ∀ S ∈ s, S.OnScreen := by
  have hsteady := h.invariant (I := fun s => ∀ S ∈ s, S.terminal.console.Steady)
    (fun S hS => by
      obtain rfl := Option.some.inj hS
      exact ⟨hstart, hcursor⟩)
    (fun s op hs hcareful => step_steady hcareful hs)
  exact fun S hS => (hsteady S hS).cursor

/-- A screen of 80 columns and 25 rows, with the cursor in its first place. -/
def fresh : Session Unit :=
  { terminal := { console := { buf := ⟨80, List.replicate 2000 ⟨0x20, 7⟩⟩ }, fontState := () } }

/-- Fonts without attributes. -/
def plain : FontOps Unit := ⟨(), fun _ _ _ => (), fun _ => 7, fun _ _ => ()⟩

set_option maxRecDepth 20000 in
theorem fresh_numbered : fresh.terminal.console.Numbered :=
  ⟨⟨⟨by decide, by decide, by decide⟩, ⟨by decide, by decide⟩⟩, by decide,
    by decide⟩

/-- `ESC[3B` -/
def threeDown : List Op :=
  [.char ESC, .char (wch '['), .act 0, .char (wch '3'), .char (wch 'B'), .act 0]

set_option maxRecDepth 20000 in
theorem reach_onScreen_threeDown :
    ∃ S, threeDown.foldl (step plain CharClasses.table) (some fresh) = some S ∧ S.OnScreen := by
  have hsome : (threeDown.foldl (step plain CharClasses.table) (some fresh)).isSome = true := by
    decide
  obtain ⟨S, hS⟩ := Option.isSome_iff_exists.mp hsome
  refine ⟨S, hS, @reach_onScreen Unit plain CharClasses.table fresh _ ?_ fresh_numbered
    (by decide) S hS⟩
  rw [threeDown]
  simp only [List.foldl_cons, List.foldl_nil]
  refine .step _ (.step _ (.step _ (.step _ (.step _ (.step _ .start trivial) trivial) ?_) trivial)
    trivial) ?_
  · decide
  · decide

/-- `ESC[40000B` -/
def farDown : List Op :=
  [.char ESC, .char (wch '['), .act 0, .char (wch '4'), .char (wch '0'), .char (wch '0'),
    .char (wch '0'), .char (wch '0'), .char (wch 'B'), .act 0]

set_option maxRecDepth 20000 in
/-- **Down by 40000 rows is up**: the row is less than the first one. -/
theorem farDown_leaves :
    ¬∀ s, Reach (step plain CharClasses.table) (fun _ _ => True) (some fresh) s →
      ∀ S ∈ s, S.OnScreen := by
  intro hall
  have hrun := hall _ (.foldl farDown .start)
  revert hrun
  decide

end VT.Session

end Far2l
