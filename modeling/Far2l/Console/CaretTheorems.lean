/-
Far2l.Console.CaretTheorems — the loop of `ModifySequenceAt` ends on the screen
exactly when the caret can be counted through the string.

A turn of the loop takes a character, except that it takes a tabulator only when
the column is a multiple of 8. The columns between are counted down to the next
stop, or to the margin.
-/
import Far2l.Console.Caret
import Far2l.Console.ConsoleOutputTheorems

namespace Far2l

/-! ## What a turn leaves as it is -/

namespace ConsoleBuffer

theorem length_write (B : ConsoleBuffer) (ch : CharInfo) (pos : Coord) :
    (B.write ch pos).2.chars.length = B.chars.length := by
  rw [write]
  cases B.read pos with
  | none => rfl
  | some d =>
    dsimp only
    split
    · rfl
    · exact List.length_set

end ConsoleBuffer

namespace ConsoleOutput

variable {cc : CharClasses} {O O' : ConsoleOutput}

theorem Kept.screen (h : Kept O O') : O'.screen = O.screen := by
  have hheight : O'.buf.height = O.buf.height := by
    rw [ConsoleBuffer.height, ConsoleBuffer.height, h.width, h.length]
  rw [ConsoleOutput.screen, ConsoleOutput.screen, scrollEdge, scrollEdge, wrapAtEol, wrapAtEol,
    processed, processed, h.width, hheight, h.mode, h.scrollBottom]

theorem Kept.processed (h : Kept O O') : O'.processed = O.processed := by
  rw [ConsoleOutput.processed, ConsoleOutput.processed, h.mode]

theorem Kept.wf (h : Kept O O') (hB : O.buf.Wf) : O'.buf.Wf := wf_of_size hB h.width h.length

theorem Kept.regionOk (h : Kept O O') (hregion : O.RegionOk) : O'.RegionOk :=
  ⟨h.scrollBottom ▸ hregion.bottom, by rw [h.scrollTop, h.scrollBottom]; exact hregion.top⟩

theorem writeEntity_kept (O : ConsoleOutput) (ch : CharInfo) (pos : Coord) (out : Int) :
    Kept O (O.writeEntity ch pos out) ∧ (O.writeEntity ch pos out).prevPos = O.prevPos := by
  have hwidth := ConsoleBuffer.width_write O.buf ch pos
  have hlength := ConsoleBuffer.length_write O.buf ch pos
  rw [writeEntity]
  generalize O.buf.write ch pos = r at hwidth hlength
  obtain ⟨result, B⟩ := r
  cases result with
  | bad => exact ⟨⟨hwidth, hlength, rfl, rfl, rfl, rfl⟩, rfl⟩
  | same => exact ⟨⟨hwidth, hlength, rfl, rfl, rfl, rfl⟩, rfl⟩
  | modified =>
    dsimp only
    split
    · exact ⟨⟨(ConsoleBuffer.width_write B _ _).trans hwidth,
        (ConsoleBuffer.length_write B _ _).trans hlength, rfl, rfl, rfl, rfl⟩, rfl⟩
    · exact ⟨⟨hwidth, hlength, rfl, rfl, rfl, rfl⟩, rfl⟩

/-- A character is written at a position, which is remembered. -/
theorem writeEntity_at (O : ConsoleOutput) (ch : CharInfo) (pos : Coord) (out : Int) :
    Kept O ({ O with prevPos := pos }.writeEntity ch pos out)
      ∧ ({ O with prevPos := pos }.writeEntity ch pos out).prevPos = pos := by
  obtain ⟨hkept, hprev⟩ := writeEntity_kept { O with prevPos := pos } ch pos out
  exact ⟨⟨hkept.width, hkept.length, hkept.mode, hkept.attributes, hkept.scrollTop,
    hkept.scrollBottom⟩, hprev⟩

/-- Is there a character before? -/
def joined (O : ConsoleOutput) : Bool := O.prevPos.x ≥ 0

variable (cc) in
/-- **What `ModifySequenceEntityAt` does with a character**: the columns it takes, and there is a
character before the next one. -/
theorem writeCharAt_spec (O : ConsoleOutput) (c : WChar) (pos : Coord) :
    Kept O (O.writeCharAt cc c pos).1
      ∧ (O.writeCharAt cc c pos).2
          = (if c = TAB ∧ O.processed then 1 else Screen.columns cc c O.joined)
      ∧ (0 ≤ pos.x → (O.writeCharAt cc c pos).1.joined = true) := by
  rw [writeCharAt, Screen.columns]
  cases hpre : cc.isPrefix c with
  | true =>
    have htab : c ≠ TAB := fun heq => by rw [heq, cc.tab_prefix] at hpre; cases hpre
    obtain ⟨hkept, hprev⟩ := writeEntity_at O ⟨c.toUInt64, O.attributes⟩ pos 0
    rw [if_pos rfl]
    refine ⟨hkept, by simp [htab], fun hx => ?_⟩
    rw [joined, hprev]
    exact decide_eq_true hx
  | false =>
    rw [if_neg Bool.false_ne_true]
    by_cases hjoin : O.prevPos.x ≥ 0 ∧ cc.suffix c = true
    · have htab : c ≠ TAB := fun heq => by
        rw [heq, cc.tab_suffix] at hjoin
        exact Bool.false_ne_true hjoin.2
      have hjoined : O.joined = true := decide_eq_true hjoin.1
      rw [if_pos hjoin]
      have hout : (0 : Int) = if c = TAB ∧ O.processed = true then 1
          else if false = true ∨ O.joined = true ∧ cc.suffix c = true then 0
          else if cc.fullWidth c = true then 2 else 1 := by
        simp [htab, hjoined, hjoin.2]
      cases O.buf.read O.prevPos with
      | none => exact ⟨.refl O, hout, fun _ => hjoined⟩
      | some ch =>
        dsimp only
        obtain ⟨hkept, hprev⟩ := writeEntity_kept { O with composites := _ }
          ⟨_, O.attributes⟩ O.prevPos 0
        refine ⟨⟨hkept.width, hkept.length, hkept.mode, hkept.attributes, hkept.scrollTop,
          hkept.scrollBottom⟩, hout, fun _ => ?_⟩
        rw [joined, hprev]
        exact hjoined
    · rw [if_neg hjoin]
      have hnot : ¬(false = true ∨ O.joined = true ∧ cc.suffix c = true) := by
        rintro (h | h)
        · exact Bool.false_ne_true h
        · exact hjoin ⟨of_decide_eq_true h.1, h.2⟩
      by_cases htab : c = TAB ∧ O.processed = true
      · obtain ⟨hkept, hprev⟩ := writeEntity_at O ⟨SPACE.toUInt64, O.attributes⟩ pos 1
        rw [if_pos htab, if_pos htab]
        refine ⟨hkept, rfl, fun hx => ?_⟩
        rw [joined, hprev]
        exact decide_eq_true hx
      · obtain ⟨hkept, hprev⟩ := writeEntity_at O ⟨c.toUInt64, O.attributes⟩ pos
          (if cc.fullWidth c then 2 else 1)
        rw [if_neg htab, if_neg htab, if_neg hnot]
        refine ⟨hkept, rfl, fun hx => ?_⟩
        rw [joined, hprev]
        exact decide_eq_true hx

/-! ## Rows and margins -/

/-- The buffer and the region are as they are kept. -/
structure Sane (O : ConsoleOutput) : Prop where
  wf : O.buf.Wf
  region : O.RegionOk

theorem Kept.sane (h : Kept O O') (hO : O.Sane) : O'.Sane := ⟨h.wf hO.wf, h.regionOk hO.region⟩

/-- A row of the screen that has a number. -/
def IsRow (O : ConsoleOutput) (y : Int) : Prop := 0 ≤ y ∧ y < O.buf.height ∧ y ≤ 32767

/-- A column in front of the margin that has a number. -/
def IsColumn (O : ConsoleOutput) (x : Int) : Prop := 0 ≤ x ∧ x < O.buf.width ∧ x ≤ 32767

theorem nextRow_spec (pos : Coord) (hO : O.Sane) (hy : O.IsRow pos.y) {k : Caret}
    (hk : k.y = pos.y) :
    ∃ O' y, O.nextRow pos = some (O', ⟨pos.x, y⟩) ∧ Kept O O' ∧ O'.prevPos = O.prevPos
      ∧ ((O.screen.down k = none ∧ y = -32768)
        ∨ (O.screen.down k = some { k with y := y } ∧ O.IsRow y)) := by
  obtain ⟨hy0, hyh, hy1⟩ := hy
  have hedge : O.screen.edge = O.scrollEdge := rfl
  rw [nextRow, Screen.down, hk, hedge]
  by_cases hlast : pos.y = 32767
  · have hshort : short (pos.y + 1) = -32768 := by rw [hlast]; rfl
    rw [hshort, if_neg (by omega), if_pos hlast]
    exact ⟨O, -32768, rfl, .refl O, rfl, .inl ⟨rfl, rfl⟩⟩
  · rw [short_eq (v := pos.y + 1) (by omega) (by omega), if_neg hlast]
    by_cases hover : pos.y + 1 ≥ O.scrollEdge
    · obtain ⟨O', hscroll, hkept, hprev⟩ :=
        scrollOutputOnOverflow_some hO.wf hO.region (by omega)
      rw [if_pos hover, if_pos hover, hscroll, short_eq (by omega) (by omega)]
      refine ⟨O', pos.y, ?_, hkept, hprev, .inr ⟨rfl, hy0, hyh, hy1⟩⟩
      rw [Option.map_some, Int.add_sub_cancel]
    · rw [if_neg hover, if_neg hover]
      have hle : O.scrollEdge ≤ O.buf.height := Nat.min_le_left _ _
      exact ⟨O, pos.y + 1, rfl, .refl O, rfl, .inr ⟨rfl, by omega, by omega, by omega⟩⟩

theorem leaveMargin_spec {pos : Coord} (c : WChar) (hO : O.Sane) (hx : 0 ≤ pos.x ∧ pos.x ≤ 32767)
    (hy : O.IsRow pos.y) (joined : Bool) :
    ∃ O' pos', O.leaveMargin (O.wraps c) pos = some (O', pos') ∧ Kept O O'
      ∧ O'.prevPos = O.prevPos
      ∧ ((O.screen.settle c ⟨pos.x, pos.y, joined⟩ = none ∧ O.wraps c = true ∧ pos'.x = 0
          ∧ pos'.y = -32768)
        ∨ (O.screen.settle c ⟨pos.x, pos.y, joined⟩ = some ⟨pos'.x, pos'.y, joined⟩
          ∧ O.IsColumn pos'.x ∧ O.IsRow pos'.y)) := by
  have hwidth := hO.wf.width
  have hscreen : O.screen.width = O.buf.width := rfl
  have hwraps : O.screen.wraps c = O.wraps c := rfl
  rw [leaveMargin, Screen.settle, hscreen, hwraps]
  by_cases hmargin : pos.x ≥ O.buf.width
  · rw [if_pos hmargin, if_neg (Int.not_lt.mpr hmargin)]
    cases hw : O.wraps c with
    | true =>
      rw [if_pos rfl, if_pos rfl]
      obtain ⟨O', y, hrow, hkept, hprev, hdown⟩ := nextRow_spec { pos with x := 0 } hO hy
        (k := ⟨0, pos.y, joined⟩) rfl
      refine ⟨O', ⟨0, y⟩, hrow, hkept, hprev, hdown.imp ?_ ?_⟩
      · exact fun h => ⟨h.1, rfl, rfl, h.2⟩
      · exact fun h => ⟨h.1, ⟨Int.le_refl 0, by dsimp only; omega, show (0 : Int) ≤ 32767 by decide⟩,
        h.2⟩
    | false =>
      rw [if_neg Bool.false_ne_true, if_neg Bool.false_ne_true, short_eq (by omega) (by omega)]
      exact ⟨O, ⟨O.buf.width - 1, pos.y⟩, rfl, .refl O, rfl,
        .inr ⟨rfl, ⟨by dsimp only; omega, by dsimp only; omega, by dsimp only; omega⟩, hy⟩⟩
  · rw [if_neg hmargin, if_pos (Int.not_le.mp hmargin)]
    exact ⟨O, pos, rfl, .refl O, rfl, .inr ⟨rfl, ⟨hx.1, by omega, hx.2⟩, hy⟩⟩

/-! ## A character in front of the margin -/

/-- The caret a position and a console stand for. -/
def caretAt (O : ConsoleOutput) (pos : Coord) : Caret := ⟨pos.x, pos.y, O.joined⟩

/-- The position is on the screen, or up to two columns behind it, and has a number. -/
def Fits (O : ConsoleOutput) (pos : Coord) : Prop :=
  0 ≤ pos.x ∧ pos.x ≤ O.buf.width + 1 ∧ pos.x ≤ 32767 ∧ O.IsRow pos.y

theorem columns_range (cc : CharClasses) (c : WChar) (joined : Bool) :
    0 ≤ Screen.columns cc c joined ∧ Screen.columns cc c joined ≤ 2 := by
  rw [Screen.columns]
  split
  · decide
  · split <;> decide

/-- A position behind `MAXSHORT` is in front of the screen. -/
theorem short_over {v : Int} (h : 32768 ≤ v) (h' : v ≤ 65535) : short v < 0 := by
  rw [short]
  omega

variable (cc) in
theorem putChar_spec {pos : Coord} {c : WChar} (hO : O.Sane) (hx : O.IsColumn pos.x)
    (hy : O.IsRow pos.y) (htab : ¬(c = TAB ∧ O.processed = true)) :
    ∃ O' pos', O.putChar cc c pos = some (O', pos') ∧ Kept O O'
      ∧ ((O.screen.put cc c (O.caretAt pos) = none ∧ (pos'.x < 0 ∨ pos'.y < 0))
        ∨ (O.screen.put cc c (O.caretAt pos) = some (O'.caretAt pos') ∧ O.Fits pos')) := by
  obtain ⟨hx0, hxw, hx1⟩ := hx
  have hprocessed : O.screen.processed = O.processed := rfl
  rw [putChar, Screen.put, hprocessed]
  by_cases hback : c = 0x08 ∧ O.processed = true
  · rw [if_pos hback, if_pos hback]
    refine ⟨O, _, rfl, .refl O, .inr ?_⟩
    by_cases hpos : pos.x > 0
    · rw [if_pos hpos, short_eq (by omega) (by omega)]
      refine ⟨?_, by dsimp only; omega, by dsimp only; omega, by dsimp only; omega, hy⟩
      rw [caretAt, caretAt, if_pos hpos]
    · rw [if_neg hpos]
      refine ⟨?_, hx0, by omega, hx1, hy⟩
      rw [caretAt, if_neg hpos]
  rw [if_neg hback, if_neg hback]
  by_cases hcr : c = CR ∧ O.processed = true
  · rw [if_pos hcr, if_pos hcr]
    exact ⟨O, ⟨0, pos.y⟩, rfl, .refl O, .inr ⟨rfl, Int.le_refl 0, by dsimp only; omega,
      by dsimp only; omega, hy⟩⟩
  rw [if_neg hcr, if_neg hcr]
  by_cases hlf : c = LF ∧ O.processed = true
  · rw [if_pos hlf, if_pos hlf]
    obtain ⟨O', y, hrow, hkept, hprev, hdown⟩ := nextRow_spec pos hO hy
      (k := O.caretAt pos) rfl
    refine ⟨O', ⟨pos.x, y⟩, hrow, hkept, hdown.imp ?_ ?_⟩
    · exact fun h => ⟨h.1, .inr (by show y < 0; omega)⟩
    · rintro ⟨hdown, hrow'⟩
      refine ⟨?_, hx0, by dsimp only; omega, hx1, hrow'⟩
      rw [hdown, caretAt, caretAt, joined, joined, hprev]
  rw [if_neg hlf, if_neg hlf, if_neg htab]
  obtain ⟨hkept, hout, hjoined⟩ := writeCharAt_spec cc O c pos
  rw [if_neg htab] at hout
  have hcolumns := columns_range cc c O.joined
  generalize O.writeCharAt cc c pos = r at hkept hout hjoined
  obtain ⟨O', out⟩ := r
  dsimp only at hkept hout hjoined ⊢
  subst hout
  refine ⟨O', _, rfl, hkept, ?_⟩
  rw [Screen.forward]
  show (ite (pos.x + Screen.columns cc c O.joined ≤ 32767) _ _ = _ ∧ _) ∨ _
  by_cases hfit : pos.x + Screen.columns cc c O.joined ≤ 32767
  · rw [if_pos hfit]
    refine .inr ⟨?_, ?_⟩
    · rw [if_pos (by exact hfit), caretAt, caretAt, hjoined hx0, short_eq (by omega) hfit]
    · rw [short_eq (by omega) hfit]
      exact ⟨by dsimp only; omega, by dsimp only; omega, hfit, hy⟩
  · rw [if_neg hfit]
    refine .inl ⟨rfl, .inl ?_⟩
    exact short_over (by omega) (by omega)

variable (cc) in
/-- A character that does not go to the next row by itself stays in a row without a number. -/
theorem putChar_lost (pos : Coord) {c : WChar} (hw : O.wraps c = true) :
    ∃ O' x, O.putChar cc c pos = some (O', ⟨x, pos.y⟩) ∧ Kept O O' := by
  rw [putChar]
  by_cases hback : c = 0x08 ∧ O.processed = true
  · rw [if_pos hback]
    by_cases hpos : pos.x > 0
    · exact ⟨O, short (pos.x - 1), by rw [if_pos hpos], .refl O⟩
    · exact ⟨O, pos.x, by rw [if_neg hpos], .refl O⟩
  rw [if_neg hback]
  by_cases hcr : c = CR ∧ O.processed = true
  · rw [if_pos hcr]
    exact ⟨O, 0, rfl, .refl O⟩
  have hlf : ¬(c = LF ∧ O.processed = true) := by
    rintro ⟨rfl, hprocessed⟩
    rw [wraps, hprocessed] at hw
    simp at hw
  rw [if_neg hcr, if_neg hlf]
  exact ⟨_, _, rfl, (writeCharAt_spec cc O c pos).1⟩

end ConsoleOutput

/-! ## Turns -/

namespace Writing

variable {cc : CharClasses} {W W' : Writing}

theorem caret_eq (W : Writing) : W.caret = W.out.caretAt W.pos := rfl

/-- The loop goes on with `str` at the position of `W'`. -/
structure Next (W W' : Writing) (k : Caret) (str : WStr) : Prop where
  sm : W'.sm = .writeStr str
  kept : ConsoleOutput.Kept W.out W'.out
  caret : W'.caret = k
  fits : W'.out.Fits W'.pos

theorem inScreen_of_fits (h : W.out.Fits W.pos) : W.InScreen :=
  ⟨h.1, h.2.1, h.2.2.2.1, h.2.2.2.2.1⟩

theorem not_ends (h : ¬W.InScreen) : ¬Ends cc W := by
  intro hends
  cases hends with
  | done hin => exact h hin
  | turn hin => exact h hin

/-- A position in front of the screen. -/
theorem not_inScreen (h : W.pos.x < 0 ∨ W.pos.y < 0) : ¬W.InScreen := by
  rintro ⟨hx, -, hy, -⟩
  have hx' : 0 ≤ W.pos.x := hx
  have hy' : 0 ≤ W.pos.y := hy
  omega

/-- A turn leads from one writing to the other. -/
theorem ends_turn {c : WChar} {str : WStr} (hsm : W.sm = .writeStr (c :: str)) (hin : W.InScreen)
    (hturn : W.turnChar cc c str = some W') : Ends cc W ↔ Ends cc W' := by
  have hcount : W.sm.count ≠ 0 := by
    rw [hsm]
    exact Nat.succ_ne_zero _
  have hturn' : W.turn cc = some W' := by
    rw [turn, hsm]
    exact hturn
  constructor
  · intro hends
    cases hends with
    | done _ hcount' => exact absurd hcount' hcount
    | turn _ _ hturn'' hends =>
      rw [hturn'] at hturn''
      exact Option.some.inj hturn'' ▸ hends
  · exact fun hends => .turn hin hcount hturn' hends

variable (cc) in
/-- A position behind the last column is taken in front of the margin by the same turn. -/
theorem turnChar_settle {c : WChar} (str : WStr) {O : ConsoleOutput} {pos : Coord}
    (hbel : ¬(c = 0x07 ∧ W.out.processed = true))
    (hmargin : W.out.leaveMargin (W.out.wraps c) W.pos = some (O, pos))
    (hkept : ConsoleOutput.Kept W.out O) (hx : pos.x < O.buf.width) :
    W.turnChar cc c str = turnChar cc { W with out := O, pos := pos } c str := by
  have hsettled : O.leaveMargin (O.wraps c) pos = some (O, pos) := by
    rw [ConsoleOutput.leaveMargin, if_neg (by omega)]
  rw [turnChar, turnChar, if_neg hbel, if_neg (by rw [hkept.processed]; exact hbel), hmargin,
    hsettled]

variable (cc) in
/-- The turn of a character in front of the margin. -/
theorem turnChar_put (c : WChar) (str : WStr) (hO : W.out.Sane) (hx : W.out.IsColumn W.pos.x)
    (hy : W.out.IsRow W.pos.y) (hbel : ¬(c = 0x07 ∧ W.out.processed = true))
    (htab : ¬(c = TAB ∧ W.out.processed = true)) :
    ∃ W', W.turnChar cc c str = some W'
      ∧ ((W.out.screen.put cc c W.caret = none ∧ ¬W'.InScreen)
        ∨ ∃ k, W.out.screen.put cc c W.caret = some k ∧ Next W W' k str) := by
  have hsettled : W.out.leaveMargin (W.out.wraps c) W.pos = some (W.out, W.pos) := by
    rw [ConsoleOutput.leaveMargin, if_neg (by have hlt := hx.2.1; omega)]
  obtain ⟨O', pos', hput, hkept, hresult⟩ := ConsoleOutput.putChar_spec cc hO hx hy htab
  have hconsumed : c ≠ TAB ∨ pos'.x % 8 = 0 ∨ O'.processed = false := by
    by_cases hc : c = TAB
    · refine .inr (.inr ?_)
      rw [hkept.processed]
      simpa [hc] using htab
    · exact .inl hc
  refine ⟨⟨O', .writeStr str, pos', W.rv + 1⟩, ?_, hresult.imp ?_ ?_⟩
  · rw [turnChar, if_neg hbel, hsettled, Option.bind_eq_bind, Option.bind_some]
    dsimp only
    rw [hput, Option.bind_some]
    dsimp only
    rw [if_pos hconsumed]
  · exact fun h => ⟨h.1, not_inScreen h.2⟩
  · refine fun h => ⟨_, h.1, rfl, hkept, rfl, ?_⟩
    obtain ⟨h1, h2, h3, h4, h5, h6⟩ := h.2
    refine ⟨h1, ?_, h3, h4, ?_, h6⟩
    · dsimp only
      rw [hkept.width]
      exact h2
    · have hheight : O'.buf.height = W.out.buf.height := congrArg Screen.height hkept.screen
      dsimp only
      rw [hheight]
      exact h5

/-- Two writings on the screen with the same turn end both, or none of them does. -/
theorem ends_congr {c : WChar} {str : WStr} {W1 : Writing} (hsm : W.sm = .writeStr (c :: str))
    (hsm1 : W1.sm = .writeStr (c :: str)) (hin : W.InScreen) (hin1 : W1.InScreen)
    (hturn : W.turnChar cc c str = some W') (hturn1 : W1.turnChar cc c str = some W') :
    Ends cc W ↔ Ends cc W1 :=
  (ends_turn hsm hin hturn).trans (ends_turn hsm1 hin1 hturn1).symm

variable (cc) in
/-- Behind the last row that has a number a turn leaves the screen. -/
theorem turnChar_lost {c : WChar} (str : WStr) {O : ConsoleOutput} {pos : Coord}
    (hbel : ¬(c = 0x07 ∧ W.out.processed = true)) (hw : W.out.wraps c = true)
    (hmargin : W.out.leaveMargin (W.out.wraps c) W.pos = some (O, pos))
    (hkept : ConsoleOutput.Kept W.out O) (hy : pos.y = -32768) :
    ∃ W', W.turnChar cc c str = some W' ∧ ¬W'.InScreen := by
  have hw' : O.wraps c = true := by
    have hscreen := congrArg (fun M => Screen.wraps M c) hkept.screen
    exact Eq.trans hscreen hw
  obtain ⟨O', x, hput, -⟩ := ConsoleOutput.putChar_lost cc pos hw'
  rw [turnChar, if_neg hbel, hmargin, Option.bind_eq_bind, Option.bind_some]
  dsimp only
  rw [hput, Option.bind_some]
  dsimp only
  split
  · exact ⟨_, rfl, not_inScreen (.inr (by dsimp only; omega))⟩
  · exact ⟨_, rfl, not_inScreen (.inr (by dsimp only; omega))⟩

/-! ## Tabulators -/

section Tab

variable {str : WStr}

theorem tab_not_bel : ¬(TAB = 0x07 ∧ W.out.processed = true) := fun h => absurd h.1 (by decide)

variable (cc str) in
/-- A tabulator that is processed writes a blank. -/
theorem turnChar_tab (hx : W.out.IsColumn W.pos.x) (hp : W.out.processed = true) :
    ∃ W', W.turnChar cc TAB str = some W' ∧ ConsoleOutput.Kept W.out W'.out
      ∧ W'.out.joined = true ∧ W'.pos = ⟨short (W.pos.x + 1), W.pos.y⟩
      ∧ W'.sm = .writeStr (if short (W.pos.x + 1) % 8 = 0 then str else TAB :: str) := by
  have hsettled : W.out.leaveMargin (W.out.wraps TAB) W.pos = some (W.out, W.pos) := by
    rw [ConsoleOutput.leaveMargin, if_neg (by have hlt := hx.2.1; omega)]
  obtain ⟨hkept, hout, hjoined⟩ := ConsoleOutput.writeCharAt_spec cc W.out TAB W.pos
  rw [if_pos ⟨rfl, hp⟩] at hout
  have hput : W.out.putChar cc TAB W.pos = some ((W.out.writeCharAt cc TAB W.pos).1,
      ⟨short (W.pos.x + 1), W.pos.y⟩) := by
    rw [ConsoleOutput.putChar, if_neg (fun h => absurd h.1 (by decide)),
      if_neg (fun h => absurd h.1 (by decide)), if_neg (fun h => absurd h.1 (by decide)), ← hout]
  rw [turnChar, if_neg tab_not_bel, hsettled, Option.bind_eq_bind, Option.bind_some]
  dsimp only
  rw [hput, Option.bind_some]
  dsimp only
  rw [hkept.processed, hp]
  by_cases hstop : short (W.pos.x + 1) % 8 = 0
  · rw [if_pos (.inr (.inl hstop)), if_pos hstop]
    exact ⟨_, rfl, hkept, hjoined hx.1, rfl, rfl⟩
  · rw [if_neg (by simp [hstop]), if_neg hstop]
    exact ⟨_, rfl, hkept, hjoined hx.1, rfl, rfl⟩

theorem isRow_kept {O O' : ConsoleOutput} (hkept : ConsoleOutput.Kept O O') {y : Int}
    (hy : O.IsRow y) : O'.IsRow y := by
  have hheight : O'.buf.height = O.buf.height := congrArg Screen.height hkept.screen
  exact ⟨hy.1, hheight ▸ hy.2.1, hy.2.2⟩

theorem inScreen_of_column (hx : W.out.IsColumn W.pos.x) (hy : W.out.IsRow W.pos.y) :
    W.InScreen := by
  refine ⟨hx.1, ?_, hy.1, hy.2.1⟩
  have hlt := hx.2.1
  show W.pos.x ≤ W.out.buf.width + 1
  omega

variable (cc) in
/-- **A tabulator writes blanks up to the next stop**, and as far as the screen goes. -/
theorem tab_climb : ∀ (n : Nat) {W : Writing}, W.sm = .writeStr (TAB :: str) →
    W.out.processed = true → W.out.IsColumn W.pos.x → W.out.IsRow W.pos.y →
    W.pos.x + n + 1 ≤ W.out.buf.width → W.pos.x + n + 1 ≤ 32767 →
    W.pos.x + n + 1 ≤ Screen.nextStop W.pos.x →
    ∃ W', ConsoleOutput.Kept W.out W'.out ∧ W'.out.joined = true
      ∧ W'.pos = ⟨W.pos.x + n + 1, W.pos.y⟩
      ∧ W'.sm = .writeStr (if (W.pos.x + n + 1) % 8 = 0 then str else TAB :: str)
      ∧ (Ends cc W ↔ Ends cc W')
  | 0, W, hsm, hp, hx, hy, _, hshort, _ => by
    obtain ⟨W', hturn, hkept, hjoined, hpos, hsm'⟩ := turnChar_tab cc str hx hp
    have hx0 := hx.1
    rw [short_eq (by omega) (by omega)] at hpos hsm'
    have hends := ends_turn hsm (inScreen_of_column hx hy) hturn
    exact ⟨W', hkept, hjoined, by rw [hpos]; simp, by rw [hsm']; simp, hends⟩
  | n + 1, W, hsm, hp, hx, hy, hwidth, hshort, hstop => by
    obtain ⟨W1, hturn, hkept, hjoined, hpos, hsm1⟩ := turnChar_tab cc str hx hp
    have hx0 := hx.1
    rw [Screen.nextStop] at hstop
    rw [short_eq (by omega) (by omega)] at hpos hsm1
    rw [if_neg (by omega)] at hsm1
    have hends := ends_turn hsm (inScreen_of_column hx hy) hturn
    have hx1 : W1.pos.x = W.pos.x + 1 := by rw [hpos]
    have hy1 : W1.pos.y = W.pos.y := by rw [hpos]
    obtain ⟨W', hkept', hjoined', hpos', hsm', hends'⟩ := tab_climb n hsm1
      (by rw [hkept.processed]; exact hp)
      ⟨by omega, by rw [hkept.width]; omega, by omega⟩
      (by rw [hy1]; exact isRow_kept hkept hy)
      (by rw [hkept.width]; omega) (by omega) (by rw [Screen.nextStop]; omega)
    have hsum : W1.pos.x + n + 1 = W.pos.x + ((n + 1 : Nat) : Int) + 1 := by omega
    refine ⟨W', hkept.trans hkept', hjoined', ?_, ?_, hends.trans hends'⟩
    · rw [hpos', hy1, hsum]
    · rw [hsm', hsum]

/-- **Without wrapping a tabulator behind the last stop is never consumed.** -/
theorem tab_stuck (hends : Ends cc W) : W.sm = .writeStr (TAB :: str) → W.out.Sane →
    W.out.processed = true → W.out.wrapAtEol = false → W.out.buf.width % 8 ≠ 0 →
    W.out.buf.width ≤ 32767 → 8 * ((W.out.buf.width : Int) / 8) ≤ W.pos.x → W.pos.x ≤ 32767 →
    W.pos.y ≤ 32767 → False := by
  induction hends with
  | done _ hcount =>
    intro hsm
    rw [hsm] at hcount
    exact absurd hcount (Nat.succ_ne_zero _)
  | @turn W W' hin _ hturn hends ih =>
    intro hsm hO hp hw hmod hwidth hx hx1 hy1
    have hx0 : 0 ≤ W.pos.x := hin.1
    have hy : W.out.IsRow W.pos.y := ⟨hin.2.2.1, hin.2.2.2, hy1⟩
    rw [Writing.turn, hsm] at hturn
    have hturn : W.turnChar cc TAB str = some W' := hturn
    have hwraps : W.out.wraps TAB = false := by
      rw [ConsoleOutput.wraps, hw, Bool.false_and]
    obtain ⟨O1, pos1, hmargin, hkept1, -, hsettle⟩ :=
      ConsoleOutput.leaveMargin_spec TAB hO ⟨hx0, hx1⟩ hy W.out.joined
    rcases hsettle with ⟨-, hwrap, -⟩ | ⟨hsettle, hcolumn, hrow⟩
    · rw [hwraps] at hwrap
      exact Bool.false_ne_true hwrap
    · -- In front of the margin the column is still behind the last stop.
      have hx' : 8 * ((W.out.buf.width : Int) / 8) ≤ pos1.x := by
        rw [Screen.settle] at hsettle
        by_cases hlt : W.pos.x < W.out.buf.width
        · rw [if_pos (by exact hlt)] at hsettle
          have hxeq : W.pos.x = pos1.x := congrArg Caret.x (Option.some.inj hsettle)
          omega
        · rw [if_neg (by exact hlt), if_neg (by
            show ¬W.out.wraps TAB = true
            rw [hwraps]
            exact Bool.false_ne_true)] at hsettle
          have hxeq : (W.out.buf.width : Int) - 1 = pos1.x :=
            congrArg Caret.x (Option.some.inj hsettle)
          omega
      have hcolumn1 : O1.IsColumn pos1.x :=
        ⟨hcolumn.1, by rw [hkept1.width]; exact hcolumn.2.1, hcolumn.2.2⟩
      have hlt := hcolumn.2.1
      obtain ⟨W2, hturn2, hkept2, -, hpos2, hsm2⟩ := turnChar_tab cc str
        (W := { W with out := O1, pos := pos1 }) hcolumn1 (by
          show O1.processed = true
          rw [hkept1.processed]
          exact hp)
      rw [turnChar_settle _ _ tab_not_bel hmargin hkept1 hcolumn1.2.1] at hturn
      obtain rfl : W2 = W' := Option.some.inj (hturn2.symm.trans hturn)
      dsimp only at hpos2 hsm2 hkept2
      have hkept := hkept1.trans hkept2
      have hshort : short (pos1.x + 1) = pos1.x + 1 :=
        short_eq (by have h0 := hcolumn.1; omega) (by omega)
      rw [hshort, if_neg (by omega)] at hsm2
      refine ih hsm2 (hkept.sane hO) (hkept.processed.trans hp) ?_ ?_ ?_ ?_ ?_ ?_
      · rw [ConsoleOutput.wrapAtEol, hkept.mode]
        exact hw
      · rw [hkept.width]
        exact hmod
      · rw [hkept.width]
        exact hwidth
      · rw [hkept.width, hpos2, hshort]
        dsimp only
        omega
      · rw [hpos2, hshort]
        dsimp only
        omega
      · rw [hpos2]
        exact hrow.2.2

theorem nextStop_range (x : Int) : x < Screen.nextStop x ∧ Screen.nextStop x ≤ x + 8
    ∧ Screen.nextStop x % 8 = 0 := by
  rw [Screen.nextStop]
  omega

variable (cc) in
/-- The stop is in this row. -/
theorem tab_here (hsm : W.sm = .writeStr (TAB :: str)) (hp : W.out.processed = true)
    (hx : W.out.IsColumn W.pos.x) (hy : W.out.IsRow W.pos.y)
    (hstop : Screen.nextStop W.pos.x ≤ W.out.buf.width) (hshort : Screen.nextStop W.pos.x ≤ 32767) :
    ∃ W', Next W W' ⟨Screen.nextStop W.pos.x, W.pos.y, true⟩ str ∧ (Ends cc W ↔ Ends cc W') := by
  have hrange := nextStop_range W.pos.x
  have hx0 := hx.1
  have hdist : W.pos.x + ((Screen.nextStop W.pos.x - W.pos.x - 1).toNat : Int) + 1
      = Screen.nextStop W.pos.x := by omega
  obtain ⟨W', hkept, hjoined, hpos, hsm', hends⟩ := tab_climb cc
    (Screen.nextStop W.pos.x - W.pos.x - 1).toNat hsm hp hx hy
    (by rw [hdist]; exact hstop) (by rw [hdist]; exact hshort) (by rw [hdist])
  rw [hdist] at hpos hsm'
  rw [if_pos hrange.2.2] at hsm'
  refine ⟨W', ⟨hsm', hkept, ?_, ?_⟩, hends⟩
  · rw [caret_eq, ConsoleOutput.caretAt, hjoined, hpos]
  · rw [hpos]
    refine ⟨by dsimp only; omega, ?_, hshort, isRow_kept hkept hy⟩
    rw [hkept.width]
    dsimp only
    omega

/-- The stop would be the column behind `MAXSHORT`. -/
theorem tab_unnumbered (hsm : W.sm = .writeStr (TAB :: str)) (hp : W.out.processed = true)
    (hx : W.out.IsColumn W.pos.x) (hy : W.out.IsRow W.pos.y)
    (hstop : Screen.nextStop W.pos.x ≤ W.out.buf.width)
    (hshort : ¬Screen.nextStop W.pos.x ≤ 32767) : ¬Ends cc W := by
  have hlost : ∀ {W : Writing}, W.sm = .writeStr (TAB :: str) → W.out.processed = true →
      W.out.IsColumn W.pos.x → W.out.IsRow W.pos.y → W.pos.x = 32767 → ¬Ends cc W := by
    intro W hsm hp hx hy hlast hends
    obtain ⟨W1, hturn, -, -, hpos, -⟩ := turnChar_tab cc str hx hp
    refine not_ends (not_inScreen (.inl ?_))
      ((ends_turn hsm (inScreen_of_column hx hy) hturn).mp hends)
    rw [hpos, hlast]
    exact show short (32767 + 1) < 0 by decide
  have hx0 := hx.1
  have hx1 := hx.2.2
  have hrange := nextStop_range W.pos.x
  by_cases hlast : W.pos.x = 32767
  · exact hlost hsm hp hx hy hlast
  · have hdist : W.pos.x + ((32767 - W.pos.x - 1).toNat : Int) + 1 = 32767 := by omega
    obtain ⟨W1, hkept, -, hpos, hsm1, hends⟩ := tab_climb cc
      (32767 - W.pos.x - 1).toNat hsm hp hx hy
      (by rw [hdist]; omega) (by rw [hdist]) (by rw [hdist]; omega)
    rw [hdist] at hpos hsm1
    rw [if_neg (by decide)] at hsm1
    have hxpos : W1.pos.x = 32767 := by rw [hpos]
    have hypos : W1.pos.y = W.pos.y := by rw [hpos]
    refine fun h => hlost hsm1 (hkept.processed.trans hp) ⟨by omega, ?_, by omega⟩ ?_ hxpos
      (hends.mp h)
    · rw [hkept.width]
      omega
    · rw [hypos]
      exact isRow_kept hkept hy

variable (cc) in
/-- There is no stop left in this row: the blanks go up to the margin. -/
theorem tab_to_margin (hsm : W.sm = .writeStr (TAB :: str)) (hp : W.out.processed = true)
    (hx : W.out.IsColumn W.pos.x) (hy : W.out.IsRow W.pos.y)
    (hstop : ¬Screen.nextStop W.pos.x ≤ W.out.buf.width) :
    ∃ W1, ConsoleOutput.Kept W.out W1.out ∧ W1.pos = ⟨W.out.buf.width, W.pos.y⟩
      ∧ W1.sm = .writeStr (TAB :: str) ∧ W.out.buf.width ≤ 32767
      ∧ W.out.buf.width % 8 ≠ 0 ∧ (Ends cc W ↔ Ends cc W1) := by
  obtain ⟨hx0, hxw, hx1⟩ := hx
  rw [Screen.nextStop] at hstop
  have hdist : W.pos.x + (((W.out.buf.width : Int) - W.pos.x - 1).toNat : Int) + 1
      = W.out.buf.width := by omega
  obtain ⟨W1, hkept, -, hpos, hsm1, hends⟩ := tab_climb cc
    ((W.out.buf.width : Int) - W.pos.x - 1).toNat hsm hp ⟨hx0, hxw, hx1⟩ hy
    (by rw [hdist]) (by rw [hdist]; omega) (by rw [hdist, Screen.nextStop]; omega)
  rw [hdist] at hpos hsm1
  rw [if_neg (by omega)] at hsm1
  exact ⟨W1, hkept, hpos, hsm1, by omega, by omega, hends⟩

variable (cc) in
/-- Behind the margin the stop is the first one of the next row. -/
theorem tab_next_row (hsm : W.sm = .writeStr (TAB :: str)) (hO : W.out.Sane)
    (hp : W.out.processed = true) (hw : W.out.wrapAtEol = true)
    (hx : W.pos.x = W.out.buf.width) (hx1 : W.pos.x ≤ 32767) (hy : W.out.IsRow W.pos.y)
    (k : Caret) (hk : k.y = W.pos.y) :
    (W.out.screen.down k = none ∧ ¬Ends cc W)
      ∨ ∃ k' W', W.out.screen.down k = some k' ∧ Next W W' ⟨8, k'.y, true⟩ str
          ∧ (Ends cc W ↔ Ends cc W') := by
  have hwidth24 := hO.wf.width
  have hwraps : W.out.wraps TAB = true := by
    rw [ConsoleOutput.wraps, hw]
    simp [TAB, CR, LF]
  have hin : W.InScreen := by
    refine ⟨?_, ?_, hy.1, hy.2.1⟩
    · show 0 ≤ W.pos.x
      omega
    · show W.pos.x ≤ W.out.buf.width + 1
      omega
  obtain ⟨O1, y, hrow, hkept1, -, hdown⟩ := ConsoleOutput.nextRow_spec
    { W.pos with x := 0 } hO hy hk
  have hmargin : W.out.leaveMargin (W.out.wraps TAB) W.pos = some (O1, ⟨0, y⟩) := by
    rw [ConsoleOutput.leaveMargin, if_pos (by omega), if_pos hwraps]
    exact hrow
  rcases hdown with ⟨hnone, rfl⟩ | ⟨hsome, hrow1⟩
  · obtain ⟨W', hturn, hout⟩ := turnChar_lost cc str tab_not_bel hwraps hmargin
      hkept1 rfl
    exact .inl ⟨hnone, fun hends => not_ends hout ((ends_turn hsm hin hturn).mp hends)⟩
  · have hcolumn1 : O1.IsColumn 0 := ⟨Int.le_refl 0, by rw [hkept1.width]; omega, by decide⟩
    have hrow1' : O1.IsRow y := isRow_kept hkept1 hrow1
    have hwidth1 := hkept1.width
    have hturn := turnChar_settle cc str tab_not_bel hmargin hkept1 hcolumn1.2.1
    obtain ⟨W2, hturn2, -⟩ := turnChar_tab cc str
      (W := { W with out := O1, pos := ⟨0, y⟩ }) hcolumn1 (hkept1.processed.trans hp)
    have hends1 : Ends cc W ↔ Ends cc { W with out := O1, pos := ⟨0, y⟩ } :=
      ends_congr hsm hsm hin (inScreen_of_column hcolumn1 hrow1') (hturn.trans hturn2) hturn2
    obtain ⟨W', hn, hends⟩ := tab_here cc
      (W := { W with out := O1, pos := ⟨0, y⟩ }) hsm (hkept1.processed.trans hp) hcolumn1 hrow1'
      (by rw [show Screen.nextStop 0 = 8 from rfl]; dsimp only; omega)
      (show Screen.nextStop 0 ≤ 32767 by decide)
    exact .inr ⟨_, W', hsome, ⟨hn.sm, hkept1.trans hn.kept, hn.caret, hn.fits⟩,
      hends1.trans hends⟩

variable (cc) in
/-- **A tabulator in front of the margin.** -/
theorem ends_tab (hsm : W.sm = .writeStr (TAB :: str)) (hO : W.out.Sane)
    (hp : W.out.processed = true) (hx : W.out.IsColumn W.pos.x) (hy : W.out.IsRow W.pos.y) :
    (W.out.screen.tab W.caret = none ∧ ¬Ends cc W)
      ∨ ∃ k W', W.out.screen.tab W.caret = some k ∧ Next W W' k str ∧ (Ends cc W ↔ Ends cc W') := by
  have hcx : W.caret.x = W.pos.x := rfl
  have hwidth : W.out.screen.width = W.out.buf.width := rfl
  have hwrap : W.out.screen.wrap = W.out.wrapAtEol := rfl
  rw [Screen.tab, hcx, hwidth, hwrap]
  by_cases hstop : Screen.nextStop W.pos.x ≤ W.out.buf.width
  · rw [if_pos hstop]
    by_cases hshort : Screen.nextStop W.pos.x ≤ 32767
    · obtain ⟨W', hn, hends⟩ := tab_here cc hsm hp hx hy hstop hshort
      rw [if_pos hshort]
      exact .inr ⟨_, W', rfl, hn, hends⟩
    · rw [if_neg hshort]
      exact .inl ⟨rfl, tab_unnumbered hsm hp hx hy hstop hshort⟩
  · obtain ⟨W1, hkept, hpos, hsm1, hshort, hmod, hends⟩ := tab_to_margin cc hsm hp hx hy hstop
    have hx1 : W1.pos.x = W.out.buf.width := by rw [hpos]
    have hy1 : W1.pos.y = W.pos.y := by rw [hpos]
    have hrow1 : W1.out.IsRow W1.pos.y := by
      rw [hy1]
      exact isRow_kept hkept hy
    have hwrap1 : W1.out.wrapAtEol = W.out.wrapAtEol := by
      rw [ConsoleOutput.wrapAtEol, ConsoleOutput.wrapAtEol, hkept.mode]
    have hwidth1 := hkept.width
    rw [if_neg hstop]
    cases hw : W.out.wrapAtEol with
    | false =>
      rw [if_neg Bool.false_ne_true]
      refine .inl ⟨rfl, fun h => tab_stuck (hends.mp h) hsm1 (hkept.sane hO)
        (hkept.processed.trans hp) (hwrap1.trans hw) ?_ ?_ ?_ ?_ hrow1.2.2⟩ <;> omega
    | true =>
      rw [if_pos rfl]
      rcases tab_next_row cc hsm1 (hkept.sane hO) (hkept.processed.trans hp)
        (hwrap1.trans hw) (by omega) (by omega) hrow1 W.caret hy1.symm with
        ⟨hnone, hnot⟩ | ⟨k, W', hk, hn, hends'⟩
      · rw [hkept.screen] at hnone
        rw [hnone]
        exact .inl ⟨rfl, fun h => hnot (hends.mp h)⟩
      · rw [hkept.screen] at hk
        rw [hk]
        exact .inr ⟨_, W', rfl, ⟨hn.sm, hkept.trans hn.kept, hn.caret, hn.fits⟩,
          hends.trans hends'⟩

end Tab

/-! ## Characters and strings -/

variable {c : WChar} {str : WStr}

variable (cc) in
/-- **A character is consumed on the screen exactly when the caret has a next place.** -/
theorem ends_char (hsm : W.sm = .writeStr (c :: str)) (hO : W.out.Sane) (hfits : W.out.Fits W.pos) :
    (W.out.screen.advance cc W.caret c = none ∧ ¬Ends cc W)
      ∨ ∃ k W', W.out.screen.advance cc W.caret c = some k ∧ Next W W' k str
          ∧ (Ends cc W ↔ Ends cc W') := by
  have hin := inScreen_of_fits hfits
  have hprocessed : W.out.screen.processed = W.out.processed := rfl
  rw [Screen.advance, hprocessed]
  by_cases hbel : c = 0x07 ∧ W.out.processed = true
  · rw [if_pos hbel]
    have hturn : W.turnChar cc c str = some { W with sm := .writeStr str } := by
      rw [turnChar, if_pos hbel]
    exact .inr ⟨_, { W with sm := .writeStr str }, rfl, ⟨rfl, .refl W.out, rfl, hfits⟩,
      ends_turn hsm hin hturn⟩
  rw [if_neg hbel]
  obtain ⟨O1, pos1, hmargin, hkept1, hprev1, hsettle⟩ :=
    ConsoleOutput.leaveMargin_spec c hO ⟨hfits.1, hfits.2.2.1⟩ hfits.2.2.2 W.out.joined
  have hcaret : W.caret = ⟨W.pos.x, W.pos.y, W.out.joined⟩ := rfl
  rw [hcaret]
  rcases hsettle with ⟨hnone, hwraps, -, hy1⟩ | ⟨hsome, hcolumn, hrow⟩
  · obtain ⟨W', hturn, hout⟩ := turnChar_lost cc str hbel hwraps hmargin hkept1 hy1
    rw [hnone]
    exact .inl ⟨rfl, fun hends => not_ends hout ((ends_turn hsm hin hturn).mp hends)⟩
  · -- The turn is that of the caret in front of the margin.
    rw [hsome, Option.bind_some]
    have hjoined : O1.joined = W.out.joined := by
      rw [ConsoleOutput.joined, ConsoleOutput.joined, hprev1]
    have hO1 := hkept1.sane hO
    have hcolumn1 : O1.IsColumn pos1.x :=
      ⟨hcolumn.1, by rw [hkept1.width]; exact hcolumn.2.1, hcolumn.2.2⟩
    have hrow1 : O1.IsRow pos1.y := isRow_kept hkept1 hrow
    generalize hW1 : ({ W with out := O1, pos := pos1 } : Writing) = W1
    have hout1 : W1.out = O1 := by rw [← hW1]
    have hpos1 : W1.pos = pos1 := by rw [← hW1]
    have hsm1 : W1.sm = .writeStr (c :: str) := by rw [← hW1]; exact hsm
    have hcaret1 : W1.caret = ⟨pos1.x, pos1.y, W.out.joined⟩ := by
      rw [caret_eq, hout1, hpos1, ConsoleOutput.caretAt, hjoined]
    have hin1 : W1.InScreen := by
      refine inScreen_of_column ?_ ?_
      · rw [hout1, hpos1]
        exact hcolumn1
      · rw [hout1, hpos1]
        exact hrow1
    have hsettled : W.turnChar cc c str = W1.turnChar cc c str := by
      rw [turnChar_settle _ _ hbel hmargin hkept1 hcolumn1.2.1, ← hW1]
    have hscreen1 : W1.out.screen = W.out.screen := by
      rw [hout1]
      exact hkept1.screen
    have hnext : ∀ {W' : Writing} {k : Caret}, Next W1 W' k str → Next W W' k str := fun h =>
      ⟨h.sm, hkept1.trans (hout1 ▸ h.kept), h.caret, h.fits⟩
    have hput : W.out.screen.put cc c ⟨pos1.x, pos1.y, W.out.joined⟩
        = W1.out.screen.put cc c W1.caret := by rw [hscreen1, hcaret1]
    rw [hput]
    by_cases htab : c = TAB ∧ W.out.processed = true
    · obtain ⟨rfl, hp⟩ := htab
      have hp1 : W1.out.processed = true := by
        rw [hout1]
        exact hkept1.processed.trans hp
      have hput_tab : W1.out.screen.put cc TAB W1.caret = W1.out.screen.tab W1.caret := by
        rw [Screen.put, if_neg (fun h => absurd h.1 (by decide)),
          if_neg (fun h => absurd h.1 (by decide)), if_neg (fun h => absurd h.1 (by decide)),
          if_pos ⟨rfl, hp1⟩]
      obtain ⟨W2, hturn2, -⟩ := turnChar_tab cc str
        (by rw [hout1, hpos1]; exact hcolumn1) hp1
      have hends1 : Ends cc W ↔ Ends cc W1 :=
        ends_congr hsm hsm1 hin hin1 (hsettled.trans hturn2) hturn2
      rw [hput_tab]
      rcases ends_tab cc hsm1 (by rw [hout1]; exact hO1) hp1
        (by rw [hout1, hpos1]; exact hcolumn1) (by rw [hout1, hpos1]; exact hrow1) with
        ⟨hnone, hnot⟩ | ⟨k, W', hk, hn, hends⟩
      · exact .inl ⟨hnone, fun h => hnot (hends1.mp h)⟩
      · exact .inr ⟨k, W', hk, hnext hn, hends1.trans hends⟩
    · obtain ⟨W', hturn, hresult⟩ := turnChar_put cc c str (W := W1)
        (by rw [hout1]; exact hO1) (by rw [hout1, hpos1]; exact hcolumn1)
        (by rw [hout1, hpos1]; exact hrow1)
        (by rw [hout1, hkept1.processed]; exact hbel) (by rw [hout1, hkept1.processed]; exact htab)
      have hends : Ends cc W ↔ Ends cc W' := ends_turn hsm hin (hsettled.trans hturn)
      rcases hresult with ⟨hnone, hout⟩ | ⟨k, hk, hn⟩
      · exact .inl ⟨hnone, fun h => not_ends hout (hends.mp h)⟩
      · exact .inr ⟨k, W', hk, hnext hn, hends⟩

/-- **The loop ends on the screen exactly when the caret can be counted through the string.** -/
theorem ends_iff_advances : ∀ (str : WStr) {W : Writing}, W.sm = .writeStr str → W.out.Sane →
    W.out.Fits W.pos →
    (Ends cc W ↔ (W.out.screen.advances cc W.caret str).isSome = true)
  | [], W, hsm, _, hfits => by
    have hends : Ends cc W := .done (inScreen_of_fits hfits) (by rw [hsm]; rfl)
    exact ⟨fun _ => rfl, fun _ => hends⟩
  | c :: str, W, hsm, hO, hfits => by
    rw [Screen.advances, List.foldlM_cons]
    rcases ends_char cc hsm hO hfits with ⟨hnone, hnot⟩ | ⟨k, W', hk, hn, hends⟩
    · rw [hnone]
      exact ⟨fun h => absurd h hnot, fun h => absurd h (by simp)⟩
    · have ih := ends_iff_advances str hn.sm (hn.kept.sane hO) hn.fits
      rw [hn.kept.screen, hn.caret] at ih
      rw [hk, hends, ih]
      rfl

end Writing

/-! ## Regions and screens -/

namespace ConsoleOutput

theorem applyCoordinateLimits_range {v : Int} (limit : Nat) (hv : v ≤ 32767) :
    applyCoordinateLimits v limit ≤ 32767
      ∧ (1 ≤ limit → 0 ≤ applyCoordinateLimits v limit ∧ applyCoordinateLimits v limit < limit) := by
  rw [applyCoordinateLimits]
  split
  · omega
  · split
    · refine ⟨(short_range _).2, fun hlimit => ?_⟩
      rw [short_eq (by omega) (by omega)]
      omega
    · omega

/-- `SetScrollRegion` sets a region that begins in front of its end, or has one row only. -/
theorem regionOk_setScrollRegion {O : ConsoleOutput} (hB : O.buf.Wf) {top bottom : Int}
    (htop : top ≤ 32767) (hbottom : bottom ≤ 32767) : (O.setScrollRegion top bottom).RegionOk := by
  have hheight := hB.height
  obtain ⟨hb, hb'⟩ := applyCoordinateLimits_range O.buf.height hbottom
  obtain ⟨hb0, -⟩ := hb' (by omega)
  generalize hlast : applyCoordinateLimits bottom O.buf.height = last at hb hb0
  obtain ⟨-, ht⟩ := applyCoordinateLimits_range last.toNat htop
  have hset : O.setScrollRegion top bottom = { O with
      scrollTop := (applyCoordinateLimits top last.toNat % 65536).toNat
      scrollBottom := (last % 65536).toNat } := by
    rw [setScrollRegion, hlast]
  rw [hset]
  refine ⟨by dsimp only; omega, ?_⟩
  dsimp only
  by_cases hone : last = 0
  · right
    rw [hone]
    rfl
  · left
    have ht := ht (by omega)
    omega

/-- **Writing a string from a place on the screen ends on the screen exactly when the caret can be
counted through the string**: no tabulator is met behind the last stop where there is no wrapping,
and no column and no row is behind `MAXSHORT`. -/
theorem modifySequenceAt_ends (cc : CharClasses) (O : ConsoleOutput) (hB : O.buf.Wf)
    (top bottom : Int) (htop : top ≤ 32767) (hbottom : bottom ≤ 32767) (pos : Coord)
    (hx : O.IsColumn pos.x) (hy : O.IsRow pos.y) (str : WStr) :
    Writing.Ends cc ⟨O.setScrollRegion top bottom, .writeStr str, pos, 0⟩
      ↔ ((O.setScrollRegion top bottom).screen.advances cc ⟨pos.x, pos.y, O.prevPos.x ≥ 0⟩ str).isSome
          = true := by
  have hO : (O.setScrollRegion top bottom).Sane :=
    ⟨hB, regionOk_setScrollRegion hB htop hbottom⟩
  have hlt := hx.2.1
  exact Writing.ends_iff_advances str rfl hO
    ⟨hx.1, by show pos.x ≤ O.buf.width + 1; omega, hx.2.2, hy⟩

set_option maxRecDepth 20000 in
/-- A tabulator in the last column, with wrapping. -/
theorem modifySequenceAt_ends_wrap :
    let O : ConsoleOutput := { buf := ⟨25, List.replicate 300 ⟨0x20, 7⟩⟩ }
    Writing.Ends CharClasses.table ⟨O.setScrollRegion 0 11, .writeStr [TAB], ⟨24, 11⟩, 0⟩ :=
  (modifySequenceAt_ends CharClasses.table { buf := ⟨25, List.replicate 300 ⟨0x20, 7⟩⟩ }
    ⟨by decide, by decide, by decide⟩ 0 11 (by decide) (by decide) ⟨24, 11⟩
    ⟨by decide, by decide, by decide⟩ ⟨by decide, by decide, by decide⟩ [TAB]).mpr
    (by decide)

set_option maxRecDepth 20000 in
/-- **Without wrapping it is never consumed**, where the width is no multiple of 8. -/
theorem modifySequenceAt_not_ends :
    let O : ConsoleOutput := { buf := ⟨25, List.replicate 300 ⟨0x20, 7⟩⟩, mode := 1 }
    ¬Writing.Ends CharClasses.table ⟨O.setScrollRegion 0 11, .writeStr [TAB], ⟨24, 0⟩, 0⟩ := by
  intro O hends
  have hB : O.buf.Wf := ⟨by decide, by decide, by decide⟩
  have hcount := (Writing.ends_iff_advances [TAB] rfl
    ⟨hB, regionOk_setScrollRegion hB (by decide) (by decide)⟩
    ⟨by decide, by decide, by decide, by decide, by decide, by decide⟩).mp hends
  revert hcount
  decide

end ConsoleOutput

end Far2l
