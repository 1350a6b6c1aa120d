/-
Far2l.Console.FullWidth — a full-width character takes two cells, and when
`ModifySequenceEntityAt` leaves both of them to it.

The second cell is written only when writing the first one modifies it. Where the
first cell holds the character already, what the second one holds is kept.
-/
import Far2l.Console.ConsoleOutputTheorems

namespace Far2l

/-! ## One character -/

namespace ConsoleOutput

variable (cc : CharClasses) {O : ConsoleOutput} {c : WChar} {pos : Coord}

/-- `ModifySequenceEntityAt` takes the character as one of its own, two columns wide. -/
def WritesFullWidth (O : ConsoleOutput) (c : WChar) : Prop :=
  cc.isPrefix c = false ∧ ¬(O.prevPos.x ≥ 0 ∧ cc.suffix c = true) ∧ ¬(c = TAB ∧ O.processed = true)
    ∧ cc.fullWidth c = true

/-- The cell behind a position. -/
def second (pos : Coord) : Coord := ⟨pos.x + 1, pos.y⟩

/-- A cell holds the character and the cell behind it its continuation. -/
def OwnsBoth (O : ConsoleOutput) (c : WChar) (attributes : UInt64) (pos : Coord) : Prop :=
  O.buf.read pos = some ⟨c.toUInt64, attributes⟩
    ∧ O.buf.read (second pos) = some ⟨0, attributes⟩

/-- When both cells are written: the first one changes, or the second one is right already. The
column behind `MAXSHORT` has no number. -/
def BothWritten (O : ConsoleOutput) (c : WChar) (pos : Coord) : Prop :=
  (pos.x < 32767 ∧ O.buf.read pos ≠ some ⟨c.toUInt64, O.attributes⟩)
    ∨ O.buf.read (second pos) = some ⟨0, O.attributes⟩

instance (O : ConsoleOutput) (c : WChar) (pos : Coord) : Decidable (O.BothWritten c pos) :=
  inferInstanceAs (Decidable (_ ∨ _))

theorem writeCharAt_fullWidth (h : WritesFullWidth cc O c) (pos : Coord) :
    O.writeCharAt cc c pos
      = ({ O with prevPos := pos }.writeEntity ⟨c.toUInt64, O.attributes⟩ pos 2, 2) := by
  obtain ⟨hpre, hsuffix, htab, hfull⟩ := h
  rw [writeCharAt, if_neg (by rw [hpre]; exact Bool.false_ne_true), if_neg hsuffix, if_neg htab]
  simp [hfull]

theorem index_second (haddr : O.buf.addressable pos) :
    O.buf.index (second pos) = O.buf.index pos + 1 := by
  simp only [ConsoleBuffer.index, second]
  have hx := haddr.1
  omega

/-- **A full-width character owns both cells exactly when both were written.** -/
theorem ownsBoth_writeCharAt (h : WritesFullWidth cc O c) {d d' : CharInfo}
    (hx : -32768 ≤ pos.x ∧ pos.x ≤ 32767) (hread : O.buf.read pos = some d)
    (hread' : O.buf.read (second pos) = some d') :
    (O.writeCharAt cc c pos).1.OwnsBoth c O.attributes pos ↔ O.BothWritten c pos := by
  obtain ⟨haddr, -⟩ := ConsoleBuffer.read_some hread
  have hindex := index_second haddr
  rw [writeCharAt_fullWidth cc h, writeEntity, OwnsBoth, BothWritten, hread, hread']
  show _ ↔ _
  by_cases hd : d = ⟨c.toUInt64, O.attributes⟩
  · -- The first cell is the same: nothing is written.
    rw [ConsoleBuffer.write_same (by exact hd ▸ hread)]
    show O.buf.read pos = _ ∧ O.buf.read (second pos) = _ ↔ _
    rw [hread, hread', hd]
    simp
  · rw [ConsoleBuffer.write_modified (by exact hread) hd]
    have hwrite : ({ O.buf with
        chars := O.buf.chars.set (O.buf.index pos) ⟨c.toUInt64, O.attributes⟩ } : ConsoleBuffer)
        = (O.buf.write ⟨c.toUInt64, O.attributes⟩ pos).2 := by
      rw [ConsoleBuffer.write_modified hread hd]
    have hfirst : (O.buf.write ⟨c.toUInt64, O.attributes⟩ pos).2.read pos
        = some ⟨c.toUInt64, O.attributes⟩ := ConsoleBuffer.read_write_self hread
    have hsecond : (O.buf.write ⟨c.toUInt64, O.attributes⟩ pos).2.read (second pos) = some d' := by
      rw [ConsoleBuffer.read_write_other (by omega), hread']
    show ((_ : ConsoleBuffer).write _ _).2.read pos = _ ∧ ((_ : ConsoleBuffer).write _ _).2.read _ = _
      ↔ _
    rw [hwrite]
    generalize (O.buf.write ⟨c.toUInt64, O.attributes⟩ pos).2 = B at hfirst hsecond
    by_cases hlast : pos.x < 32767
    · -- The second cell is written as well.
      have hpos : (⟨short (pos.x + 1), pos.y⟩ : Coord) = second pos := by
        rw [short_eq (by omega) (by omega)]
        rfl
      have hne : B.index (second pos) ≠ B.index pos := by
        have hx0 := (ConsoleBuffer.read_some hfirst).1.1
        simp only [ConsoleBuffer.index, second]
        omega
      rw [hpos, ConsoleBuffer.read_write_other hne, hfirst, ConsoleBuffer.read_write_self hsecond]
      simp [hlast, hd]
    · -- There is no number for the column of the second cell.
      have hpos : (⟨short (pos.x + 1), pos.y⟩ : Coord) = ⟨-32768, pos.y⟩ := by
        rw [show pos.x = 32767 by omega]
        rfl
      have hbad : B.read ⟨-32768, pos.y⟩ = none := by
        rw [ConsoleBuffer.read, if_neg]
        rintro ⟨hneg, -⟩
        exact absurd hneg (show ¬(0 : Int) ≤ -32768 by decide)
      rw [hpos, ConsoleBuffer.write, hbad]
      simp [hlast, hfirst, hsecond]

end ConsoleOutput

/-! ## Calls of `WriteString` -/

/-- Both numbers are `SHORT`s. -/
def Coord.IsShort (pos : Coord) : Prop :=
  (-32768 ≤ pos.x ∧ pos.x ≤ 32767) ∧ -32768 ≤ pos.y ∧ pos.y ≤ 32767

/-- The states of the loops of `ModifySequenceAt` while strings are written one after the other.
Between two of them the cursor, the attributes and the mode may be set. -/
inductive Session (cc : CharClasses) (start : ConsoleOutput) : Writing → Prop where
  | first (str : WStr) : Session cc start ⟨start, .writeStr str, start.cursorPos, 0⟩
  | turn {W W' : Writing} (h : Session cc start W) (hturn : W.turn cc = some W') :
      Session cc start W'
  | next {W : Writing} (str : WStr) (pos : Coord) (attributes : UInt64) (mode : UInt32)
      (h : Session cc start W) (hdone : W.sm.count = 0) (hpos : pos.IsShort) :
      Session cc start
        ⟨{ W.out with cursorPos := pos, attributes := attributes, mode := mode }, .writeStr str,
          pos, 0⟩

namespace ConsoleOutput

variable {cc : CharClasses} {O O' : ConsoleOutput} {pos pos' : Coord}

theorem nextRow_short (h : O.nextRow pos = some (O', pos')) (hpos : pos.IsShort) :
    pos'.IsShort := by
  rw [nextRow] at h
  split at h
  · obtain ⟨O1, -, h1⟩ := Option.map_eq_some_iff.mp h
    obtain ⟨-, rfl⟩ := Prod.mk.inj h1
    exact ⟨hpos.1, short_range _⟩
  · obtain ⟨-, rfl⟩ := Prod.mk.inj (Option.some.inj h)
    exact ⟨hpos.1, short_range _⟩

theorem leaveMargin_short {wraps : Bool} (h : O.leaveMargin wraps pos = some (O', pos'))
    (hpos : pos.IsShort) : pos'.IsShort := by
  rw [leaveMargin] at h
  split at h
  · split at h
    · exact nextRow_short h ⟨⟨show (-32768 : Int) ≤ 0 by decide, show (0 : Int) ≤ 32767 by decide⟩,
        hpos.2⟩
    · obtain ⟨-, rfl⟩ := Prod.mk.inj (Option.some.inj h)
      exact ⟨short_range _, hpos.2⟩
  · obtain ⟨-, rfl⟩ := Prod.mk.inj (Option.some.inj h)
    exact hpos

theorem putChar_short {c : WChar} (h : O.putChar cc c pos = some (O', pos'))
    (hpos : pos.IsShort) : pos'.IsShort := by
  rw [putChar] at h
  split at h
  · obtain ⟨-, rfl⟩ := Prod.mk.inj (Option.some.inj h)
    split
    · exact ⟨short_range _, hpos.2⟩
    · exact hpos
  split at h
  · obtain ⟨-, rfl⟩ := Prod.mk.inj (Option.some.inj h)
    exact ⟨⟨show (-32768 : Int) ≤ 0 by decide, show (0 : Int) ≤ 32767 by decide⟩, hpos.2⟩
  split at h
  · exact nextRow_short h hpos
  · obtain ⟨-, rfl⟩ := Prod.mk.inj (Option.some.inj h)
    exact ⟨short_range _, hpos.2⟩

end ConsoleOutput

/-- The turn of a character. -/
theorem turnChar_short {cc : CharClasses} {W W' : Writing} {c : WChar} {str : WStr}
    (h : W.turnChar cc c str = some W') (hpos : W.pos.IsShort) :
    W'.pos.IsShort ∧ ∃ str', W'.sm = .writeStr str' := by
  rw [Writing.turnChar] at h
  split at h
  · obtain rfl := Option.some.inj h
    exact ⟨hpos, str, rfl⟩
  · obtain ⟨⟨O1, pos1⟩, hmargin, h⟩ := Option.bind_eq_some_iff.mp h
    obtain ⟨⟨O2, pos2⟩, hput, h⟩ := Option.bind_eq_some_iff.mp h
    have hshort := ConsoleOutput.putChar_short hput (ConsoleOutput.leaveMargin_short hmargin hpos)
    dsimp only at h
    split at h
    · obtain rfl := Option.some.inj h
      exact ⟨hshort, _, rfl⟩
    · obtain rfl := Option.some.inj h
      exact ⟨hshort, _, rfl⟩

/-- In every state the position is one of `SHORT`s, and a string is being written. -/
theorem Session.short {cc : CharClasses} {start : ConsoleOutput} {W : Writing}
    (h : Session cc start W) (hstart : start.cursorPos.IsShort) :
    W.pos.IsShort ∧ ∃ str, W.sm = .writeStr str := by
  induction h with
  | first str => exact ⟨hstart, str, rfl⟩
  | @turn W W' _ hturn ih =>
    obtain ⟨hpos, str, hsm⟩ := ih
    rw [Writing.turn, hsm] at hturn
    cases str with
    | nil =>
      obtain rfl := Option.some.inj hturn
      exact ⟨hpos, [], hsm⟩
    | cons c str => exact turnChar_short hturn hpos
  | next str pos attributes mode _ _ hpos _ => exact ⟨hpos, str, rfl⟩

/-- **In every run of `WriteString` calls, a full-width character that has been written owns both
of its cells exactly when the first of them was another one before, or the second one was its
continuation already.** `O` and `pos` are the console and the position in front of the margin, where
the turn writes the character. -/
theorem session_ownsBoth {cc : CharClasses} {start : ConsoleOutput}
    (hstart : start.cursorPos.IsShort) {W : Writing} (h : Session cc start W) {c : WChar} {str : WStr}
    (hsm : W.sm = .writeStr (c :: str)) {O : ConsoleOutput} {pos : Coord}
    (hmargin : W.out.leaveMargin (W.out.wraps c) W.pos = some (O, pos))
    (hcontrol : ¬(W.out.processed = true ∧ c = 0x07)
      ∧ ¬(O.processed = true ∧ (c = 0x08 ∨ c = CR ∨ c = LF)))
    (hfull : O.WritesFullWidth cc c) (hfirst : (O.buf.read pos).isSome = true)
    (hsecond : (O.buf.read (ConsoleOutput.second pos)).isSome = true) :
    ∃ W', W.turn cc = some W' ∧ (W'.out.OwnsBoth c O.attributes pos ↔ O.BothWritten c pos) := by
  obtain ⟨hpos, -⟩ := h.short hstart
  have hshort := ConsoleOutput.leaveMargin_short hmargin hpos
  obtain ⟨d, hread⟩ := Option.isSome_iff_exists.mp hfirst
  obtain ⟨d', hread'⟩ := Option.isSome_iff_exists.mp hsecond
  have howns := ConsoleOutput.ownsBoth_writeCharAt cc hfull hshort.1 hread hread'
  have hput : O.putChar cc c pos = some ((O.writeCharAt cc c pos).1,
      { pos with x := short (pos.x + (O.writeCharAt cc c pos).2) }) := by
    rw [ConsoleOutput.putChar, if_neg (fun hc => hcontrol.2 ⟨hc.2, .inl hc.1⟩),
      if_neg (fun hc => hcontrol.2 ⟨hc.2, .inr (.inl hc.1)⟩),
      if_neg (fun hc => hcontrol.2 ⟨hc.2, .inr (.inr hc.1)⟩)]
  rw [Writing.turn, hsm]
  show ∃ W', W.turnChar cc c str = some W' ∧ _
  rw [Writing.turnChar, if_neg (fun hc => hcontrol.1 ⟨hc.2, hc.1⟩), hmargin, Option.bind_eq_bind,
    Option.bind_some]
  dsimp only
  rw [hput, Option.bind_some]
  dsimp only
  split
  · exact ⟨_, rfl, howns⟩
  · exact ⟨_, rfl, howns⟩

/-- A full-width character on a blank screen. -/
theorem session_ownsBoth_blank :
    let O : ConsoleOutput := { buf := ⟨24, List.replicate 288 ⟨0x20, 7⟩⟩ }
    ∃ W', Writing.turn CharClasses.table ⟨O, .writeStr [0x4E00], ⟨0, 0⟩, 0⟩ = some W'
      ∧ (W'.out.OwnsBoth 0x4E00 7 ⟨0, 0⟩ ↔ O.BothWritten 0x4E00 ⟨0, 0⟩) :=
  @session_ownsBoth CharClasses.table { buf := ⟨24, List.replicate 288 ⟨0x20, 7⟩⟩ }
    ⟨by decide, by decide⟩ _ (.first [0x4E00]) _ _ rfl _ _ rfl ⟨by decide, by decide⟩
    ⟨by decide, by decide, by decide, by decide +kernel⟩ (by decide +kernel)
    (by decide)

/-- **The same character again, after its second cell was overwritten**: the first cell is the same,
and the second one keeps the letter. -/
theorem session_not_ownsBoth :
    let O : ConsoleOutput :=
      { buf := ⟨24, ⟨0x4E00, 7⟩ :: ⟨0x61, 7⟩ :: List.replicate 286 ⟨0x20, 7⟩⟩ }
    O.WritesFullWidth CharClasses.table 0x4E00
      ∧ ∃ W', Writing.turn CharClasses.table ⟨O, .writeStr [0x4E00], ⟨0, 0⟩, 0⟩ = some W'
        ∧ ¬W'.out.OwnsBoth 0x4E00 7 ⟨0, 0⟩ := by
  intro O
  refine ⟨⟨by decide, by decide, by decide, by decide +kernel⟩, ?_⟩
  have hcell : ((Writing.turn CharClasses.table ⟨O, .writeStr [0x4E00], ⟨0, 0⟩, 0⟩).map
      fun W => W.out.buf.read ⟨1, 0⟩) = some (some ⟨0x61, 7⟩) := by decide
  obtain ⟨W', hturn, hread⟩ := Option.map_eq_some_iff.mp hcell
  refine ⟨W', hturn, fun howns => ?_⟩
  have hsecond : W'.out.buf.read ⟨1, 0⟩ = some ⟨0, 7⟩ := howns.2
  rw [hread] at hsecond
  exact absurd hsecond (by decide)

end Far2l
