/-
Far2l.VT.EditingTheorems — where the sequences that shift lines and characters do
what the reference does.

`Scroll` fills the source before it writes the destination. When the cells are
shifted by more than half, there are places that neither of the two covers; and
a source or a destination that a `SHORT` has no number for is somewhere else, or
nowhere. The screen of `marks` shows each of these.
-/
import Far2l.Console.FillTheorems
import Far2l.VT.Editing

namespace Far2l

namespace VT

open ConsoleBuffer

namespace Terminal

variable {Font : Type} {T : Terminal Font} {G : Geometry} {n : Nat}

/-! ## Parts of the screen -/

theorem At.info (hT : T.At G) (hG : G.Valid) :
    T.info = ⟨⟨G.width, G.height⟩, ⟨G.column, G.row⟩, T.console.attributes,
      ⟨0, 0, (G.width : Int) - 1, (G.height : Int) - 1⟩⟩ := by
  have hwidth := hG.width
  have hheight := hG.height
  rw [Terminal.info, ConsoleOutput.getConsoleScreenBufferInfo, hT.cursor, hT.width,
    hT.sized.height_eq, short_eq (by omega) (by omega), short_eq (by omega) (by omega),
    short_eq (by omega) (by omega), short_eq (by omega) (by omega)]

theorem At.scrollWindow (hT : T.At G) (hG : G.Valid) :
    T.scrollWindow = ⟨0, G.first, (G.width - 1 : Nat), G.last⟩ := by
  have hwidth := hG.width
  have hcolumn := hG.column
  have hright : short ((G.width : Int) - 1) = (G.width - 1 : Nat) := by
    rw [short_eq (by omega) (by omega)]
    omega
  have hfirst : ∀ v : Int, (if 0 < v then v else 0) = max 0 v := fun v => by split <;> omega
  have hlast : ∀ u v : Int, (if u > v then v else u) = min u v := fun u v => by split <;> omega
  rw [Terminal.scrollWindow, hT.info hG, limitByScrollRegion]
  dsimp only
  rw [hright, hT.first, hT.last, hfirst, hlast]

theorem At.restWindow (hT : T.At G) (hG : G.Valid) :
    T.restWindow = ⟨G.column, 0, (G.width - 1 : Nat), (G.height - 1 : Nat)⟩ := by
  have hwidth := hG.width
  have hcolumn := hG.column
  have hregion := hG.region
  rw [Terminal.restWindow, hT.info hG]
  dsimp only
  rw [short_eq (by omega) (by omega), show (G.width : Int) - 1 = (G.width - 1 : Nat) from by omega,
    show (G.height : Int) - 1 = (G.height - 1 : Nat) from by omega]

/-- Rows that are scrolled inside the screen. -/
theorem At.scroll_rows (hT : T.At G) (hG : G.Valid) (t b ct cb : Nat) (hrows : t ≤ b ∧ b < G.height)
    (hclip : ct ≤ cb ∧ cb < G.height) (py : Int) (hy : -32768 ≤ py ∧ py ≤ 32767) :
    ∃ T', T.scroll ⟨0, t, (G.width - 1 : Nat), b⟩ (some ⟨0, ct, (G.width - 1 : Nat), cb⟩) ⟨0, py⟩
        = some T'
      ∧ T.console.buf.SameSize T'.console.buf
      ∧ ∀ x y, x < G.width → y < G.height → T'.console.buf.cell x y
          = if ct ≤ y ∧ y ≤ cb then
              if py ≤ y ∧ y ≤ short (py + (b - t)) then
                T.console.buf.cell x ((y : Int) - py + t).toNat
              else if t ≤ y ∧ y ≤ b then some T.blank else T.console.buf.cell x y
            else T.console.buf.cell x y := by
  have hwidth := hG.width
  have hcolumn := hG.column
  have hbuf := hT.width
  obtain ⟨O', hscroll, hsame, hcells⟩ := ConsoleOutput.scroll_inside hT.sized 0 t (G.width - 1) b
    (by omega) hrows 0 ct (G.width - 1) cb (by omega) hclip ⟨0, py⟩ (by simp) hy T.blank
  refine ⟨{ T with console := O' }, ?_, hsame, fun x y hx hy => ?_⟩
  · rw [scroll, onConsole]
    exact (congrArg (Option.map _) hscroll).trans rfl
  · refine (hcells x y (by omega) hy).trans ?_
    have hshort : short (0 + (((G.width - 1 : Nat) : Int) - 0)) = (G.width - 1 : Nat) := by
      rw [short_eq (by omega) (by omega)]
      omega
    have hin : ∀ first last : Int, InRect ⟨0, first, (G.width - 1 : Nat), last⟩ x y
        ↔ first ≤ y ∧ y ≤ last := by
      intro first last
      dsimp only [InRect]
      omega
    simp only [Int.ofNat_zero, hshort, hin, Int.ofNat_le]
    rw [show ((x : Int) - 0 + 0).toNat = x from by omega]

/-- Characters of the row of the cursor that are scrolled inside the screen. -/
theorem At.scroll_columns (hT : T.At G) (hG : G.Valid) (l : Nat) (hl : l < G.width) (px : Int)
    (hx : -32768 ≤ px ∧ px ≤ 32767) :
    ∃ T', T.scroll ⟨l, G.row, (G.width - 1 : Nat), G.row⟩
        (some ⟨G.column, 0, (G.width - 1 : Nat), (G.height - 1 : Nat)⟩) ⟨px, G.row⟩ = some T'
      ∧ T.console.buf.SameSize T'.console.buf
      ∧ ∀ x y, x < G.width → y < G.height → T'.console.buf.cell x y
          = if y = G.row ∧ G.column ≤ x then
              if px ≤ x ∧ x ≤ short (px + ((G.width - 1 : Nat) - l)) then
                T.console.buf.cell ((x : Int) - px + l).toNat y
              else if l ≤ x then some T.blank else T.console.buf.cell x y
            else T.console.buf.cell x y := by
  have hwidth := hG.width
  have hheight := hG.height
  have hcolumn := hG.column
  have hrow := hG.row
  have hregion := hG.region
  have hbuf := hT.width
  obtain ⟨O', hscroll, hsame, hcells⟩ := ConsoleOutput.scroll_inside hT.sized l G.row (G.width - 1)
    G.row (by omega) (by omega) G.column 0 (G.width - 1) (G.height - 1) (by omega) (by omega) ⟨px, G.row⟩ hx (by dsimp only; omega) T.blank
  refine ⟨{ T with console := O' }, ?_, hsame, fun x y hxw hy => ?_⟩
  · rw [scroll, onConsole]
    exact (congrArg (Option.map _) hscroll).trans rfl
  · refine (hcells x y (by omega) hy).trans ?_
    have hshort : short ((G.row : Int) + ((G.row : Int) - G.row)) = G.row := by
      rw [short_eq (by omega) (by omega)]
      omega
    have hclip : InRect ⟨G.column, (0 : Nat), (G.width - 1 : Nat), (G.height - 1 : Nat)⟩ x y
        ↔ G.column ≤ x := by
      dsimp only [InRect]
      omega
    have hdst : ∀ last : Int, InRect ⟨px, G.row, last, G.row⟩ x y
        ↔ y = G.row ∧ px ≤ x ∧ x ≤ last := by
      intro last
      dsimp only [InRect]
      omega
    have hsrc : InRect ⟨l, G.row, (G.width - 1 : Nat), G.row⟩ x y ↔ y = G.row ∧ l ≤ x := by
      dsimp only [InRect]
      omega
    simp only [hshort, hclip, hdst, hsrc]
    by_cases hy' : y = G.row
    · subst hy'
      simp only [true_and]
      rw [show ((G.row : Int) - G.row + G.row).toNat = G.row from by omega]
    · simp only [hy', false_and, if_false, ite_self]

/-! ## What is shifted -/

theorem short_mod (v : Int) :
    ∃ k : Int, short v = v - 65536 * k ∧ -32768 ≤ short v ∧ short v ≤ 32767 := by
  have hrange := short_range v
  exact ⟨(v + 32768) / 65536, by rw [short]; omega, hrange⟩

/-- Places that are shifted towards the first one. -/
theorem pulled_in {first last i : Nat} (hin : first ≤ i ∧ i ≤ last) :
    pulled first last n i
      = if i + min n (last + 1 - first) ≤ last then some (i + min n (last + 1 - first)) else none :=
  if_pos hin

theorem pulled_out {first last i : Nat} (hout : ¬(first ≤ i ∧ i ≤ last)) :
    pulled first last n i = some i := if_neg hout

theorem pushed_in {first last i : Nat} (hin : first ≤ i ∧ i ≤ last) :
    pushed first last n i
      = if first + min n (last + 1 - first) ≤ i then some (i - min n (last + 1 - first)) else none :=
  if_pos hin

theorem pushed_out {first last i : Nat} (hout : ¬(first ≤ i ∧ i ≤ last)) :
    pushed first last n i = some i := if_neg hout

/-- A sum of `SHORT`s is cut once. -/
theorem short_short_add (v w : Int) : short (short v + w) = short (v + w) := by
  rw [short, short, short]
  omega

/-- What is at a place behind `Scroll` has moved `n` places up, where the destination ends at a number
that a `SHORT` has, or the destination is not in the region. -/
theorem pushed_place {α : Type} {top first last i : Nat}
    (htop : top ≤ first) (hin : first ≤ i ∧ i ≤ last)
    (h : if first + n ≤ last then last + n ≤ 32767
      else (last : Int) < short (first + n) ∨ short ((last : Int) + n) < top)
    (old : Nat → α) (blank : α) :
    (if short (first + n) ≤ i ∧ i ≤ short (short (first + n) + ((last : Int) - first)) then
        old ((i : Int) - short (first + n) + first).toNat
      else blank) = (pushed first last n i).elim blank old := by
  have hsum : (first : Int) + n + ((last : Int) - first) = last + n := by omega
  rw [pushed_in hin, short_short_add, hsum]
  split at h
  · rw [short_eq (by omega) (by omega), short_eq (by omega) (by omega)]
    by_cases hmoved : first + min n (last + 1 - first) ≤ i
    · rw [if_pos hmoved, if_pos (by omega), Option.elim_some]
      exact congrArg old (by omega)
    · rw [if_neg hmoved, if_neg (by omega), Option.elim_none]
  · rw [if_neg (by omega), if_neg (by omega), Option.elim_none]

/-- No place in front of the region is in the destination. -/
theorem pushed_front {top first last i : Nat} (hlast : first ≤ last ∧ last ≤ 32767)
    (hi : top ≤ i ∧ i < first)
    (h : if first + n ≤ last then last + n ≤ 32767
      else (last : Int) < short (first + n) ∨ short ((last : Int) + n) < top) :
    ¬(short (first + n) ≤ i ∧ i ≤ short (short (first + n) + ((last : Int) - first))) := by
  have hsum : (first : Int) + n + ((last : Int) - first) = last + n := by omega
  rw [short_short_add, hsum]
  split at h
  · rw [short_eq (by omega) (by omega)]
    omega
  · omega

/-- What is at a place behind `Scroll` has moved `n` places down. -/
theorem pulled_place {α : Type} {first last i : Nat} (hlast : last ≤ 32767)
    (hin : first ≤ i ∧ i ≤ last)
    (h : first + n ≤ last ∨ (last : Int) < short ((first : Int) - n)
      ∨ short ((last : Int) - n) < first)
    (old : Nat → α) (blank : α) :
    (if short ((first : Int) - n) ≤ i
        ∧ i ≤ short (short ((first : Int) - n) + ((last : Int) - first)) then
        old ((i : Int) - short ((first : Int) - n) + first).toNat
      else blank) = (pulled first last n i).elim blank old := by
  have hsum : (first : Int) - n + ((last : Int) - first) = last - n := by omega
  rw [pulled_in hin, short_short_add, hsum]
  by_cases hn : first + n ≤ last
  · rw [short_eq (by omega) (by omega), short_eq (by omega) (by omega)]
    by_cases hmoved : i + min n (last + 1 - first) ≤ last
    · rw [if_pos hmoved, if_pos (by omega), Option.elim_some]
      exact congrArg old (by omega)
    · rw [if_neg hmoved, if_neg (by omega), Option.elim_none]
  · rw [if_neg (by omega), if_neg (by omega), Option.elim_none]

theorem At.scrollUp_shifts (hT : T.At G) (hG : G.Valid) (hn : 1 ≤ n)
    (h : Editing.Exact G n .scrollUp) : T.Shifts G .scrollUp n (T.scrollUp n) := by
  obtain ⟨hpos, hcases⟩ := h
  have hregion := hG.region
  have hheight := hG.height
  have hrow := hG.row
  have hmod := short_mod n
  obtain ⟨l, hl⟩ : ∃ l : Nat, short n = l := ⟨(short n).toNat, by omega⟩
  rw [hl] at hcases hmod
  rw [scrollUp, hT.scrollWindow hG, hT.info hG]
  dsimp only
  rw [Int.zero_add, hl]
  obtain ⟨T', hscroll, hsame, hcells⟩ := hT.scroll_rows hG l G.last G.first G.last (by omega)
    (by omega) 0 (by omega)
  rw [Int.zero_add, short_eq (v := (G.last : Int) - l) (by omega) (by omega)] at hcells
  refine ⟨T', hscroll, hsame, fun x y hx hy => ?_⟩
  rw [hcells x y hx hy, Editing.reference, Editing.lines]
  by_cases hin : G.first ≤ y ∧ y ≤ G.last
  · rw [if_pos hin, pulled_in hin]
    by_cases hmoved : y + min n (G.last + 1 - G.first) ≤ G.last
    · rw [if_pos hmoved, if_pos (by omega), Option.elim_some]
      exact congrArg (T.console.buf.cell x) (by omega)
    · rw [if_neg hmoved, if_neg (by omega), if_pos (by omega), Option.elim_none]
  · rw [if_neg hin, pulled_out hin, Option.elim_some]

theorem At.scrollDown_shifts (hT : T.At G) (hG : G.Valid) (hn : 1 ≤ n)
    (h : Editing.Exact G n .scrollDown) : T.Shifts G .scrollDown n (T.scrollDown n) := by
  have hhalf : 2 * n + G.first ≤ G.last + 1 := h
  have hregion := hG.region
  have hheight := hG.height
  have hrow := hG.row
  rw [scrollDown, hT.scrollWindow hG]
  dsimp only
  rw [short_eq (v := (G.last : Int) - n) (by omega) (by omega),
    short_eq (v := (G.first : Int) + n) (by omega) (by omega),
    show (G.last : Int) - n = (G.last - n : Nat) from by omega]
  obtain ⟨T', hscroll, hsame, hcells⟩ := hT.scroll_rows hG G.first (G.last - n) G.first G.last (by omega)
    (by omega) ((G.first : Int) + n) (by omega)
  rw [short_eq (by omega) (by omega)] at hcells
  refine ⟨T', hscroll, hsame, fun x y hx hy => ?_⟩
  rw [hcells x y hx hy, Editing.reference, Editing.lines]
  by_cases hin : G.first ≤ y ∧ y ≤ G.last
  · rw [if_pos hin, pushed_in hin]
    by_cases hmoved : G.first + min n (G.last + 1 - G.first) ≤ y
    · rw [if_pos hmoved, if_pos (by omega), Option.elim_some]
      exact congrArg (T.console.buf.cell x) (by omega)
    · rw [if_neg hmoved, if_neg (by omega), if_pos (by omega), Option.elim_none]
  · rw [if_neg hin, pushed_out hin, Option.elim_some]

theorem At.insertLines_shifts (hT : T.At G) (hG : G.Valid)
    (h : Editing.Exact G n .insertLines) : T.Shifts G .insertLines n (T.insertLines n) := by
  have hregion := hG.region
  have hheight := hG.height
  have hrow := hG.row
  obtain ⟨k, -, hpy⟩ := short_mod ((G.row : Int) + n)
  rw [insertLines, hT.scrollWindow hG, hT.info hG]
  dsimp only
  obtain ⟨T', hscroll, hsame, hcells⟩ := hT.scroll_rows hG G.row G.last G.first G.last (by omega)
    (by omega) _ hpy
  refine ⟨T', hscroll, hsame, fun x y hx hy => ?_⟩
  rw [hcells x y hx hy, Editing.reference, Editing.lines]
  by_cases hin : G.row ≤ y ∧ y ≤ G.last
  · rw [if_pos (by omega), if_pos hin]
    exact pushed_place hrow.1 hin h (T.console.buf.cell x) _
  · rw [pushed_out hin, Option.elim_some]
    by_cases hclip : G.first ≤ y ∧ y ≤ G.last
    · rw [if_pos hclip, if_neg (pushed_front ⟨hrow.2, by omega⟩ ⟨hclip.1, by omega⟩ h),
        if_neg (by omega)]
    · rw [if_neg hclip]

theorem At.deleteLines_shifts (hT : T.At G) (hG : G.Valid)
    (h : Editing.Exact G n .deleteLines) : T.Shifts G .deleteLines n (T.deleteLines n) := by
  have hregion := hG.region
  have hheight := hG.height
  have hrow := hG.row
  obtain ⟨k, -, hpy⟩ := short_mod ((G.row : Int) - n)
  rw [deleteLines, hT.scrollWindow hG, hT.info hG]
  dsimp only
  obtain ⟨T', hscroll, hsame, hcells⟩ := hT.scroll_rows hG G.row G.last G.row G.last (by omega)
    (by omega) _ hpy
  refine ⟨T', hscroll, hsame, fun x y hx hy => ?_⟩
  rw [hcells x y hx hy, Editing.reference, Editing.lines]
  by_cases hin : G.row ≤ y ∧ y ≤ G.last
  · rw [if_pos hin, if_pos hin]
    exact pulled_place (by omega) hin h (T.console.buf.cell x) _
  · rw [if_neg hin, pulled_out hin, Option.elim_some]

/-- What `Read` leaves of a rectangle that begins in front of the screen. -/
theorem At.readArea_front (hT : T.At G) (hG : G.Valid) (data : List CharInfo) {l : Int} {sx : Nat}
    (hl : l < 0) (hsx : (sx : Int) = G.width - l) (hsx' : sx ≤ 32767) :
    T.console.buf.readArea data ⟨sx, (1 : Nat)⟩ ⟨0, 0⟩ ⟨l, G.row, (G.width - 1 : Nat), G.row⟩
      = some (data, ⟨l, G.row, (G.width - 1 : Nat), G.row⟩) := by
  have hwidth := hG.width
  have hheight := hG.height
  have hcolumn := hG.column
  have hrow := hG.row
  have hregion := hG.region
  have hx : cutToData (short ((sx : Int) - 0)) l (cutToScreen G.width (G.width - 1 : Nat))
      = (G.width - 1 : Nat) := by
    rw [cutToScreen_of_lt (by omega), short_eq (by omega) (by omega), cutToData, if_neg (by omega)]
  have hy : cutToData (short (((1 : Nat) : Int) - 0)) G.row (cutToScreen G.height G.row) = G.row := by
    rw [cutToScreen_of_lt (by omega), short_eq (by omega) (by omega), cutToData, if_neg (by omega)]
  rw [readArea, inspectCopyArea, if_neg (by simp only [ge_iff_le, not_or]; omega)]
  dsimp only
  rw [hT.sized.height_eq, hT.width, hx, hy, if_pos (by omega)]

theorem At.deleteChars_shifts (hT : T.At G) (hG : G.Valid) (hn : 1 ≤ n)
    (h : Editing.Exact G n .deleteChars) : T.Shifts G .deleteChars n (T.deleteChars n) := by
  have hcases : 2 * n + G.column ≤ G.width
      ∨ short ((G.column : Int) + n) ≤ G.column ∧ (G.width : Int) - short (G.column + n) ≤ 32767
        ∧ 32767 < (G.column : Int) + (G.width - 1 - short (G.column + n)) := h
  have hwidth := hG.width
  have hcolumn := hG.column
  have hregion := hG.region
  have hrow := hG.row
  have hheight := hG.height
  have hbuf := hT.width
  obtain ⟨k, hk, hrange⟩ := short_mod ((G.column : Int) + n)
  rw [deleteChars, hT.restWindow hG, hT.info hG]
  dsimp only
  generalize short ((G.column : Int) + n) = left at hk hrange hcases ⊢
  have hplace : ∀ T' : Terminal Font, T.console.buf.SameSize T'.console.buf →
      (∀ x y, x < G.width → y < G.height → T'.console.buf.cell x y
        = if y = G.row ∧ G.column ≤ x then
            if 2 * n + G.column ≤ G.width ∧ x + n < G.width then T.console.buf.cell (x + n) y
            else some T.blank
          else T.console.buf.cell x y) →
      T.Shifts G .deleteChars n (some T') := by
    refine fun T' hsame hcells => ⟨T', rfl, hsame, fun x y hx hy => ?_⟩
    rw [hcells x y hx hy, Editing.reference, Editing.chars]
    by_cases hy' : y = G.row
    · rw [if_pos hy']
      by_cases hin : G.column ≤ x
      · rw [if_pos ⟨hy', hin⟩, pulled_in (by omega)]
        by_cases hmoved : x + min n (G.width - 1 + 1 - G.column) ≤ G.width - 1
        · rw [if_pos hmoved, if_pos (by omega), Option.elim_some]
          exact congrArg (T.console.buf.cell · y) (by omega)
        · rw [if_neg hmoved, if_neg (by omega), Option.elim_none]
      · rw [if_neg (by omega), pulled_out (by omega), Option.elim_some]
    · rw [if_neg hy', if_neg (by omega)]
  by_cases hleft : 0 ≤ left
  · obtain ⟨l, rfl⟩ : ∃ l : Nat, left = l := ⟨left.toNat, by omega⟩
    obtain ⟨T', hscroll, hsame, hcells⟩ := hT.scroll_columns hG l (by omega) G.column
      (by omega)
    rw [hscroll]
    refine hplace T' hsame fun x y hx hy => ?_
    obtain ⟨k', hk', hright⟩ := short_mod ((G.column : Int) + ((G.width - 1 : Nat) - l))
    rw [hcells x y hx hy]
    generalize short ((G.column : Int) + ((G.width - 1 : Nat) - l)) = right at hk' hright ⊢
    by_cases hin : y = G.row ∧ G.column ≤ x
    · rw [if_pos hin, if_pos hin]
      by_cases hmoved : 2 * n + G.column ≤ G.width ∧ x + n < G.width
      · rw [if_pos hmoved, if_pos (by omega)]
        exact congrArg (T.console.buf.cell · y) (by omega)
      · rw [if_neg hmoved, if_neg (by omega), if_pos (by omega)]
    · rw [if_neg hin, if_neg hin]
  · -- the source begins in front of the screen, and the destination ends there
    obtain ⟨sx, hsx⟩ : ∃ sx : Nat, (sx : Int) = G.width - left := ⟨(G.width - left).toNat, by omega⟩
    have hdst := ConsoleOutput.hasSize_of ⟨G.column, G.row⟩ (by dsimp only; omega) (by dsimp only; omega)
      sx 1 (by omega) (by omega)
    obtain ⟨O', hput, hsame, hcells⟩ := ConsoleOutput.place_spec hT.sized
      (ConsoleOutput.resize T.console.tempChars (1 * sx)) (by omega) (by omega)
      (ConsoleOutput.length_resize _ _) ⟨left, G.row, (G.width - 1 : Nat), G.row⟩ hdst
      G.column 0 (G.width - 1) (G.height - 1) (by omega) (by omega) T.blank
    rw [scroll, ConsoleOutput.scroll_eq _ _ _ sx 1
      (by dsimp only; rw [short_eq (by omega) (by omega)]; omega)
      (by dsimp only; rw [short_eq (by omega) (by omega)]; omega) (by dsimp only; omega)
      (by dsimp only; omega), hT.readArea_front hG _ (by omega) hsx (by omega), Option.bind_some]
    obtain ⟨k', hk', hright⟩ := short_mod ((G.column : Int) + sx - 1)
    refine (congrArg (T.Shifts G .deleteChars n) (congrArg T.onConsole hput)).mpr ?_
    refine hplace { T with console := O' } hsame fun x y hx hy => ?_
    refine (hcells x y (by omega) hy).trans ?_
    have hclip : InRect ⟨G.column, (0 : Nat), (G.width - 1 : Nat), (G.height - 1 : Nat)⟩ x y
        ↔ G.column ≤ x := by
      dsimp only [InRect]
      omega
    have hempty : ¬InRect ⟨G.column, G.row, short ((G.column : Int) + sx - 1),
        short ((G.row : Int) + (1 : Nat) - 1)⟩ x y := by
      rintro ⟨h1, h2, -⟩
      dsimp only at h1 h2
      omega
    have hsrc : InRect ⟨left, G.row, (G.width - 1 : Nat), G.row⟩ x y ↔ y = G.row := by
      dsimp only [InRect]
      omega
    simp only [hclip, hempty, hsrc, if_false]
    by_cases hin : G.column ≤ x
    · by_cases hy' : y = G.row
      · rw [if_pos hin, if_pos hy', if_pos ⟨hy', hin⟩, if_neg (by omega)]
      · rw [if_pos hin, if_neg hy', if_neg (by omega)]
    · rw [if_neg hin, if_neg (by omega)]

theorem At.insertChars_shifts (hT : T.At G) (hG : G.Valid)
    (h : Editing.Exact G n .insertChars) : T.Shifts G .insertChars n (T.insertChars n) := by
  have hwidth := hG.width
  have hcolumn := hG.column
  obtain ⟨k, -, hpx⟩ := short_mod ((G.column : Int) + n)
  have hcases : if G.column + n ≤ G.width - 1 then G.width - 1 + n ≤ 32767
      else ((G.width - 1 : Nat) : Int) < short (G.column + n)
        ∨ short (((G.width - 1 : Nat) : Int) + n) < G.column := by
    have hpred : ((G.width - 1 : Nat) : Int) = G.width - 1 := by omega
    have hfits : G.column + n ≤ G.width - 1 ↔ G.column + n < G.width := by omega
    rw [hpred]
    simp only [hfits]
    exact h
  rw [insertChars, hT.restWindow hG, hT.info hG]
  dsimp only
  obtain ⟨T', hscroll, hsame, hcells⟩ := hT.scroll_columns hG G.column hcolumn _ hpx
  refine ⟨T', hscroll, hsame, fun x y hx hy => ?_⟩
  rw [hcells x y hx hy, Editing.reference, Editing.chars]
  by_cases hy' : y = G.row
  · rw [if_pos hy']
    by_cases hin : G.column ≤ x
    · rw [if_pos ⟨hy', hin⟩, if_pos hin]
      exact pushed_place (Nat.le_refl _) (by omega) hcases (T.console.buf.cell · y) _
    · rw [if_neg (by omega), pushed_out (by omega), Option.elim_some]
  · rw [if_neg hy', if_neg (by omega)]

/-! ## What is erased -/

/-- The rows text is scrolled in end with the region. -/
theorem At.scrollEdge (hT : T.At G) (hG : G.Valid) : T.console.scrollEdge = G.last + 1 := by
  have hbottom := hT.region.bottom
  have hlast := hT.last
  have hheight := hG.height
  have hregion := hG.region
  rw [ConsoleOutput.scrollRegionBottom, short_eq (by omega) (by omega)] at hlast
  rw [ConsoleOutput.scrollEdge, hT.sized.height_eq]
  omega

/-- A region begins in front of its end, or it has one row. -/
theorem At.scrollTop (hT : T.At G) : T.console.scrollTop = G.first ∨ T.console.scrollBottom = 0 := by
  have hbottom := hT.region.bottom
  have hfirst := hT.first
  rcases hT.region.top with htop | hzero
  · rw [ConsoleOutput.scrollRegionTop, short_eq (by omega) (by omega)] at hfirst
    omega
  · exact .inr hzero

theorem At.alone (hT : T.At G) (hG : G.Valid) (h : G.first = G.last) :
    T.console.Alone G.row := by
  have hrow := hG.row
  have hedge := hT.scrollEdge hG
  refine ⟨by omega, ?_⟩
  rcases hT.scrollTop with htop | hzero
  · rw [hedge, htop]
    omega
  · rw [ConsoleOutput.scrollEdge, hzero] at hedge ⊢
    omega

/-- What `FillBlank` makes of a cell. -/
theorem At.cell_blank (hT : T.At G) {x y : Nat} (hx : x < G.width) (hy : y < G.height) :
    ((T.console.buf.cell x y).map (ConsoleOutput.withChar T.blankCharacter)).map
      (ConsoleOutput.withAttr T.console.attributes) = some T.blank := by
  have hlt := hT.sized.index_lt (x := x) (by rw [hT.width]; exact hx) hy
  rw [cell, List.getElem?_eq_getElem hlt]
  rfl

variable (cc : CharClasses)

theorem At.eraseChars_shifts (hT : T.At G) (hG : G.Valid) (hn : n < 2 ^ 31)
    (h : Editing.Exact G n .eraseChars) : T.Shifts G .eraseChars n (T.eraseChars cc n) := by
  have hrow := hG.row
  have hregion := hG.region
  have hbuf := hT.width
  have hcolumn := hG.column
  have hlen : dword n = n := by
    rw [dword]
    omega
  have hresult : ∀ (O1 O2 : ConsoleOutput), T.console.fillCharacter cc T.blankCharacter n
        ⟨G.column, G.row⟩ = some O1 →
      O1.fillAttribute cc T.console.attributes n ⟨G.column, G.row⟩ = some O2 →
      T.eraseChars cc n = some { T with console := O2 } := by
    intro O1 O2 hchar hattr
    rw [eraseChars, fillBlank, hT.info hG, hlen]
    dsimp only
    rw [hchar, Option.bind_eq_bind, Option.bind_some, hattr]
    rfl
  rcases h with hfits | ⟨hzero, hone⟩
  · obtain ⟨B1, hloop1, hsame1, hcells1⟩ := ConsoleOutput.fillLoop_row
      (ConsoleOutput.withChar T.blankCharacter) n G.column G.row hT.sized (by omega) (by omega)
    obtain ⟨B2, hloop2, hsame2, hcells2⟩ := @ConsoleOutput.fillLoop_row _
      (ConsoleOutput.withAttr T.console.attributes) n { T.console with buf := B1 } G.column G.row
      (hsame1.sized hT.sized) (by omega) (by dsimp only; rw [hsame1.width]; omega)
    refine ⟨_, hresult _ _ (by rw [ConsoleOutput.fillCharacter_eq, hloop1]; rfl)
      (by rw [ConsoleOutput.fillAttribute_eq, hloop2]; rfl), hsame1.trans hsame2, fun x y hx hy => ?_⟩
    refine (hcells2 x y (by dsimp only; rw [hsame1.width]; omega) hy).trans ?_
    dsimp only
    rw [hcells1 x y (by omega) hy, Editing.reference]
    dsimp only
    by_cases hin : y = G.row ∧ G.column ≤ x ∧ x < G.column + n
    · rw [if_pos hin, if_pos hin, if_pos (by omega), hT.cell_blank hx hy]
    · rw [if_neg hin, if_neg hin, if_neg (by omega)]
  · obtain ⟨O1, pos1, hloop1, hsame1, halone1, hcells1⟩ := ConsoleOutput.fillLoop_alone
      (ConsoleOutput.withChar T.blankCharacter) (fun c => rfl) G.row (by omega) n 0 hT.sized (hT.alone hG hone) (Nat.zero_le _) (fun x hx => absurd hx (Nat.not_lt_zero x))
    obtain ⟨O2, pos2, hloop2, hsame2, halone2, hcells2⟩ := ConsoleOutput.fillLoop_alone
      (ConsoleOutput.withAttr T.console.attributes) (fun c => rfl) G.row (by omega) n 0 (hsame1.sized hT.sized) halone1 (Nat.zero_le _)
      (fun x hx => absurd hx (Nat.not_lt_zero x))
    refine ⟨_, hresult O1 O2 (by rw [ConsoleOutput.fillCharacter_eq, hzero, hloop1]; rfl)
      (by rw [ConsoleOutput.fillAttribute_eq, hzero, hloop2]; rfl), hsame1.trans hsame2,
      fun x y hx hy => ?_⟩
    refine (hcells2 x y (by rw [hsame1.width]; omega) hy).trans ?_
    rw [hcells1 x y (by omega) hy, Editing.reference]
    dsimp only
    by_cases hin : y = G.row ∧ x < 0 + n
    · rw [if_pos hin, if_pos hin, if_pos (by omega), hT.cell_blank hx hy]
    · rw [if_neg hin, if_neg hin, if_neg (by omega)]

end Terminal

end VT

end Far2l
