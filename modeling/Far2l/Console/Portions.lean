/-
Far2l.Console.Portions — the screen as `console::ReadOutput` and
`console::WriteOutput` read and write it.

A portion is an area whose rows the data of the portion ends; the next one begins
where it stops, so that no row is left out and none is read or written twice.
-/
import Far2l.Console.Areas
import Far2l.Console.ScreenBuf

namespace Far2l

namespace Console

open ConsoleBuffer

/-- The cells of the rows of a region that are still to be written. -/
theorem writePortions_spec {w h l t r b : Nat} {start : List CharInfo} (sy : Nat) (hsy : 0 < sy ∧ sy ≤ 32767)
    (hcolumns : l ≤ r ∧ r < w) (hrows : t ≤ b ∧ b < h) (hstart : (b - t + 1) * w ≤ start.length) :
    ∀ (fuel i : Nat) {B : ConsoleBuffer}, B.width = w → B.Sized h → b + 1 ≤ t + i + fuel →
    ∃ chars, writePortions start ⟨w, sy⟩ ⟨l, 0⟩ ⟨l, t, r, b⟩ fuel i B = some { B with chars := chars }
      ∧ chars.length = B.chars.length
      ∧ ∀ x y, x < w → chars[y * w + x]?
          = if l ≤ x ∧ x ≤ r ∧ t + i ≤ y ∧ y ≤ b then start[(y - t) * w + x]?
            else B.chars[y * w + x]? := by
  intro fuel
  induction fuel with
  | zero =>
    intro i B hw hB hfuel
    refine ⟨B.chars, rfl, rfl, fun x y hx => ?_⟩
    rw [if_neg (by omega)]
  | succ fuel ih =>
    intro i B hw hB hfuel
    have hwidth := hB.width
    have hheight := hB.height
    rw [writePortions]
    dsimp only
    by_cases hi : t + i ≤ b
    · have hskip : ((i : Int) * w).toNat = i * w := by
        rw [← Int.natCast_mul, Int.toNat_natCast]
      have hlen : (b - t + 1) * w = i * w + (b + 1 - t - i) * w := by
        rw [← Nat.add_mul]
        congr 1
        omega
      have hrow : (0 + (min b (t + i + (sy - 0) - 1) - (t + i))) * w + w ≤ (b + 1 - t - i) * w := by
        rw [← Nat.succ_mul]
        exact Nat.mul_le_mul_right w (by omega)
      obtain ⟨chars, hwrite, hlength, hcells⟩ := writeArea_inside hB
        (start.drop (i * w)) w sy l 0 l (t + i) r b (by omega) (by omega) (by omega) (by omega) (by omega)
        (by rw [List.length_drop]; omega)
      obtain ⟨chars', hrest, hlength', hcells'⟩ := ih (i + sy) (B := { B with chars := chars }) hw
        (hB.of_length hlength) (by omega)
      refine ⟨chars', ?_, hlength'.trans hlength, fun x y hx => ?_⟩
      · rw [if_pos (by omega), hskip, show short ((t : Int) + i) = ((t + i : Nat) : Int) from by
          rw [short_eq (by omega) (by omega)]; omega]
        exact (congrArg (Option.bind · _) hwrite).trans hrest
      · rw [hcells' x y hx]
        subst hw
        dsimp only
        rw [hcells x y hx, List.getElem?_drop]
        by_cases hin : l ≤ x ∧ x ≤ r ∧ t + i ≤ y ∧ y ≤ b
        · rw [if_pos hin]
          by_cases hnext : l ≤ x ∧ x ≤ r ∧ t + (i + sy) ≤ y ∧ y ≤ b
          · rw [if_pos hnext]
          · rw [if_neg hnext, if_pos (by omega)]
            congr 1
            have hsum : i * B.width + ((0 + (y - (t + i))) * B.width + (l + (x - l)))
                = (i + (y - (t + i))) * B.width + (l + (x - l)) := by ring
            rw [hsum, show i + (y - (t + i)) = y - t from by omega,
              show l + (x - l) = x from by omega]
        · rw [if_neg hin, if_neg (by omega), if_neg (by omega)]
    · rw [if_neg (by omega)]
      refine ⟨B.chars, rfl, rfl, fun x y hx => ?_⟩
      rw [if_neg (by omega)]

/-- A portion has a row at least. -/
theorem portionRows_spec (w : Nat) :
    ∃ sy : Nat, 0 < sy ∧ sy ≤ 32767 ∧ short (portionRows w) = sy := by
  have hdiv : MAXSIZE / ((w : Int) * 16) ≤ MAXSIZE / 16 := by
    rw [Int.mul_comm, ← Int.ediv_ediv_of_nonneg (by decide)]
    exact Int.ediv_le_self _ (by decide)
  have hmax : MAXSIZE / 16 = 2048 := by decide
  have hrows : 1 ≤ portionRows w ∧ portionRows w ≤ 2048 := by
    rw [portionRows]
    omega
  refine ⟨(portionRows w).toNat, by omega, by omega, ?_⟩
  rw [short_eq (by omega) (by omega)]
  omega

/-- **Writing a region.** The cells of the region are those of the buffer; the others are kept. -/
theorem writeOutput_spec {B : ConsoleBuffer} {w h l t r b : Nat} {buffer : List CharInfo}
    (hw : B.width = w) (hB : B.Sized h) (hlength : buffer.length = h * w) (hcolumns : l ≤ r ∧ r < w)
    (hrows : t ≤ b ∧ b < h) :
    ∃ chars, writeOutput B buffer ⟨w, h⟩ ⟨l, t⟩ ⟨l, t, r, b⟩ = some { B with chars := chars }
      ∧ chars.length = B.chars.length
      ∧ ∀ x y, x < w → chars[y * w + x]?
          = if l ≤ x ∧ x ≤ r ∧ t ≤ y ∧ y ≤ b then buffer[y * w + x]? else B.chars[y * w + x]? := by
  have hwidth := hB.width
  have hheight := hB.height
  have hskip : ((t : Int) * w).toNat = t * w := by rw [← Int.natCast_mul, Int.toNat_natCast]
  have hrest : short ((h : Int) - t) = ((h - t : Nat) : Int) := by
    rw [short_eq (by omega) (by omega)]
    omega
  have hstart : (b - t + 1) * w ≤ (buffer.drop (t * w)).length := by
    rw [List.length_drop, hlength, ← Nat.mul_sub_right_distrib]
    exact Nat.mul_le_mul_right w (by omega)
  have hcell : ∀ x y, t ≤ y → (buffer.drop (t * w))[(y - t) * w + x]? = buffer[y * w + x]? := by
    intro x y hy
    rw [List.getElem?_drop, ← Nat.add_assoc, ← Nat.add_mul, show t + (y - t) = y from by omega]
  rw [writeOutput]
  dsimp only
  rw [hskip, hrest]
  by_cases hsize : (w : Int) * ((h - t : Nat) : Int) * 16 > MAXSIZE
  · rw [if_pos hsize]
    obtain ⟨sy, hpos, hle, hsy⟩ := portionRows_spec w
    rw [hsy]
    obtain ⟨chars, hwrite, hlen, hcells⟩ := writePortions_spec sy ⟨hpos, hle⟩ hcolumns hrows
      hstart ((b : Int) - t + 1).toNat 0 hw hB (by omega)
    refine ⟨chars, hwrite, hlen, fun x y hx => ?_⟩
    rw [hcells x y hx, Nat.add_zero]
    split
    · next hin => exact hcell x y hin.2.2.1
    · rfl
  · rw [if_neg hsize]
    subst hw
    have hlast : min b (t + (h - t - 0) - 1) = b := by omega
    obtain ⟨chars, hwrite, hlen, hcells⟩ := writeArea_inside hB
      (buffer.drop (t * B.width)) B.width (h - t) l 0 l t r b (by omega) (by omega) (by omega) (by omega) (by omega)
      (by
        rw [hlast]
        have hsum : (b - t + 1) * B.width = (0 + (b - t)) * B.width + B.width := by ring
        omega)
    refine ⟨chars, by rw [show ((0 : Int)) = ((0 : Nat) : Int) from rfl, hwrite, Option.map_some],
      hlen, fun x y hx => ?_⟩
    rw [hcells x y hx, hlast]
    split
    · next hin =>
      rw [← hcell x y hin.2.2.1]
      congr 2
      · rw [Nat.zero_add]
      · omega
    · rfl

/-- The rows of the screen that are still to be read. -/
theorem readPortions_spec {B : ConsoleBuffer} {h sy : Nat} (hB : B.Sized h)
    (hsy : 0 < sy ∧ sy ≤ 32767) :
    ∀ (fuel i : Nat) (start : List CharInfo), start.length = h * B.width → h ≤ i + fuel →
    ∃ data, readPortions B ⟨B.width, sy⟩ ⟨0, 0⟩ ⟨0, 0, (B.width - 1 : Nat), (h - 1 : Nat)⟩ fuel i start
        = some data
      ∧ data.length = start.length
      ∧ ∀ x y, x < B.width → data[y * B.width + x]?
          = if i ≤ y then B.chars[y * B.width + x]? else start[y * B.width + x]? := by
  have hwidth := hB.width
  have hheight := hB.height
  intro fuel
  induction fuel with
  | zero =>
    intro i start hlength hfuel
    refine ⟨start, rfl, rfl, fun x y hx => ?_⟩
    split
    · next hy =>
      have hle : h * B.width ≤ y * B.width := Nat.mul_le_mul_right _ (by omega)
      rw [List.getElem?_eq_none (by omega), List.getElem?_eq_none (by rw [hB.length]; omega)]
    · rfl
  | succ fuel ih =>
    intro i start hlength hfuel
    rw [readPortions]
    dsimp only
    by_cases hi : i < h
    · have hskip : ((i : Int) * B.width).toNat = i * B.width := by
        rw [← Int.natCast_mul, Int.toNat_natCast]
      have hlen : h * B.width = i * B.width + (h - i) * B.width := by
        rw [← Nat.add_mul]
        congr 1
        omega
      have hrow : (0 + (min (h - 1) (i + (sy - 0) - 1) - i)) * B.width + B.width
          ≤ (h - i) * B.width := by
        rw [← Nat.succ_mul]
        exact Nat.mul_le_mul_right B.width (by omega)
      obtain ⟨data, hread, hdata, hcells⟩ := readArea_inside hB
        (start.drop (i * B.width)) B.width sy 0 0 0 i (B.width - 1) (h - 1) (by omega) (by omega) (by omega) (by omega)
        (by omega) (by rw [List.length_drop]; omega)
      have hjoin : (start.take (i * B.width) ++ data).length = start.length := by
        rw [List.length_append, List.length_take, hdata, List.length_drop]
        omega
      obtain ⟨data', hrest, hlength', hcells'⟩ := ih (i + sy)
        (start.take (i * B.width) ++ data) (hjoin.trans hlength) (by omega)
      refine ⟨data', ?_, hlength'.trans hjoin, fun x y hx => ?_⟩
      · rw [if_pos (by omega), hskip, show short ((0 : Int) + i) = ((i : Nat) : Int) from by
          rw [short_eq (by omega) (by omega)]; omega]
        exact (congrArg (Option.bind · _) hread).trans hrest
      · rw [hcells' x y hx]
        have htake : (start.take (i * B.width)).length = i * B.width := by
          rw [List.length_take]
          omega
        by_cases hy : i ≤ y
        · rw [if_pos hy]
          by_cases hnext : i + sy ≤ y
          · rw [if_pos hnext]
          · have hle : i * B.width ≤ y * B.width := Nat.mul_le_mul_right _ hy
            have hindex : y * B.width + x - i * B.width = (y - i) * B.width + x := by
              rw [Nat.mul_sub_right_distrib]
              omega
            rw [if_neg hnext, List.getElem?_append_right (by omega), htake, hindex, hcells x _ hx]
            split
            · rw [Nat.zero_add, Nat.sub_zero, Nat.sub_zero, show i + (y - i) = y from by omega]
            · have hend : h * B.width ≤ y * B.width := Nat.mul_le_mul_right _ (by omega)
              rw [List.getElem?_drop, List.getElem?_eq_none (by rw [hlength]; omega),
                List.getElem?_eq_none (by rw [hB.length]; omega)]
        · have hle : (y + 1) * B.width ≤ i * B.width := Nat.mul_le_mul_right _ (by omega)
          rw [Nat.succ_mul] at hle
          rw [if_neg hy, if_neg (by omega), List.getElem?_append_left (by omega),
            List.getElem?_take_of_lt (by omega)]
    · rw [if_neg (by omega)]
      refine ⟨start, rfl, rfl, fun x y hx => ?_⟩
      split
      · next hy =>
        have hle : h * B.width ≤ y * B.width := Nat.mul_le_mul_right _ (by omega)
        rw [List.getElem?_eq_none (by omega), List.getElem?_eq_none (by rw [hB.length]; omega)]
      · rfl

/-- Cells that agree row by row. -/
theorem cells_eq {w h : Nat} {cells cells' : List CharInfo} (hw : 0 < w)
    (hlength : cells.length = h * w) (hlength' : cells'.length = h * w)
    (heq : ∀ x y, x < w → y < h → cells[y * w + x]? = cells'[y * w + x]?) : cells = cells' := by
  refine List.ext_getElem? fun i => ?_
  by_cases hi : i < h * w
  · have hcell := heq (i % w) (i / w) (Nat.mod_lt _ hw) (Nat.div_lt_of_lt_mul (by
      rw [Nat.mul_comm]
      exact hi))
    rwa [Nat.mul_comm, Nat.div_add_mod] at hcell
  · rw [List.getElem?_eq_none (by omega), List.getElem?_eq_none (by omega)]

/-- **Reading the whole screen** gives its cells. -/
theorem readOutput_screen {B : ConsoleBuffer} {h : Nat} (hB : B.Sized h) (buffer : List CharInfo)
    (hlength : buffer.length = h * B.width) :
    readOutput B buffer ⟨B.width, h⟩ ⟨0, 0⟩ ⟨0, 0, (B.width : Int) - 1, (h : Int) - 1⟩
      = some B.chars := by
  have hwidth := hB.width
  have hheight := hB.height
  have hrest : short ((h : Int) - 0) = (h : Int) := by
    rw [short_eq (by omega) (by omega)]
    omega
  have hlastX : (B.width : Int) - 1 = ((B.width - 1 : Nat) : Int) := by omega
  have hlastY : (h : Int) - 1 = ((h - 1 : Nat) : Int) := by omega
  rw [readOutput]
  dsimp only
  rw [hrest, Int.zero_mul, Int.toNat_zero, List.take_zero, List.drop_zero, hlastX, hlastY]
  by_cases hsize : (B.width : Int) * h * 16 > MAXSIZE
  · rw [if_pos hsize]
    obtain ⟨sy, hpos, hle, hsy⟩ := portionRows_spec B.width
    rw [hsy]
    obtain ⟨data, hread, hdata, hcells⟩ := readPortions_spec hB ⟨hpos, hle⟩
      (((h - 1 : Nat) : Int) - 0 + 1).toNat 0 buffer hlength (by omega)
    have hall : data = B.chars := by
      refine cells_eq hwidth.1 (hdata.trans hlength) hB.length fun x y hx _ => ?_
      rw [hcells x y hx, if_pos (Nat.zero_le y)]
    rw [hall] at hread
    exact (congrArg (Option.map _) hread).trans (by rw [Option.map_some, List.nil_append])
  · rw [if_neg hsize]
    have hlast : min (h - 1) (0 + (h - 0) - 1) = h - 1 := by omega
    obtain ⟨data, hread, hdata, hcells⟩ := readArea_inside hB buffer
      B.width h 0 0 0 0 (B.width - 1) (h - 1) (by omega) (by omega) (by omega) (by omega) (by omega)
      (by
        have hsum : (0 + (h - 1 - 0)) * B.width + B.width = (0 + (h - 1 - 0) + 1) * B.width :=
          (Nat.succ_mul _ _).symm
        rw [show 0 + (h - 1 - 0) + 1 = h from by omega] at hsum
        rw [hlast]
        omega)
    have hall : data = B.chars := by
      refine cells_eq hwidth.1 (hdata.trans hlength) hB.length fun x y hx hy => ?_
      rw [hcells x y hx, hlast, if_pos (by omega), Nat.zero_add, Nat.sub_zero, Nat.sub_zero,
        Nat.zero_add]
    rw [hall] at hread
    rw [show ((0 : Int)) = ((0 : Nat) : Int) from rfl, hread, Option.map_some, Option.map_some,
      List.nil_append]

end Console

end Far2l
