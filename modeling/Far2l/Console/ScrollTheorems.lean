/-
Far2l.Console.ScrollTheorems — what is in the cells after `Scroll`.

The cells of the destination hold what has been read, where the clip rectangle
lets them; the other cells of the source are filled, and the rest is kept. The
last column and the last row of the destination are `SHORT`s: behind `MAXSHORT`
they come before the first, and nothing is written.
-/
import Far2l.Console.CopyArea
import Far2l.Console.Scroll
import Mathlib.Tactic.Linarith

namespace Far2l

namespace ConsoleBuffer

variable {B : ConsoleBuffer} {h : Nat} {fill : CharInfo}

/-- The cell in a column and a row. -/
def cell (B : ConsoleBuffer) (x y : Nat) : Option CharInfo := B.chars[y * B.width + x]?

/-- Is the cell in the rectangle? -/
def InRect (rect : SmallRect) (x y : Nat) : Prop :=
  rect.left ≤ x ∧ x ≤ rect.right ∧ rect.top ≤ y ∧ y ≤ rect.bottom

instance (rect : SmallRect) (x y : Nat) : Decidable (InRect rect x y) :=
  inferInstanceAs (Decidable (_ ∧ _))

/-! ## Filling -/

theorem Sized.index_lt (hB : B.Sized h) {x y : Nat} (hx : x < B.width) (hy : y < h) :
    y * B.width + x < B.chars.length := by
  have hle : (y + 1) * B.width ≤ h * B.width := Nat.mul_le_mul_right _ hy
  rw [Nat.succ_mul] at hle
  rw [hB.length]
  omega

/-- A buffer of the same size. -/
structure SameSize (B B' : ConsoleBuffer) : Prop where
  width : B'.width = B.width
  length : B'.chars.length = B.chars.length

theorem SameSize.refl (B : ConsoleBuffer) : SameSize B B := ⟨rfl, rfl⟩

theorem SameSize.trans {B' B'' : ConsoleBuffer} (h : SameSize B B') (h' : SameSize B' B'') :
    SameSize B B'' := ⟨h'.width.trans h.width, h'.length.trans h.length⟩

theorem SameSize.sized {B' : ConsoleBuffer} (hsame : SameSize B B') (hB : B.Sized h) :
    B'.Sized h :=
  ⟨hsame.width ▸ hB.width, hB.height, by rw [hsame.length, hsame.width, hB.length]⟩

theorem sameSize_write (B : ConsoleBuffer) (fill : CharInfo) (pos : Coord) :
    SameSize B (B.write fill pos).2 := by
  refine ⟨width_write B fill pos, ?_⟩
  rw [write]
  cases B.read pos with
  | none => rfl
  | some d =>
    dsimp only
    split
    · rfl
    · exact List.length_set

theorem cell_write (hB : B.Sized h) {px py : Int} {x y : Nat} (hx : x < B.width) (hy : y < h) :
    (B.write fill ⟨px, py⟩).2.cell x y = if px = x ∧ py = y then some fill else B.cell x y := by
  by_cases hpos : B.addressable ⟨px, py⟩
  · obtain ⟨hpx, hpy, hwidth⟩ : 0 ≤ px ∧ 0 ≤ py ∧ px < B.width := hpos
    obtain ⟨x', rfl⟩ : ∃ x' : Nat, px = x' := ⟨px.toNat, by omega⟩
    obtain ⟨y', rfl⟩ : ∃ y' : Nat, py = y' := ⟨py.toNat, by omega⟩
    have hindex : B.index ⟨(x' : Int), (y' : Int)⟩ = y' * B.width + x' := rfl
    have hset : (B.write fill ⟨(x' : Int), (y' : Int)⟩).2.chars
        = B.chars.set (y' * B.width + x') fill := by
      rw [write, read, if_pos (by exact ⟨hpx, hpy, hwidth⟩), hindex]
      cases hget : B.chars[y' * B.width + x']? with
      | none => rw [List.set_eq_of_length_le (List.getElem?_eq_none_iff.mp hget)]
      | some d =>
        dsimp only
        split
        · next heq =>
          obtain ⟨hlt, hd⟩ := List.getElem?_eq_some_iff.mp hget
          rw [← heq, ← hd, List.set_getElem_self]
        · rfl
    rw [cell, width_write, hset, cell]
    have hlt := hB.index_lt hx hy
    by_cases heq : y' * B.width + x' = y * B.width + x
    · obtain ⟨rfl, rfl⟩ := index_inj (by omega) hx heq
      rw [List.getElem?_set_self hlt, if_pos ⟨rfl, rfl⟩]
    · rw [List.getElem?_set_ne heq, if_neg]
      rintro ⟨hpx', hpy'⟩
      exact heq (by rw [Int.ofNat_inj.mp hpx', Int.ofNat_inj.mp hpy'])
  · rw [write, read, if_neg hpos]
    dsimp only
    rw [if_neg]
    rintro ⟨rfl, rfl⟩
    exact hpos ⟨Int.natCast_nonneg x, Int.natCast_nonneg y, Int.ofNat_lt.mpr hx⟩

theorem sameSize_fillRow (B : ConsoleBuffer) (fill : CharInfo) (left y : Int) :
    ∀ n, SameSize B (fillRow fill left y n B)
  | 0 => .refl B
  | n + 1 => (sameSize_fillRow B fill left y n).trans (sameSize_write _ fill _)

theorem cell_fillRow (hB : B.Sized h) {left top : Int} {x y : Nat} (hx : x < B.width) (hy : y < h)
    (n : Nat) :
    (fillRow fill left top n B).cell x y
      = if left ≤ x ∧ x < left + n ∧ top = y then some fill else B.cell x y := by
  induction n with
  | zero => rw [fillRow, if_neg (by omega)]
  | succ n ih =>
    have hsame := sameSize_fillRow B fill left top n
    rw [fillRow, cell_write (hsame.sized hB) (hsame.width ▸ hx) hy, ih]
    split
    · rw [if_pos (by omega)]
    · split
      · rw [if_pos (by omega)]
      · rw [if_neg (by omega)]

theorem sameSize_fillRows (B : ConsoleBuffer) (fill : CharInfo) (left top : Int) (columns : Nat) :
    ∀ n, SameSize B (fillRows fill left top columns n B)
  | 0 => .refl B
  | n + 1 => (sameSize_fillRows B fill left top columns n).trans (sameSize_fillRow _ fill left _ _)

theorem cell_fillRows (hB : B.Sized h) {left top : Int} {columns x y : Nat} (hx : x < B.width)
    (hy : y < h) (n : Nat) :
    (fillRows fill left top columns n B).cell x y
      = if left ≤ x ∧ x < left + columns ∧ top ≤ y ∧ y < top + n then some fill
        else B.cell x y := by
  induction n with
  | zero => rw [fillRows, if_neg (by omega)]
  | succ n ih =>
    have hsame := sameSize_fillRows B fill left top columns n
    rw [fillRows, cell_fillRow (hsame.sized hB) (hsame.width ▸ hx) hy, ih]
    split
    · rw [if_pos (by omega)]
    · split
      · rw [if_pos (by omega)]
      · rw [if_neg (by omega)]

/-- **Filling a rectangle** that ends in front of `MAXSHORT`. -/
theorem fillArea_spec (hB : B.Sized h) (fill : CharInfo) (rect : SmallRect)
    (hright : rect.right < 32767) (hbottom : rect.bottom < 32767) :
    ∃ B', B.fillArea fill rect = some B' ∧ SameSize B B'
      ∧ ∀ x y, x < B.width → y < h →
        B'.cell x y = if InRect rect x y then some fill else B.cell x y := by
  refine ⟨_, if_neg (by omega), sameSize_fillRows _ _ _ _ _ _, fun x y hx hy => ?_⟩
  rw [cell_fillRows hB hx hy]
  have hin : (rect.left ≤ x ∧ x < rect.left + (rect.right + 1 - rect.left).toNat
      ∧ rect.top ≤ y ∧ y < rect.top + (rect.bottom + 1 - rect.top).toNat) ↔ InRect rect x y := by
    rw [InRect]
    omega
  simp only [hin]

/-! ## An area without cells -/

theorem cutToScreen_of_lt {limit : Nat} {last : Int} (hlast : last < limit) :
    cutToScreen limit last = last := by
  rw [cutToScreen, if_neg (by omega)]

theorem cutToData_of_lt {avail first last : Int} (hempty : last < first) (havail : 0 < avail) :
    cutToData avail first last = last := by
  rw [cutToData, if_neg (by omega)]

/-- Nothing is copied where the last column or the last row comes before the first. -/
theorem inspectCopyArea_empty {size pos : Coord} {rect : SmallRect}
    (hsize : size.x ≤ 32767 ∧ size.y ≤ 32767)
    (hempty : rect.right < rect.left ∧ rect.right < B.width
      ∨ rect.bottom < rect.top ∧ rect.bottom < B.height) :
    (B.inspectCopyArea size pos rect).2 = none := by
  rw [inspectCopyArea]
  split
  · rfl
  · next hdata =>
    simp only [not_or, Int.not_lt, ge_iff_le, Int.not_le] at hdata
    have hx : 0 < short (size.x - pos.x) := by
      rw [short_eq (by omega) (by omega)]
      omega
    have hy : 0 < short (size.y - pos.y) := by
      rw [short_eq (by omega) (by omega)]
      omega
    dsimp only
    split
    · rfl
    · next hcolumns =>
      rcases hempty with hcolumn | hrow
      · rw [cutToScreen_of_lt hcolumn.2, cutToData_of_lt hcolumn.1 hx] at hcolumns
        omega
      · rw [cutToScreen_of_lt hrow.2, cutToData_of_lt hrow.1 hy, if_pos (by omega)]

theorem writeArea_empty {size pos : Coord} {rect : SmallRect} (data : List CharInfo)
    (hsize : size.x ≤ 32767 ∧ size.y ≤ 32767)
    (hempty : rect.right < rect.left ∧ rect.right < B.width
      ∨ rect.bottom < rect.top ∧ rect.bottom < B.height) :
    ∃ r, B.writeArea data size pos rect = some (B, r) := by
  have hnone := @inspectCopyArea_empty B size pos rect hsize hempty
  rw [writeArea]
  cases hinspect : B.inspectCopyArea size pos rect with
  | mk r screen =>
    rw [hinspect] at hnone
    dsimp only at hnone
    subst hnone
    exact ⟨r, rfl⟩

end ConsoleBuffer

/-! ## `Scroll` -/

theorem short_cases {v : Int} (hv : -32768 ≤ v) (hv' : v < 98304) :
    v ≤ 32767 ∧ short v = v ∨ 32767 < v ∧ short v = v - 65536 := by
  rw [short]
  omega

theorem clip_first (a c x : Int) : (if a < c then c else a) ≤ x ↔ c ≤ x ∧ a ≤ x := by
  split <;> omega

theorem clip_last (a c x : Int) : x ≤ (if a > c then c else a) ↔ x ≤ c ∧ x ≤ a := by
  split <;> omega

/-- A rectangle that is clipped has the cells that both have. -/
theorem inRect_clipRect (rect clip : SmallRect) (x y : Nat) :
    ConsoleBuffer.InRect (clipRect rect clip) x y
      ↔ ConsoleBuffer.InRect clip x y ∧ ConsoleBuffer.InRect rect x y := by
  simp only [ConsoleBuffer.InRect, clipRect, clip_first, clip_last]
  constructor
  · rintro ⟨⟨h1, h2⟩, ⟨h3, h4⟩, ⟨h5, h6⟩, h7, h8⟩
    exact ⟨⟨h1, h3, h5, h7⟩, h2, h4, h6, h8⟩
  · rintro ⟨⟨h1, h3, h5, h7⟩, h2, h4, h6, h8⟩
    exact ⟨⟨h1, h2⟩, ⟨h3, h4⟩, ⟨h5, h6⟩, h7, h8⟩

/-- The rectangle that cells of a size go to: a side that would end behind `MAXSHORT` ends in front
of the screen. -/
structure HasSize (dst : SmallRect) (sx sy : Nat) : Prop where
  left : -32768 ≤ dst.left ∧ dst.left ≤ 32767
  top : -32768 ≤ dst.top ∧ dst.top ≤ 32767
  right : dst.right = dst.left + sx - 1 ∨ dst.right < 0
  bottom : dst.bottom = dst.top + sy - 1 ∨ dst.bottom < 0

/-- The columns (or the rows) of a destination that a clip rectangle leaves, and how many of them are
skipped in front of it. -/
theorem clip_side {first last : Int} {size clipFirst clipLast : Nat}
    (hsize : size ≤ 32767) (hlast : last = first + size - 1) (hclip : clipFirst ≤ clipLast)
    (hpos : first ≤ last) (hbegin : clipFirst ≤ last) (hend : first ≤ clipLast) :
    ∃ l r skip : Nat, (if first < clipFirst then (clipFirst : Int) else first) = l
      ∧ (if last > clipLast then (clipLast : Int) else last) = r
      ∧ (if first < clipFirst then short (0 + (clipFirst - first)) else 0) = skip
      ∧ (skip : Int) = l - first ∧ l ≤ r ∧ r ≤ clipLast ∧ r < l + (size - skip) ∧ skip < size := by
  obtain ⟨r, hr, hlr⟩ : ∃ r : Nat, (if last > clipLast then (clipLast : Int) else last) = r
      ∧ first ≤ r ∧ clipFirst ≤ r ∧ r ≤ clipLast ∧ (r : Int) ≤ last := by
    split
    · exact ⟨clipLast, rfl, by omega, by omega, by omega, by omega⟩
    · exact ⟨last.toNat, by omega, by omega, by omega, by omega, by omega⟩
  by_cases hskip : first < clipFirst
  · rw [if_pos hskip, if_pos hskip, short_eq (by omega) (by omega)]
    exact ⟨clipFirst, r, (clipFirst - first).toNat, rfl, hr, by omega, by omega, by omega, by omega,
      by omega, by omega⟩
  · rw [if_neg hskip, if_neg hskip]
    exact ⟨first.toNat, r, 0, by omega, hr, rfl, by omega, by omega, by omega, by omega, by omega⟩

namespace ConsoleOutput

open ConsoleBuffer

variable {O : ConsoleOutput} {h : Nat}

/-- **The cells after `Scroll`**, by what has been read: the destination, the source that is filled,
and the others. -/
theorem place_spec (hO : O.buf.Sized h) (temp : List CharInfo) {sx sy : Nat}
    (hsx : 0 < sx ∧ sx ≤ 32767) (hsy : 0 < sy ∧ sy ≤ 32767) (htemp : temp.length = sy * sx)
    (src : SmallRect) {dst : SmallRect} (hdst : HasSize dst sx sy) (cl ct cr cb : Nat)
    (hcolumns : cl ≤ cr ∧ cr < O.buf.width) (hrows : ct ≤ cb ∧ cb < h) (fill : CharInfo) :
    ∃ O', O.place temp ⟨sx, sy⟩ src dst (some ⟨cl, ct, cr, cb⟩) fill = some O'
      ∧ SameSize O.buf O'.buf
      ∧ ∀ x y, x < O.buf.width → y < h → O'.buf.cell x y
          = if InRect ⟨cl, ct, cr, cb⟩ x y then
              if InRect dst x y then
                temp[((y : Int) - dst.top).toNat * sx + ((x : Int) - dst.left).toNat]?
              else if InRect src x y then some fill else O.buf.cell x y
            else O.buf.cell x y := by
  have hwidth := hO.width
  have hheight := hO.height
  obtain ⟨buf1, hfill, hsame, hcells⟩ := fillArea_spec hO fill
    (clipRect src ⟨cl, ct, cr, cb⟩)
    (by dsimp only [clipRect]; split <;> omega) (by dsimp only [clipRect]; split <;> omega)
  have hsized := hsame.sized hO
  obtain ⟨px, py, dr, db⟩ := dst
  obtain ⟨hpx, hpy, hdx, hdy⟩ := hdst
  dsimp only at hpx hpy hdx hdy
  rw [place, Option.elim_some, Option.elim_some, Option.elim_some, hfill, Option.bind_eq_bind,
    Option.bind_some]
  by_cases hempty : dr < px ∨ dr < cl ∨ cr < px ∨ db < py ∨ db < ct ∨ cb < py
  · -- nothing of the destination is on the screen
    obtain ⟨r, hwrite⟩ := @writeArea_empty buf1 ⟨sx, sy⟩ (clipOffset ⟨px, py, dr, db⟩ ⟨cl, ct, cr, cb⟩
      ⟨0, 0⟩) (clipRect ⟨px, py, dr, db⟩ ⟨cl, ct, cr, cb⟩) temp ⟨by dsimp only; omega, by dsimp only; omega⟩
      (by
        rw [hsized.height_eq, hsame.width]
        dsimp only [clipRect]
        omega)
    rw [hwrite]
    refine ⟨_, rfl, hsame, fun x y hx hy => ?_⟩
    show buf1.cell x y = _
    rw [hcells x y hx hy]
    simp only [inRect_clipRect]
    have hout : InRect ⟨cl, ct, cr, cb⟩ x y → ¬InRect ⟨px, py, dr, db⟩ x y := by
      dsimp only [InRect]
      omega
    by_cases hclip : InRect ⟨cl, ct, cr, cb⟩ x y
    · simp only [hclip, true_and, if_true, if_neg (hout hclip)]
    · simp only [hclip, false_and, if_false]
  · simp only [not_or, Int.not_lt] at hempty
    obtain ⟨h1, h2, h3, h4, h5, h6⟩ := hempty
    obtain ⟨l, r, ox, hl, hr, hox, hskip, hlr, hrc, hfit, hsx'⟩ :=
      clip_side hsx.2 (hdx.resolve_right (by omega)) hcolumns.1 h1 h2 h3
    obtain ⟨t, b, oy, ht, hb, hoy, hskip', htb, hbc, hfit', hsy'⟩ :=
      clip_side hsy.2 (hdy.resolve_right (by omega)) hrows.1 h4 h5 h6
    have hin : ∀ x y : Nat, (l ≤ x ∧ x ≤ r ∧ t ≤ y ∧ y ≤ b)
        ↔ InRect ⟨cl, ct, cr, cb⟩ x y ∧ InRect ⟨px, py, dr, db⟩ x y := by
      intro x y
      rw [← inRect_clipRect, InRect, clipRect]
      dsimp only
      rw [hl, ht, hr, hb]
      simp only [Int.ofNat_le]
    dsimp only [clipOffset, clipRect]
    rw [hox, hoy, hl, ht, hr, hb]
    clear hl ht hr hb hox hoy
    have hlast : min b (t + (sy - oy) - 1) = b := Nat.min_eq_left (by omega)
    have hdata : (oy + (b - t)) * sx + ox + (r - l) < temp.length := by
      have hle : (oy + (b - t) + 1) * sx ≤ sy * sx := Nat.mul_le_mul_right _ (by omega)
      rw [Nat.succ_mul] at hle
      rw [htemp]
      omega
    obtain ⟨chars, hwrite, hlength, hwritten⟩ := writeArea_inside hsized temp sx sy ox oy l t r b
      ⟨hsx', hsx.2⟩ ⟨hsy', hsy.2⟩ ⟨hlr, by rw [hsame.width]; omega⟩ ⟨htb, by omega⟩ hfit
      (by rw [hlast]; exact hdata)
    rw [hwrite]
    refine ⟨_, rfl, ⟨hsame.width, hlength.trans hsame.length⟩, fun x y hx hy => ?_⟩
    show chars[y * buf1.width + x]? = _
    rw [hwritten x y (by rw [hsame.width]; exact hx), hlast]
    simp only [hin]
    by_cases hclip : InRect ⟨cl, ct, cr, cb⟩ x y
    · by_cases hdst : InRect ⟨px, py, dr, db⟩ x y
      · obtain ⟨h1, h2, h3, h4⟩ := (hin x y).mpr ⟨hclip, hdst⟩
        simp only [hclip, hdst, and_self, if_true]
        have hrow : oy + (y - t) = ((y : Int) - py).toNat := by omega
        have hcolumn : ox + (x - l) = ((x : Int) - px).toNat := by omega
        rw [hrow, hcolumn]
      · simp only [hclip, hdst, and_false, if_false, if_true]
        refine (hcells x y hx hy).trans ?_
        simp only [inRect_clipRect, hclip, true_and]
    · simp only [hclip, false_and, if_false]
      refine (hcells x y hx hy).trans ?_
      simp only [inRect_clipRect, hclip, false_and, if_false]

/-- The bounds of what cells of a size go to. -/
theorem hasSize_of (origin : Coord) (hx : -32768 ≤ origin.x ∧ origin.x ≤ 32767)
    (hy : -32768 ≤ origin.y ∧ origin.y ≤ 32767) (sx sy : Nat) (hsx : 0 < sx ∧ sx ≤ 32767)
    (hsy : 0 < sy ∧ sy ≤ 32767) :
    HasSize ⟨origin.x, origin.y, short (origin.x + sx - 1), short (origin.y + sy - 1)⟩ sx sy := by
  have hright := @short_cases (origin.x + sx - 1) (by omega) (by omega)
  have hbottom := @short_cases (origin.y + sy - 1) (by omega) (by omega)
  exact ⟨hx, hy, by dsimp only; omega, by dsimp only; omega⟩

/-- `Scroll`, where the sizes are positive. -/
theorem scroll_eq {rect : SmallRect} (clip : Option SmallRect) (origin : Coord) (fill : CharInfo)
    (sx sy : Nat) (hsx : short (rect.right + 1 - rect.left) = sx)
    (hsy : short (rect.bottom + 1 - rect.top) = sy) (hcolumns : rect.left ≤ rect.right)
    (hrows : rect.top ≤ rect.bottom) :
    O.scroll rect clip origin fill
      = (O.buf.readArea (resize O.tempChars (sy * sx)) ⟨sx, sy⟩ ⟨0, 0⟩ rect).bind fun read =>
          O.place read.1 ⟨sx, sy⟩ read.2
            ⟨origin.x, origin.y, short (origin.x + sx - 1), short (origin.y + sy - 1)⟩ clip fill := by
  have hx := short_range (rect.right + 1 - rect.left)
  have hy := short_range (rect.bottom + 1 - rect.top)
  rw [hsx] at hx
  rw [hsy] at hy
  have hle : sy * sx ≤ 32767 * 32767 := Nat.mul_le_mul (by omega) (by omega)
  have htotal : ((sx : Int) % 2 ^ 64 * ((sy : Int) % 2 ^ 64) % 2 ^ 64).toNat = sy * sx := by
    rw [← Int.mul_emod, ← Int.natCast_mul, Nat.mul_comm]
    omega
  rw [scroll, if_neg (by omega)]
  dsimp only
  rw [hsx, hsy, htotal, if_neg (by rw [maxTempChars]; omega)]
  rfl

/-- **Scrolling a part of the screen.** -/
theorem scroll_inside (hO : O.buf.Sized h) (l t r b : Nat) (hcolumns : l ≤ r ∧ r < O.buf.width)
    (hrows : t ≤ b ∧ b < h) (cl ct cr cb : Nat) (hclipColumns : cl ≤ cr ∧ cr < O.buf.width)
    (hclipRows : ct ≤ cb ∧ cb < h) (origin : Coord) (hx : -32768 ≤ origin.x ∧ origin.x ≤ 32767)
    (hy : -32768 ≤ origin.y ∧ origin.y ≤ 32767) (fill : CharInfo) :
    ∃ O', O.scroll ⟨l, t, r, b⟩ (some ⟨cl, ct, cr, cb⟩) origin fill = some O'
      ∧ SameSize O.buf O'.buf
      ∧ ∀ x y, x < O.buf.width → y < h → O'.buf.cell x y
          = if InRect ⟨cl, ct, cr, cb⟩ x y then
              if InRect ⟨origin.x, origin.y, short (origin.x + (r - l)), short (origin.y + (b - t))⟩ x y
              then O.buf.cell ((x : Int) - origin.x + l).toNat ((y : Int) - origin.y + t).toNat
              else if InRect ⟨l, t, r, b⟩ x y then some fill else O.buf.cell x y
            else O.buf.cell x y := by
  have hwidth := hO.width
  have hheight := hO.height
  obtain ⟨sx, hsx'⟩ : ∃ sx, r + 1 - l = sx := ⟨_, rfl⟩
  obtain ⟨sy, hsy'⟩ : ∃ sy, b + 1 - t = sy := ⟨_, rfl⟩
  have hsx : short ((r : Int) + 1 - l) = sx := by
    rw [short_eq (by omega) (by omega)]
    omega
  have hsy : short ((b : Int) + 1 - t) = sy := by
    rw [short_eq (by omega) (by omega)]
    omega
  rw [@scroll_eq O ⟨l, t, r, b⟩ _ origin fill sx sy hsx hsy (Int.ofNat_le.mpr hcolumns.1)
    (Int.ofNat_le.mpr hrows.1)]
  have hlast : min b (t + (sy - 0) - 1) = b := by omega
  obtain ⟨data, hread, hlength, hdata⟩ := readArea_inside hO (resize O.tempChars (sy * sx)) sx sy 0 0
    l t r b (by omega) (by omega) hcolumns hrows (by omega)
    (by
      rw [hlast, length_resize]
      have hle : (b - t + 1) * sx ≤ sy * sx := Nat.mul_le_mul_right _ (by omega)
      rw [Nat.succ_mul] at hle
      rw [Nat.zero_add]
      omega)
  have hread' := hread
  rw [hlast] at hread'
  have hdst := hasSize_of origin hx hy sx sy (by omega) (by omega)
  obtain ⟨O', hplace, hsame, hcells⟩ := place_spec hO data (by omega) (by omega)
    (hlength.trans (length_resize _ _)) ⟨l, t, r, b⟩ hdst cl ct cr cb hclipColumns hclipRows fill
  refine ⟨O', ?_, hsame, fun x y hxw hyh => ?_⟩
  · rw [show (⟨0, 0⟩ : Coord) = ⟨((0 : Nat) : Int), ((0 : Nat) : Int)⟩ from rfl, hread',
      Option.bind_some]
    exact hplace
  · rw [hcells x y hxw hyh]
    have hright : origin.x + sx - 1 = origin.x + ((r : Int) - l) := by omega
    have hbottom : origin.y + sy - 1 = origin.y + ((b : Int) - t) := by omega
    dsimp only
    rw [← hright, ← hbottom]
    split
    · split
      · next hin =>
        obtain ⟨h1, h2, h3, h4⟩ := hin
        have hdx := hdst.right
        have hdy := hdst.bottom
        dsimp only at h1 h2 h3 h4 hdx hdy
        rw [hdata _ _ (by omega), if_pos (by omega), cell]
        congr 1
        rw [show t + (((y : Int) - origin.y).toNat - 0) = ((y : Int) - origin.y + t).toNat from by omega,
          show l + (((x : Int) - origin.x).toNat - 0) = ((x : Int) - origin.x + l).toNat from by omega]
      · rfl
    · rfl

/-! ## A source that is not on the screen -/

theorem mem_copyCells {dst src dst' : List CharInfo} {di si n : Nat}
    (h : copyCells dst di src si n = some dst') :
    dst'.length = dst.length ∧ ∀ c ∈ dst', c ∈ dst ∨ c ∈ src := by
  rw [copyCells] at h
  split at h
  · next hfit =>
    cases Option.some.inj h
    refine ⟨?_, fun c hc => ?_⟩
    · simp only [List.length_append, List.length_take, List.length_drop]
      omega
    · rw [List.mem_append, List.mem_append] at hc
      rcases hc with (hc | hc) | hc
      · exact .inl (List.mem_of_mem_take hc)
      · exact .inr (List.mem_of_mem_drop (List.mem_of_mem_take hc))
      · exact .inl (List.mem_of_mem_drop hc)
  · exact absurd h (by simp)

theorem mem_copyRows {src : List CharInfo} {dstWidth srcWidth n : Nat} :
    ∀ {rows : Nat} {dst dst' : List CharInfo} {di si : Nat},
    copyRows src dstWidth srcWidth n rows dst di si = some dst' →
    dst'.length = dst.length ∧ ∀ c ∈ dst', c ∈ dst ∨ c ∈ src := by
  intro rows
  induction rows with
  | zero =>
    intro dst dst' di si h
    cases Option.some.inj h
    exact ⟨rfl, fun c hc => .inl hc⟩
  | succ rows ih =>
    intro dst dst' di si h
    rw [copyRows] at h
    obtain ⟨dst1, hcopy, hrest⟩ := Option.bind_eq_some_iff.mp h
    obtain ⟨hlength, hmem⟩ := mem_copyCells hcopy
    obtain ⟨hlength', hmem'⟩ := ih hrest
    refine ⟨hlength'.trans hlength, fun c hc => ?_⟩
    rcases hmem' c hc with hc | hc
    · exact hmem c hc
    · exact .inr hc

/-- What has been read comes from the screen, or was there before. -/
theorem mem_readArea {B : ConsoleBuffer} {data data' : List CharInfo} {size pos : Coord}
    {rect r : SmallRect} (h : B.readArea data size pos rect = some (data', r)) :
    data'.length = data.length ∧ ∀ c ∈ data', c ∈ data ∨ c ∈ B.chars := by
  rw [readArea] at h
  split at h
  · cases Option.some.inj h
    exact ⟨rfl, fun c hc => .inl hc⟩
  · obtain ⟨rows, -, hcopy⟩ := Option.bind_eq_some_iff.mp h
    obtain ⟨data'', hcopy, heq⟩ := Option.map_eq_some_iff.mp hcopy
    cases heq
    exact mem_copyRows hcopy

/-- **The destination is not filled**, wherever its cells come from. -/
theorem scroll_leaves (hO : O.buf.Sized h) {rect : SmallRect} {origin : Coord} {fill : CharInfo}
    {O' : ConsoleOutput} {cl ct cr cb : Nat}
    (hscroll : O.scroll rect (some ⟨cl, ct, cr, cb⟩) origin fill = some O')
    (hmarks : ∀ c ∈ O.buf.chars, c ≠ fill) (htemp : ∀ c ∈ O.tempChars, c ≠ fill)
    (hdefault : default ≠ fill) {sx sy : Nat} (hsx : short (rect.right + 1 - rect.left) = sx)
    (hsy : short (rect.bottom + 1 - rect.top) = sy) (hpos : 0 < sx ∧ 0 < sy)
    (hcolumns : rect.left ≤ rect.right) (hrows : rect.top ≤ rect.bottom)
    (hclipColumns : cl ≤ cr ∧ cr < O.buf.width) (hclipRows : ct ≤ cb ∧ cb < h)
    (hx : -32768 ≤ origin.x ∧ origin.x ≤ 32767) (hy : -32768 ≤ origin.y ∧ origin.y ≤ 32767)
    {x y : Nat} (hclip : InRect ⟨cl, ct, cr, cb⟩ x y)
    (hdst : InRect ⟨origin.x, origin.y, short (origin.x + sx - 1), short (origin.y + sy - 1)⟩ x y) :
    O'.buf.cell x y ≠ some fill := by
  have hsx' := short_range (rect.right + 1 - rect.left)
  have hsy' := short_range (rect.bottom + 1 - rect.top)
  rw [hsx] at hsx'
  rw [hsy] at hsy'
  rw [scroll_eq _ origin fill _ _ hsx hsy hcolumns hrows] at hscroll
  obtain ⟨⟨data, src⟩, hread, hplace⟩ := Option.bind_eq_some_iff.mp hscroll
  obtain ⟨hlength, hmem⟩ := mem_readArea hread
  obtain ⟨O'', hplace', hsame, hcells⟩ := place_spec hO data (by omega) (by omega)
    (hlength.trans (length_resize _ _)) src (hasSize_of origin hx hy sx sy (by omega) (by omega))
    cl ct cr cb hclipColumns hclipRows fill
  cases Option.some.inj (hplace.symm.trans hplace')
  obtain ⟨h1, h2, h3, h4⟩ := hclip
  dsimp only at h1 h2 h3 h4
  rw [hcells x y (by omega) (by omega), if_pos ⟨h1, h2, h3, h4⟩, if_pos hdst]
  intro hget
  have hin := List.mem_of_getElem? hget
  rcases hmem fill hin with hc | hc
  · rw [resize, List.mem_append] at hc
    rcases hc with hc | hc
    · exact htemp fill (List.mem_of_mem_take hc) rfl
    · exact hdefault (List.eq_of_mem_replicate hc).symm
  · exact hmarks fill hc rfl

/-- No result where one of the sizes is negative. -/
theorem scroll_none {rect : SmallRect} (clip : Option SmallRect) (origin : Coord) (fill : CharInfo)
    (hcolumns : rect.left ≤ rect.right) (hrows : rect.top ≤ rect.bottom)
    (hsize : short (rect.right + 1 - rect.left) < 0 ∧ 0 < short (rect.bottom + 1 - rect.top)
      ∨ 0 < short (rect.right + 1 - rect.left) ∧ short (rect.bottom + 1 - rect.top) < 0) :
    O.scroll rect clip origin fill = none := by
  have hx := short_range (rect.right + 1 - rect.left)
  have hy := short_range (rect.bottom + 1 - rect.top)
  rw [scroll, if_neg (by omega)]
  dsimp only
  generalize short (rect.right + 1 - rect.left) = sx at hsize hx ⊢
  generalize short (rect.bottom + 1 - rect.top) = sy at hsize hy ⊢
  rw [if_pos]
  have hprod : -(32768 * 32768) ≤ sx * sy ∧ sx * sy < 0 := by
    rcases hsize with ⟨hneg, hpos⟩ | ⟨hpos, hneg⟩
    · exact ⟨by nlinarith, Int.mul_neg_of_neg_of_pos hneg hpos⟩
    · exact ⟨by nlinarith, Int.mul_neg_of_pos_of_neg hpos hneg⟩
  rw [maxTempChars, ← Int.mul_emod]
  generalize sx * sy = p at hprod ⊢
  omega

end ConsoleOutput

/-! ## Copies of the size of the data -/

namespace ConsoleBuffer

variable {B : ConsoleBuffer} {h l t sx sy : Nat}

/-- A rectangle of the screen that is as large as the data. -/
structure Fits (B : ConsoleBuffer) (h l t sx sy : Nat) : Prop where
  length : B.chars.length = h * B.width
  columns : 0 < sx ∧ l + sx ≤ B.width ∧ B.width ≤ 32767
  rows : 0 < sy ∧ t + sy ≤ h ∧ t + sy ≤ 32767

theorem Fits.good (hfit : B.Fits h l t sx sy) : GoodData ⟨sx, sy⟩ ⟨0, 0⟩ := by
  have hcolumns := hfit.columns
  have hrows := hfit.rows
  simp only [GoodData]
  omega

/-- Such a rectangle is not cut. -/
theorem Fits.cutRect (hfit : B.Fits h l t sx sy) :
    B.cutRect h ⟨sx, sy⟩ ⟨0, 0⟩ ⟨l, t, (l : Int) + sx - 1, (t : Int) + sy - 1⟩
      = ⟨l, t, (l : Int) + sx - 1, (t : Int) + sy - 1⟩ := by
  have hcolumns := hfit.columns
  have hrows := hfit.rows
  rw [ConsoleBuffer.cutRect, SmallRect.mk.injEq]
  dsimp only
  omega

theorem Fits.onScreen (hfit : B.Fits h l t sx sy) :
    (⟨l, t, (l : Int) + sx - 1, (t : Int) + sy - 1⟩ : SmallRect).OnScreen B.width h := by
  have hcolumns := hfit.columns
  have hrows := hfit.rows
  simp only [SmallRect.OnScreen]
  omega

theorem Fits.elementOf {x y : Nat} :
    elementOf ⟨sx, sy⟩ ⟨0, 0⟩ ⟨l, t, (l : Int) + sx - 1, (t : Int) + sy - 1⟩ (l + x) (t + y) = y * sx + x := by
  rw [Far2l.elementOf]
  dsimp only
  rw [show ((0 : Int) + ((t + y : Nat) - (t : Int))).toNat = y by omega,
    show ((0 : Int) + ((l + x : Nat) - (l : Int))).toNat = x by omega, Int.toNat_natCast]

/-- `Read` of such a rectangle. -/
theorem readArea_full (hfit : B.Fits h l t sx sy) (data : List CharInfo) (hdata : sy * sx ≤ data.length) :
    ∃ data', B.readArea data ⟨sx, sy⟩ ⟨0, 0⟩ ⟨l, t, (l : Int) + sx - 1, (t : Int) + sy - 1⟩
        = some (data', ⟨l, t, (l : Int) + sx - 1, (t : Int) + sy - 1⟩)
      ∧ data'.length = data.length
      ∧ ∀ x y, x < sx → y < sy → data'[y * sx + x]? = B.cell (l + x) (t + y) := by
  have hcolumns := hfit.columns
  have hrows := hfit.rows
  obtain ⟨data', hread, hlength, hcells, -⟩ := @readArea_copies B h ⟨sx, sy⟩ ⟨0, 0⟩
    ⟨l, t, (l : Int) + sx - 1, (t : Int) + sy - 1⟩ hfit.length (by omega) data
    (by simp only [Coord.IsShort]; omega) (by simp only [Coord.IsShort]; omega) (by simp only [SmallRect.IsShort]; omega)
    hdata hfit.good (by rw [hfit.cutRect]; exact hfit.onScreen) (by rw [hfit.cutRect]; dsimp only; omega)
  rw [hfit.cutRect] at hread hcells
  refine ⟨data', hread, hlength, fun x y hx hy => ?_⟩
  have hcell := hcells (l + x) (t + y) (by simp only [SmallRect.Has]; omega)
  rwa [Fits.elementOf] at hcell

/-- `Write` of such a rectangle. -/
theorem writeArea_full (hfit : B.Fits h l t sx sy) (data : List CharInfo) (hdata : sy * sx ≤ data.length) :
    ∃ chars, B.writeArea data ⟨sx, sy⟩ ⟨0, 0⟩ ⟨l, t, (l : Int) + sx - 1, (t : Int) + sy - 1⟩
        = some (⟨B.width, chars⟩, ⟨l, t, (l : Int) + sx - 1, (t : Int) + sy - 1⟩)
      ∧ chars.length = B.chars.length
      ∧ (∀ x y, x < sx → y < sy → (⟨B.width, chars⟩ : ConsoleBuffer).cell (l + x) (t + y) = data[y * sx + x]?)
      ∧ ∀ x y, x < B.width → y < t ∨ t + sy ≤ y → (⟨B.width, chars⟩ : ConsoleBuffer).cell x y = B.cell x y := by
  have hcolumns := hfit.columns
  have hrows := hfit.rows
  obtain ⟨chars, hwrite, hlength, hcells, hkept⟩ := @writeArea_copies B h ⟨sx, sy⟩ ⟨0, 0⟩
    ⟨l, t, (l : Int) + sx - 1, (t : Int) + sy - 1⟩ hfit.length (by omega) data
    (by simp only [Coord.IsShort]; omega) (by simp only [Coord.IsShort]; omega) (by simp only [SmallRect.IsShort]; omega)
    hdata hfit.good (by rw [hfit.cutRect]; exact hfit.onScreen) (by rw [hfit.cutRect]; dsimp only; omega)
  rw [hfit.cutRect] at hwrite hcells hkept
  refine ⟨chars, hwrite, hlength, fun x y hx hy => ?_, fun x y hx hy => hkept _ fun x' y' hhas heq => ?_⟩
  · have hcell := hcells (l + x) (t + y) (by simp only [SmallRect.Has]; omega)
    rwa [Fits.elementOf] at hcell
  · simp only [SmallRect.Has] at hhas
    obtain ⟨rfl, rfl⟩ := index_inj hx (by omega) heq
    omega

end ConsoleBuffer

namespace ConsoleOutput

section

open ConsoleBuffer

variable {O O' : ConsoleOutput} {h : Nat}

/-! ## A region that scrolls -/

/-- **The rows of the region went up by one**, and the last is blank. -/
structure Scrolled (O O' : ConsoleOutput) : Prop where
  width : O'.buf.width = O.buf.width
  length : O'.buf.chars.length = O.buf.chars.length
  moved : ∀ x y, x < O.buf.width → O.scrollTop ≤ y → y + 1 < O.scrollEdge → O'.buf.cell x y = O.buf.cell x (y + 1)
  cleared : ∀ x, x < O.buf.width → O'.buf.cell x (O.scrollEdge - 1) = some O.blank
  kept : ∀ x y, x < O.buf.width → y < O.scrollTop ∨ O.scrollEdge ≤ y → O'.buf.cell x y = O.buf.cell x y

theorem row_size {width : Nat} (hwidth : width ≤ 32767) : (⟨short width, 1⟩ : Coord) = ⟨width, (1 : Nat)⟩ := by
  rw [short_eq (by omega) (by omega)]
  rfl

/-- What the callback is given is the first row. -/
theorem readForCallback_row (hlen : O.buf.chars.length = h * O.buf.width) (hh : 0 < h)
    (hwidth : 0 < O.buf.width ∧ O.buf.width ≤ 32767) {temp : List CharInfo} (htemp : O.buf.width ≤ temp.length) :
    ∃ temp', O.readForCallback temp = some temp' ∧ temp'.length = temp.length
      ∧ (O.scrollCallback = true → O.scrollTop = 0 → ∀ x < O.buf.width, temp'[x]? = O.buf.cell x 0) := by
  rw [readForCallback]
  split
  · have hfit : O.buf.Fits h 0 0 O.buf.width 1 := ⟨hlen, by omega, by omega⟩
    obtain ⟨temp', hread, hlength, hcells⟩ := readArea_full hfit temp (by omega)
    have hrect : (⟨0, 0, short (O.buf.width - 1), 0⟩ : SmallRect)
        = ⟨(0 : Nat), (0 : Nat), ((0 : Nat) : Int) + O.buf.width - 1, ((0 : Nat) : Int) + (1 : Nat) - 1⟩ := by
      rw [short_eq (by omega) (by omega), SmallRect.mk.injEq]
      omega
    rw [row_size hwidth.2, hrect, hread]
    refine ⟨temp', rfl, hlength, fun _ _ x hx => ?_⟩
    have hcell := hcells x 0 hx (by decide)
    rwa [Nat.zero_mul, Nat.zero_add, Nat.zero_add] at hcell
  · next hno => exact ⟨temp, rfl, rfl, fun hcall htop => absurd ⟨hcall, htop⟩ hno⟩

/-- **A region of two rows or more scrolls.** -/
theorem scrollOutputOnOverflow_scrolled (hlen : O.buf.chars.length = h * O.buf.width) (hO : h = O.buf.height)
    (hwidth : 0 < O.buf.width ∧ O.buf.width ≤ 32767) (hrows : O.scrollTop + 2 ≤ O.scrollEdge)
    (hlast : O.scrollEdge ≤ 32767) : ∃ O', O.scrollOutputOnOverflow = some O' ∧ Scrolled O O' := by
  have hedge : O.scrollEdge ≤ h := hO ▸ Nat.min_le_left _ _
  rw [scrollOutputOnOverflow]
  dsimp only
  rw [show min O.buf.height (O.scrollBottom + 1) = O.scrollEdge from rfl]
  have hlength := length_resize O.tempChars (O.buf.width * (O.scrollEdge - 1))
  generalize resize O.tempChars (O.buf.width * (O.scrollEdge - 1)) = temp at hlength ⊢
  generalize hn : O.scrollEdge - 1 - O.scrollTop = n
  have hdata : n * O.buf.width ≤ temp.length := by
    rw [hlength, Nat.mul_comm]
    exact Nat.mul_le_mul_left _ (by omega)
  have hrow : O.buf.width ≤ temp.length :=
    Nat.le_trans (Nat.le_mul_of_pos_left _ (by omega)) hdata
  rw [if_neg (by omega), if_neg (List.ne_nil_of_length_pos (by omega))]
  obtain ⟨temp1, hcallback, hlength1, -⟩ := readForCallback_row hlen (by omega) hwidth hrow
  -- the rows below the first are read
  have hbelow : O.buf.Fits h 0 (O.scrollTop + 1) O.buf.width n := ⟨hlen, by omega, by omega⟩
  obtain ⟨temp2, hread, hlength2, hcells2⟩ := readArea_full hbelow temp1 (by omega)
  have hsize : (⟨short O.buf.width, short ((O.scrollEdge : Int) - 1 - O.scrollTop)⟩ : Coord) = ⟨O.buf.width, n⟩ := by
    rw [short_eq (by omega) (by omega), short_eq (by omega) (by omega), Coord.mk.injEq]
    omega
  have hrect : (⟨0, short (O.scrollTop + 1), short (O.buf.width - 1), short ((O.scrollEdge : Int) - 1)⟩ : SmallRect)
      = ⟨(0 : Nat), (O.scrollTop + 1 : Nat), ((0 : Nat) : Int) + O.buf.width - 1,
        ((O.scrollTop + 1 : Nat) : Int) + n - 1⟩ := by
    rw [short_eq (by omega) (by omega), short_eq (by omega) (by omega), short_eq (by omega) (by omega),
      SmallRect.mk.injEq]
    omega
  have hwhole : (⟨(0 : Nat), (O.scrollTop + 1 : Nat), ((0 : Nat) : Int) + O.buf.width - 1,
      ((O.scrollTop + 1 : Nat) : Int) + n - 1⟩ : SmallRect)
      = ⟨0, O.scrollTop + 1, (O.buf.width : Int) - 1, (O.scrollEdge : Int) - 1⟩ := by
    rw [SmallRect.mk.injEq]
    omega
  rw [hsize, hrect, hcallback, Option.bind_eq_bind, Option.bind_some, hread, Option.bind_eq_bind, Option.bind_some]
  dsimp only
  rw [if_neg (not_not.mpr hwhole)]
  -- they are written one row above
  have hregion : O.buf.Fits h 0 O.scrollTop O.buf.width n := ⟨hlen, by omega, by omega⟩
  obtain ⟨chars, hwrite, hchars, hmoved, hkept⟩ := writeArea_full hregion temp2 (by omega)
  have hrect' : (⟨((0 : Nat) : Int), short O.scrollTop, ((0 : Nat) : Int) + O.buf.width - 1,
      short ((O.scrollEdge : Int) - 2)⟩ : SmallRect)
      = ⟨(0 : Nat), O.scrollTop, ((0 : Nat) : Int) + O.buf.width - 1, (O.scrollTop : Int) + n - 1⟩ := by
    rw [short_eq (by omega) (by omega), short_eq (by omega) (by omega), SmallRect.mk.injEq]
    omega
  rw [hrect', hwrite, Option.bind_eq_bind, Option.bind_some]
  have hblank : O.blankRow temp2
      = some (List.replicate O.buf.width O.blank ++ temp2.drop O.buf.width) := by
    rw [blankRow, if_neg (by omega)]
  rw [hblank, Option.bind_some]
  dsimp only
  -- and the last row is written
  have hfit : (⟨O.buf.width, chars⟩ : ConsoleBuffer).Fits h 0 (O.scrollEdge - 1) O.buf.width 1 :=
    ⟨hchars.trans hlen, ⟨hwidth.1, Nat.le_of_eq (Nat.zero_add _), hwidth.2⟩, by omega⟩
  obtain ⟨chars', hwrite', hchars', hcleared, hkept'⟩ := writeArea_full hfit
    (List.replicate O.buf.width O.blank ++ temp2.drop O.buf.width) (by simp)
  have hrect'' : (⟨0, short ((O.scrollEdge : Int) - 1), short (O.buf.width - 1), short ((O.scrollEdge : Int) - 1)⟩
      : SmallRect) = ⟨(0 : Nat), (O.scrollEdge - 1 : Nat), ((0 : Nat) : Int) + O.buf.width - 1,
        ((O.scrollEdge - 1 : Nat) : Int) + (1 : Nat) - 1⟩ := by
    rw [short_eq (by omega) (by omega), short_eq (by omega) (by omega), SmallRect.mk.injEq]
    omega
  rw [hrect'', row_size hwidth.2, hwrite', Option.bind_some]
  refine ⟨_, rfl, rfl, hchars'.trans hchars, fun x y hx hy hlt => ?_, fun x hx => ?_, fun x y hx hy => ?_⟩
  · have hcell := hmoved x (y - O.scrollTop) hx (by omega)
    have hcell' := hcells2 x (y - O.scrollTop) hx (by omega)
    rw [Nat.zero_add, show O.scrollTop + (y - O.scrollTop) = y by omega] at hcell
    rw [Nat.zero_add, show O.scrollTop + 1 + (y - O.scrollTop) = y + 1 by omega] at hcell'
    exact (hkept' x y hx (by omega)).trans (hcell.trans hcell')
  · have hcell := hcleared x 0 hx (by decide)
    rw [Nat.zero_add, Nat.add_zero, Nat.zero_mul, Nat.zero_add,
      List.getElem?_append_left (by rw [List.length_replicate]; exact hx), List.getElem?_replicate, if_pos hx] at hcell
    exact hcell
  · exact (hkept' x y hx (by omega)).trans (hkept x y hx (by omega))

end

end ConsoleOutput

end Far2l
