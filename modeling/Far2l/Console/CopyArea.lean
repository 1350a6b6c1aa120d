/-
Far2l.Console.CopyArea — `Read`, `Write` and `SetSize` of a `ConsoleBuffer` that may have
any size, none included.

Behind its test on the data `InspectCopyArea` divides by the width. `readArea` and
`writeArea` are for a screen that has one.
-/
import Far2l.Console.Areas
import Far2l.Console.FullWidth

namespace Far2l

namespace ConsoleBuffer

/-- The test on the data at the head of `InspectCopyArea`. -/
def GoodData (dataSize dataPos : Coord) : Prop :=
  ¬(dataPos.x < 0 ∨ dataPos.y < 0 ∨ dataSize.x < 0 ∨ dataSize.y < 0
    ∨ dataPos.x ≥ dataSize.x ∨ dataPos.y ≥ dataSize.y)

instance (dataSize dataPos : Coord) : Decidable (GoodData dataSize dataPos) :=
  inferInstanceAs (Decidable (¬_))

/-- `Read` of an area. -/
def readRect (B : ConsoleBuffer) (data : List CharInfo) (dataSize dataPos : Coord) (rect : SmallRect) :
    Option (List CharInfo × SmallRect) :=
  if GoodData dataSize dataPos ∧ B.width = 0 then none else B.readArea data dataSize dataPos rect

/-- `Write` of an area. -/
def writeRect (B : ConsoleBuffer) (data : List CharInfo) (dataSize dataPos : Coord) (rect : SmallRect) :
    Option (ConsoleBuffer × SmallRect) :=
  if GoodData dataSize dataPos ∧ B.width = 0 then none else B.writeArea data dataSize dataPos rect

/-- `SetSize`. The product of the new width and height is an `unsigned int`. -/
def setSize (B : ConsoleBuffer) (width height : Nat) (attributes : UInt64) : Option ConsoleBuffer :=
  if width = B.width ∧ width * height % 2 ^ 32 = B.chars.length then some B
  else
    let prevSize : Coord := ⟨short B.width, if B.width = 0 then 0 else short (B.chars.length / B.width : Nat)⟩
    let blanks : List CharInfo := List.replicate (height * width) ⟨SPACE.toUInt64, attributes⟩
    if B.chars ≠ [] ∧ blanks ≠ [] then
      ((⟨width, blanks⟩ : ConsoleBuffer).writeRect B.chars prevSize ⟨0, 0⟩
        ⟨0, 0, short ((width : Int) - 1), short ((height : Int) - 1)⟩).map Prod.fst
    else some ⟨width, blanks⟩

end ConsoleBuffer

end Far2l

/-! # Which cells `Read` and `Write` copy, and when they stay

in their arrays.

The rectangle that is copied is the given one, cut to the screen and to the data; in
`SHORT`s nothing is lost by that. What goes wrong is a buffer without columns, by whose
width is divided, and a last row that is the greatest `SHORT`, behind which the loop
over the rows does not end. A `SetSize` writes the old cells into the new ones, and
takes their sizes for `SHORT`s. -/

namespace Far2l

/-! ## Rectangles -/

/-- The members are `SHORT`s. -/
def SmallRect.IsShort (r : SmallRect) : Prop :=
  (-32768 ≤ r.left ∧ r.left ≤ 32767) ∧ (-32768 ≤ r.top ∧ r.top ≤ 32767) ∧ (-32768 ≤ r.right ∧ r.right ≤ 32767)
    ∧ -32768 ≤ r.bottom ∧ r.bottom ≤ 32767

/-- A cell is in a rectangle. -/
def SmallRect.Has (r : SmallRect) (x y : Nat) : Prop := r.left ≤ x ∧ x ≤ r.right ∧ r.top ≤ y ∧ y ≤ r.bottom

/-- The rectangle is on a screen, and has a cell. -/
def SmallRect.OnScreen (r : SmallRect) (width height : Nat) : Prop :=
  (0 ≤ r.left ∧ r.left ≤ r.right ∧ r.right < width) ∧ 0 ≤ r.top ∧ r.top ≤ r.bottom ∧ r.bottom < height

/-- The index of the element of the data that belongs to a cell of a rectangle. -/
def elementOf (dataSize dataPos : Coord) (r : SmallRect) (x y : Nat) : Nat :=
  (dataPos.y + (y - r.top)).toNat * dataSize.x.toNat + (dataPos.x + (x - r.left)).toNat

/-- A copy of rows, cell by cell of a rectangle. -/
theorem copyRows_rect (dst src : List CharInfo) (dstWidth srcWidth di si : Nat) {l t r b : Nat} (hx : l ≤ r) (hy : t ≤ b)
    (hcols : r + 1 - l ≤ dstWidth) (hdst : di + (b - t) * dstWidth + (r + 1 - l) ≤ dst.length)
    (hsrc : si + (b - t) * srcWidth + (r + 1 - l) ≤ src.length) :
    ∃ dst', copyRows src dstWidth srcWidth (r + 1 - l) (b + 1 - t) dst di si = some dst' ∧ dst'.length = dst.length
      ∧ (∀ x y, l ≤ x → x ≤ r → t ≤ y → y ≤ b →
        dst'[di + (y - t) * dstWidth + (x - l)]? = src[si + (y - t) * srcWidth + (x - l)]?)
      ∧ ∀ i, (∀ x y, l ≤ x → x ≤ r → t ≤ y → y ≤ b → i ≠ di + (y - t) * dstWidth + (x - l)) → dst'[i]? = dst[i]? := by
  have hrows : b + 1 - t - 1 = b - t := by omega
  obtain ⟨dst', hcopy, hlength⟩ := copyRows_some src dstWidth srcWidth (r + 1 - l) (b + 1 - t) dst di si
    (fun _ => hrows ▸ hdst) (fun _ => hrows ▸ hsrc)
  obtain ⟨hcopied, hkept⟩ := copyRows_spec hcols hcopy
  refine ⟨dst', hcopy, hlength, fun x y h1 h2 h3 h4 => hcopied (y - t) (x - l) (by omega) (by omega), fun i hi => ?_⟩
  refine hkept i fun row j hrow hj heq => hi (l + j) (t + row) (by omega) (by omega) (by omega) (by omega) ?_
  rw [heq, Nat.add_sub_cancel_left, Nat.add_sub_cancel_left]

namespace ConsoleBuffer

variable {B : ConsoleBuffer} {h : Nat} {dataSize dataPos : Coord} {rect : SmallRect}

/-! ## The rectangle that is copied -/

/-- A last column, or row, is cut to the screen and to the data. -/
theorem cut_eq (limit : Nat) {avail first last : Int} (havail : 1 ≤ avail ∧ avail ≤ 32767)
    (hfirst : -32768 ≤ first ∧ first ≤ 32767) (hlast : -32768 ≤ last ∧ last ≤ 32767) :
    cutToData avail first (cutToScreen limit last) = min (min last (limit - 1)) (first + avail - 1) := by
  have hscreen : cutToScreen limit last = min last (limit - 1) := by
    rw [cutToScreen]
    split
    · rw [short_eq (by omega) (by omega)]
      omega
    · omega
  rw [hscreen, cutToData]
  split
  · rw [short_eq (by omega) (by omega)]
    omega
  · omega

/-- The rectangle, cut to the screen and to the data. -/
def cutRect (B : ConsoleBuffer) (h : Nat) (dataSize dataPos : Coord) (rect : SmallRect) : SmallRect where
  left := rect.left
  top := rect.top
  right := min (min rect.right (B.width - 1)) (rect.left + (dataSize.x - dataPos.x) - 1)
  bottom := min (min rect.bottom (h - 1)) (rect.top + (dataSize.y - dataPos.y) - 1)

/-- `InspectCopyArea` gives the rectangle that has been cut, and the index of its first cell when it is on the screen. -/
theorem inspectCopyArea_eq (hlen : B.chars.length = h * B.width) (hw : 0 < B.width) (hsize : dataSize.IsShort)
    (hpos : dataPos.IsShort) (hrect : rect.IsShort) (hgood : GoodData dataSize dataPos) :
    ((B.cutRect h dataSize dataPos rect).OnScreen B.width h
        ∧ B.inspectCopyArea dataSize dataPos rect = (B.cutRect h dataSize dataPos rect,
          some (rect.top.toNat * B.width + rect.left.toNat)))
      ∨ ¬(B.cutRect h dataSize dataPos rect).OnScreen B.width h
        ∧ B.inspectCopyArea dataSize dataPos rect = (B.cutRect h dataSize dataPos rect, none) := by
  simp only [Coord.IsShort] at hsize hpos
  obtain ⟨hl, ht, hr, hb⟩ := hrect
  have hheight : B.height = h := by
    rw [height, if_neg (Nat.ne_of_gt hw), hlen, Nat.mul_div_cancel _ hw]
  rw [inspectCopyArea, if_neg hgood]
  simp only [GoodData, not_or, Int.not_lt, ge_iff_le, Int.not_le] at hgood
  rw [short_eq (v := dataSize.x - dataPos.x) (by omega) (by omega),
    short_eq (v := dataSize.y - dataPos.y) (by omega) (by omega), hheight]
  dsimp only
  rw [cut_eq B.width (by omega) hl hr, cut_eq h (by omega) ht hb]
  by_cases hon : (B.cutRect h dataSize dataPos rect).OnScreen B.width h
  · obtain ⟨hx, hy⟩ := hon
    simp only [cutRect] at hx hy
    exact .inl ⟨⟨hx, hy⟩, by rw [if_neg (by omega), if_neg (by omega)]; rfl⟩
  · refine .inr ⟨hon, ?_⟩
    split
    · rfl
    · split
      · rfl
      · next hx hy =>
        refine absurd ⟨?_, ?_⟩ hon
        · simp only [cutRect]
          omega
        · simp only [cutRect]
          omega

variable (B h dataSize dataPos rect) in
/-- **The copy ends.** There is a width to divide by; and the rectangle does not go on to the greatest `SHORT`, or the
screen or the data does not, or no column is copied. -/
def CopyEnds : Prop :=
  GoodData dataSize dataPos → 0 < B.width
    ∧ ¬(rect.bottom = 32767 ∧ 32767 < h ∧ 32767 - rect.top < dataSize.y - dataPos.y ∧ 0 ≤ rect.top
      ∧ 0 ≤ rect.left ∧ rect.left < B.width ∧ rect.left ≤ rect.right)

/-- The last row that is copied is the greatest `SHORT`. -/
theorem cutRect_endless (hrect : rect.IsShort) (hgood : GoodData dataSize dataPos) :
    ((B.cutRect h dataSize dataPos rect).OnScreen B.width h ∧ (B.cutRect h dataSize dataPos rect).bottom = 32767)
      ↔ rect.bottom = 32767 ∧ 32767 < h ∧ 32767 - rect.top < dataSize.y - dataPos.y ∧ 0 ≤ rect.top
        ∧ 0 ≤ rect.left ∧ rect.left < B.width ∧ rect.left ≤ rect.right := by
  obtain ⟨hl, ht, hr, hb⟩ := hrect
  simp only [GoodData, not_or, Int.not_lt, ge_iff_le, Int.not_le] at hgood
  rw [SmallRect.OnScreen, cutRect]
  dsimp only
  constructor
  · rintro ⟨⟨hx, hy⟩, hlast⟩
    omega
  · intro hend
    omega

/-! ## `Read` and `Write` -/

/-- **A `Read` is right**: it stays in its arrays; nothing is copied, or the elements of the data that belong to the
cells of the reported rectangle are these cells, and the others are kept. -/
def ReadRight (B : ConsoleBuffer) (h : Nat) (data : List CharInfo) (dataSize dataPos : Coord)
    (outcome : Option (List CharInfo × SmallRect)) : Prop :=
  ∃ data' r, outcome = some (data', r) ∧ data'.length = data.length
    ∧ (data' = data ∨ r.OnScreen B.width h
      ∧ (∀ x y, r.Has x y → data'[elementOf dataSize dataPos r x y]? = B.chars[y * B.width + x]?)
      ∧ ∀ i, (∀ x y, r.Has x y → i ≠ elementOf dataSize dataPos r x y) → data'[i]? = data[i]?)

/-- **A `Write` is right**, likewise. -/
def WriteRight (B : ConsoleBuffer) (h : Nat) (data : List CharInfo) (dataSize dataPos : Coord)
    (outcome : Option (ConsoleBuffer × SmallRect)) : Prop :=
  ∃ B' r, outcome = some (B', r) ∧ B'.width = B.width ∧ B'.chars.length = B.chars.length
    ∧ (B' = B ∨ r.OnScreen B.width h
      ∧ (∀ x y, r.Has x y → B'.chars[y * B.width + x]? = data[elementOf dataSize dataPos r x y]?)
      ∧ ∀ i, (∀ x y, r.Has x y → i ≠ y * B.width + x) → B'.chars[i]? = B.chars[i]?)

/-- Where the elements of the data lie, as a copy counts them. -/
theorem elementOf_eq {px py sx l t r b x y : Nat} (dataSize dataPos : Coord) (hs : dataSize.x.toNat = sx)
    (hx : dataPos.x = px) (hy : dataPos.y = py) (hlx : l ≤ x) (hty : t ≤ y) :
    elementOf dataSize dataPos ⟨l, t, r, b⟩ x y = py * sx + px + (y - t) * sx + (x - l) := by
  have hrow : (dataPos.y + ((y : Int) - t)).toNat = py + (y - t) := by omega
  have hcol : (dataPos.x + ((x : Int) - l)).toNat = px + (x - l) := by omega
  rw [elementOf, hs]
  dsimp only
  rw [hrow, hcol]
  ring

/-- **What is copied when something is**: a rectangle of the screen, and its rows in the data. -/
theorem cutRect_nat (hgood : GoodData dataSize dataPos)
    (hon : (B.cutRect h dataSize dataPos rect).OnScreen B.width h) :
    ∃ l t r b px py : Nat, B.cutRect h dataSize dataPos rect = ⟨l, t, r, b⟩ ∧ rect.left = l ∧ rect.top = t
      ∧ dataPos.x = px ∧ dataPos.y = py ∧ (l ≤ r ∧ r < B.width ∧ px + (r + 1 - l) ≤ dataSize.x.toNat)
      ∧ t ≤ b ∧ b < h ∧ py + (b + 1 - t) ≤ dataSize.y.toNat := by
  simp only [GoodData, not_or, Int.not_lt, ge_iff_le, Int.not_le] at hgood
  obtain ⟨⟨hl, hlr, hr⟩, ht, htb, hb⟩ := hon
  have hr2 : (B.cutRect h dataSize dataPos rect).right ≤ rect.left + (dataSize.x - dataPos.x) - 1 := Int.min_le_right _ _
  have hb2 : (B.cutRect h dataSize dataPos rect).bottom ≤ rect.top + (dataSize.y - dataPos.y) - 1 :=
    Int.min_le_right _ _
  have hleft : (B.cutRect h dataSize dataPos rect).left = rect.left := rfl
  have htop : (B.cutRect h dataSize dataPos rect).top = rect.top := rfl
  generalize hcut : B.cutRect h dataSize dataPos rect = cut at *
  obtain ⟨cl, ct, cr, cb⟩ := cut
  dsimp only at *
  refine ⟨cl.toNat, ct.toNat, cr.toNat, cb.toNat, dataPos.x.toNat, dataPos.y.toNat, ?_, by omega, by omega, by omega,
    by omega, by omega, by omega, by omega, by omega⟩
  rw [SmallRect.mk.injEq]
  omega

/-- A rectangle is within an array of rows. -/
theorem rect_fits {first left width limit length l t r b : Nat} (hlen : limit * width ≤ length) (htb : t ≤ b)
    (hx : left + (r + 1 - l) ≤ width) (hy : first + (b + 1 - t) ≤ limit) :
    first * width + left + (b - t) * width + (r + 1 - l) ≤ length := by
  have hfit := rows_fit (show 0 < b + 1 - t by omega) hy hx
  rw [show b + 1 - t - 1 = b - t by omega] at hfit
  exact hfit.trans hlen

/-- Where the cells of the screen lie, as a copy counts them. -/
theorem cell_eq {w l t x y : Nat} (hlx : l ≤ x) (hty : t ≤ y) : t * w + l + (y - t) * w + (x - l) = y * w + x := by
  have hrow : t * w + (y - t) * w = y * w := by rw [← Nat.add_mul, show t + (y - t) = y by omega]
  omega

theorem has_nat {l t r b x y : Nat} : (⟨l, t, r, b⟩ : SmallRect).Has x y ↔ l ≤ x ∧ x ≤ r ∧ t ≤ y ∧ y ≤ b := by
  simp only [SmallRect.Has]
  omega

theorem rows_of_ne {l t r b : Int} (hb : b ≠ 32767) : rows ⟨l, t, r, b⟩ = some (b + 1 - t).toNat := if_neg hb

section

variable (hlen : B.chars.length = h * B.width) (hw : 0 < B.width) {data : List CharInfo}
  (hsize : dataSize.IsShort) (hpos : dataPos.IsShort) (hrect : rect.IsShort)
  (hdata : dataSize.y.toNat * dataSize.x.toNat ≤ data.length) (hgood : GoodData dataSize dataPos)
  (hon : (B.cutRect h dataSize dataPos rect).OnScreen B.width h)
  (hlast : (B.cutRect h dataSize dataPos rect).bottom ≠ 32767)
include hlen hw hsize hpos hrect hdata hgood hon hlast

/-- What `Read` copies. -/
theorem readArea_copies :
    ∃ data', B.readArea data dataSize dataPos rect = some (data', B.cutRect h dataSize dataPos rect)
      ∧ data'.length = data.length
      ∧ (∀ x y, (B.cutRect h dataSize dataPos rect).Has x y →
        data'[elementOf dataSize dataPos (B.cutRect h dataSize dataPos rect) x y]? = B.chars[y * B.width + x]?)
      ∧ ∀ i, (∀ x y, (B.cutRect h dataSize dataPos rect).Has x y →
        i ≠ elementOf dataSize dataPos (B.cutRect h dataSize dataPos rect) x y) → data'[i]? = data[i]? := by
  obtain ⟨-, heq⟩ := (inspectCopyArea_eq hlen hw hsize hpos hrect hgood).resolve_right fun h => h.1 hon
  obtain ⟨l, t, r, b, px, py, hcut, hl, ht, hpx, hpy, ⟨hlr, hrw, hcols⟩, htb, hbh, hrows⟩ :=
    cutRect_nat hgood hon
  rw [readArea, heq]
  rw [hcut] at hlast ⊢
  obtain ⟨data', hcopy, hlength, hcells, hkept⟩ := copyRows_rect data B.chars
    dataSize.x.toNat B.width (py * dataSize.x.toNat + px) (t * B.width + l)
    hlr htb (by omega) (rect_fits hdata htb hcols hrows)
    (rect_fits (Nat.le_of_eq hlen.symm) htb (by omega) (by omega))
  dsimp only
  rw [rows_of_ne hlast, Option.bind_some, hl, ht, hpx, hpy]
  simp only [Int.toNat_natCast]
  rw [show ((r : Int) + 1 - l).toNat = r + 1 - l by omega, show ((b : Int) + 1 - t).toNat = b + 1 - t by omega, hcopy]
  refine ⟨data', rfl, hlength, fun x y hxy => ?_, fun i hi => hkept i ?_⟩
  · obtain ⟨h1, h2, h3, h4⟩ := has_nat.mp hxy
    rw [elementOf_eq dataSize dataPos rfl hpx hpy h1 h3, hcells x y h1 h2 h3 h4, cell_eq h1 h3]
  · intro x y h1 h2 h3 h4
    rw [← elementOf_eq dataSize dataPos rfl hpx hpy h1 h3]
    exact hi x y (has_nat.mpr ⟨h1, h2, h3, h4⟩)

/-- What `Write` copies. -/
theorem writeArea_copies :
    ∃ chars, B.writeArea data dataSize dataPos rect = some (⟨B.width, chars⟩, B.cutRect h dataSize dataPos rect)
      ∧ chars.length = B.chars.length
      ∧ (∀ x y, (B.cutRect h dataSize dataPos rect).Has x y →
        chars[y * B.width + x]? = data[elementOf dataSize dataPos (B.cutRect h dataSize dataPos rect) x y]?)
      ∧ ∀ i, (∀ x y, (B.cutRect h dataSize dataPos rect).Has x y → i ≠ y * B.width + x) →
        chars[i]? = B.chars[i]? := by
  obtain ⟨-, heq⟩ := (inspectCopyArea_eq hlen hw hsize hpos hrect hgood).resolve_right fun h => h.1 hon
  obtain ⟨l, t, r, b, px, py, hcut, hl, ht, hpx, hpy, ⟨hlr, hrw, hcols⟩, htb, hbh, hrows⟩ :=
    cutRect_nat hgood hon
  rw [writeArea, heq]
  rw [hcut] at hlast ⊢
  obtain ⟨chars, hcopy, hlength, hcells, hkept⟩ := copyRows_rect B.chars data
    B.width dataSize.x.toNat (t * B.width + l) (py * dataSize.x.toNat + px)
    hlr htb (by omega) (rect_fits (Nat.le_of_eq hlen.symm) htb (by omega) (by omega))
    (rect_fits hdata htb hcols hrows)
  dsimp only
  rw [rows_of_ne hlast, Option.bind_some, hl, ht, hpx, hpy]
  simp only [Int.toNat_natCast]
  rw [show ((r : Int) + 1 - l).toNat = r + 1 - l by omega, show ((b : Int) + 1 - t).toNat = b + 1 - t by omega, hcopy]
  refine ⟨chars, rfl, hlength, fun x y hxy => ?_, fun i hi => hkept i ?_⟩
  · obtain ⟨h1, h2, h3, h4⟩ := has_nat.mp hxy
    rw [elementOf_eq dataSize dataPos rfl hpx hpy h1 h3, ← hcells x y h1 h2 h3 h4, cell_eq h1 h3]
  · intro x y h1 h2 h3 h4
    rw [cell_eq h1 h3]
    exact hi x y (has_nat.mpr ⟨h1, h2, h3, h4⟩)

end

section

variable (hlen : B.chars.length = h * B.width) (data : List CharInfo) (hsize : dataSize.IsShort)
  (hpos : dataPos.IsShort) (hrect : rect.IsShort) (hdata : dataSize.y.toNat * dataSize.x.toNat ≤ data.length)
include hlen hsize hpos hrect hdata

/-- **`Read` is right** exactly when the copy ends. -/
theorem readRect_iff :
    ReadRight B h data dataSize dataPos (B.readRect data dataSize dataPos rect)
      ↔ CopyEnds B h dataSize dataPos rect := by
  rw [readRect]
  by_cases hgood : GoodData dataSize dataPos
  · rcases Nat.eq_zero_or_pos B.width with hzero | hw
    · rw [if_pos ⟨hgood, hzero⟩]
      exact iff_of_false (by rintro ⟨_, _, h, _⟩; cases h) fun h => absurd (h hgood).1 (by omega)
    · rw [if_neg fun h => absurd h.2 (Nat.ne_of_gt hw)]
      rcases inspectCopyArea_eq hlen hw hsize hpos hrect hgood with ⟨hon, heq⟩ | ⟨hoff, heq⟩
      · by_cases hlast : (B.cutRect h dataSize dataPos rect).bottom = 32767
        · rw [readArea, heq]
          dsimp only
          rw [rows, if_pos hlast]
          exact iff_of_false (by rintro ⟨_, _, h, _⟩; cases h) fun h =>
            (h hgood).2 ((cutRect_endless hrect hgood).mp ⟨hon, hlast⟩)
        · obtain ⟨data', hread, hlength, hcells, hkept⟩ :=
            readArea_copies hlen hw hsize hpos hrect hdata hgood hon hlast
          exact iff_of_true ⟨data', _, hread, hlength, .inr ⟨hon, hcells, hkept⟩⟩ fun _ =>
            ⟨hw, fun hend => hlast ((cutRect_endless hrect hgood).mpr hend).2⟩
      · rw [readArea, heq]
        exact iff_of_true ⟨data, _, rfl, rfl, .inl rfl⟩ fun _ =>
          ⟨hw, fun hend => hoff ((cutRect_endless hrect hgood).mpr hend).1⟩
  · rw [if_neg fun h => hgood h.1, readArea, inspectCopyArea, if_pos (not_not.mp hgood)]
    exact iff_of_true ⟨data, rect, rfl, rfl, .inl rfl⟩ fun h => absurd h hgood

/-- **`Write` is right** exactly when the copy ends. -/
theorem writeRect_iff :
    WriteRight B h data dataSize dataPos (B.writeRect data dataSize dataPos rect)
      ↔ CopyEnds B h dataSize dataPos rect := by
  rw [writeRect]
  by_cases hgood : GoodData dataSize dataPos
  · rcases Nat.eq_zero_or_pos B.width with hzero | hw
    · rw [if_pos ⟨hgood, hzero⟩]
      exact iff_of_false (by rintro ⟨_, _, h, _⟩; cases h) fun h => absurd (h hgood).1 (by omega)
    · rw [if_neg fun h => absurd h.2 (Nat.ne_of_gt hw)]
      rcases inspectCopyArea_eq hlen hw hsize hpos hrect hgood with ⟨hon, heq⟩ | ⟨hoff, heq⟩
      · by_cases hlast : (B.cutRect h dataSize dataPos rect).bottom = 32767
        · rw [writeArea, heq]
          dsimp only
          rw [rows, if_pos hlast]
          exact iff_of_false (by rintro ⟨_, _, h, _⟩; cases h) fun h =>
            (h hgood).2 ((cutRect_endless hrect hgood).mp ⟨hon, hlast⟩)
        · obtain ⟨chars, hwrite, hlength, hcells, hkept⟩ :=
            writeArea_copies hlen hw hsize hpos hrect hdata hgood hon hlast
          exact iff_of_true ⟨⟨B.width, chars⟩, _, hwrite, rfl, hlength, .inr ⟨hon, hcells, hkept⟩⟩ fun _ =>
            ⟨hw, fun hend => hlast ((cutRect_endless hrect hgood).mpr hend).2⟩
      · rw [writeArea, heq]
        exact iff_of_true ⟨B, _, rfl, rfl, rfl, .inl rfl⟩ fun _ =>
          ⟨hw, fun hend => hoff ((cutRect_endless hrect hgood).mpr hend).1⟩
  · rw [if_neg fun h => hgood h.1, writeArea, inspectCopyArea, if_pos (not_not.mp hgood)]
    exact iff_of_true ⟨B, rect, rfl, rfl, rfl, .inl rfl⟩ fun h => absurd h hgood

end

/-! ## `SetSize` -/

/-- A blank cell. -/
def blankCell (attributes : UInt64) : CharInfo := ⟨SPACE.toUInt64, attributes⟩

/-- **`SetSize` is right**, whatever the screen shows: the cells in the common part are kept, the others are blank. -/
def ResizeRight (w₀ h₀ w₁ h₁ : Nat) : Prop :=
  ∀ (chars : List CharInfo) (attributes : UInt64), chars.length = h₀ * w₀ →
    ∃ B, setSize ⟨w₀, chars⟩ w₁ h₁ attributes = some B ∧ B.width = w₁ ∧ B.chars.length = h₁ * w₁
      ∧ ∀ x y, x < w₁ → y < h₁ → B.chars[y * w₁ + x]?
        = if x < w₀ ∧ y < h₀ then chars[y * w₀ + x]? else some (blankCell attributes)

/-- The common extent is no more than the old one as a `SHORT`, and ends no further than the last index of the new
one as a `SHORT`. -/
def ShortFits (old new : Nat) : Prop := (min old new : Nat) ≤ short old ∧ (min old new : Nat) ≤ short ((new : Int) - 1) + 1

/-- When `SetSize` is right: it does not take another size for the same; and the sizes survive as `SHORT`s, as far as
there is a common part. -/
def ResizeFits (w₀ h₀ w₁ h₁ : Nat) : Prop :=
  if w₁ = w₀ ∧ w₁ * h₁ % 2 ^ 32 = h₀ * w₀ then h₁ * w₁ = h₀ * w₀
  else (0 < w₀ ∧ 0 < h₀ ∧ 0 < w₁ ∧ 0 < h₁) →
    ShortFits w₀ w₁ ∧ ShortFits h₀ h₁ ∧ (min h₀ h₁ = 1 ∨ short w₀ = w₀)

variable {w₀ h₀ w₁ h₁ : Nat} {chars : List CharInfo} {attributes : UInt64}

/-- How many columns, or rows, `SetSize` copies. -/
def copied (old new : Nat) : Nat := (min (short ((new : Int) - 1) + 1) (short old)).toNat

theorem short_le {n : Nat} : short n ≤ n := by
  rw [short]
  omega

theorem short_pred_le {n : Nat} (hn : 0 < n) : short ((n : Int) - 1) + 1 ≤ n := by
  rw [short]
  omega

theorem short_toNat_le {n : Nat} : (short n).toNat ≤ n := Int.toNat_le.mpr short_le

theorem short_toNat_eq {n : Nat} (hn : 0 < n) : (short n).toNat = n ↔ short n = n := by
  generalize short n = s
  omega

theorem copied_le {old new : Nat} (hnew : 0 < new) : copied old new ≤ min old new := by
  have hle := short_le (n := old)
  have hpred := short_pred_le hnew
  rw [copied]
  generalize short old = s at hle ⊢
  generalize short ((new : Int) - 1) = t at hpred ⊢
  omega

theorem shortFits_iff {old new : Nat} (hold : 0 < old) (hnew : 0 < new) :
    ShortFits old new ↔ copied old new = min old new := by
  have hle := short_le (n := old)
  have hpred := short_pred_le hnew
  rw [ShortFits, copied]
  generalize short old = s at hle ⊢
  generalize short ((new : Int) - 1) = t at hpred ⊢
  omega

/-- **Data is written into the corner of the screen**, as far as both go. -/
theorem writeRect_corner (hw : 0 < B.width) (hlen : B.chars.length = h * B.width) {sx sy rx ry : Int}
    (hsx : -32768 ≤ sx ∧ sx ≤ 32767) (hsy : -32768 ≤ sy ∧ sy ≤ 32767) (hrx : -32768 ≤ rx ∧ rx ≤ 32767)
    (hry : -32768 ≤ ry ∧ ry ≤ 32767) (hx : rx + 1 ≤ B.width) (hy : ry + 1 ≤ h)
    (hdata : sy.toNat * sx.toNat ≤ chars.length) :
    ∃ B' r, B.writeRect chars ⟨sx, sy⟩ ⟨0, 0⟩ ⟨0, 0, rx, ry⟩ = some (B', r)
      ∧ B'.width = B.width ∧ B'.chars.length = B.chars.length
      ∧ ∀ x y, x < B.width → y < h → B'.chars[y * B.width + x]?
        = if x < (min (rx + 1) sx).toNat ∧ y < (min (ry + 1) sy).toNat then chars[y * sx.toNat + x]?
          else B.chars[y * B.width + x]? := by
  have hnothing : (min (rx + 1) sx).toNat = 0 ∨ (min (ry + 1) sy).toNat = 0 → ∀ x y, x < B.width → y < h →
      B.chars[y * B.width + x]? = if x < (min (rx + 1) sx).toNat ∧ y < (min (ry + 1) sy).toNat
        then chars[y * sx.toNat + x]? else B.chars[y * B.width + x]? :=
    fun hzero x y _ _ => (if_neg (by omega)).symm
  rw [writeRect, if_neg fun hand => absurd hand.2 (Nat.ne_of_gt hw)]
  by_cases hgood : GoodData ⟨sx, sy⟩ ⟨0, 0⟩
  · have hzero : (⟨0, 0⟩ : Coord).IsShort := ⟨⟨by decide, by decide⟩, by decide, by decide⟩
    have hrect : (⟨0, 0, rx, ry⟩ : SmallRect).IsShort := ⟨hzero.1, hzero.1, hrx, hry⟩
    have hcut : B.cutRect h ⟨sx, sy⟩ ⟨0, 0⟩ ⟨0, 0, rx, ry⟩ = ⟨0, 0, min (rx + 1) sx - 1, min (ry + 1) sy - 1⟩ := by
      rw [cutRect, SmallRect.mk.injEq]
      dsimp only
      omega
    rcases inspectCopyArea_eq hlen hw ⟨hsx, hsy⟩ hzero hrect hgood with ⟨hon, -⟩ | ⟨hoff, heq⟩
    · have hlast : (B.cutRect h ⟨sx, sy⟩ ⟨0, 0⟩ ⟨0, 0, rx, ry⟩).bottom ≠ 32767 := by
        rw [hcut]
        dsimp only
        omega
      obtain ⟨chars', hwrite, hlength, hcells, hkept⟩ :=
        writeArea_copies hlen hw ⟨hsx, hsy⟩ hzero hrect hdata hgood hon hlast
      rw [hcut] at hon hcells hkept
      obtain ⟨⟨-, honx, -⟩, -, hony, -⟩ := hon
      dsimp only at honx hony
      have hhas : ∀ x y : Nat, (⟨0, 0, min (rx + 1) sx - 1, min (ry + 1) sy - 1⟩ : SmallRect).Has x y
          ↔ x < (min (rx + 1) sx).toNat ∧ y < (min (ry + 1) sy).toNat := by
        intro x y
        rw [SmallRect.Has]
        dsimp only
        omega
      refine ⟨_, _, hwrite, rfl, hlength, fun x y hx hy => ?_⟩
      split
      · next hin =>
        rw [hcells x y ((hhas x y).mpr hin), elementOf]
        dsimp only
        rw [show ((0 : Int) + ((y : Int) - 0)).toNat = y by omega, show ((0 : Int) + ((x : Int) - 0)).toNat = x by omega]
      · next hout =>
        refine hkept _ fun x' y' hin heq => hout ?_
        rw [hhas] at hin
        obtain ⟨rfl, rfl⟩ := index_inj hx (by omega) heq
        exact hin
    · rw [hcut] at hoff
      rw [writeArea, heq]
      refine ⟨_, _, rfl, rfl, rfl, hnothing ?_⟩
      by_contra hnone
      have hpos : 0 ≤ min (rx + 1) sx - 1 ∧ 0 ≤ min (ry + 1) sy - 1 := by omega
      have hlt : min (rx + 1) sx - 1 < B.width ∧ min (ry + 1) sy - 1 < h := by omega
      exact hoff ⟨⟨Int.le_refl 0, hpos.1, hlt.1⟩, Int.le_refl 0, hpos.2, hlt.2⟩
  · rw [writeArea, inspectCopyArea, if_pos (not_not.mp hgood)]
    refine ⟨_, _, rfl, rfl, rfl, hnothing ?_⟩
    simp only [GoodData, not_not] at hgood
    omega

variable (chars attributes) in
/-- **What `SetSize` shows** where the old and the new screen have cells. -/
theorem setSize_shows (hw₀ : 0 < w₀) (hw₁ : 0 < w₁) (hh₀ : 0 < h₀) (hh₁ : 0 < h₁) (hlen : chars.length = h₀ * w₀)
    (hnew : ¬(w₁ = w₀ ∧ w₁ * h₁ % 2 ^ 32 = h₀ * w₀)) :
    ∃ B, setSize ⟨w₀, chars⟩ w₁ h₁ attributes = some B ∧ B.width = w₁ ∧ B.chars.length = h₁ * w₁
      ∧ ∀ x y, x < w₁ → y < h₁ → B.chars[y * w₁ + x]?
        = if x < copied w₀ w₁ ∧ y < copied h₀ h₁ then chars[y * (short w₀).toNat + x]?
          else some (blankCell attributes) := by
  have hchars : chars ≠ [] := List.ne_nil_of_length_pos (by rw [hlen]; exact Nat.mul_pos hh₀ hw₀)
  have hblanks : List.replicate (h₁ * w₁) (blankCell attributes) ≠ [] :=
    List.ne_nil_of_length_pos (by rw [List.length_replicate]; exact Nat.mul_pos hh₁ hw₁)
  have hle : (short h₀).toNat * (short w₀).toNat ≤ chars.length := by
    rw [hlen]
    exact Nat.mul_le_mul short_toNat_le short_toNat_le
  obtain ⟨B, r, hwrite, hwidth, hlength, hcells⟩ := writeRect_corner
    (B := ⟨w₁, List.replicate (h₁ * w₁) (blankCell attributes)⟩) (h := h₁) hw₁ List.length_replicate
    (short_range w₀) (short_range h₀) (short_range _) (short_range _) (short_pred_le hw₁) (short_pred_le hh₁) hle
  refine ⟨B, ?_, hwidth, hlength.trans List.length_replicate, fun x y hx hy => (hcells x y hx hy).trans ?_⟩
  · rw [setSize, if_neg (by rw [hlen]; exact hnew)]
    dsimp only
    rw [if_neg (Nat.ne_of_gt hw₀), hlen, Nat.mul_div_cancel _ hw₀, if_pos ⟨hchars, hblanks⟩]
    exact congrArg (Option.map Prod.fst) hwrite
  · have hmul : (y + 1) * w₁ ≤ h₁ * w₁ := Nat.mul_le_mul_right _ hy
    rw [Nat.succ_mul] at hmul
    rw [List.getElem?_replicate, if_pos (show y * w₁ + x < h₁ * w₁ by omega)]
    rfl

/-- **`SetSize` is right** exactly when the sizes fit. -/
theorem resizeRight_iff (w₀ h₀ w₁ h₁ : Nat) : ResizeRight w₀ h₀ w₁ h₁ ↔ ResizeFits w₀ h₀ w₁ h₁ := by
  rw [ResizeFits]
  by_cases hsame : w₁ = w₀ ∧ w₁ * h₁ % 2 ^ 32 = h₀ * w₀
  · rw [if_pos hsame]
    have hkept : ∀ chars attributes, chars.length = h₀ * w₀ →
        setSize ⟨w₀, chars⟩ w₁ h₁ attributes = some ⟨w₀, chars⟩ := fun chars attributes hlen => by
      rw [setSize, if_pos (by rw [hlen]; exact hsame)]
    constructor
    · intro hright
      obtain ⟨B, hB, -, hlength, -⟩ := hright (List.replicate (h₀ * w₀) (blankCell 0)) 0 List.length_replicate
      rw [hkept _ _ List.length_replicate] at hB
      cases hB
      rw [← hlength, List.length_replicate]
    · intro heq chars attributes hlen
      refine ⟨_, hkept chars attributes hlen, hsame.1.symm, hlen.trans heq.symm, fun x y hx hy => ?_⟩
      rw [hsame.1] at hx heq ⊢
      have hh : h₁ = h₀ := Nat.eq_of_mul_eq_mul_right (by omega) heq
      rw [if_pos ⟨hx, hh ▸ hy⟩]
  · rw [if_neg hsame]
    by_cases hcommon : 0 < w₀ ∧ 0 < h₀ ∧ 0 < w₁ ∧ 0 < h₁
    · obtain ⟨hw₀, hh₀, hw₁, hh₁⟩ := hcommon
      have hnot : blankCell 1 ≠ blankCell 0 := by decide
      have hshows := fun chars attributes hlen =>
        setSize_shows chars attributes hw₀ hw₁ hh₀ hh₁ hlen hsame
      have hle : (short w₀).toNat ≤ w₀ := short_toNat_le
      have hcw : copied w₀ w₁ ≤ min w₀ w₁ := copied_le hw₁
      have hch : copied h₀ h₁ ≤ min h₀ h₁ := copied_le hh₁
      rw [shortFits_iff hw₀ hw₁, shortFits_iff hh₀ hh₁, ← short_toNat_eq hw₀]
      generalize (short w₀).toNat = stride at hshows hle ⊢
      generalize copied w₀ w₁ = cw at hshows hcw ⊢
      generalize copied h₀ h₁ = ch at hshows hch ⊢
      constructor
      · intro hright _
        -- a screen full of cells that are not blank: the last common column and row are copied
        have hfull : ∀ x y, x < w₀ → x < w₁ → y < h₀ → y < h₁ → x < cw ∧ y < ch := by
          intro x y hx₀ hx₁ hy₀ hy₁
          have hlen : (List.replicate (h₀ * w₀) (blankCell 1)).length = h₀ * w₀ := List.length_replicate
          obtain ⟨B, hB, -, -, hcells⟩ := hright _ 0 hlen
          obtain ⟨B', hB', -, -, hcells'⟩ := hshows _ 0 hlen
          cases hB.symm.trans hB'
          have hcell := (hcells' x y hx₁ hy₁).symm.trans (hcells x y hx₁ hy₁)
          by_contra hout
          have hmul : (y + 1) * w₀ ≤ h₀ * w₀ := Nat.mul_le_mul_right _ hy₀
          rw [Nat.succ_mul] at hmul
          rw [if_neg hout, if_pos ⟨hx₀, hy₀⟩, List.getElem?_replicate, if_pos (by omega)] at hcell
          exact hnot (Option.some.inj hcell).symm
        have hlast := hfull (min w₀ w₁ - 1) (min h₀ h₁ - 1) (by omega) (by omega) (by omega) (by omega)
        refine ⟨by omega, by omega, ?_⟩
        -- a screen with one cell that is not blank: the second row begins where it should
        by_contra hstride
        have hrows : 2 ≤ h₀ ∧ 2 ≤ h₁ := by omega
        have hlen : ((List.replicate (h₀ * w₀) (blankCell 0)).set w₀ (blankCell 1)).length = h₀ * w₀ := by
          rw [List.length_set, List.length_replicate]
        have htwo : 2 * w₀ ≤ h₀ * w₀ := Nat.mul_le_mul_right _ hrows.1
        obtain ⟨B, hB, -, -, hcells⟩ := hright _ 0 hlen
        obtain ⟨B', hB', -, -, hcells'⟩ := hshows _ 0 hlen
        cases hB.symm.trans hB'
        have hcell := (hcells' 0 1 hw₁ (by omega)).symm.trans (hcells 0 1 hw₁ (by omega))
        rw [if_pos (by omega), if_pos (by omega), Nat.one_mul, Nat.one_mul, Nat.add_zero, Nat.add_zero,
          List.getElem?_set_ne (by omega), List.getElem?_set_self (by rw [List.length_replicate]; omega),
          List.getElem?_replicate, if_pos (by omega)] at hcell
        exact hnot (Option.some.inj hcell).symm
      · intro hfits chars attributes hlen
        obtain ⟨hw, hh, hstride⟩ := hfits ⟨hw₀, hh₀, hw₁, hh₁⟩
        obtain ⟨B, hB, hwidth, hlength, hcells⟩ := hshows chars attributes hlen
        refine ⟨B, hB, hwidth, hlength, fun x y hx hy => (hcells x y hx hy).trans ?_⟩
        rw [hw, hh]
        by_cases hin : x < w₀ ∧ y < h₀
        · have hrow : y * stride = y * w₀ := by
            rcases hstride with hone | heq
            · rw [show y = 0 by omega, Nat.zero_mul, Nat.zero_mul]
            · rw [heq]
          rw [if_pos (by omega), if_pos hin, hrow]
        · rw [if_neg (by omega), if_neg hin]
    · refine iff_of_true (fun chars attributes hlen => ?_) fun h => absurd h hcommon
      refine ⟨⟨w₁, List.replicate (h₁ * w₁) (blankCell attributes)⟩, ?_, rfl, List.length_replicate, fun x y hx hy => ?_⟩
      · rw [setSize, if_neg (by rw [hlen]; exact hsame)]
        dsimp only
        refine if_neg fun hne => hcommon ?_
        have h1 := List.length_pos_iff.mpr hne.1
        have h2 := List.length_pos_iff.mpr hne.2
        rw [hlen] at h1
        rw [List.length_replicate] at h2
        exact ⟨Nat.pos_of_mul_pos_left h1, Nat.pos_of_mul_pos_right h1, Nat.pos_of_mul_pos_left h2,
          Nat.pos_of_mul_pos_right h2⟩
      · have hmul : (y + 1) * w₁ ≤ h₁ * w₁ := Nat.mul_le_mul_right _ hy
        rw [Nat.succ_mul] at hmul
        rw [if_neg (by omega), List.getElem?_replicate, if_pos (by omega)]

/-- **Areas are copied as they are to be** exactly when the copy ends, and `SetSize` keeps what it is to keep exactly
when the sizes fit. -/
theorem copyArea_iff (hlen : B.chars.length = h * B.width) (data : List CharInfo) (hsize : dataSize.IsShort)
    (hpos : dataPos.IsShort) (hrect : rect.IsShort) (hdata : dataSize.y.toNat * dataSize.x.toNat ≤ data.length) :
    (ReadRight B h data dataSize dataPos (B.readRect data dataSize dataPos rect) ↔ CopyEnds B h dataSize dataPos rect)
      ∧ (WriteRight B h data dataSize dataPos (B.writeRect data dataSize dataPos rect)
        ↔ CopyEnds B h dataSize dataPos rect)
      ∧ ∀ w₀ h₀ w₁ h₁, ResizeRight w₀ h₀ w₁ h₁ ↔ ResizeFits w₀ h₀ w₁ h₁ :=
  ⟨readRect_iff hlen data hsize hpos hrect hdata, writeRect_iff hlen data hsize hpos hrect hdata, resizeRight_iff⟩

/-- A screen of one column. -/
def column (height : Nat) : ConsoleBuffer := ⟨1, List.replicate height (blankCell 0)⟩

theorem copyArea_iff_cell :
    (ReadRight (column 1) 1 [blankCell 1] ⟨1, 1⟩ ⟨0, 0⟩ ((column 1).readRect [blankCell 1] ⟨1, 1⟩ ⟨0, 0⟩ ⟨0, 0, 0, 0⟩)
        ↔ CopyEnds (column 1) 1 ⟨1, 1⟩ ⟨0, 0⟩ ⟨0, 0, 0, 0⟩)
      ∧ (WriteRight (column 1) 1 [blankCell 1] ⟨1, 1⟩ ⟨0, 0⟩
          ((column 1).writeRect [blankCell 1] ⟨1, 1⟩ ⟨0, 0⟩ ⟨0, 0, 0, 0⟩)
        ↔ CopyEnds (column 1) 1 ⟨1, 1⟩ ⟨0, 0⟩ ⟨0, 0, 0, 0⟩)
      ∧ ∀ w₀ h₀ w₁ h₁, ResizeRight w₀ h₀ w₁ h₁ ↔ ResizeFits w₀ h₀ w₁ h₁ :=
  copyArea_iff rfl [blankCell 1] ⟨by decide, by decide⟩ ⟨by decide, by decide⟩
    ⟨by decide, by decide, by decide, by decide⟩ (by decide)

/-- Without columns there is nothing to divide by; from row 1 to row 32767 the loop does not end; and a width of
40000 is a negative `SHORT`. -/
theorem copyArea_fails :
    ¬ReadRight ⟨0, []⟩ 0 [blankCell 1] ⟨1, 1⟩ ⟨0, 0⟩ (readRect ⟨0, []⟩ [blankCell 1] ⟨1, 1⟩ ⟨0, 0⟩ ⟨0, 0, 0, 0⟩)
      ∧ ¬WriteRight (column 32768) 32768 (List.replicate 32767 (blankCell 1)) ⟨1, 32767⟩ ⟨0, 0⟩
        ((column 32768).writeRect (List.replicate 32767 (blankCell 1)) ⟨1, 32767⟩ ⟨0, 0⟩ ⟨0, 1, 0, 32767⟩)
      ∧ ¬ResizeRight 1 1 40000 1 := by
  refine ⟨fun ⟨_, _, h, _⟩ => (nomatch h), ?_, ?_⟩
  · rw [writeRect_iff (List.length_replicate.trans (Nat.mul_one _).symm) _ ⟨by decide, by decide⟩ ⟨by decide, by decide⟩
      ⟨by decide, by decide, by decide, by decide⟩ (by rw [List.length_replicate]; decide), CopyEnds]
    exact fun h => (h (by decide)).2 (by decide)
  · rw [resizeRight_iff, ResizeFits, ShortFits, ShortFits]
    decide

end ConsoleBuffer

end Far2l
