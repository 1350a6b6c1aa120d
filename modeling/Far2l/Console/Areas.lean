/-
Far2l.Console.Areas — what is in the cells after an area has been read or written.

An area that is inside the screen is only cut to the data. Its rows do not
overlap, so that a cell is copied once: the cells of the area are those of the
data, and the others are kept.
-/
import Far2l.Console.ConsoleOutputTheorems

namespace Far2l

/-! ## Copies -/

/-- Cells that are copied are those of the source; the others are kept. -/
theorem copyCells_spec {dst src dst' : List CharInfo} {di si n : Nat}
    (h : copyCells dst di src si n = some dst') :
    (∀ j, j < n → dst'[di + j]? = src[si + j]?)
      ∧ ∀ i, (i < di ∨ di + n ≤ i) → dst'[i]? = dst[i]? := by
  rw [copyCells] at h
  split at h
  · next hfit =>
    obtain ⟨hd, hs⟩ := hfit
    cases Option.some.inj h
    have htake : (dst.take di).length = di := by simp; omega
    have hdrop : ((src.drop si).take n).length = n := by simp; omega
    constructor
    · intro j hj
      rw [List.append_assoc, List.getElem?_append_right (by omega), htake,
        Nat.add_sub_cancel_left, List.getElem?_append_left (by omega), List.getElem?_take_of_lt hj,
        List.getElem?_drop]
    · intro i hi
      rcases hi with hi | hi
      · rw [List.append_assoc, List.getElem?_append_left (by omega), List.getElem?_take_of_lt hi]
      · rw [List.getElem?_append_right (by simp only [List.length_append]; omega),
          List.length_append, htake, hdrop, List.getElem?_drop]
        congr 1
        omega
  · exact absurd h (by simp)

/-- **The rows of a copy.** They do not overlap, as they are no longer than the target is wide. -/
theorem copyRows_spec {src : List CharInfo} {dstWidth srcWidth n : Nat} (hn : n ≤ dstWidth) :
    ∀ {rows : Nat} {dst dst' : List CharInfo} {di si : Nat},
    copyRows src dstWidth srcWidth n rows dst di si = some dst' →
    (∀ r j, r < rows → j < n → dst'[di + r * dstWidth + j]? = src[si + r * srcWidth + j]?)
      ∧ ∀ i, (∀ r j, r < rows → j < n → i ≠ di + r * dstWidth + j) → dst'[i]? = dst[i]? := by
  intro rows
  induction rows with
  | zero =>
    intro dst dst' di si h
    cases Option.some.inj h
    exact ⟨fun r j hr => absurd hr (Nat.not_lt_zero r), fun i _ => rfl⟩
  | succ rows ih =>
    intro dst dst' di si h
    rw [copyRows] at h
    obtain ⟨dst1, hcopy, hrest⟩ := Option.bind_eq_some_iff.mp h
    obtain ⟨hcopied, hkept⟩ := copyCells_spec hcopy
    obtain ⟨hrows, hothers⟩ := ih hrest
    have hstep : ∀ w r : Nat, (r + 1) * w = w + r * w := fun w r => by ring
    constructor
    · intro r j hr hj
      cases r with
      | zero =>
        rw [Nat.zero_mul, Nat.zero_mul, Nat.add_zero, Nat.add_zero, hothers, hcopied j hj]
        intro r j' _ _
        have hle : 0 ≤ r * dstWidth := Nat.zero_le _
        omega
      | succ r =>
        rw [hstep, hstep, ← Nat.add_assoc, ← Nat.add_assoc]
        exact hrows r j (Nat.lt_of_succ_lt_succ hr) hj
    · intro i hi
      rw [hothers, hkept]
      · by_contra hin
        have hfirst := hi 0 (i - di) (Nat.succ_pos _) (by omega)
        rw [Nat.zero_mul] at hfirst
        omega
      · intro r j hr hj
        have hother := hi (r + 1) j (Nat.succ_lt_succ hr) hj
        rw [hstep] at hother
        omega

/-- The index of a cell tells its row and its column. -/
theorem index_inj {w x y x' y' : Nat} (hx : x < w) (hx' : x' < w) (h : y * w + x = y' * w + x') :
    y = y' ∧ x = x' := by
  have hy : y = y' := by
    have hdiv := congrArg (· / w) h
    have hw : 0 < w := by omega
    simp only [Nat.mul_comm _ w, Nat.mul_add_div hw, Nat.div_eq_of_lt hx, Nat.div_eq_of_lt hx',
      Nat.add_zero] at hdiv
    exact hdiv
  subst hy
  exact ⟨rfl, by omega⟩

/-- **A copied area.** Its cells are those of the source; the others are kept. -/
theorem copyRows_area {dst src : List CharInfo} {dstWidth srcWidth : Nat} (dl dt sl st cols rows : Nat)
    (hcols : dl + cols ≤ dstWidth)
    (hdst : dt * dstWidth + dl + (rows - 1) * dstWidth + cols ≤ dst.length)
    (hsrc : st * srcWidth + sl + (rows - 1) * srcWidth + cols ≤ src.length) :
    ∃ dst', copyRows src dstWidth srcWidth cols rows dst (dt * dstWidth + dl) (st * srcWidth + sl) = some dst'
      ∧ dst'.length = dst.length
      ∧ ∀ x y, x < dstWidth → dst'[y * dstWidth + x]?
          = if dl ≤ x ∧ x < dl + cols ∧ dt ≤ y ∧ y < dt + rows
            then src[(st + (y - dt)) * srcWidth + (sl + (x - dl))]? else dst[y * dstWidth + x]? := by
  obtain ⟨dst', hcopy, hlength⟩ := copyRows_some src dstWidth srcWidth cols rows dst
    (dt * dstWidth + dl) (st * srcWidth + sl) (fun _ => hdst) (fun _ => hsrc)
  obtain ⟨hcopied, hkept⟩ := copyRows_spec (by omega) hcopy
  refine ⟨dst', hcopy, hlength, fun x y hx => ?_⟩
  have hindex : ∀ w k q j : Nat, q * w + k + (y - dt) * w + j = (q + (y - dt)) * w + (k + j) :=
    fun w k q j => by ring
  split
  · next hcell =>
    obtain ⟨h1, h2, h3, h4⟩ := hcell
    have hrow := hcopied (y - dt) (x - dl) (by omega) (by omega)
    rw [hindex dstWidth dl dt, show dt + (y - dt) = y from by omega,
      show dl + (x - dl) = x from by omega, hindex srcWidth sl st] at hrow
    exact hrow
  · next hcell =>
    refine hkept _ fun r j hr hj heq => hcell ?_
    have hsum : dt * dstWidth + dl + r * dstWidth + j = (dt + r) * dstWidth + (dl + j) := by ring
    rw [hsum] at heq
    obtain ⟨rfl, rfl⟩ := index_inj hx (by omega) heq
    omega

namespace ConsoleBuffer

variable {B : ConsoleBuffer} {h : Nat}

/-! ## Areas inside the screen -/

/-- The cells are `h` rows of the width of the screen, and both sides are `SHORT`s. -/
structure Sized (B : ConsoleBuffer) (h : Nat) : Prop where
  width : 0 < B.width ∧ B.width ≤ 32767
  height : 0 < h ∧ h ≤ 32767
  length : B.chars.length = h * B.width

theorem Sized.height_eq (hB : B.Sized h) : B.height = h := by
  have hwidth := hB.width.1
  rw [ConsoleBuffer.height, if_neg (by omega), hB.length, Nat.mul_div_cancel _ hwidth]

theorem Sized.of_length (hB : B.Sized h) {chars : List CharInfo}
    (hlength : chars.length = B.chars.length) : ({ B with chars := chars } : ConsoleBuffer).Sized h :=
  ⟨hB.width, hB.height, hlength.trans hB.length⟩

/-- The rectangle of an area that is inside the screen is only cut to the data. -/
theorem inspectCopyArea_inside (hB : B.Sized h) {sx sy px py l t r b : Nat}
    (hx : px < sx ∧ sx ≤ 32767) (hy : py < sy ∧ sy ≤ 32767) (hcolumns : l ≤ r ∧ r < B.width)
    (hrows : t ≤ b ∧ b < h) :
    B.inspectCopyArea ⟨sx, sy⟩ ⟨px, py⟩ ⟨l, t, r, b⟩
      = (⟨l, t, (min r (l + (sx - px) - 1) : Nat), (min b (t + (sy - py) - 1) : Nat)⟩,
          some (t * B.width + l)) := by
  have hwidth := hB.width
  have hheight := hB.height
  have hcut : ∀ limit avail first last : Nat, 0 < avail → avail ≤ 32767 → first ≤ last →
      last < limit → limit ≤ 32767 → cutToData (avail : Int) first (cutToScreen limit last)
        = (min last (first + avail - 1) : Nat) := by
    intro limit avail first last h1 h2 h3 h4 h5
    have hscreen : cutToScreen limit last = last := by
      rw [cutToScreen, if_neg (by omega)]
    rw [hscreen, cutToData]
    split
    · rw [short_eq (by omega) (by omega)]
      omega
    · omega
  have havail : ∀ s p : Nat, p < s → s ≤ 32767 → short ((s : Int) - p) = (s - p : Nat) := by
    intro s p h1 h2
    rw [short_eq (by omega) (by omega)]
    omega
  rw [inspectCopyArea, if_neg (by simp only [ge_iff_le, not_or]; omega)]
  dsimp only
  rw [havail sx px hx.1 hx.2, havail sy py hy.1 hy.2, hB.height_eq,
    hcut B.width (sx - px) l r (by omega) (by omega) hcolumns.1 hcolumns.2 hwidth.2,
    hcut h (sy - py) t b (by omega) (by omega) hrows.1 hrows.2 hheight.2,
    if_neg (by simp only [not_or]; omega), if_neg (by simp only [not_or]; omega)]
  simp

section

variable (hB : B.Sized h) (data : List CharInfo) (sx sy px py l t r b : Nat)
  (hx : px < sx ∧ sx ≤ 32767) (hy : py < sy ∧ sy ≤ 32767) (hcolumns : l ≤ r ∧ r < B.width)
  (hrows : t ≤ b ∧ b < h) (hfit : r < l + (sx - px))
  (hdata : (py + (min b (t + (sy - py) - 1) - t)) * sx + px + (r - l) < data.length)
include hB hx hy hcolumns hrows hfit hdata

/-- The rows of an area lie in the screen and in the data. -/
theorem area_inside : let b' := min b (t + (sy - py) - 1)
    B.inspectCopyArea ⟨sx, sy⟩ ⟨px, py⟩ ⟨l, t, r, b⟩ = (⟨l, t, r, (b' : Nat)⟩, some (t * B.width + l))
      ∧ rows ⟨l, t, r, (b' : Nat)⟩ = some (b' + 1 - t) ∧ t ≤ b'
      ∧ t * B.width + l + (b' + 1 - t - 1) * B.width + (r + 1 - l) ≤ B.chars.length
      ∧ py * sx + px + (b' + 1 - t - 1) * sx + (r + 1 - l) ≤ data.length := by
  have hheight := hB.height
  have hsplit (n : Nat) : (py + n) * sx = py * sx + n * sx := Nat.add_mul _ _ _
  have hright : min r (l + (sx - px) - 1) = r := by omega
  rw [inspectCopyArea_inside hB hx hy hcolumns hrows, hright]
  have hlast : min b (t + (sy - py) - 1) ≤ b := Nat.min_le_left _ _
  have hfirst : t ≤ min b (t + (sy - py) - 1) := by omega
  generalize min b (t + (sy - py) - 1) = b' at hlast hfirst hdata ⊢
  refine ⟨rfl, ?_, hfirst, ?_, ?_⟩
  · rw [rows, if_neg (by dsimp only; omega)]
    exact congrArg some (by dsimp only; omega)
  · rw [hB.length]
    exact rows_fit (by omega) (by omega) (by omega)
  · rw [show b' + 1 - t - 1 = b' - t by omega]
    rw [hsplit] at hdata
    omega

/-- **Writing an area.** The cells of the rectangle, cut to the data, are those of the data; the
others are kept. -/
theorem writeArea_inside :
    ∃ chars, B.writeArea data ⟨sx, sy⟩ ⟨px, py⟩ ⟨l, t, r, b⟩
        = some ({ B with chars := chars }, ⟨l, t, r, (min b (t + (sy - py) - 1) : Nat)⟩)
      ∧ chars.length = B.chars.length
      ∧ ∀ x y, x < B.width → chars[y * B.width + x]?
          = if l ≤ x ∧ x ≤ r ∧ t ≤ y ∧ y ≤ min b (t + (sy - py) - 1)
            then data[(py + (y - t)) * sx + (px + (x - l))]? else B.chars[y * B.width + x]? := by
  obtain ⟨hinspect, hrows, hfirst, hin, hsource⟩ := area_inside hB data sx sy px py l t r b hx hy hcolumns hrows hfit hdata
  rw [writeArea, hinspect]
  generalize min b (t + (sy - py) - 1) = b' at hrows hfirst hin hsource ⊢
  dsimp only
  rw [hrows, Option.bind_some, show ((r : Int) + 1 - l).toNat = r + 1 - l by omega]
  simp only [Int.toNat_natCast]
  obtain ⟨chars, hcopy, hlength, hcells⟩ := copyRows_area l t px py (r + 1 - l) (b' + 1 - t) (by omega) hin hsource
  refine ⟨chars, by rw [hcopy, Option.map_some], hlength, fun x y hxw => ?_⟩
  exact (hcells x y hxw).trans (if_congr (by omega) rfl rfl)

/-- **Reading an area.** The data gets the cells of the rectangle, cut to the data. -/
theorem readArea_inside :
    ∃ data', B.readArea data ⟨sx, sy⟩ ⟨px, py⟩ ⟨l, t, r, b⟩
        = some (data', ⟨l, t, r, (min b (t + (sy - py) - 1) : Nat)⟩)
      ∧ data'.length = data.length
      ∧ ∀ x y, x < sx → data'[y * sx + x]?
          = if px ≤ x ∧ x ≤ px + (r - l) ∧ py ≤ y ∧ y ≤ py + (min b (t + (sy - py) - 1) - t)
            then B.chars[(t + (y - py)) * B.width + (l + (x - px))]? else data[y * sx + x]? := by
  obtain ⟨hinspect, hrows, hfirst, hin, hsource⟩ := area_inside hB data sx sy px py l t r b hx hy hcolumns hrows hfit hdata
  rw [readArea, hinspect]
  generalize min b (t + (sy - py) - 1) = b' at hrows hfirst hin hsource ⊢
  dsimp only
  rw [hrows, Option.bind_some, show ((r : Int) + 1 - l).toNat = r + 1 - l by omega]
  simp only [Int.toNat_natCast]
  obtain ⟨data', hcopy, hlength, hcells⟩ := copyRows_area px py l t (r + 1 - l) (b' + 1 - t) (by omega) hsource hin
  refine ⟨data', by rw [hcopy, Option.map_some], hlength, fun x y hxw => ?_⟩
  exact (hcells x y hxw).trans (if_congr (by omega) rfl rfl)

end

end ConsoleBuffer

end Far2l
