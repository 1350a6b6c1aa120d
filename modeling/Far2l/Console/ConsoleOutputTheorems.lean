/-
Far2l.Console.ConsoleOutputTheorems — what the operations of the console do to
its members, and that no copy of cells leaves the screen.

A copy goes through `InspectCopyArea`, which cuts the rectangle to the screen and
to the data; a row of data is as wide as the screen, or not taken at all.
-/
import Far2l.Console.ConsoleOutput
import Mathlib.Tactic.Ring

namespace Far2l

/-! ## Coordinates -/

theorem short_eq {v : Int} (h : -32768 ≤ v) (h' : v ≤ 32767) : short v = v := by
  rw [short, Int.emod_eq_of_lt (by omega) (by omega)]
  omega

theorem short_range (v : Int) : -32768 ≤ short v ∧ short v ≤ 32767 := by
  rw [short]
  have h1 := Int.emod_nonneg (v + 32768) (show (65536 : Int) ≠ 0 by decide)
  have h2 := Int.emod_lt_of_pos (v + 32768) (show (0 : Int) < 65536 by decide)
  omega

/-! ## Reading what was written -/

namespace ConsoleBuffer

variable {B : ConsoleBuffer} {ch d : CharInfo} {pos pos' : Coord}

theorem width_write (B : ConsoleBuffer) (ch : CharInfo) (pos : Coord) :
    (B.write ch pos).2.width = B.width := by
  rw [write]
  cases B.read pos with
  | none => rfl
  | some d => dsimp only; split <;> rfl

theorem read_some (h : B.read pos = some d) :
    B.addressable pos ∧ B.chars[B.index pos]? = some d := by
  rw [read] at h
  split at h
  · next haddr => exact ⟨haddr, h⟩
  · exact absurd h (by simp)

theorem write_same (h : B.read pos = some ch) : B.write ch pos = (.same, B) := by
  rw [write, h]
  simp

theorem write_modified (h : B.read pos = some d) (hne : d ≠ ch) :
    B.write ch pos = (.modified, { B with chars := B.chars.set (B.index pos) ch }) := by
  rw [write, h]
  simp [hne]

/-- A cell that is there holds what is written to it. -/
theorem read_write_self (h : B.read pos = some d) : (B.write ch pos).2.read pos = some ch := by
  by_cases hne : d = ch
  · rw [write_same (hne ▸ h)]
    exact hne ▸ h
  · obtain ⟨haddr, hget⟩ := read_some h
    rw [write_modified h hne, read, if_pos (by exact haddr)]
    show (B.chars.set (B.index pos) ch)[B.index pos]? = _
    rw [List.getElem?_set_self (List.getElem?_eq_some_iff.mp hget).1]

/-- The other cells are kept. -/
theorem read_write_other (hne : B.index pos ≠ B.index pos') :
    (B.write ch pos).2.read pos' = B.read pos' := by
  cases hread : B.read pos with
  | none => rw [write, hread]
  | some d =>
    by_cases hd : d = ch
    · rw [write_same (hd ▸ hread)]
    · rw [write_modified hread hd]
      show (if _ then (B.chars.set (B.index pos) ch)[B.index pos']? else none) = _
      rw [List.getElem?_set_ne hne]
      rfl

end ConsoleBuffer

/-! ## Copies -/

theorem copyCells_some (dst src : List CharInfo) (di si n : Nat) (hd : di + n ≤ dst.length)
    (hs : si + n ≤ src.length) :
    ∃ dst', copyCells dst di src si n = some dst' ∧ dst'.length = dst.length := by
  refine ⟨_, if_pos ⟨hd, hs⟩, ?_⟩
  simp only [List.length_append, List.length_take, List.length_drop]
  omega

/-- A copy whose last row fits both buffers. -/
theorem copyRows_some (src : List CharInfo) (dstWidth srcWidth n : Nat) :
    ∀ (rows : Nat) (dst : List CharInfo) (di si : Nat),
    (0 < rows → di + (rows - 1) * dstWidth + n ≤ dst.length) →
    (0 < rows → si + (rows - 1) * srcWidth + n ≤ src.length) →
    ∃ dst', copyRows src dstWidth srcWidth n rows dst di si = some dst'
      ∧ dst'.length = dst.length
  | 0, dst, _, _, _, _ => ⟨dst, rfl, rfl⟩
  | rows + 1, dst, di, si, hd, hs => by
    have hd0 := hd (Nat.succ_pos _)
    have hs0 := hs (Nat.succ_pos _)
    rw [Nat.add_sub_cancel] at hd0 hs0
    obtain ⟨dst1, hcopy, hlength⟩ := copyCells_some dst src di si n (by omega)
      (by omega)
    have hstep : ∀ {w : Nat}, 0 < rows → (rows - 1) * w + w = rows * w := fun {w} hrows => by
      obtain ⟨m, rfl⟩ : ∃ m, rows = m + 1 := ⟨rows - 1, by omega⟩
      rw [Nat.add_sub_cancel, Nat.succ_mul]
    obtain ⟨dst2, hrest, hlength2⟩ := copyRows_some src dstWidth srcWidth n rows dst1
      (di + dstWidth) (si + srcWidth)
      (fun h => by have hw := hstep (w := dstWidth) h; omega)
      (fun h => by have hw := hstep (w := srcWidth) h; omega)
    exact ⟨dst2, by rw [copyRows, hcopy, Option.bind_some, hrest], hlength2.trans hlength⟩

namespace ConsoleBuffer

variable {B : ConsoleBuffer}

/-- The cells are rows of the width of the screen. -/
structure Wf (B : ConsoleBuffer) : Prop where
  width : 24 ≤ B.width
  height : 12 ≤ B.height
  length : B.chars.length = B.height * B.width

/-- A last column, or row, that has been cut. -/
theorem cut_spec (limit : Nat) (avail first last : Int) (hlimit : 1 ≤ limit)
    (hfirst : -32768 ≤ first) (hlast : last ≤ 32767) (havail : 1 ≤ avail) :
    let r := cutToData avail first (cutToScreen limit last)
    r ≤ last ∧ r < limit ∧ (first ≤ r → r + 1 - first ≤ avail) := by
  have hcut : cutToScreen limit last ≤ last ∧ cutToScreen limit last < limit := by
    rw [cutToScreen]
    split
    · rw [short_eq (by omega) (by omega)]
      omega
    · omega
  generalize cutToScreen limit last = cut at hcut ⊢
  show _ ∧ _ ∧ _
  rw [cutToData]
  split
  · rw [short_eq (by omega) (by omega)]
    omega
  · omega

/-- What `InspectCopyArea` lets be copied is on the screen and in the data. -/
theorem inspectCopyArea_some {size : Coord} {rect r : SmallRect} {i : Nat} (hB : B.Wf)
    (hsize : size.x ≤ 32767 ∧ size.y ≤ 32767)
    (hrect : -32768 ≤ rect.left ∧ -32768 ≤ rect.top ∧ rect.right ≤ 32767 ∧ rect.bottom ≤ 32767)
    (h : B.inspectCopyArea size ⟨0, 0⟩ rect = (r, some i)) :
    0 ≤ r.left ∧ r.left ≤ r.right ∧ r.right < B.width ∧ r.right + 1 - r.left ≤ size.x
      ∧ 0 ≤ r.top ∧ r.top ≤ r.bottom ∧ r.bottom < B.height ∧ r.bottom + 1 - r.top ≤ size.y
      ∧ r.bottom ≤ rect.bottom ∧ i = r.top.toNat * B.width + r.left.toNat := by
  have hwidth := hB.width
  have hheight := hB.height
  rw [inspectCopyArea] at h
  split at h
  · exact absurd (congrArg Prod.snd h) (by simp)
  · next hdata =>
    simp only [not_or, Int.not_lt, ge_iff_le, Int.not_le] at hdata
    have hright := cut_spec B.width (short (size.x - 0)) rect.left rect.right (by omega) hrect.1 hrect.2.2.1
      (by rw [short_eq (by omega) (by omega)]; omega)
    have hbottom := cut_spec B.height (short (size.y - 0)) rect.top rect.bottom (by omega) hrect.2.1 hrect.2.2.2
      (by rw [short_eq (by omega) (by omega)]; omega)
    rw [short_eq (by omega) (by omega)] at hright hbottom
    simp only [short_eq (v := size.x - 0) (by omega) (by omega),
      short_eq (v := size.y - 0) (by omega) (by omega)] at h
    dsimp only at hright hbottom
    split at h
    · exact absurd (congrArg Prod.snd h) (by simp)
    · next hx =>
      split at h
      · exact absurd (congrArg Prod.snd h) (by simp)
      · next hy =>
        obtain ⟨hr, hi⟩ := Prod.mk.inj h
        subst hr
        simp only [not_or] at hx hy
        have hi' := Option.some.inj hi
        refine ⟨?_, ?_, ?_, ?_, ?_, ?_, ?_, ?_, ?_, hi'.symm⟩ <;> dsimp only at hx hy ⊢ <;> omega

/-- The last column stays a `SHORT`. -/
theorem inspectCopyArea_right (B : ConsoleBuffer) (size dataPos : Coord) {rect : SmallRect}
    (h : rect.right ≤ 32767) : (B.inspectCopyArea size dataPos rect).1.right ≤ 32767 := by
  have hscreen : cutToScreen B.width rect.right ≤ 32767 := by
    rw [cutToScreen]
    split
    · exact (short_range _).2
    · exact h
  have hdata : ∀ avail first,
      cutToData avail first (cutToScreen B.width rect.right) ≤ 32767 := by
    intro avail first
    rw [cutToData]
    split
    · exact (short_range _).2
    · exact hscreen
  rw [inspectCopyArea]
  split
  · exact h
  · dsimp only
    split
    · exact hdata _ _
    · split <;> exact hdata _ _

/-- The rows of an area are inside the cells they are copied from and to. -/
theorem rows_fit {first rows width n limit : Nat} {left : Nat} (hrows : 0 < rows)
    (hlast : first + rows ≤ limit) (hcolumn : left + n ≤ width) :
    first * width + left + (rows - 1) * width + n ≤ limit * width := by
  have hle : (first + (rows - 1) + 1) * width ≤ limit * width :=
    Nat.mul_le_mul_right width (by omega)
  have hsplit : (first + (rows - 1) + 1) * width
      = first * width + (rows - 1) * width + width := by ring
  omega

section

variable (data : List CharInfo) {size : Coord} {rect : SmallRect} (hB : B.Wf)
  (hsize : size.x ≤ 32767 ∧ size.y ≤ 32767)
  (hrect : -32768 ≤ rect.left ∧ -32768 ≤ rect.top ∧ rect.right ≤ 32767 ∧ rect.bottom < 32767)
  (hdata : 0 < size.x → 0 < size.y → size.y.toNat * size.x.toNat ≤ data.length)
include hB hsize hrect hdata

/-- Reading an area does not leave the buffers. -/
theorem readArea_some :
    ∃ data' r, B.readArea data size ⟨0, 0⟩ rect = some (data', r) ∧ data'.length = data.length
      ∧ r.right ≤ 32767 := by
  have hshort := inspectCopyArea_right B size ⟨0, 0⟩ hrect.2.2.1
  rw [readArea]
  cases h : B.inspectCopyArea size ⟨0, 0⟩ rect with
  | mk r screen =>
    rw [h] at hshort
    cases screen with
    | none => exact ⟨data, r, rfl, rfl, hshort⟩
    | some i =>
      obtain ⟨hleft, hx, hright, hcols, htop, hy, hbottom, hrows, hlast, rfl⟩ :=
        inspectCopyArea_some hB hsize ⟨hrect.1, hrect.2.1, hrect.2.2.1, by omega⟩ h
      have hdata := hdata (by omega) (by omega)
      obtain ⟨data', hcopy, hlength⟩ := copyRows_some B.chars size.x.toNat B.width
        (r.right + 1 - r.left).toNat (r.bottom + 1 - r.top).toNat data
        ((0 : Int).toNat * size.x.toNat + (0 : Int).toNat) (r.top.toNat * B.width + r.left.toNat)
        (fun hpos => Nat.le_trans (rows_fit hpos (by simp; omega) (by simp; omega)) hdata)
        (fun hpos => by
          rw [hB.length]
          exact rows_fit hpos (by omega) (by omega))
      refine ⟨data', r, ?_, hlength, hshort⟩
      dsimp only
      rw [rows, if_neg (by omega), Option.bind_some, hcopy, Option.map_some]

/-- Writing an area does not leave the buffers. -/
theorem writeArea_some :
    ∃ B' r, B.writeArea data size ⟨0, 0⟩ rect = some (B', r) ∧ B'.width = B.width
      ∧ B'.chars.length = B.chars.length := by
  rw [writeArea]
  cases h : B.inspectCopyArea size ⟨0, 0⟩ rect with
  | mk r screen =>
    cases screen with
    | none => exact ⟨B, r, rfl, rfl, rfl⟩
    | some i =>
      obtain ⟨hleft, hx, hright, hcols, htop, hy, hbottom, hrows, hlast, rfl⟩ :=
        inspectCopyArea_some hB hsize ⟨hrect.1, hrect.2.1, hrect.2.2.1, by omega⟩ h
      have hdata := hdata (by omega) (by omega)
      obtain ⟨chars, hcopy, hlength⟩ := copyRows_some data B.width size.x.toNat
        (r.right + 1 - r.left).toNat (r.bottom + 1 - r.top).toNat B.chars
        (r.top.toNat * B.width + r.left.toNat) ((0 : Int).toNat * size.x.toNat + (0 : Int).toNat)
        (fun hpos => by
          rw [hB.length]
          exact rows_fit hpos (by omega) (by omega))
        (fun hpos => Nat.le_trans (rows_fit hpos (by simp; omega) (by simp; omega)) hdata)
      refine ⟨{ B with chars := chars }, r, ?_, rfl, hlength⟩
      dsimp only
      rw [rows, if_neg (by omega), Option.bind_some, hcopy, Option.map_some]

end

end ConsoleBuffer

/-! ## Scrolling -/

namespace ConsoleOutput

variable {O : ConsoleOutput}

/-- The region begins in front of its end, or has one row only. -/
structure RegionOk (O : ConsoleOutput) : Prop where
  bottom : O.scrollBottom ≤ 32767
  top : O.scrollTop ≤ O.scrollBottom ∨ O.scrollBottom = 0

/-- What scrolling and the cells that are written leave as it is. -/
structure Kept (O O' : ConsoleOutput) : Prop where
  width : O'.buf.width = O.buf.width
  length : O'.buf.chars.length = O.buf.chars.length
  mode : O'.mode = O.mode
  attributes : O'.attributes = O.attributes
  scrollTop : O'.scrollTop = O.scrollTop
  scrollBottom : O'.scrollBottom = O.scrollBottom

theorem Kept.refl (O : ConsoleOutput) : Kept O O := ⟨rfl, rfl, rfl, rfl, rfl, rfl⟩

theorem Kept.trans {O' O'' : ConsoleOutput} (h : Kept O O') (h' : Kept O' O'') : Kept O O'' :=
  ⟨h'.width.trans h.width, h'.length.trans h.length, h'.mode.trans h.mode,
    h'.attributes.trans h.attributes, h'.scrollTop.trans h.scrollTop,
    h'.scrollBottom.trans h.scrollBottom⟩

/-- A buffer of the same size, with other temporary cells. -/
theorem Kept.of_buf {B : ConsoleBuffer} (hwidth : B.width = O.buf.width)
    (hlength : B.chars.length = O.buf.chars.length) (temp : List CharInfo) :
    Kept O { O with buf := B, tempChars := temp } := ⟨hwidth, hlength, rfl, rfl, rfl, rfl⟩

theorem wf_of_size {B B' : ConsoleBuffer} (hB : B.Wf) (hwidth : B'.width = B.width)
    (hlength : B'.chars.length = B.chars.length) : B'.Wf := by
  have hheight : B'.height = B.height := by
    rw [ConsoleBuffer.height, ConsoleBuffer.height, hwidth, hlength]
  exact ⟨hwidth ▸ hB.width, hheight ▸ hB.height, by rw [hlength, hheight, hwidth, hB.length]⟩

theorem length_resize (chars : List CharInfo) (n : Nat) : (resize chars n).length = n := by
  rw [resize, List.length_append, List.length_take, List.length_replicate]
  omega

theorem short_toNat_le (n : Nat) : (short n).toNat ≤ n := by
  have hrange := short_range (n : Int)
  by_cases hn : n ≤ 32767
  · rw [short_eq (by omega) (by omega)]
    omega
  · omega

theorem readForCallback_some (hB : O.buf.Wf) {temp : List CharInfo}
    (htemp : O.buf.width ≤ temp.length) :
    ∃ temp', O.readForCallback temp = some temp' ∧ temp'.length = temp.length := by
  rw [readForCallback]
  split
  · have hright := short_range ((O.buf.width : Int) - 1)
    have hwidth := short_toNat_le O.buf.width
    obtain ⟨temp', r, hread, hlength, -⟩ := @ConsoleBuffer.readArea_some O.buf temp
      ⟨short O.buf.width, 1⟩ ⟨0, 0, short (O.buf.width - 1), 0⟩ hB
      ⟨(short_range _).2, show (1 : Int) ≤ 32767 by decide⟩
      ⟨show (-32768 : Int) ≤ 0 by decide, show (-32768 : Int) ≤ 0 by decide, hright.2,
        show (0 : Int) < 32767 by decide⟩
      (fun _ _ => by simp only [Int.toNat_one, Nat.one_mul]; omega)
    exact ⟨temp', by rw [hread]; rfl, hlength⟩
  · exact ⟨temp, rfl, rfl⟩

theorem blankRow_some (temp : List CharInfo) (htemp : O.buf.width ≤ temp.length) :
    ∃ temp', O.blankRow temp = some temp' ∧ temp'.length = temp.length := by
  refine ⟨_, if_neg (by omega), ?_⟩
  rw [List.length_append, List.length_replicate, List.length_drop]
  omega

/-- **Scrolling does not leave the screen.** -/
theorem scrollOutputOnOverflow_some (hB : O.buf.Wf) (hregion : O.RegionOk)
    (hedge : O.scrollEdge ≤ 32767) :
    ∃ O', O.scrollOutputOnOverflow = some O' ∧ Kept O O' ∧ O'.prevPos = O.prevPos := by
  rw [scrollOutputOnOverflow]
  have hwidth24 := hB.width
  have hwidth0 : O.buf.width ≠ 0 := by omega
  rw [scrollEdge] at hedge
  generalize hheight : min O.buf.height (O.scrollBottom + 1) = height at hedge
  dsimp only
  split
  · exact ⟨O, rfl, .refl O, rfl⟩
  split
  · exact ⟨_, rfl, .of_buf rfl rfl _, rfl⟩
  next htemp =>
  -- There is a row to scroll: the region has two of them.
  have hlength := length_resize O.tempChars (O.buf.width * (height - 1))
  have hheight2 : 2 ≤ height := by
    refine Nat.lt_of_not_le fun hle => htemp (List.eq_nil_of_length_eq_zero ?_)
    rw [hlength, Nat.sub_eq_zero_of_le hle, Nat.mul_zero]
  generalize resize O.tempChars (O.buf.width * (height - 1)) = temp at hlength ⊢
  have hrow : O.buf.width ≤ temp.length := by
    rw [hlength]
    exact Nat.le_mul_of_pos_right _ (by omega)
  have htop : O.scrollTop ≤ 32767 := by
    have hbottom := hregion.bottom
    rcases hregion.top with h | h <;> omega
  have hsize : short ((height : Int) - 1 - O.scrollTop) = (height : Int) - 1 - O.scrollTop :=
    short_eq (by omega) (by omega)
  have hcolumns := short_toNat_le O.buf.width
  have hdata : ∀ temp' : List CharInfo, temp'.length = temp.length →
      (0 : Int) < short O.buf.width → 0 < short ((height : Int) - 1 - O.scrollTop) →
      (short ((height : Int) - 1 - O.scrollTop)).toNat * (short O.buf.width).toNat
        ≤ temp'.length := by
    intro temp' htemp' _ _
    rw [htemp', hlength, hsize, Nat.mul_comm O.buf.width]
    exact Nat.mul_le_mul (by omega) hcolumns
  have hrange := short_range
  have hlast : short ((height : Int) - 1) < 32767 := by rw [short_eq (by omega) (by omega)]; omega
  have hlast2 : short ((height : Int) - 2) < 32767 := by rw [short_eq (by omega) (by omega)]; omega
  obtain ⟨temp1, h1, hlength1⟩ := readForCallback_some hB hrow
  obtain ⟨temp2, rect, h2, hlength2, hright⟩ := @ConsoleBuffer.readArea_some O.buf temp1
    ⟨short O.buf.width, short ((height : Int) - 1 - O.scrollTop)⟩
    ⟨0, short (O.scrollTop + 1), short (O.buf.width - 1), short ((height : Int) - 1)⟩ hB
    ⟨(hrange _).2, (hrange _).2⟩
    ⟨show (-32768 : Int) ≤ 0 by decide, (hrange _).1, (hrange _).2, hlast⟩ (hdata temp1 hlength1)
  rw [h1, Option.bind_eq_bind, Option.bind_some, h2, Option.bind_eq_bind, Option.bind_some]
  dsimp only
  split
  · exact ⟨_, rfl, .of_buf rfl rfl _, rfl⟩
  next hrect =>
  have hrect := not_not.mp hrect
  obtain ⟨B1, rect1, h3, hwidth1, hlen1⟩ := @ConsoleBuffer.writeArea_some O.buf temp2
    ⟨short O.buf.width, short ((height : Int) - 1 - O.scrollTop)⟩
    { rect with top := short O.scrollTop, bottom := short ((height : Int) - 2) } hB
    ⟨(hrange _).2, (hrange _).2⟩
    ⟨by rw [hrect]; exact (by decide : (-32768 : Int) ≤ 0), (hrange _).1, hright, hlast2⟩
    (hdata temp2 (hlength2.trans hlength1))
  obtain ⟨temp3, h4, hlength3⟩ := blankRow_some (O := O) temp2
    (by rw [hlength2, hlength1]; exact hrow)
  obtain ⟨B2, rect2, h5, hwidth2, hlen2⟩ := @ConsoleBuffer.writeArea_some B1 temp3 ⟨short O.buf.width, 1⟩
    ⟨0, short ((height : Int) - 1), short (O.buf.width - 1), short ((height : Int) - 1)⟩
    (wf_of_size hB hwidth1 hlen1) ⟨(hrange _).2, show (1 : Int) ≤ 32767 by decide⟩
    ⟨show (-32768 : Int) ≤ 0 by decide, (hrange _).1, (hrange _).2, hlast⟩
    (fun _ _ => by
      simp only [Int.toNat_one, Nat.one_mul]
      omega)
  rw [h3, Option.bind_eq_bind, Option.bind_some]
  dsimp only
  rw [h4, Option.bind_some, h5, Option.bind_some]
  exact ⟨_, rfl, .of_buf (hwidth2.trans hwidth1) (hlen2.trans hlen1) _, rfl⟩

end ConsoleOutput

end Far2l
