/-
Far2l.Console.ScrollRegionTheorems — what `ScrollOutputOnOverflow` does to the rows of a
screen.

The rows of the region go up by one, and the last becomes blank. A region of less than
two rows is left alone; `SetScrollRegion` gives one row when its last row is to be the
first of the screen.
-/
import Far2l.Console.FillTheorems
import Far2l.VT.Terminal

namespace Far2l

namespace ConsoleOutput

open ConsoleBuffer

variable {O O' : ConsoleOutput} {h : Nat}

/-! ## Small regions -/

/-- A region of one row, or of none, is left alone. -/
theorem scrollOutputOnOverflow_small (hregion : O.scrollTop < O.scrollEdge ∨ O.scrollEdge = 1)
    (hsmall : ¬O.scrollTop + 2 ≤ O.scrollEdge) : ∃ O', O.scrollOutputOnOverflow = some O' ∧ O'.buf = O.buf := by
  have halone : O.Alone (O.scrollEdge - 1) := ⟨by omega, by omega⟩
  obtain ⟨temp, hscroll⟩ := halone.scroll
  exact ⟨_, hscroll, rfl⟩

/-! ## The regions there are -/

/-- A screen that has the least size, and a region that begins on it, or has one row. -/
structure OnRegion (O : ConsoleOutput) : Prop where
  wf : O.buf.Wf
  region : O.scrollTop < O.scrollEdge ∨ O.scrollEdge = 1

/-- `SetScrollRegion` sets such a region. -/
theorem onRegion_setScrollRegion (hB : O.buf.Wf) {top bottom : Int} (htop : top ≤ 32767) (hbottom : bottom ≤ 32767) :
    (O.setScrollRegion top bottom).OnRegion := by
  have hheight := hB.height
  have hregion := (regionOk_setScrollRegion hB htop hbottom).top
  obtain ⟨hle, hlimits⟩ := applyCoordinateLimits_range O.buf.height hbottom
  obtain ⟨hnonneg, hlt⟩ := hlimits (by omega)
  have hlast : (O.setScrollRegion top bottom).scrollBottom < O.buf.height := by
    show (applyCoordinateLimits bottom O.buf.height % 65536).toNat < O.buf.height
    omega
  have hedge : (O.setScrollRegion top bottom).scrollEdge = (O.setScrollRegion top bottom).scrollBottom + 1 :=
    Nat.min_eq_right hlast
  refine ⟨hB, ?_⟩
  omega

/-- `SetSize` sets the whole screen as the region. -/
theorem onRegion_setSize (hO : O.OnRegion) {width height : Nat} (h : O.setSize width height = some O') :
    O'.OnRegion := by
  rw [setSize] at h
  dsimp only at h
  have hwidth : 24 ≤ max width 24 := Nat.le_max_right _ _
  have hheight : 12 ≤ max height 12 := Nat.le_max_right _ _
  generalize max width 24 = w at h hwidth
  generalize max height 12 = rows at h hheight
  have hnew : ∀ B : ConsoleBuffer, B.width = w → B.chars.length = rows * w → B.Wf := fun B hw hlen => by
    have hrows : B.height = rows := by
      rw [ConsoleBuffer.height, if_neg (by omega), hlen, hw, Nat.mul_div_cancel _ (by omega)]
    exact ⟨by omega, by omega, by rw [hrows, hw, hlen]⟩
  have hregion : ∀ {B : ConsoleBuffer}, B.Wf → 0 < min B.height (32767 + 1) := fun hwf =>
    Nat.lt_min.mpr ⟨Nat.lt_of_lt_of_le (by decide) hwf.height, Nat.succ_pos _⟩
  split at h
  · cases Option.some.inj h
    exact ⟨hO.wf, .inl (hregion hO.wf)⟩
  · split at h
    · cases Option.some.inj h
      have hwf := hnew ⟨w, List.replicate (rows * w) O.blank⟩ rfl List.length_replicate
      exact ⟨hwf, .inl (hregion hwf)⟩
    · obtain ⟨B, hB, heq⟩ := Option.bind_eq_some_iff.mp h
      cases Option.some.inj heq
      obtain ⟨⟨B', r⟩, hwrite, rfl⟩ := Option.map_eq_some_iff.mp hB
      have hsame := sameSize_writeArea hwrite
      have hwf := hnew B' hsame.1 (hsame.2.trans List.length_replicate)
      exact ⟨hwf, .inl (hregion hwf)⟩

theorem onRegion_resized : ∀ (sizes : List (Nat × Nat)) {O : ConsoleOutput}, O.OnRegion →
    sizes.foldlM (fun O size => O.setSize size.1 size.2) O = some O' → O'.OnRegion
  | [], _, hO, h => Option.some.inj h ▸ hO
  | _ :: sizes, _, hO, h => by
    obtain ⟨_, hsize, hrest⟩ := Option.bind_eq_some_iff.mp h
    exact onRegion_resized sizes (onRegion_setSize hO hsize) hrest

/-- **Scrolling moves the region up**, when it has two rows or more, and leaves the screen as it is when it has less;
whatever `_temp_chars` had. The callback is given the first row. -/
theorem scrollOutputOnOverflow_region {O₀ O : ConsoleOutput} (hB : O₀.buf.Wf) {top bottom : Int} (htop : top ≤ 32767)
    (hbottom : bottom ≤ 32767) {sizes : List (Nat × Nat)}
    (hO : sizes.foldlM (fun O size => O.setSize size.1 size.2) (O₀.setScrollRegion top bottom) = some O)
    (hwidth : O.buf.width ≤ 32767) (hlast : O.scrollEdge ≤ 32767) (temp : List CharInfo) :
    (∃ O', { O with tempChars := temp }.scrollOutputOnOverflow = some O'
        ∧ if O.scrollTop + 2 ≤ O.scrollEdge then Scrolled O O' else O'.buf = O.buf)
      ∧ (O.scrollTop + 2 ≤ O.scrollEdge → ∃ temp',
        O.readForCallback (resize temp (O.buf.width * (O.scrollEdge - 1))) = some temp'
          ∧ (O.scrollCallback = true → O.scrollTop = 0 → ∀ x < O.buf.width, temp'[x]? = O.buf.cell x 0)) := by
  obtain ⟨hwf, hregion⟩ := onRegion_resized sizes (onRegion_setScrollRegion hB htop hbottom) hO
  have hwidth24 := hwf.width
  have hheight := hwf.height
  constructor
  · -- the region and the screen do not depend on `_temp_chars`
    have hedge : ({ O with tempChars := temp } : ConsoleOutput).scrollEdge = O.scrollEdge := rfl
    by_cases hrows : O.scrollTop + 2 ≤ O.scrollEdge
    · simp only [if_pos hrows]
      have hscroll := @scrollOutputOnOverflow_scrolled { O with tempChars := temp } O.buf.height hwf.length rfl
        ⟨Nat.lt_of_lt_of_le (by decide) hwidth24, hwidth⟩ (by rw [hedge]; exact hrows) (by rw [hedge]; exact hlast)
      obtain ⟨O', hscroll, hscrolled⟩ := hscroll
      exact ⟨O', hscroll, hscrolled.width, hscrolled.length, hscrolled.moved, hscrolled.cleared, hscrolled.kept⟩
    · simp only [if_neg hrows]
      exact scrollOutputOnOverflow_small (by rw [hedge]; exact hregion) (by rw [hedge]; exact hrows)
  · intro hrows
    have htemp : O.buf.width ≤ (resize temp (O.buf.width * (O.scrollEdge - 1))).length := by
      rw [length_resize]
      exact Nat.le_mul_of_pos_right _ (by omega)
    obtain ⟨temp', hread, -, hcells⟩ := readForCallback_row hwf.length (by omega) ⟨by omega, hwidth⟩ htemp
    exact ⟨temp', hread, hcells⟩

/-- The smallest screen, full of one letter. -/
@[irreducible] def letters : ConsoleOutput := { buf := ⟨24, List.replicate 288 ⟨0x41, 7⟩⟩ }

theorem letters_buf : letters.buf = ⟨24, List.replicate 288 ⟨0x41, 7⟩⟩ := by
  rw [letters]

theorem letters_height : letters.buf.height = 12 := by
  rw [ConsoleBuffer.height, letters_buf]
  dsimp only
  rw [if_neg (by decide), List.length_replicate]

theorem letters_wf : letters.buf.Wf := by
  refine ⟨?_, Nat.le_of_eq letters_height.symm, ?_⟩
  · rw [letters_buf]
  · rw [letters_height, letters_buf]
    exact List.length_replicate

theorem letters_edge (top bottom : Int) : (letters.setScrollRegion top bottom).scrollEdge
    = min 12 ((applyCoordinateLimits bottom 12 % 65536).toNat + 1) := by
  show min letters.buf.height ((applyCoordinateLimits bottom letters.buf.height % 65536).toNat + 1) = _
  rw [letters_height]

theorem letters_top (top bottom : Int) : (letters.setScrollRegion top bottom).scrollTop
    = (applyCoordinateLimits top (applyCoordinateLimits bottom 12).toNat % 65536).toNat := by
  show (applyCoordinateLimits top (applyCoordinateLimits bottom letters.buf.height).toNat % 65536).toNat = _
  rw [letters_height]

theorem scrollOutputOnOverflow_region_letters : ∃ O', (letters.setScrollRegion 2 5).scrollOutputOnOverflow = some O'
    ∧ O'.buf.cell 0 5 = some (letters.setScrollRegion 2 5).blank := by
  have hedge : (letters.setScrollRegion 2 5).scrollEdge = 6 := (letters_edge 2 5).trans (by decide)
  have htop : (letters.setScrollRegion 2 5).scrollTop = 2 := (letters_top 2 5).trans (by decide)
  obtain ⟨⟨O', hscroll, hif⟩, -⟩ := @scrollOutputOnOverflow_region letters _ letters_wf 2 5
    (by decide) (by decide) [] rfl (show letters.buf.width ≤ 32767 by rw [letters_buf]; decide) (by rw [hedge]; decide)
    (letters.setScrollRegion 2 5).tempChars
  have hrows : (letters.setScrollRegion 2 5).scrollTop + 2 ≤ (letters.setScrollRegion 2 5).scrollEdge := by
    rw [hedge, htop]
    decide
  rw [if_pos hrows] at hif
  have hcleared := hif.cleared 0 (show 0 < letters.buf.width by rw [letters_buf]; decide)
  rw [hedge] at hcleared
  exact ⟨O', hscroll, hcleared⟩

/-- A region of one row is not cleared. -/
theorem oneRow_kept : (letters.setScrollRegion 0 0).scrollTop = 0 ∧ (letters.setScrollRegion 0 0).scrollEdge = 1
    ∧ ∃ O', (letters.setScrollRegion 0 0).scrollOutputOnOverflow = some O'
      ∧ O'.buf.cell 0 0 ≠ some (letters.setScrollRegion 0 0).blank := by
  have hedge : (letters.setScrollRegion 0 0).scrollEdge = 1 := (letters_edge 0 0).trans (by decide)
  have htop : (letters.setScrollRegion 0 0).scrollTop = 0 := (letters_top 0 0).trans (by decide)
  obtain ⟨O', hscroll, hbuf⟩ := scrollOutputOnOverflow_small (.inr hedge) (by rw [hedge, htop]; decide)
  refine ⟨htop, hedge, O', hscroll, ?_⟩
  have hattributes : (letters.setScrollRegion 0 0).blank = ⟨0x20, 7⟩ := by
    show (⟨SPACE.toUInt64, letters.attributes⟩ : CharInfo) = _
    rw [letters]
    rfl
  rw [hbuf, hattributes, show (letters.setScrollRegion 0 0).buf = letters.buf from rfl, letters_buf]
  decide

end ConsoleOutput

end Far2l
