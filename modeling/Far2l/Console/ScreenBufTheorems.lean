/-
Far2l.Console.ScreenBufTheorems — when the console shows the virtual buffer.

The console always holds the cells of `Shadow`. `Flush` finds every cell that
differs from `Shadow`: it is in the region that grows or in a rectangle of the
list, which widening and merging only make larger. What goes wrong is in front of
that: the operations that change colours do not clear `SBFLAGS_FLUSHED`, and
`Flush` looks at no cell where the flag is set.
-/
import Far2l.Console.Portions
import Far2l.Lib.Reach

namespace Far2l

/-! ## Loops over cells -/

section

variable {f : Nat → CharInfo → Option CharInfo} {p : Int} {buf buf' : List CharInfo} {n : Nat}

theorem modifyCell_some (buf : List CharInfo) {g : CharInfo → Option CharInfo} (hp : 0 ≤ p ∧ p < buf.length)
    (hg : ∀ c, (g c).isSome) :
    ∃ buf', modifyCell buf p g = some buf' ∧ buf'.length = buf.length := by
  obtain ⟨c, hc⟩ : ∃ c, buf[p.toNat]? = some c :=
    ⟨_, List.getElem?_eq_getElem (by omega)⟩
  obtain ⟨c', hc'⟩ := Option.isSome_iff_exists.mp (hg c)
  refine ⟨buf.set p.toNat c', ?_, List.length_set⟩
  rw [modifyCell, if_neg (by omega), hc, Option.bind_some, hc', Option.map_some]

/-- A cell that becomes what it is. -/
theorem modifyCell_same {g : CharInfo → Option CharInfo}
    (hsame : ∀ c, buf[p.toNat]? = some c → g c = some c) (h : modifyCell buf p g = some buf') :
    buf' = buf := by
  rw [modifyCell] at h
  split at h
  · exact absurd h (by simp)
  · obtain ⟨c, hc, hset⟩ := Option.bind_eq_some_iff.mp h
    rw [hsame c hc, Option.map_some] at hset
    rw [← Option.some.inj hset]
    obtain ⟨hlt, heq⟩ := List.getElem?_eq_some_iff.mp hc
    rw [← heq, List.set_getElem_self]

theorem cellLoop_some (buf : List CharInfo) (hf : ∀ j c, j < n → (f j c).isSome) (hp : 0 ≤ p ∧ p + n ≤ buf.length) :
    ∃ buf', cellLoop f p n buf = some buf' ∧ buf'.length = buf.length := by
  induction n with
  | zero => exact ⟨buf, rfl, rfl⟩
  | succ n ih =>
    obtain ⟨buf1, hloop, hlength⟩ := ih (fun j c hj => hf j c (by omega)) (by omega)
    obtain ⟨buf2, hcell, hlength2⟩ := modifyCell_some buf1 (p := p + n)
      (by omega) (fun c => hf n c (Nat.lt_succ_self n))
    exact ⟨buf2, by rw [cellLoop, hloop, Option.bind_some, hcell], hlength2.trans hlength⟩

theorem cellLoop_same
    (hsame : ∀ j c, j < n → buf[(p + j).toNat]? = some c → f j c = some c) :
    ∀ {buf'}, cellLoop f p n buf = some buf' → buf' = buf := by
  induction n with
  | zero => exact fun h => (Option.some.inj h).symm
  | succ n ih =>
    intro buf' h
    rw [cellLoop] at h
    obtain ⟨buf1, hloop, hcell⟩ := Option.bind_eq_some_iff.mp h
    obtain rfl := ih (fun j c hj => hsame j c (by omega)) hloop
    exact modifyCell_same (fun c => hsame n c (Nat.lt_succ_self n)) hcell

variable {bufX : Nat} {r : Rect} {g : Nat → Nat → CharInfo → Option CharInfo}

theorem rowLoop_some (hg : ∀ i j c, i < n → j < r.width → (g i j c).isSome)
    (hr : ∀ i : Nat, i < n → 0 ≤ (r.y1 + i) * bufX + r.x1
      ∧ (r.y1 + i) * bufX + r.x1 + r.width ≤ buf.length) :
    ∃ buf', rowLoop bufX r g n buf = some buf' ∧ buf'.length = buf.length := by
  induction n with
  | zero => exact ⟨buf, rfl, rfl⟩
  | succ n ih =>
    obtain ⟨buf1, hloop, hlength⟩ := ih (fun i j c hi => hg i j c (by omega))
      (fun i hi => hr i (by omega))
    obtain ⟨buf2, hrow, hlength2⟩ := cellLoop_some buf1 (f := g n) (n := r.width)
      (p := (r.y1 + n) * bufX + r.x1) (fun j c => hg n j c (Nat.lt_succ_self n))
      (by rw [hlength]; exact hr n (Nat.lt_succ_self n))
    exact ⟨buf2, by rw [rowLoop, hloop, Option.bind_some, hrow], hlength2.trans hlength⟩

theorem rowLoop_same
    (hsame : ∀ i j c, i < n → j < r.width →
      buf[((r.y1 + i) * bufX + r.x1 + j).toNat]? = some c → g i j c = some c) :
    ∀ {buf'}, rowLoop bufX r g n buf = some buf' → buf' = buf := by
  induction n with
  | zero => exact fun h => (Option.some.inj h).symm
  | succ n ih =>
    intro buf' h
    rw [rowLoop] at h
    obtain ⟨buf1, hloop, hrow⟩ := Option.bind_eq_some_iff.mp h
    obtain rfl := ih (fun i j c hi => hsame i j c (by omega)) hloop
    exact cellLoop_same (fun j c => hsame n j c (Nat.lt_succ_self n)) hrow

end

/-! ## The rectangles that are written -/

/-- Is the cell in the rectangle? -/
def SmallRect.Contains (r : SmallRect) (x y : Nat) : Prop :=
  r.left ≤ x ∧ x ≤ r.right ∧ r.top ≤ y ∧ y ≤ r.bottom

namespace ScreenBuf

variable {s : ScreenBuf} {region : SmallRect} {x y : Nat}

/-- A rectangle of the screen, of one cell at least. -/
structure IsRegion (s : ScreenBuf) (r : SmallRect) : Prop where
  columns : 0 ≤ r.left ∧ r.left ≤ r.right ∧ r.right < s.bufX
  rows : 0 ≤ r.top ∧ r.top ≤ r.bottom ∧ r.bottom < s.bufY

theorem isRegion_extend (hregion : s.IsRegion region ∨ region = s.noRegion) (hx : x < s.bufX)
    (hy : y < s.bufY) : s.IsRegion (extend region x y) := by
  rcases hregion with ⟨hcolumns, hrows⟩ | rfl
  · constructor <;> dsimp only [extend] <;> omega
  · constructor <;> dsimp only [extend, noRegion] <;> omega

theorem contains_extend_self (region : SmallRect) (x y : Nat) : (extend region x y).Contains x y := by
  dsimp only [SmallRect.Contains, extend]
  omega

theorem contains_extend {x' y' : Nat} (h : region.Contains x' y') :
    (extend region x y).Contains x' y' := by
  obtain ⟨h1, h2, h3, h4⟩ := h
  dsimp only [SmallRect.Contains, extend]
  omega

theorem isRegion_widen (h : s.IsRegion region) : s.IsRegion (s.widen region) := by
  obtain ⟨hcolumns, hrows⟩ := h
  constructor <;> dsimp only [widen] <;> omega

theorem contains_widen (h : s.IsRegion region) (hin : region.Contains x y) :
    (s.widen region).Contains x y := by
  obtain ⟨hcolumns, hrows⟩ := h
  obtain ⟨h1, h2, h3, h4⟩ := hin
  dsimp only [SmallRect.Contains, widen]
  omega

theorem isRegion_push (hregion : s.IsRegion region) :
    ∀ {list : List SmallRect}, (∀ r ∈ list, s.IsRegion r) → ∀ r ∈ push region list, s.IsRegion r
  | [], _, r, hr => by
    rw [push, List.mem_singleton] at hr
    exact hr ▸ hregion
  | last :: list, hlist, r, hr => by
    rw [push] at hr
    split at hr
    · next hmerges =>
      have hlast := hlist last List.mem_cons_self
      rcases List.mem_cons.mp hr with rfl | hr
      · obtain ⟨hcolumns, hrows⟩ := hregion
        obtain ⟨hcolumns', hrows'⟩ := hlast
        have htop := hmerges.1
        constructor <;> dsimp only <;> omega
      · exact hlist r (List.mem_cons_of_mem _ hr)
    · rcases List.mem_cons.mp hr with rfl | hr
      · exact hregion
      · exact hlist r hr

/-- A cell of the region is in a rectangle of the list behind it. -/
theorem contains_push_self (hin : region.Contains x y) :
    ∀ {list : List SmallRect}, (∀ r ∈ list, s.IsRegion r) → ∃ r ∈ push region list, r.Contains x y
  | [], _ => ⟨region, List.mem_singleton_self region, hin⟩
  | last :: list, hlist => by
    rw [push]
    split
    · next hmerges =>
      obtain ⟨h1, h2, h3, h4⟩ := hin
      obtain ⟨hcolumns, hrows⟩ := hlist last List.mem_cons_self
      have htop := hmerges.1
      refine ⟨_, List.mem_cons_self, ?_⟩
      dsimp only [SmallRect.Contains]
      omega
    · exact ⟨region, List.mem_cons_self, hin⟩

/-- No cell of the list is lost. -/
theorem contains_push (hregion : s.IsRegion region) {list : List SmallRect} {r : SmallRect}
    (hr : r ∈ list) (hin : r.Contains x y) : ∃ r' ∈ push region list, r'.Contains x y := by
  cases list with
  | nil => exact absurd hr List.not_mem_nil
  | cons last list =>
    rw [push]
    split
    · next hmerges =>
      rcases List.mem_cons.mp hr with rfl | hr
      · refine ⟨_, List.mem_cons_self, ?_⟩
        obtain ⟨h1, h2, h3, h4⟩ := hin
        have hrows := hregion.rows
        have htop := hmerges.1
        dsimp only [SmallRect.Contains]
        omega
      · exact ⟨r, List.mem_cons_of_mem _ hr, hin⟩
    · exact ⟨r, List.mem_cons_of_mem _ hr, hin⟩

/-- **What the loop has found**: every cell seen that differs is in the region or in the list. -/
structure Covers (s : ScreenBuf) (d : Diff) (seen : Nat → Nat → Prop) : Prop where
  region : d.started = true → s.IsRegion d.region
  fresh : d.started = false → d.region = s.noRegion
  list : ∀ r ∈ d.writeList, s.IsRegion r
  cell : ∀ x y, seen x y → s.differs x y →
    (d.started = true ∧ d.region.Contains x y) ∨ ∃ r ∈ d.writeList, r.Contains x y
  changes : d.changes = false → d.started = false ∧ d.writeList = []

theorem Covers.mono {d : Diff} {seen seen' : Nat → Nat → Prop} (h : s.Covers d seen)
    (himp : ∀ x y, seen' x y → seen x y) : s.Covers d seen' :=
  ⟨h.region, h.fresh, h.list, fun x y hseen => h.cell x y (himp x y hseen), h.changes⟩

/-- One cell of the loop. -/
theorem Covers.diffCell {d : Diff} {seen : Nat → Nat → Prop} (h : s.Covers d seen) (hx : x < s.bufX)
    (hy : y < s.bufY) :
    s.Covers (s.diffCell d x y) fun x' y' => seen x' y' ∨ (x' = x ∧ y' = y) := by
  have hregion : s.IsRegion d.region ∨ d.region = s.noRegion := by
    cases hstarted : d.started with
    | true => exact .inl (h.region hstarted)
    | false => exact .inr (h.fresh hstarted)
  rw [ScreenBuf.diffCell]
  split
  · -- the cell joins the region
    refine ⟨fun _ => isRegion_extend hregion hx hy, fun hno => absurd hno (by simp), h.list, ?_,
      fun hno => absurd hno (by simp)⟩
    rintro x' y' (hseen | ⟨rfl, rfl⟩) hdiffers
    · rcases h.cell x' y' hseen hdiffers with ⟨_, hin⟩ | hlist
      · exact .inl ⟨rfl, contains_extend hin⟩
      · exact .inr hlist
    · exact .inl ⟨rfl, contains_extend_self _ _ _⟩
  · next hsame =>
    have hcell : ∀ x' y', (seen x' y' ∨ (x' = x ∧ y' = y)) → s.differs x' y' → seen x' y' := by
      rintro x' y' (hseen | ⟨rfl, rfl⟩) hdiffers
      · exact hseen
      · exact absurd hdiffers hsame
    split
    · next hclosed =>
      -- the region is closed
      have hstarted : d.started = true := hclosed.1
      have hwide := isRegion_widen (h.region hstarted)
      refine ⟨fun hno => absurd hno (by simp), fun _ => rfl, isRegion_push hwide h.list, ?_, ?_⟩
      · intro x' y' hseen hdiffers
        rcases h.cell x' y' (hcell x' y' hseen hdiffers) hdiffers with ⟨_, hin⟩ | ⟨r, hr, hin⟩
        · exact .inr (contains_push_self (contains_widen (h.region hstarted) hin) h.list)
        · exact .inr (contains_push hwide hr hin)
      · intro hno
        exact absurd (h.changes hno).1 (by simp [hstarted])
    · exact ⟨h.region, h.fresh, h.list, fun x' y' hseen hdiffers =>
        h.cell x' y' (hcell x' y' hseen hdiffers) hdiffers, h.changes⟩

/-- A row of the loop. -/
theorem Covers.diffRow {d : Diff} {seen : Nat → Nat → Prop} (h : s.Covers d seen) (hy : y < s.bufY) :
    ∀ n, n ≤ s.bufX →
    s.Covers (s.diffRow d y n) fun x' y' => seen x' y' ∨ (x' < n ∧ y' = y) := by
  intro n
  induction n with
  | zero =>
    intro _
    exact h.mono fun x' y' hseen => hseen.elim id fun hno => absurd hno.1 (Nat.not_lt_zero _)
  | succ n ih =>
    intro hn
    refine ((ih (by omega)).diffCell (x := n) hn hy).mono ?_
    rintro x' y' (hseen | ⟨hlt, rfl⟩)
    · exact .inl (.inl hseen)
    · rcases Nat.lt_succ_iff_lt_or_eq.mp hlt with hlt | rfl
      · exact .inl (.inr ⟨hlt, rfl⟩)
      · exact .inr ⟨rfl, rfl⟩

/-- The rows of the loop. -/
theorem covers_diffRows (s : ScreenBuf) :
    ∀ n, n ≤ s.bufY → s.Covers (s.diffRows n) fun x y => x < s.bufX ∧ y < n := by
  intro n
  induction n with
  | zero =>
    intro _
    exact ⟨fun hno => absurd hno (by simp [diffRows]), fun _ => rfl,
      fun r hr => absurd hr List.not_mem_nil, fun x y hseen => absurd hseen.2 (Nat.not_lt_zero y),
      fun _ => ⟨rfl, rfl⟩⟩
  | succ n ih =>
    intro hn
    refine ((ih (by omega)).diffRow (y := n) hn s.bufX (Nat.le_refl _)).mono ?_
    rintro x y ⟨hx, hy⟩
    rcases Nat.lt_succ_iff_lt_or_eq.mp hy with hy | rfl
    · exact .inl ⟨hx, hy⟩
    · exact .inr ⟨hx, rfl⟩

/-- **The list of `Flush`**: rectangles of the screen, and every cell that differs is in one; where
there are no changes, no cell differs. -/
theorem writeList_spec (hx : 0 < s.bufX) (hy : 0 < s.bufY) :
    (∀ r ∈ s.writeList.1, s.IsRegion r)
      ∧ (∀ x y, x < s.bufX → y < s.bufY → s.differs x y → ∃ r ∈ s.writeList.1, r.Contains x y)
      ∧ (s.writeList.2 = false → s.writeList.1 = []) := by
  rw [writeList]
  split
  · have h := s.covers_diffRows s.bufY (Nat.le_refl _)
    dsimp only
    refine ⟨fun r hr => ?_, fun x y hx hy hdiffers => ?_, fun hno => ?_⟩
    · rw [List.mem_reverse] at hr
      split at hr
      · next hstarted =>
        rcases List.mem_cons.mp hr with rfl | hr
        · exact h.region hstarted
        · exact h.list r hr
      · exact h.list r hr
    · rcases h.cell x y ⟨hx, hy⟩ hdiffers with ⟨hstarted, hin⟩ | ⟨r, hr, hin⟩
      · rw [if_pos hstarted]
        exact ⟨_, List.mem_reverse.mpr List.mem_cons_self, hin⟩
      · refine ⟨r, List.mem_reverse.mpr ?_, hin⟩
        split
        · exact List.mem_cons_of_mem _ hr
        · exact hr
    · obtain ⟨hstarted, hlist⟩ := h.changes hno
      rw [if_neg (by simp [hstarted]), hlist, List.reverse_nil]
  · refine ⟨fun r hr => ?_, fun x y hx hy _ => ⟨_, List.mem_singleton_self _, ?_⟩,
      fun hno => absurd hno (by simp)⟩
    · rw [List.mem_singleton] at hr
      subst hr
      constructor <;> dsimp only <;> omega
    · dsimp only [SmallRect.Contains]
      omega

/-! ## What the operations keep -/

/-- The size and `Shadow` are kept. -/
structure Kept (s s' : ScreenBuf) : Prop where
  bufX : s'.bufX = s.bufX
  bufY : s'.bufY = s.bufY
  shadow : s'.shadow = s.shadow
  length : s'.buf.length = s.buf.length

/-- The rectangle is on the screen. -/
structure Inside (s : ScreenBuf) (r : Rect) : Prop where
  first : 0 ≤ r.x1 ∧ 0 ≤ r.y1
  last : r.x2 < s.bufX ∧ r.y2 < s.bufY

theorem Inside.rows {r : Rect} (h : s.Inside r) (hlength : s.buf.length = s.bufY * s.bufX)
    (hwidth : 0 < r.width) (i : Nat) (hi : i < r.height) :
    0 ≤ (r.y1 + i) * s.bufX + r.x1
      ∧ (r.y1 + i) * s.bufX + r.x1 + r.width ≤ s.buf.length := by
  obtain ⟨⟨hx1, hy1⟩, hx2, hy2⟩ := h
  rw [Rect.width] at hwidth ⊢
  rw [Rect.height] at hi
  obtain ⟨y, hy⟩ : ∃ y : Nat, r.y1 + i = y := ⟨(r.y1 + i).toNat, by omega⟩
  have hle : (y + 1) * s.bufX ≤ s.bufY * s.bufX := Nat.mul_le_mul_right _ (by omega)
  rw [Nat.succ_mul] at hle
  rw [hy, hlength, ← Int.natCast_mul]
  omega

/-- An empty row is none. -/
theorem rowLoop_empty {bufX : Nat} {r : Rect} {g : Nat → Nat → CharInfo → Option CharInfo}
    (hwidth : r.width = 0) (n : Nat) (buf : List CharInfo) : rowLoop bufX r g n buf = some buf := by
  induction n with
  | zero => rfl
  | succ n ih => rw [rowLoop, ih, Option.bind_some, hwidth, cellLoop]

theorem rowLoop_inside {r : Rect} {g : Nat → Nat → CharInfo → Option CharInfo} (hr : s.Inside r)
    (hlength : s.buf.length = s.bufY * s.bufX)
    (hg : ∀ i j c, i < r.height → j < r.width → (g i j c).isSome) :
    ∃ buf, rowLoop s.bufX r g r.height s.buf = some buf ∧ buf.length = s.buf.length := by
  rcases Nat.eq_zero_or_pos r.width with hwidth | hwidth
  · exact ⟨s.buf, rowLoop_empty hwidth _ _, rfl⟩
  · exact rowLoop_some hg (hr.rows hlength hwidth)

theorem write_kept (oem2Unicode : UInt64 → UInt64) (x y : Int) {text : List CharInfo}
    {textLength : Int} (hlength : s.buf.length = s.bufY * s.bufX)
    (htext : textLength ≤ text.length) :
    ∃ s', s.write oem2Unicode x y text textLength = some s' ∧ s.Kept s'
      ∧ (s' = s ∨ s'.flushed = false) := by
  rw [write]
  dsimp only
  generalize htext' : (if x < 0 then text.drop (-x).toNat else text) = text'
  generalize hlen : (if x < 0 then max 0 (textLength + x) else textLength) = len
  generalize hx' : (if x < 0 then (0 : Int) else x) = x'
  have hfit : len ≤ text'.length := by
    subst htext' hlen
    split
    · rw [List.length_drop]
      omega
    · exact htext
  have hx0 : 0 ≤ x' := by
    subst hx'
    split <;> omega
  split
  · exact ⟨s, rfl, ⟨rfl, rfl, rfl, rfl⟩, .inl rfl⟩
  · next hout =>
    simp only [not_or, Int.not_le, ge_iff_le, Int.not_lt] at hout
    generalize hn : (if x' + len ≥ s.bufX then (s.bufX : Int) - x' else len) = n
    have hn' : n ≤ len ∧ x' + n ≤ s.bufX := by
      subst hn
      split <;> omega
    obtain ⟨y', rfl⟩ : ∃ y' : Nat, y = y' := ⟨y.toNat, by omega⟩
    have hle : (y' + 1) * s.bufX ≤ s.bufY * s.bufX := Nat.mul_le_mul_right _ (by omega)
    rw [Nat.succ_mul] at hle
    have hstart : 0 ≤ (y' : Int) * s.bufX + x' := by
      rw [← Int.natCast_mul]
      omega
    by_cases hpos : 0 < n
    · obtain ⟨buf, hloop, hlen'⟩ := cellLoop_some s.buf (n := n.toNat)
        (p := (y' : Int) * s.bufX + x')
        (f := fun i _ => (text'[i]?).map fun ch =>
          { ch with unicodeChar := setVidChar oem2Unicode ch.unicodeChar })
        (fun j c hj => by
          rw [Option.isSome_map, List.getElem?_eq_getElem (by omega)]
          rfl)
        ⟨hstart, by rw [hlength, ← Int.natCast_mul]; omega⟩
      rw [hloop, Option.map_some]
      exact ⟨_, rfl, ⟨rfl, rfl, rfl, hlen'⟩, .inr rfl⟩
    · rw [show n.toNat = 0 from by omega, cellLoop, Option.map_some]
      exact ⟨_, rfl, ⟨rfl, rfl, rfl, rfl⟩, .inr rfl⟩

theorem fillRect_kept (oem2Unicode : UInt64 → UInt64) {r : Rect} (ch color : UInt64)
    (hr : s.Inside r) (hlength : s.buf.length = s.bufY * s.bufX) :
    ∃ s', s.fillRect oem2Unicode r ch color = some s' ∧ s.Kept s' ∧ s'.flushed = false := by
  obtain ⟨buf, hloop, hlen⟩ := rowLoop_inside
    (g := fun _ _ _ => some ⟨setVidChar oem2Unicode ch, color⟩) hr hlength (fun _ _ _ _ _ => rfl)
  rw [fillRect, hloop, Option.map_some]
  exact ⟨_, rfl, ⟨rfl, rfl, rfl, hlen⟩, rfl⟩

/-- Does a cell of the rectangle get other attributes? -/
def Recolours (s : ScreenBuf) (r : Rect) (attr : Nat → Nat → CharInfo → Option UInt64) : Prop :=
  ∃ i j c, i < r.height ∧ j < r.width
    ∧ s.buf[((r.y1 + i) * s.bufX + r.x1 + j).toNat]? = some c ∧ attr i j c ≠ some c.attributes

/-- **Colours are changed behind the back of `Flush`**: the flag stays as it is. -/
theorem recolour_kept {r : Rect} {attr : Nat → Nat → CharInfo → Option UInt64} (hr : s.Inside r)
    (hlength : s.buf.length = s.bufY * s.bufX)
    (hattr : ∀ i j c, i < r.height → j < r.width → (attr i j c).isSome) :
    ∃ s', s.recolour r attr = some s' ∧ s.Kept s' ∧ s'.flushed = s.flushed
      ∧ (¬s.Recolours r attr → s'.buf = s.buf) := by
  obtain ⟨buf, hloop, hlen⟩ := rowLoop_inside
    (g := fun i j c => (attr i j c).map fun a => { c with attributes := a }) hr hlength
    (fun i j c hi hj => by rw [Option.isSome_map]; exact hattr i j c hi hj)
  rw [recolour, hloop, Option.map_some]
  refine ⟨_, rfl, ⟨rfl, rfl, rfl, hlen⟩, rfl, fun hnone => ?_⟩
  refine rowLoop_same (fun i j c hi hj hc => ?_) hloop
  have hsame : attr i j c = some c.attributes := by
    by_contra hne
    exact hnone ⟨i, j, c, hi, hj, hc, hne⟩
  rw [hsame, Option.map_some]

end ScreenBuf

/-! ## `FillBuf` and `Flush` -/

namespace Display

open ScreenBuf (Kept Inside Recolours)

variable {S : Display} {oem2Unicode : UInt64 → UInt64}

/-- The buffer and `Shadow` are as large as the console. -/
structure Sized (S : Display) : Prop where
  console : S.console.Sized S.scrBuf.bufY
  width : S.console.width = S.scrBuf.bufX
  buf : S.scrBuf.buf.length = S.scrBuf.bufY * S.scrBuf.bufX
  shadow : S.scrBuf.shadow.length = S.scrBuf.bufY * S.scrBuf.bufX

/-- **The console holds the cells of `Shadow`.** -/
structure Coherent (S : Display) : Prop extends S.Sized where
  cells : S.console.chars = S.scrBuf.shadow

/-- The cells of the buffer are those of `Shadow`. -/
def Settled (S : Display) : Prop := S.scrBuf.shadow = S.scrBuf.buf

/-- After `FillBuf` all three are the same. -/
theorem fillBuf_spec (h : S.Sized) : ∃ S', S.fillBuf = some S' ∧ S'.Coherent ∧ S'.Settled := by
  have hread := Console.readOutput_screen h.console S.scrBuf.buf
    (by rw [h.width]; exact h.buf)
  rw [h.width] at hread
  have hlength : S.console.chars.length = S.scrBuf.bufY * S.scrBuf.bufX := by
    rw [h.console.length, h.width]
  rw [fillBuf, hread, Option.map_some]
  exact ⟨_, rfl, ⟨⟨h.console, h.width, hlength, hlength⟩, rfl⟩, rfl⟩

/-- The regions that have been written hold the cells of the buffer; other cells do, or are kept. -/
theorem writeRegions_spec {s : ScreenBuf} (hbuf : s.buf.length = s.bufY * s.bufX) :
    ∀ {list : List SmallRect} {B : ConsoleBuffer}, (∀ r ∈ list, s.IsRegion r) → B.width = s.bufX →
    B.Sized s.bufY →
    ∃ chars, writeRegions s list B = some { B with chars := chars }
      ∧ chars.length = B.chars.length
      ∧ ∀ x y, x < s.bufX →
        (chars[y * s.bufX + x]? = s.buf[y * s.bufX + x]?
          ∨ (∀ r ∈ list, ¬r.Contains x y)
            ∧ chars[y * s.bufX + x]? = B.chars[y * s.bufX + x]?) := by
  intro list
  induction list with
  | nil =>
    intro B _ _ _
    exact ⟨B.chars, rfl, rfl, fun x y _ => .inr ⟨fun r hr => absurd hr List.not_mem_nil, rfl⟩⟩
  | cons region list ih =>
    intro B hlist hw hB
    obtain ⟨hcolumns, hrows⟩ := hlist region List.mem_cons_self
    obtain ⟨l, hl⟩ : ∃ l : Nat, region.left = l := ⟨region.left.toNat, by omega⟩
    obtain ⟨t, ht⟩ : ∃ t : Nat, region.top = t := ⟨region.top.toNat, by omega⟩
    obtain ⟨r, hr⟩ : ∃ r : Nat, region.right = r := ⟨region.right.toNat, by omega⟩
    obtain ⟨b, hb⟩ : ∃ b : Nat, region.bottom = b := ⟨region.bottom.toNat, by omega⟩
    obtain ⟨chars, hwrite, hlength, hcells⟩ := Console.writeOutput_spec (l := l) (t := t) (r := r)
      (b := b) hw hB hbuf (by omega) (by omega)
    obtain ⟨chars', hrest, hlength', hcells'⟩ := ih (B := { B with chars := chars })
      (fun r hr => hlist r (List.mem_cons_of_mem _ hr)) hw (hB.of_length hlength)
    have hregion : region = ⟨l, t, r, b⟩ := by rw [← hl, ← ht, ← hr, ← hb]
    refine ⟨chars', ?_, hlength'.trans hlength, fun x y hx => ?_⟩
    · rw [writeRegions, hregion]
      exact (congrArg (Option.bind · _) hwrite).trans hrest
    · rcases hcells' x y hx with hdone | ⟨hout, hkept⟩
      · exact .inl hdone
      · dsimp only at hkept
        rw [hcells x y hx] at hkept
        split at hkept
        · exact .inl hkept
        · next hnot =>
          refine .inr ⟨fun r' hr' hin => ?_, hkept⟩
          rcases List.mem_cons.mp hr' with rfl | hr'
          · obtain ⟨h1, h2, h3, h4⟩ := hin
            exact hnot (by omega)
          · exact hout r' hr' hin

/-- **The cells of the console after a `Flush` that looks at them.** -/
theorem flushCells_spec (oem2Unicode : UInt64 → UInt64) (h : S.Coherent) (clock : Option (List CharInfo)) :
    ∃ S', S.flushCells oem2Unicode clock = some S' ∧ S'.Coherent ∧ S'.Settled := by
  obtain ⟨s, hclock, hkept⟩ : ∃ s, clock.elim (some { S.scrBuf with flushed := true })
      (fun text => { S.scrBuf with flushed := true }.write oem2Unicode (S.scrBuf.bufX - 1 - 4) 0 text
        text.length) = some s ∧ S.scrBuf.Kept s := by
    cases clock with
    | none => exact ⟨_, rfl, rfl, rfl, rfl, rfl⟩
    | some text =>
      obtain ⟨s, hwrite, hkept, -⟩ := ScreenBuf.write_kept oem2Unicode (S.scrBuf.bufX - 1 - 4) 0
        (s := { S.scrBuf with flushed := true }) h.buf (Int.le_refl text.length)
      exact ⟨s, hwrite, hkept.bufX, hkept.bufY, hkept.shadow, hkept.length⟩
  have hbuf : s.buf.length = s.bufY * s.bufX := by
    rw [hkept.length, hkept.bufX, hkept.bufY]
    exact h.buf
  have hwidth : S.console.width = s.bufX := h.width.trans hkept.bufX.symm
  have hconsole : S.console.Sized s.bufY := hkept.bufY ▸ h.console
  have hx : 0 < s.bufX := hwidth ▸ hconsole.width.1
  obtain ⟨hregions, hcover, hnone⟩ := s.writeList_spec hx hconsole.height.1
  obtain ⟨chars, hwrite, hlength, hcells⟩ := writeRegions_spec hbuf hregions hwidth hconsole
  have hshadow : S.console.chars = s.shadow := h.cells.trans hkept.shadow.symm
  have hchars : chars.length = s.bufY * s.bufX := by
    rw [hlength, hconsole.length, hwidth]
  -- where a cell of the console is not written, it is that of `Shadow`, which does not differ
  have hall : chars = s.buf := by
    refine Console.cells_eq hx hchars hbuf fun x y hx hy => ?_
    rcases hcells x y hx with hdone | ⟨hout, hkeptCell⟩
    · exact hdone
    · rw [hkeptCell, hshadow]
      by_contra hne
      obtain ⟨r, hr, hin⟩ := hcover x y hx hy (fun heq => hne heq.symm)
      exact hout r hr hin
  rw [flushCells, hclock]
  dsimp only [Option.bind_eq_bind, Option.bind_some]
  cases hchanges : s.writeList.2 with
  | true =>
    rw [if_pos rfl, hwrite, Option.bind_some]
    exact ⟨_, rfl, ⟨⟨hconsole.of_length hlength, hwidth, hbuf, hbuf⟩, hall⟩, rfl⟩
  | false =>
    rw [if_neg Bool.false_ne_true]
    have hlist := hnone hchanges
    rw [hlist] at hwrite
    have hsame : S.console.chars = chars :=
      congrArg ConsoleBuffer.chars (Option.some.inj hwrite)
    refine ⟨_, rfl, ⟨⟨hconsole, hwidth, hbuf, ?_⟩, hshadow⟩, ?_⟩
    · rw [← hshadow, hsame, hchars]
    · show s.shadow = s.buf
      rw [← hshadow, hsame, hall]

/-- Cells, `Shadow`, the size and the lock are those of another state. -/
structure SameCells (S S' : Display) : Prop where
  bufX : S'.scrBuf.bufX = S.scrBuf.bufX
  bufY : S'.scrBuf.bufY = S.scrBuf.bufY
  buf : S'.scrBuf.buf = S.scrBuf.buf
  shadow : S'.scrBuf.shadow = S.scrBuf.shadow
  console : S'.console = S.console

theorem SameCells.coherent {S' : Display} (h : S.SameCells S') (hS : S.Coherent) : S'.Coherent := by
  refine ⟨⟨?_, ?_, ?_, ?_⟩, ?_⟩
  · rw [h.console, h.bufY]
    exact hS.console
  · rw [h.console, h.bufX]
    exact hS.width
  · rw [h.buf, h.bufX, h.bufY]
    exact hS.buf
  · rw [h.shadow, h.bufX, h.bufY]
    exact hS.shadow
  · rw [h.console, h.shadow]
    exact hS.cells

theorem SameCells.settled {S' : Display} (h : S.SameCells S') (hS : S.Settled) : S'.Settled := by
  rw [Settled, h.shadow, h.buf]
  exact hS

theorem sameCells_flushCursorType (S : Display) (visible : Bool) :
    S.SameCells (S.flushCursorType visible) := by
  rw [flushCursorType]
  split <;> exact ⟨rfl, rfl, rfl, rfl, rfl⟩

theorem sameCells_flushCursorPos (S : Display) : S.SameCells S.flushCursorPos := by
  rw [flushCursorPos]
  split <;> exact ⟨rfl, rfl, rfl, rfl, rfl⟩

theorem SameCells.trans {S' S'' : Display} (h : S.SameCells S') (h' : S'.SameCells S'') :
    S.SameCells S'' :=
  ⟨h'.bufX.trans h.bufX, h'.bufY.trans h.bufY, h'.buf.trans h.buf, h'.shadow.trans h.shadow,
    h'.console.trans h.console⟩

theorem flushed_flushCursorType (S : Display) (visible : Bool) :
    (S.flushCursorType visible).scrBuf.flushed = S.scrBuf.flushed := by
  rw [flushCursorType]
  split <;> rfl

/-- What `Flush` does at the end. -/
theorem sameCells_flushEnd (S : Display) :
    S.SameCells { (S.flushCursorPos.flushCursorType true) with
      scrBuf := { (S.flushCursorPos.flushCursorType true).scrBuf with
        useShadow := true, flushed := true } } :=
  ((sameCells_flushCursorPos S).trans (sameCells_flushCursorType _ true)).trans
    ⟨rfl, rfl, rfl, rfl, rfl⟩

/-- Does `Flush` look at the cells? -/
def Compares (S : Display) (force : Bool) : Prop :=
  S.scrBuf.lockCount = 0 ∧ (force = true ∨ S.scrBuf.flushed = false)

/-- **What `Flush` does**: all three are the same when it looks at the cells, and it leaves them as
they are when it does not. -/
theorem flush_spec (oem2Unicode : UInt64 → UInt64) (h : S.Coherent) (force : Bool) (clock : Option (List CharInfo)) :
    ∃ S', S.flush oem2Unicode force clock = some S' ∧ S'.Coherent
      ∧ (S.Compares force → S'.Settled) ∧ (¬S.Compares force → S.SameCells S')
      ∧ (S.scrBuf.lockCount ≠ 0 → S' = S) := by
  rw [flush]
  by_cases hlock : S.scrBuf.lockCount ≠ 0
  · rw [if_pos hlock]
    exact ⟨S, rfl, h, fun hcompares => absurd hcompares.1 hlock,
      fun _ => ⟨rfl, rfl, rfl, rfl, rfl⟩, fun _ => rfl⟩
  · rw [if_neg hlock]
    have hlock' : S.scrBuf.lockCount = 0 := Decidable.not_not.mp hlock
    have hfirst := sameCells_flushCursorType S false
    dsimp only
    rw [flushed_flushCursorType]
    by_cases hcompares : force = true ∨ S.scrBuf.flushed = false
    · rw [if_pos hcompares]
      obtain ⟨S1, hcells, hcoherent, hsettled⟩ := flushCells_spec oem2Unicode
        (hfirst.coherent h) clock
      rw [hcells, Option.map_some]
      exact ⟨_, rfl, (sameCells_flushEnd S1).coherent hcoherent,
        fun _ => (sameCells_flushEnd S1).settled hsettled,
        fun hno => absurd ⟨hlock', hcompares⟩ hno, fun hno => absurd hlock' hno⟩
    · rw [if_neg hcompares, Option.map_some]
      have hsame := hfirst.trans (sameCells_flushEnd _)
      exact ⟨_, rfl, hsame.coherent h, fun hno => absurd hno.2 hcompares, fun _ => hsame,
        fun hno => absurd hlock' hno⟩

end Display

end Far2l
