/-
Far2l.VT.EditingExact — where the sequences that shift lines and characters do
not do what the reference does, and where they do.

On the screen of `marks` no cell is blank, and the cells in front of the row of
the cursor differ from those behind it. A place that neither the source nor the
destination of `Scroll` covers keeps its mark; one that is written although the
line has gone gets one.
-/
import Far2l.VT.EditingTheorems

namespace Far2l

namespace VT

open ConsoleBuffer

namespace Terminal

variable {Font : Type} {T T' : Terminal Font} {G : Geometry} {n : Nat} {e : Editing}

/-! ## A screen of marks -/

/-- A cell of the rows in front of the cursor. -/
def upperMark : CharInfo := ⟨65, 8⟩

/-- A cell of the row of the cursor, and of the rows behind it. -/
def lowerMark : CharInfo := ⟨66, 8⟩

/-- A screen without a blank cell. -/
def marks (font : Font) (G : Geometry) : Terminal Font where
  console :=
    { buf := ⟨G.width, List.replicate (G.row * G.width) upperMark
        ++ List.replicate ((G.height - G.row) * G.width) lowerMark⟩
      cursorPos := ⟨G.column, G.row⟩
      scrollTop := G.first
      scrollBottom := G.last }
  fontState := font

theorem marks_at (font : Font) (hG : G.Valid) : (marks font G).At G where
  sized :=
    { width := ⟨Nat.lt_of_le_of_lt (Nat.zero_le _) hG.column, hG.width⟩
      height := ⟨Nat.lt_of_le_of_lt (Nat.zero_le _) hG.region, hG.height⟩
      length := by
        have hrow := hG.row
        have hregion := hG.region
        show (List.replicate _ _ ++ List.replicate _ _).length = _
        rw [List.length_append, List.length_replicate, List.length_replicate, ← Nat.add_mul]
        congr 1
        omega }
  width := rfl
  region := by
    have hrow := hG.row
    have hregion := hG.region
    have hheight := hG.height
    exact ⟨by show G.last ≤ 32767; omega, .inl (by show G.first ≤ G.last; omega)⟩
  first := by
    have hrow := hG.row
    have hregion := hG.region
    have hheight := hG.height
    show (G.first : Int) = max 0 (short (G.first : Int))
    rw [short_eq (by omega) (by omega)]
    omega
  last := by
    have hregion := hG.region
    have hheight := hG.height
    show (G.last : Int) = min ((G.height : Int) - 1) (short (G.last : Int))
    rw [short_eq (by omega) (by omega)]
    omega
  cursor := rfl

theorem cell_marks (font : Font) (hG : G.Valid) {x y : Nat} (hx : x < G.width) (hy : y < G.height) :
    (marks font G).console.buf.cell x y = some (if y < G.row then upperMark else lowerMark) := by
  have hrow := hG.row
  have hregion := hG.region
  show (List.replicate (G.row * G.width) upperMark
    ++ List.replicate ((G.height - G.row) * G.width) lowerMark)[y * G.width + x]? = _
  by_cases hupper : y < G.row
  · have hle : (y + 1) * G.width ≤ G.row * G.width := Nat.mul_le_mul_right _ hupper
    rw [Nat.succ_mul] at hle
    rw [List.getElem?_append_left (by rw [List.length_replicate]; omega),
      List.getElem?_replicate_of_lt (by omega), if_pos hupper]
  · have hle : G.row * G.width ≤ y * G.width := Nat.mul_le_mul_right _ (by omega)
    have hle' : (y + 1) * G.width ≤ G.height * G.width := Nat.mul_le_mul_right _ hy
    have hsplit : G.height * G.width = G.row * G.width + (G.height - G.row) * G.width := by
      rw [← Nat.add_mul]
      congr 1
      omega
    rw [Nat.succ_mul] at hle'
    rw [List.getElem?_append_right (by rw [List.length_replicate]; omega), List.length_replicate,
      List.getElem?_replicate_of_lt (by omega), if_neg hupper]

/-- A blank cell of this screen. -/
theorem blank_marks (font : Font) (G : Geometry) : (marks font G).blank = ⟨32, 7⟩ := rfl

theorem mark_ne_blank (font : Font) (y : Nat) :
    some (if y < G.row then upperMark else lowerMark) ≠ some (marks font G).blank := by
  rw [blank_marks]
  split <;> decide

/-- A cell that differs from the reference. -/
theorem not_shifts {x y : Nat} (hx : x < G.width) (hy : y < G.height)
    (hne : T'.console.buf.cell x y ≠ e.reference G n T.blank T.console.buf.cell x y) :
    ¬T.Shifts G e n (some T') := by
  rintro ⟨T1, heq, -, hcells⟩
  cases Option.some.inj heq
  exact hne (hcells x y hx hy)

theorem not_shifts_none : ¬T.Shifts G e n none := by
  rintro ⟨T1, heq, -⟩
  cases heq

/-- Nothing is scrolled where the source ends in front of its beginning. -/
theorem scroll_empty (T : Terminal Font) {rect : SmallRect} (clip : Option SmallRect) (pos : Coord)
    (h : rect.right < rect.left ∨ rect.bottom < rect.top) : T.scroll rect clip pos = some T := by
  rw [scroll, onConsole, ConsoleOutput.scroll, if_pos h]
  rfl

/-- A place of the destination is not blank, wherever its cells come from. -/
theorem scroll_marks {font : Font} (hG : G.Valid) {rect clip : SmallRect} {pos : Coord}
    (hscroll : (marks font G).scroll rect (some clip) pos = some T') (cl ct cr cb : Nat)
    (hclip : clip = ⟨cl, ct, cr, cb⟩) (hclipColumns : cl ≤ cr ∧ cr < G.width)
    (hclipRows : ct ≤ cb ∧ cb < G.height) (sx sy : Nat)
    (hsx : short (rect.right + 1 - rect.left) = sx) (hsy : short (rect.bottom + 1 - rect.top) = sy)
    (hpos : 0 < sx ∧ 0 < sy) (hcolumns : rect.left ≤ rect.right) (hrows : rect.top ≤ rect.bottom)
    (hx : -32768 ≤ pos.x ∧ pos.x ≤ 32767) (hy : -32768 ≤ pos.y ∧ pos.y ≤ 32767) {x y : Nat}
    (hin : InRect clip x y)
    (hdst : InRect ⟨pos.x, pos.y, short (pos.x + sx - 1), short (pos.y + sy - 1)⟩ x y) :
    T'.console.buf.cell x y ≠ some (marks font G).blank := by
  obtain ⟨O', hO', rfl⟩ := Option.map_eq_some_iff.mp hscroll
  subst hclip
  refine ConsoleOutput.scroll_leaves (marks_at font hG).sized hO' ?_ ?_ (by rw [blank_marks]; decide) hsx hsy hpos
    hcolumns hrows hclipColumns hclipRows hx hy hin hdst
  · intro c hc
    rcases List.mem_append.mp hc with hc | hc
    · rw [List.eq_of_mem_replicate hc, blank_marks]
      decide
    · rw [List.eq_of_mem_replicate hc, blank_marks]
      decide
  · exact fun c hc => absurd hc List.not_mem_nil

/-- Rows of the destination are not blank, wherever they come from. -/
theorem scroll_rows_marks {font : Font} (hG : G.Valid) {t b py : Int} {ct cb y : Nat}
    (hscroll : (marks font G).scroll ⟨0, t, (G.width - 1 : Nat), b⟩
      (some ⟨0, ct, (G.width - 1 : Nat), cb⟩) ⟨0, py⟩ = some T')
    (hrows : t ≤ b ∧ b + 1 - t ≤ 65535) (hclip : ct ≤ y ∧ y ≤ cb ∧ cb < G.height)
    (hpy : -32768 ≤ py ∧ py ≤ 32767)
    (hdst : b + 1 - t ≤ 32767 → py ≤ y ∧ y ≤ short (py + (b - t))) :
    T'.console.buf.cell 0 y ≠ some (marks font G).blank := by
  have hcolumn := hG.column
  have hwidth := hG.width
  have hsx : short (((G.width - 1 : Nat) : Int) + 1 - 0) = G.width := by
    rw [short_eq (by omega) (by omega)]
    omega
  by_cases hsize : b + 1 - t ≤ 32767
  · obtain ⟨sy, hsy'⟩ : ∃ sy : Nat, b + 1 - t = sy := ⟨(b + 1 - t).toNat, by omega⟩
    have hsy : short (b + 1 - t) = sy := by rw [short_eq (by omega) hsize, hsy']
    obtain ⟨hfirst, hlast⟩ := hdst hsize
    refine scroll_marks hG hscroll 0 ct (G.width - 1) cb rfl (by omega) (by omega) G.width sy hsx hsy
      (by omega) (by dsimp only; omega) hrows.1 (by simp) hpy ?_ ?_
    · exact ⟨Int.le_refl 0, by dsimp only; omega, by dsimp only; omega, by dsimp only; omega⟩
    · refine ⟨Int.le_refl 0, ?_, hfirst, ?_⟩
      · dsimp only
        rw [short_eq (by omega) (by omega)]
        omega
      · dsimp only
        rw [show py + sy - 1 = py + (b - t) from by omega]
        exact hlast
  · obtain ⟨k, hk, hrange⟩ := short_mod (b + 1 - t)
    rw [scroll, ConsoleOutput.scroll_none _ _ _ (by dsimp only; omega) hrows.1
      (.inr ⟨by dsimp only; omega, by dsimp only; omega⟩)] at hscroll
    cases hscroll

/-! ## Lines -/

theorem reference_pulled_none {first last x y : Nat} {blank : CharInfo}
    {old : Nat → Nat → Option CharInfo} (hin : first ≤ y ∧ y ≤ last)
    (hgone : last < y + min n (last + 1 - first)) :
    Editing.lines (pulled first last n) blank old x y = some blank := by
  rw [Editing.lines, pulled_in hin, if_neg (by omega), Option.elim_none]

theorem reference_pushed_none {first last x y : Nat} {blank : CharInfo}
    {old : Nat → Nat → Option CharInfo} (hin : first ≤ y ∧ y ≤ last)
    (hgone : y < first + min n (last + 1 - first)) :
    Editing.lines (pushed first last n) blank old x y = some blank := by
  rw [Editing.lines, pushed_in hin, if_neg (by omega), Option.elim_none]

theorem not_scrollUp (font : Font) (hG : G.Valid) (hn : 1 ≤ n) (h : ¬Editing.Exact G n .scrollUp) :
    ¬(marks font G).Shifts G .scrollUp n ((marks font G).scrollUp n) := by
  have hT := marks_at font hG
  have hregion := hG.region
  have hheight := hG.height
  have hrow := hG.row
  have hcolumn := hG.column
  have hwidth := hG.width
  have hexact : ¬(0 ≤ short n ∧ (short n = n ∧ 2 * n ≤ G.last + 1
      ∨ short n ≤ G.first ∧ (short n = n ∨ G.last - short n < G.first))) := h
  obtain ⟨k, hk, hrange⟩ := short_mod n
  rw [scrollUp, hT.scrollWindow hG, hT.info hG]
  dsimp only
  rw [Int.zero_add]
  generalize short (n : Int) = l at hk hrange hexact ⊢
  by_cases hlast : G.last < l
  · -- the source is empty
    rw [scroll_empty _ _ _ (.inr hlast)]
    refine not_shifts (x := 0) (y := G.last) (by omega) hregion ?_
    rw [cell_marks font hG (by omega) hregion, Editing.reference,
      reference_pulled_none (by omega) (by omega)]
    exact mark_ne_blank font _
  by_cases hfront : 0 ≤ l
  · obtain ⟨t, rfl⟩ : ∃ t : Nat, l = t := ⟨l.toNat, by omega⟩
    obtain ⟨T', hscroll, -, hcells⟩ := hT.scroll_rows hG t G.last G.first G.last (by omega)
      (by omega) 0 (by omega)
    rw [Int.zero_add, short_eq (v := (G.last : Int) - t) (by omega) (by omega)] at hcells
    rw [hscroll]
    by_cases hsame : t = n
    · -- the row in front of the source
      refine not_shifts (x := 0) (y := n - 1) (by omega) (by omega) ?_
      rw [hcells 0 (n - 1) (by omega) (by omega), if_pos (by omega), if_neg (by omega),
        if_neg (by omega), cell_marks font hG (by omega) (by omega), Editing.reference,
        reference_pulled_none (by omega) (by omega)]
      exact mark_ne_blank font _
    · refine not_shifts (x := 0) (y := G.first) (by omega) (by omega) ?_
      rw [hcells 0 G.first (by omega) (by omega), if_pos (by omega), Editing.reference,
        reference_pulled_none (by omega) (by omega)]
      split
      · rw [cell_marks font hG (by omega) (by omega)]
        exact mark_ne_blank font _
      · rw [if_neg (by omega), cell_marks font hG (by omega) (by omega)]
        exact mark_ne_blank font _
  · -- nothing has been read
    cases hscroll : (marks font G).scroll ⟨0, l, (G.width - 1 : Nat), G.last⟩
        (some ⟨0, G.first, (G.width - 1 : Nat), G.last⟩) ⟨0, 0⟩ with
    | none => exact not_shifts_none
    | some T' =>
      refine not_shifts (x := 0) (y := G.first) (by omega) (by omega) ?_
      rw [Editing.reference, reference_pulled_none (by omega) (by omega)]
      exact scroll_rows_marks hG hscroll (by omega) (by omega) (by omega) fun hsize => by
        rw [short_eq (by omega) (by omega)]
        omega

theorem not_scrollDown (font : Font) (hG : G.Valid) (hn : 1 ≤ n)
    (h : ¬Editing.Exact G n .scrollDown) :
    ¬(marks font G).Shifts G .scrollDown n ((marks font G).scrollDown n) := by
  have hT := marks_at font hG
  have hregion := hG.region
  have hheight := hG.height
  have hrow := hG.row
  have hcolumn := hG.column
  have hexact : ¬(2 * n + G.first ≤ G.last + 1) := h
  obtain ⟨k, hk, hbottom⟩ := short_mod ((G.last : Int) - n)
  obtain ⟨k', hk', hpy⟩ := short_mod ((G.first : Int) + n)
  rw [scrollDown, hT.scrollWindow hG]
  dsimp only
  generalize short ((G.last : Int) - n) = bottom at hk hbottom ⊢
  generalize short ((G.first : Int) + n) = py at hk' hpy ⊢
  by_cases hshort : G.first + n ≤ G.last
  · -- the row behind the source
    obtain ⟨b, rfl⟩ : ∃ b : Nat, bottom = b := ⟨bottom.toNat, by omega⟩
    obtain ⟨T', hscroll, -, hcells⟩ := hT.scroll_rows hG G.first b G.first G.last (by omega)
      (by omega) py hpy
    rw [hscroll]
    refine not_shifts (x := 0) (y := G.first + n - 1) (by omega) (by omega) ?_
    rw [hcells 0 _ (by omega) (by omega), if_pos (by omega), if_neg (by omega), if_neg (by omega),
      cell_marks font hG (by omega) (by omega), Editing.reference,
      reference_pushed_none (by omega) (by omega)]
    exact mark_ne_blank font _
  · by_cases hempty : bottom < G.first
    · rw [scroll_empty _ _ _ (.inr hempty)]
      refine not_shifts (x := 0) (y := G.first) (by omega) (by omega) ?_
      rw [cell_marks font hG (by omega) (by omega), Editing.reference,
        reference_pushed_none (by omega) (by omega)]
      exact mark_ne_blank font _
    · cases hscroll : (marks font G).scroll ⟨0, G.first, (G.width - 1 : Nat), bottom⟩
          (some ⟨0, G.first, (G.width - 1 : Nat), G.last⟩) ⟨0, py⟩ with
      | none => exact not_shifts_none
      | some T' =>
        refine not_shifts (x := 0) (y := G.last) (by omega) (by omega) ?_
        rw [Editing.reference, reference_pushed_none (by omega) (by omega)]
        exact scroll_rows_marks hG hscroll (by omega) (by omega) hpy fun hsize => by
          rw [short_eq (by omega) (by omega)]
          omega

theorem not_insertLines (font : Font) (hG : G.Valid) (hn : 1 ≤ n)
    (h : ¬Editing.Exact G n .insertLines) :
    ¬(marks font G).Shifts G .insertLines n ((marks font G).insertLines n) := by
  have hT := marks_at font hG
  have hregion := hG.region
  have hheight := hG.height
  have hrow := hG.row
  have hcolumn := hG.column
  have hexact : ¬(if G.row + n ≤ G.last then G.last + n ≤ 32767
      else (G.last : Int) < short (G.row + n) ∨ short (G.last + n) < G.first) := h
  obtain ⟨k, hk, hpy⟩ := short_mod ((G.row : Int) + n)
  obtain ⟨k', hk', hlast⟩ := short_mod ((G.last : Int) + n)
  rw [insertLines, hT.scrollWindow hG, hT.info hG]
  dsimp only
  obtain ⟨T', hscroll, -, hcells⟩ := hT.scroll_rows hG G.row G.last G.first G.last (by omega)
    (by omega) _ hpy
  obtain ⟨k'', hk'', hbottom⟩ := short_mod (short ((G.row : Int) + n) + ((G.last : Int) - G.row))
  generalize short (short ((G.row : Int) + n) + ((G.last : Int) - G.row)) = bottom
    at hk'' hbottom hcells
  generalize short ((G.row : Int) + n) = py at hk hpy hk'' hexact hcells hscroll ⊢
  generalize short ((G.last : Int) + n) = last at hk' hlast hexact
  rw [hscroll]
  by_cases hshort : G.row + n ≤ G.last
  · -- the destination ends in front of the screen
    rw [if_pos hshort] at hexact
    refine not_shifts (x := 0) (y := G.row + n) (by omega) (by omega) ?_
    rw [hcells 0 _ (by omega) (by omega), if_pos (by omega), if_neg (by omega), if_pos (by omega),
      Editing.reference, Editing.lines, pushed_in (by omega), if_pos (by omega), Option.elim_some,
      cell_marks font hG (by omega) (by omega)]
    exact (mark_ne_blank font _).symm
  · rw [if_neg hshort] at hexact
    obtain ⟨y, hy⟩ : ∃ y : Nat, (y : Int) = max py G.first := ⟨(max py G.first).toNat, by omega⟩
    refine not_shifts (x := 0) (y := y) (by omega) (by omega) ?_
    rw [hcells 0 y (by omega) (by omega), if_pos (by omega), if_pos (by omega),
      cell_marks font hG (by omega) (by omega), if_neg (by omega), Editing.reference]
    by_cases hfront : y < G.row
    · rw [Editing.lines, pushed_out (by omega), Option.elim_some,
        cell_marks font hG (by omega) (by omega), if_pos hfront]
      decide
    · rw [reference_pushed_none (by omega) (by omega), blank_marks]
      decide

theorem not_deleteLines (font : Font) (hG : G.Valid) (hn : 1 ≤ n)
    (h : ¬Editing.Exact G n .deleteLines) :
    ¬(marks font G).Shifts G .deleteLines n ((marks font G).deleteLines n) := by
  have hT := marks_at font hG
  have hregion := hG.region
  have hheight := hG.height
  have hrow := hG.row
  have hcolumn := hG.column
  have hexact : ¬(G.row + n ≤ G.last ∨ (G.last : Int) < short ((G.row : Int) - n)
      ∨ short ((G.last : Int) - n) < G.row) := h
  obtain ⟨k, hk, hpy⟩ := short_mod ((G.row : Int) - n)
  obtain ⟨k', hk', hlast⟩ := short_mod ((G.last : Int) - n)
  rw [deleteLines, hT.scrollWindow hG, hT.info hG]
  dsimp only
  obtain ⟨T', hscroll, -, hcells⟩ := hT.scroll_rows hG G.row G.last G.row G.last (by omega)
    (by omega) _ hpy
  obtain ⟨k'', hk'', hbottom⟩ := short_mod (short ((G.row : Int) - n) + ((G.last : Int) - G.row))
  generalize short (short ((G.row : Int) - n) + ((G.last : Int) - G.row)) = bottom
    at hk'' hbottom hcells
  generalize short ((G.row : Int) - n) = py at hk hpy hk'' hexact hcells hscroll ⊢
  generalize short ((G.last : Int) - n) = last at hk' hlast hexact
  rw [hscroll]
  obtain ⟨y, hy⟩ : ∃ y : Nat, (y : Int) = max py G.row := ⟨(max py G.row).toNat, by omega⟩
  refine not_shifts (x := 0) (y := y) (by omega) (by omega) ?_
  rw [hcells 0 y (by omega) (by omega), if_pos (by omega), if_pos (by omega),
    cell_marks font hG (by omega) (by omega), Editing.reference,
    reference_pulled_none (by omega) (by omega)]
  exact mark_ne_blank font _

/-! ## Characters -/

theorem reference_chars_none {x : Nat} {blank : CharInfo} {old : Nat → Nat → Option CharInfo}
    {source : Nat → Option Nat} (hsource : source x = none) :
    Editing.chars G.row source blank old x G.row = some blank := by
  rw [Editing.chars, if_pos rfl, hsource, Option.elim_none]

theorem not_deleteChars (font : Font) (hG : G.Valid) (hn : 1 ≤ n)
    (h : ¬Editing.Exact G n .deleteChars) :
    ¬(marks font G).Shifts G .deleteChars n ((marks font G).deleteChars n) := by
  have hT := marks_at font hG
  have hregion := hG.region
  have hheight := hG.height
  have hrow := hG.row
  have hcolumn := hG.column
  have hwidth := hG.width
  have hexact : ¬(2 * n + G.column ≤ G.width
      ∨ short ((G.column : Int) + n) ≤ G.column ∧ (G.width : Int) - short (G.column + n) ≤ 32767
        ∧ 32767 < (G.column : Int) + (G.width - 1 - short (G.column + n))) := h
  obtain ⟨k, hk, hrange⟩ := short_mod ((G.column : Int) + n)
  rw [deleteChars, hT.restWindow hG, hT.info hG]
  dsimp only
  generalize short ((G.column : Int) + n) = left at hk hrange hexact ⊢
  by_cases hlast : (G.width : Int) ≤ left
  · -- the source is empty
    rw [scroll_empty _ _ _ (.inl (by dsimp only; omega))]
    refine not_shifts (x := G.width - 1) (y := G.row) (by omega) (by omega) ?_
    rw [cell_marks font hG (by omega) (by omega), Editing.reference,
      reference_chars_none (by rw [pulled_in (by omega), if_neg (by omega)])]
    exact mark_ne_blank font _
  by_cases hfront : 0 ≤ left
  · obtain ⟨l, rfl⟩ : ∃ l : Nat, left = l := ⟨left.toNat, by omega⟩
    obtain ⟨T', hscroll, -, hcells⟩ := hT.scroll_columns hG l (by omega) G.column (by omega)
    obtain ⟨k', hk', hright⟩ := short_mod ((G.column : Int) + ((G.width - 1 : Nat) - l))
    generalize short ((G.column : Int) + ((G.width - 1 : Nat) - l)) = right at hk' hright hcells
    rw [hscroll]
    by_cases hsame : l = G.column + n
    · -- the place in front of the source
      refine not_shifts (x := G.column + n - 1) (y := G.row) (by omega) (by omega) ?_
      rw [hcells _ _ (by omega) (by omega), if_pos (by omega), if_neg (by omega), if_neg (by omega),
        cell_marks font hG (by omega) (by omega), Editing.reference,
        reference_chars_none (by rw [pulled_in (by omega), if_neg (by omega)])]
      exact mark_ne_blank font _
    · refine not_shifts (x := G.column) (y := G.row) (by omega) (by omega) ?_
      rw [hcells _ _ (by omega) (by omega), if_pos (by omega), Editing.reference,
        reference_chars_none (by rw [pulled_in (by omega), if_neg (by omega)])]
      split
      · rw [cell_marks font hG (by omega) (by omega)]
        exact mark_ne_blank font _
      · rw [if_neg (by omega), cell_marks font hG (by omega) (by omega)]
        exact mark_ne_blank font _
  · -- nothing has been read
    cases hscroll : (marks font G).scroll ⟨left, G.row, (G.width - 1 : Nat), G.row⟩
        (some ⟨G.column, 0, (G.width - 1 : Nat), (G.height - 1 : Nat)⟩) ⟨G.column, G.row⟩ with
    | none => exact not_shifts_none
    | some T' =>
      refine not_shifts (x := G.column) (y := G.row) (by omega) (by omega) ?_
      rw [Editing.reference, reference_chars_none (by rw [pulled_in (by omega), if_neg (by omega)])]
      have hsy : short ((G.row : Int) + 1 - G.row) = (1 : Nat) := by
        rw [short_eq (by omega) (by omega)]
        omega
      by_cases hsize : (G.width : Int) - left ≤ 32767
      · obtain ⟨sx, hsx'⟩ : ∃ sx : Nat, (G.width : Int) - left = sx :=
          ⟨((G.width : Int) - left).toNat, by omega⟩
        have hsx : short (((G.width - 1 : Nat) : Int) + 1 - left) = sx := by
          rw [short_eq (by omega) (by omega)]
          omega
        refine scroll_marks hG hscroll G.column 0 (G.width - 1) (G.height - 1) rfl (by omega) (by omega)
          sx 1 hsx hsy (by omega) (by dsimp only; omega) (Int.le_refl _) (by dsimp only; omega)
          (by dsimp only; omega) ?_ ?_
        · exact ⟨Int.le_refl _, by dsimp only; omega, by dsimp only; omega, by dsimp only; omega⟩
        · refine ⟨Int.le_refl _, ?_, Int.le_refl _, ?_⟩
          · dsimp only
            rw [short_eq (by omega) (by omega)]
            omega
          · dsimp only
            rw [short_eq (by omega) (by omega)]
            omega
      · obtain ⟨k', hk', hrange'⟩ := short_mod (((G.width - 1 : Nat) : Int) + 1 - left)
        rw [scroll, ConsoleOutput.scroll_none _ _ _ (by dsimp only; omega) (Int.le_refl _)
          (.inl ⟨by dsimp only; omega, by dsimp only; omega⟩)] at hscroll
        cases hscroll

theorem not_insertChars (font : Font) (hG : G.Valid) (hn : 1 ≤ n)
    (h : ¬Editing.Exact G n .insertChars) :
    ¬(marks font G).Shifts G .insertChars n ((marks font G).insertChars n) := by
  have hT := marks_at font hG
  have hregion := hG.region
  have hrow := hG.row
  have hcolumn := hG.column
  have hwidth := hG.width
  have hexact : ¬(if G.column + n < G.width then G.width - 1 + n ≤ 32767
      else (G.width : Int) - 1 < short (G.column + n)
        ∨ short ((G.width : Int) - 1 + n) < G.column) := h
  obtain ⟨k, hk, hpx⟩ := short_mod ((G.column : Int) + n)
  obtain ⟨k', hk', hlast⟩ := short_mod ((G.width : Int) - 1 + n)
  rw [insertChars, hT.restWindow hG, hT.info hG]
  dsimp only
  obtain ⟨T', hscroll, -, hcells⟩ := hT.scroll_columns hG G.column hcolumn _ hpx
  obtain ⟨k'', hk'', hright⟩ :=
    short_mod (short ((G.column : Int) + n) + ((G.width - 1 : Nat) - G.column))
  generalize short (short ((G.column : Int) + n) + ((G.width - 1 : Nat) - G.column)) = right
    at hk'' hright hcells
  generalize short ((G.column : Int) + n) = px at hk hpx hk'' hexact hcells hscroll ⊢
  generalize short ((G.width : Int) - 1 + n) = last at hk' hlast hexact
  rw [hscroll]
  by_cases hshort : G.column + n < G.width
  · -- the destination ends in front of the screen
    rw [if_pos hshort] at hexact
    refine not_shifts (x := G.column + n) (y := G.row) (by omega) (by omega) ?_
    rw [hcells _ _ (by omega) (by omega), if_pos (by omega), if_neg (by omega), if_pos (by omega),
      Editing.reference, Editing.chars, if_pos rfl, pushed_in (by omega), if_pos (by omega),
      Option.elim_some, cell_marks font hG (by omega) (by omega)]
    exact (mark_ne_blank font _).symm
  · rw [if_neg hshort] at hexact
    obtain ⟨x, hx⟩ : ∃ x : Nat, (x : Int) = max px G.column := ⟨(max px G.column).toNat, by omega⟩
    refine not_shifts (x := x) (y := G.row) (by omega) (by omega) ?_
    rw [hcells _ _ (by omega) (by omega), if_pos (by omega), if_pos (by omega),
      cell_marks font hG (by omega) (by omega), Editing.reference,
      reference_chars_none (by rw [pushed_in (by omega), if_neg (by omega)])]
    exact mark_ne_blank font _

theorem not_eraseChars (cc : CharClasses) (font : Font) (hG : G.Valid) (hn : n < 2 ^ 31)
    (h : ¬Editing.Exact G n .eraseChars) :
    ¬(marks font G).Shifts G .eraseChars n ((marks font G).eraseChars cc n) := by
  have hT := marks_at font hG
  have hregion := hG.region
  have hrow := hG.row
  have hcolumn := hG.column
  have hexact : ¬(G.column + n ≤ G.width ∨ G.column = 0 ∧ G.first = G.last) := h
  have hlen : dword n = n := by
    rw [dword]
    omega
  rintro ⟨T1, hrun, -, hcells⟩
  rw [eraseChars, fillBlank, hT.info hG, hlen] at hrun
  obtain ⟨O1, hchar, hrun⟩ := Option.bind_eq_some_iff.mp hrun
  obtain ⟨O2, hattr, hrun⟩ := Option.bind_eq_some_iff.mp hrun
  cases Option.some.inj hrun
  rw [ConsoleOutput.fillCharacter_eq] at hchar
  obtain ⟨⟨O1', pos1⟩, hloop1, rfl⟩ := Option.map_eq_some_iff.mp hchar
  rw [ConsoleOutput.fillAttribute_eq] at hattr
  obtain ⟨⟨O2', pos2⟩, hloop2, rfl⟩ := Option.map_eq_some_iff.mp hattr
  have hredrawn := ConsoleOutput.fillLoop_redrawn _ n hloop1
  have hwidth : O1'.buf.width = G.width := hredrawn.sameSize.width
  have hedge : O1'.scrollEdge = G.last + 1 := hredrawn.scrollEdge.trans (hT.scrollEdge hG)
  have htop : O1'.scrollTop = G.first := hredrawn.scrollTop
  obtain ⟨x, y, hx, hy, hout, hstray⟩ := ConsoleOutput.fillLoop_beyond
    (hredrawn.sameSize.sized hT.sized) G.column G.row n (by rw [hwidth]; exact hcolumn)
    (by rw [hedge]; omega) (by rw [hwidth]; omega)
    (fun hlast => by
      rw [hedge] at hlast
      rw [htop]
      by_cases hone : G.first = G.last
      · exact .inr ⟨ConsoleOutput.alone_redrawn hredrawn (hT.alone hG hone), by omega⟩
      · exact .inl (by omega))
    hloop2
  rw [hwidth] at hx
  have hcell := hcells x y hx hy
  rw [ConsoleOutput.HasAttr] at hstray
  rw [Editing.reference] at hcell
  dsimp only at hcell hstray
  have hseven : (marks font G).console.attributes = 7 := rfl
  rw [hcell, if_neg (by omega), cell_marks font hG hx hy, hseven] at hstray
  split at hstray <;> exact absurd hstray (by decide)

/-! ## Sequences -/

/-- What the terminal does for a sequence. -/
def edit (cc : CharClasses) (T : Terminal Font) (n : Nat) : Editing → Option (Terminal Font)
  | .eraseChars => T.eraseChars cc n
  | .insertLines => T.insertLines n
  | .scrollUp => T.scrollUp n
  | .scrollDown => T.scrollDown n
  | .deleteLines => T.deleteLines n
  | .deleteChars => T.deleteChars n
  | .insertChars => T.insertChars n

theorem changedBy_edit (cc : CharClasses) (T : Terminal Font) (n : Nat) (e : Editing) :
    T.changedBy cc e.letter n = some (T.edit cc n e) := by
  cases e with
  | eraseChars => rw [changedBy, if_pos (by decide), edit]
  | insertLines => rw [changedBy, if_neg (by decide), if_pos (by decide), edit]
  | scrollUp => rw [changedBy, if_neg (by decide), if_neg (by decide), if_pos (by decide), edit]
  | scrollDown =>
    rw [changedBy, if_neg (by decide), if_neg (by decide), if_neg (by decide), if_pos (by decide), edit]
  | deleteLines =>
    rw [changedBy, if_neg (by decide), if_neg (by decide), if_neg (by decide), if_neg (by decide),
      if_pos (by decide), edit]
  | deleteChars =>
    rw [changedBy, if_neg (by decide), if_neg (by decide), if_neg (by decide), if_neg (by decide),
      if_neg (by decide), if_pos (by decide), edit]
  | insertChars =>
    rw [changedBy, if_neg (by decide), if_neg (by decide), if_neg (by decide), if_neg (by decide),
      if_neg (by decide), if_neg (by decide), if_pos (by decide), edit]

theorem interpretEscSeq_edit (ops : FontOps Font) (cc : CharClasses) (T : Terminal Font) {p : Parser}
    (hp : e.Asks p n) : T.interpretEscSeq ops cc p = T.edit cc n e := by
  have hsuffix := hp.suffix
  have hq : p.interpretSuffix.1 = p.oneArg 1 := by
    rw [Parser.interpretSuffix, hsuffix, if_neg (by cases e <;> decide), if_pos (by cases e <;> decide)]
  rw [interpretEscSeq, if_pos hp.prefix1, hp.prefix2, if_neg (fun h => absurd h.1 (by decide)),
    if_neg (by decide), interpretSuffix, hq, hsuffix]
  dsimp only
  rw [if_neg (by cases e <;> decide), if_neg (by cases e <;> decide), if_neg (by cases e <;> decide),
    if_neg (by cases e <;> decide), if_neg (by cases e <;> decide), if_neg (by cases e <;> decide),
    if_neg (by cases e <;> decide), if_pos (by cases e <;> decide), if_pos hp.argc, hp.argv,
    changedBy_edit, Option.getD_some]

/-- **Where the sequences do what the reference does**: the numbers of `Exact`, whatever is on the
screen. -/
theorem shifts_iff (ops : FontOps Font) (cc : CharClasses) (hG : G.Valid) (hn : 1 ≤ n ∧ n < 2 ^ 31)
    {p : Parser} (hp : e.Asks p n) :
    (∀ T : Terminal Font, T.At G → T.Shifts G e n (T.interpretEscSeq ops cc p))
      ↔ Editing.Exact G n e := by
  simp only [interpretEscSeq_edit ops cc _ hp]
  constructor
  · intro hall
    have hmarks := hall (marks ops.initial G) (marks_at ops.initial hG)
    refine Classical.byContradiction fun hnot => ?_
    cases e with
    | eraseChars => exact not_eraseChars cc _ hG hn.2 hnot hmarks
    | insertLines => exact not_insertLines _ hG hn.1 hnot hmarks
    | scrollUp => exact not_scrollUp _ hG hn.1 hnot hmarks
    | scrollDown => exact not_scrollDown _ hG hn.1 hnot hmarks
    | deleteLines => exact not_deleteLines _ hG hn.1 hnot hmarks
    | deleteChars => exact not_deleteChars _ hG hn.1 hnot hmarks
    | insertChars => exact not_insertChars _ hG hn.1 hnot hmarks
  · intro hexact T hT
    cases e with
    | eraseChars => exact hT.eraseChars_shifts cc hG hn.2 hexact
    | insertLines => exact hT.insertLines_shifts hG hexact
    | scrollUp => exact hT.scrollUp_shifts hG hn.1 hexact
    | scrollDown => exact hT.scrollDown_shifts hG hn.1 hexact
    | deleteLines => exact hT.deleteLines_shifts hG hexact
    | deleteChars => exact hT.deleteChars_shifts hG hn.1 hexact
    | insertChars => exact hT.insertChars_shifts hG hexact

/-- A screen of 80 columns and 25 rows, with the cursor in the tenth row. -/
def tenthRow : Geometry where
  width := 80
  height := 25
  first := 0
  last := 24
  column := 0
  row := 9

theorem tenthRow_valid : tenthRow.Valid :=
  ⟨by decide, by decide, by decide, by decide, by decide, by decide⟩

/-- Fonts without attributes. -/
def noFonts : FontOps Unit := ⟨(), fun _ _ _ => (), fun _ => 7, fun _ _ => ()⟩

/-- `ESC[3L` -/
def threeLines : Parser :=
  { prefix1 := ch '[', suffix := ch 'L', esArgc := 1, esArgv := [3] }

/-- Three lines are inserted. -/
theorem shifts_iff_threeLines :
    (∀ T : Terminal Unit, T.At tenthRow →
      T.Shifts tenthRow .insertLines 3 (T.interpretEscSeq noFonts CharClasses.table threeLines))
      ↔ Editing.Exact tenthRow 3 .insertLines :=
  shifts_iff noFonts CharClasses.table tenthRow_valid ⟨by decide, by decide⟩
    ⟨rfl, rfl, rfl, rfl, rfl⟩

/-- `ESC[50P` -/
def fiftyChars : Parser :=
  { prefix1 := ch '[', suffix := ch 'P', esArgc := 1, esArgv := [50] }

/-- **Fifty characters of eighty are deleted, and twenty of them stay.** -/
theorem fiftyChars_not_shifted :
    (marks () tenthRow).At tenthRow
      ∧ ¬(marks () tenthRow).Shifts tenthRow .deleteChars 50
        ((marks () tenthRow).interpretEscSeq noFonts CharClasses.table fiftyChars) := by
  refine ⟨marks_at () tenthRow_valid, ?_⟩
  rw [interpretEscSeq_edit (e := .deleteChars) noFonts CharClasses.table _
    ⟨rfl, rfl, rfl, rfl, rfl⟩]
  exact not_deleteChars () tenthRow_valid (by decide) (by unfold Editing.Exact; decide)

end Terminal

end VT

end Far2l
