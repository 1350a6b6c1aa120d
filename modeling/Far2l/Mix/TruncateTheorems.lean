/-
Far2l.Mix.TruncateTheorems — when `StrCellsTruncateCenter` comes back with a text
that fits.

The cut grows until both pieces and the replacement fit. Once nothing is left of
either piece it cannot grow any more, and the loop goes on for ever if the
replacement alone does not fit.
-/
import Far2l.Mix.StrCells

namespace Far2l

namespace StrCells

variable {cc : CellClasses} {pwz a b rpl : WStr} {C C' : Cut} {len ng n pos : Nat}

/-! ## Cells of pieces -/

theorem cellsOf_inside_le (first last : Bool) (c : WChar) :
    cellsOf cc first false c ≤ cellsOf cc first last c := by
  rw [cellsOf, cellsOf]
  cases last with
  | false => exact Nat.le_refl _
  | true => cases cc.fullWidth c <;> cases cc.isPrefix c <;> cases first || !cc.suffix c <;> decide

theorem cellsOf_behind_le (first last : Bool) (c : WChar) :
    cellsOf cc false last c ≤ cellsOf cc first last c := by
  rw [cellsOf, cellsOf]
  cases first with
  | false => exact Nat.le_refl _
  | true => cases cc.fullWidth c <;> cases cc.suffix c <;> cases last || !cc.isPrefix c <;> decide

theorem countLoop_behind_le (first : Bool) (s : WStr) :
    countLoop cc first s ≤ countLoop cc true s := by
  cases s with
  | nil => exact Nat.le_refl _
  | cons c s =>
    cases first with
    | true => exact Nat.le_refl _
    | false => exact Nat.add_le_add_right (cellsOf_behind_le true _ c) _

/-- A text takes no more cells than its pieces. -/
theorem countLoop_append_le (first : Bool) (a b : WStr) :
    countLoop cc first (a ++ b) ≤ countLoop cc first a + strCellsCount cc b := by
  induction a generalizing first with
  | nil =>
    rw [List.nil_append, countLoop, Nat.zero_add]
    exact countLoop_behind_le first b
  | cons c a ih =>
    have hcell : cellsOf cc first (a ++ b).isEmpty c ≤ cellsOf cc first a.isEmpty c := by
      cases a with
      | nil =>
        rw [List.nil_append]
        cases b with
        | nil => exact Nat.le_refl _
        | cons d b => exact cellsOf_inside_le first true c
      | cons d a => exact Nat.le_refl _
    rw [List.cons_append, countLoop, countLoop, Nat.add_assoc]
    exact Nat.add_le_add hcell (ih false)

theorem countLoop_plain_le (h : ∀ c ∈ rpl, cc.fullWidth c = false) (first : Bool) :
    countLoop cc first rpl ≤ rpl.length := by
  induction rpl generalizing first with
  | nil => exact Nat.le_refl _
  | cons c rpl ih =>
    have hcell : cellsOf cc first rpl.isEmpty c ≤ 1 := by
      rw [cellsOf, h c List.mem_cons_self, if_neg Bool.false_ne_true]
      split <;> decide
    have hrest := ih (fun c hc => h c (List.mem_cons_of_mem _ hc)) false
    rw [countLoop, List.length_cons]
    omega

theorem count_replaced_le (h : ∀ c ∈ rpl, cc.fullWidth c = false) (a b : WStr) :
    strCellsCount cc (a ++ (rpl ++ b)) ≤ strCellsCount cc a + strCellsCount cc b + rpl.length := by
  have houter : strCellsCount cc (a ++ (rpl ++ b)) ≤ strCellsCount cc a + strCellsCount cc (rpl ++ b) :=
    countLoop_append_le true a (rpl ++ b)
  have hinner : strCellsCount cc (rpl ++ b) ≤ countLoop cc true rpl + strCellsCount cc b :=
    countLoop_append_le true rpl b
  have hplain := countLoop_plain_le h true
  omega

/-! ## The cut -/

/-- The cut is in the text, and there is room in it for the replacement. -/
structure Cut.Sound (n len : Nat) (C : Cut) : Prop where
  room : C.cutStart + len ≤ C.cutEnd
  within : C.cutEnd ≤ n

/-- What is left of both pieces. -/
def Cut.left (n : Nat) (C : Cut) : Nat := C.cutStart + (n - C.cutEnd)

theorem skipBack_le (cc : CellClasses) (pwz : WStr) (pos : Nat) : skipBack cc pwz pos ≤ pos := by
  induction pos with
  | zero => exact Nat.le_refl _
  | succ pos ih =>
    rw [skipBack]
    split
    · exact Nat.le_succ_of_le ih
    · exact Nat.le_refl _

theorem le_skipForth (cc : CellClasses) (pwz : WStr) (pos : Nat) : pos ≤ skipForth cc pwz pos := Nat.le_add_right _ _

theorem skipForth_le (h : pos ≤ pwz.length) : skipForth cc pwz pos ≤ pwz.length := by
  have hle := (List.takeWhile_prefix (xxxfix cc) (l := pwz.drop pos)).length_le
  rw [List.length_drop] at hle
  rw [skipForth]
  omega

theorem Cut.first_sound (hlen : len ≤ pwz.length) (hwidth : len = 1 ∨ len = 3) :
    (Cut.first cc pwz len).Sound pwz.length len := by
  have hsound : ∀ pos, pos + len ≤ pwz.length →
      (⟨skipBack cc pwz pos, skipForth cc pwz (skipBack cc pwz pos + len)⟩ : Cut).Sound pwz.length len := by
    intro pos hpos
    have hle := skipBack_le cc pwz pos
    exact ⟨le_skipForth cc _ _, skipForth_le (by omega)⟩
  have hhalf : (if pwz.length / 2 > 0 then pwz.length / 2 - 1 else pwz.length / 2)
      = pwz.length / 2 - 1 := by
    split
    · rfl
    · omega
  refine hsound _ ?_
  rw [hhalf]
  split
  · omega
  · omega

theorem Cut.Sound.back (h : C.Sound pwz.length len) : (C.back cc pwz).Sound pwz.length len := by
  have hle := skipBack_le cc pwz (C.cutStart - 1)
  have hroom := h.room
  exact ⟨by rw [Cut.back]; dsimp only; omega, h.within⟩

theorem Cut.Sound.forth (h : C.Sound pwz.length len) : (C.forth cc pwz).Sound pwz.length len := by
  rw [Cut.forth]
  split
  · next hlt =>
    have hge := le_skipForth cc pwz (C.cutEnd + 1)
    have hroom := h.room
    exact ⟨by dsimp only; omega, skipForth_le hlt⟩
  · exact h

theorem Cut.forth_left (C : Cut) :
    (C.forth cc pwz).left pwz.length ≤ C.left pwz.length
      ∧ (C.cutEnd < pwz.length → (C.forth cc pwz).left pwz.length < C.left pwz.length) := by
  rw [Cut.forth]
  split
  · have hge := le_skipForth cc pwz (C.cutEnd + 1)
    rw [Cut.left, Cut.left]
    dsimp only
    exact ⟨by omega, fun _ => by omega⟩
  · next hge => exact ⟨Nat.le_refl _, fun hlt => absurd hlt hge⟩

/-- **A turn** leaves the loop with a cut that fits, or the cut grows, unless nothing is left. -/
theorem Cut.turn_spec (cc : CellClasses) (ng : Nat) (h : C.Sound pwz.length len) :
    match C.turn cc pwz len ng with
    | .inl C' => C'.Sound pwz.length len ∧ C'.Fits cc pwz len ng
    | .inr C' => C'.Sound pwz.length len
        ∧ (C'.left pwz.length < C.left pwz.length ∨ C.left pwz.length = 0) := by
  rw [Cut.turn]
  by_cases hfits : C.Fits cc pwz len ng
  · rw [if_pos hfits]
    exact ⟨h, hfits⟩
  · rw [if_neg hfits]
    by_cases hstart : C.cutStart > 0
    · rw [if_pos hstart]
      by_cases hback : (C.back cc pwz).Fits cc pwz len ng
      · rw [if_pos hback]
        exact ⟨h.back, hback⟩
      · rw [if_neg hback]
        refine ⟨h.back.forth, .inl (Nat.lt_of_le_of_lt (Cut.forth_left _).1 ?_)⟩
        have hle := skipBack_le cc pwz (C.cutStart - 1)
        rw [Cut.left, Cut.left, Cut.back]
        dsimp only
        omega
    · rw [if_neg hstart]
      refine ⟨h.forth, ?_⟩
      by_cases hend : C.cutEnd < pwz.length
      · exact .inl ((Cut.forth_left C).2 hend)
      · refine .inr ?_
        rw [Cut.left]
        omega

/-- Where nothing is left, the replacement alone has to fit. -/
theorem Cut.fits_of_left (h : C.left pwz.length = 0) (hlen : len ≤ ng) : C.Fits cc pwz len ng := by
  rw [Cut.left] at h
  rw [Cut.Fits, List.drop_of_length_le (by omega), show C.cutStart = 0 by omega, List.take_zero]
  show 0 + 0 + len ≤ ng
  omega

/-- **The loop ends with a cut that fits** where the replacement does. -/
theorem Cut.run_fits (cc : CellClasses) (hlen : len ≤ ng) (C : Cut) (h : C.Sound pwz.length len) :
    ∃ turns C', C.run cc pwz len ng turns = some C' ∧ C'.Sound pwz.length len
      ∧ C'.Fits cc pwz len ng := by
  induction hleft : C.left pwz.length using Nat.strongRecOn generalizing C with
  | ind left ih =>
    have hturn := Cut.turn_spec cc ng h
    cases hnext : C.turn cc pwz len ng with
    | inl C' =>
      rw [hnext] at hturn
      exact ⟨1, C', by rw [Cut.run, hnext], hturn⟩
    | inr C' =>
      rw [hnext] at hturn
      rcases hturn.2 with hless | hzero
      · obtain ⟨turns, D, hrun, hD⟩ := ih _ (hleft ▸ hless) C' hturn.1 rfl
        exact ⟨turns + 1, D, by rw [Cut.run, hnext]; exact hrun, hD⟩
      · rw [Cut.turn, if_pos (Cut.fits_of_left hzero hlen)] at hnext
        cases hnext

/-- **The loop never ends** where the replacement does not fit. -/
theorem Cut.run_none (hlen : ng < len) (turns : Nat) (C : Cut) : C.run cc pwz len ng turns = none := by
  have hnot : ∀ D : Cut, ¬D.Fits cc pwz len ng := by
    intro D hfits
    rw [Cut.Fits] at hfits
    omega
  induction turns generalizing C with
  | zero => rfl
  | succ turns ih =>
    rw [Cut.run, Cut.turn, if_neg (hnot C), if_neg (hnot _)]
    split
    · next hnext =>
      split at hnext
      · cases hnext
      · cases hnext
    · exact ih _

/-- What is left of the text. -/
theorem Cut.replace_eq (h : C.Sound pwz.length rpl.length) :
    C.replace pwz rpl = pwz.take C.cutStart ++ (rpl ++ pwz.drop C.cutEnd) := by
  have hroom := h.room
  have hwithin := h.within
  have hstart : (pwz.take (C.cutStart + rpl.length)).length = C.cutStart + rpl.length := by
    rw [List.length_take]
    omega
  have htake : (memCopy pwz (C.cutStart + rpl.length) (pwz.drop C.cutEnd)).take C.cutStart
      = pwz.take C.cutStart := by
    rw [memCopy, List.append_assoc, List.take_append_of_le_length (by omega), List.take_take,
      Nat.min_eq_left (by omega)]
  have hdrop : (memCopy pwz (C.cutStart + rpl.length) (pwz.drop C.cutEnd)).drop (C.cutStart + rpl.length)
      = pwz.drop C.cutEnd ++ pwz.drop (C.cutStart + rpl.length + (pwz.drop C.cutEnd).length) := by
    rw [memCopy, List.append_assoc, List.drop_left' hstart]
  rw [Cut.replace, memCopy, htake, hdrop, ← List.append_assoc, ← List.append_assoc]
  refine List.take_left' ?_
  simp only [List.length_append, List.length_take, List.length_drop]
  omega

/-! ## The claim -/

/-- **The text is truncated**: the call ends, a text that fits stays as it is, and another one becomes a
beginning of it, the replacement and an end of it, as long as there is a cell for each character of
the replacement. -/
def Truncates (cc : CellClasses) (noGraphics : Bool) (pwz : WStr) (ng : Nat) : Prop :=
  ∃ turns out, strCellsTruncateCenter cc noGraphics turns pwz ng = some out
    ∧ (strCellsCount cc pwz ≤ ng → out = pwz)
    ∧ (ng < strCellsCount cc pwz → (chooseTruncReplacement noGraphics).length ≤ ng →
        strCellsCount cc out ≤ ng
          ∧ ∃ front back, front <+: pwz ∧ back <:+ pwz
            ∧ out = front ++ (chooseTruncReplacement noGraphics ++ back))

theorem length_replacement (noGraphics : Bool) :
    (chooseTruncReplacement noGraphics).length = 1 ∨ (chooseTruncReplacement noGraphics).length = 3 := by
  cases noGraphics <;> decide

theorem truncates_iff (noGraphics : Bool)
    (hplain : ∀ c ∈ chooseTruncReplacement noGraphics, cc.fullWidth c = false) (pwz : WStr) (ng : Nat) :
    Truncates cc noGraphics pwz ng
      ↔ strCellsCount cc pwz ≤ ng
        ∨ ((chooseTruncReplacement noGraphics).length ≤ pwz.length
            ↔ (chooseTruncReplacement noGraphics).length ≤ ng) := by
  have hwidth := length_replacement noGraphics
  generalize hrpl : chooseTruncReplacement noGraphics = rpl at hplain hwidth
  by_cases hcount : strCellsCount cc pwz ≤ ng
  · refine iff_of_true ⟨0, pwz, ?_, fun _ => rfl, fun hlt => absurd hcount (Nat.not_le.mpr hlt)⟩ (.inl hcount)
    rw [strCellsTruncateCenter, if_pos (.inl hcount)]
  have hwide : ng < strCellsCount cc pwz := Nat.not_le.mp hcount
  by_cases hshort : pwz.length < rpl.length
  · have hsame : ∀ turns, strCellsTruncateCenter cc noGraphics turns pwz ng = some pwz := by
      intro turns
      rw [strCellsTruncateCenter, hrpl, if_pos (.inr hshort)]
    constructor
    · rintro ⟨turns, out, hout, -, hfits⟩
      rw [hsame] at hout
      cases hout
      refine .inr ⟨fun hle => absurd hshort (Nat.not_lt.mpr hle), fun hle => ?_⟩
      exact absurd (hfits hwide (hrpl ▸ hle)).1 hcount
    · rintro (hle | hiff)
      · exact absurd hle hcount
      · refine ⟨0, pwz, hsame 0, fun _ => rfl, fun _ hle => ?_⟩
        exact absurd (hiff.mpr (hrpl ▸ hle)) (Nat.not_le.mpr hshort)
  · have hlong : rpl.length ≤ pwz.length := Nat.not_lt.mp hshort
    have hcall : ∀ turns, strCellsTruncateCenter cc noGraphics turns pwz ng
        = ((Cut.first cc pwz rpl.length).run cc pwz rpl.length ng turns).map fun C => C.replace pwz rpl := by
      intro turns
      rw [strCellsTruncateCenter, hrpl, if_neg (not_or.mpr ⟨hcount, hshort⟩)]
    constructor
    · rintro ⟨turns, out, hout, -⟩
      refine .inr ⟨fun _ => Nat.not_lt.mp fun hlt => ?_, fun _ => hlong⟩
      rw [hcall, Cut.run_none hlt] at hout
      cases hout
    · rintro (hle | hiff)
      · exact absurd hle hcount
      · obtain ⟨turns, C, hrun, hC, hfits⟩ :=
          Cut.run_fits cc (hiff.mp hlong) _ (Cut.first_sound hlong hwidth)
        refine ⟨turns, C.replace pwz rpl, by rw [hcall, hrun]; rfl, fun hle => absurd hle hcount, fun _ _ => ?_⟩
        rw [Cut.replace_eq hC, hrpl]
        exact ⟨Nat.le_trans (count_replaced_le hplain _ _) hfits, _, _, List.take_prefix _ _,
          List.drop_suffix _ _, rfl⟩

/-- The replacement has no character that is two cells wide. -/
theorem replacement_plain (noGraphics : Bool) :
    ∀ c ∈ chooseTruncReplacement noGraphics, CellClasses.table.fullWidth c = false := by
  intro c hc
  cases noGraphics with
  | false =>
    rw [List.mem_singleton.mp hc]
    decide
  | true =>
    obtain rfl : c = 0x2E := by simpa [chooseTruncReplacement, L] using hc
    decide

/-- **`StrCellsTruncateCenter` truncates** a text that does not fit exactly when the replacement is no longer than the
text and no wider than the budget, or neither. -/
theorem truncateCenter_iff (noGraphics : Bool) (pwz : WStr) (ng : Nat) :
    Truncates .table noGraphics pwz ng
      ↔ strCellsCount .table pwz ≤ ng
        ∨ ((chooseTruncReplacement noGraphics).length ≤ pwz.length
            ↔ (chooseTruncReplacement noGraphics).length ≤ ng) :=
  truncates_iff noGraphics (replacement_plain noGraphics) pwz ng

/-- No budget is left for the ellipsis, and the loop never ends; two characters that are two cells wide are
shorter than three dots, and stay as they are with a budget of three cells. -/
theorem truncateCenter_fails :
    ¬Truncates .table false [0x41] 0 ∧ ¬Truncates .table true [0x1100, 0x1100] 3 := by
  constructor
  · rw [truncates_iff false (replacement_plain false)]
    decide
  · rw [truncates_iff true (replacement_plain true)]
    decide

end StrCells

end Far2l
