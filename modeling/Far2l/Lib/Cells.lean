/-
Lib.Cells — a memory of cells, pieces of it, and what is written into it.

A memory says what each of its cells holds. A piece of it is read as a list, a list
is written from a cell on, and what is read afterwards is what has been written or
what was there before. Nothing here is about a particular program.
-/
import Mathlib.Data.List.Basic

namespace Far2l

/-- What each cell of a memory holds. -/
abbrev Cells (α : Type) : Type := Nat → α

namespace Cells

variable {α : Type} {m m' : Cells α} {pos pos' len len' : Nat} {xs : List α}

/-- The `len` cells from `pos` on. -/
def slice (m : Cells α) (pos len : Nat) : List α := (List.range len).map fun i => m (pos + i)

/-- A list is written from `pos` on. -/
def write (m : Cells α) (pos : Nat) (xs : List α) : Cells α :=
  fun i => if pos ≤ i then (xs[i - pos]?).getD (m i) else m i

/-! ## Pieces -/

@[simp] theorem slice_length : (slice m pos len).length = len := by
  rw [slice, List.length_map, List.length_range]

@[simp] theorem slice_zero : slice m pos 0 = [] := rfl

theorem slice_congr (h : ∀ i < len, m (pos + i) = m' (pos + i)) : slice m pos len = slice m' pos len :=
  List.map_congr_left fun i hi => h i (List.mem_range.mp hi)

/-- A piece is put together from two. -/
theorem slice_add (m : Cells α) (pos len len' : Nat) :
    slice m pos (len + len') = slice m pos len ++ slice m (pos + len) len' := by
  rw [slice, slice, slice, List.range_add, List.map_append, List.map_map]
  refine congrArg (_ ++ ·) (List.map_congr_left fun i _ => ?_)
  rw [Function.comp_apply, Nat.add_assoc]

theorem slice_take : (slice m pos len).take len' = slice m pos (min len' len) := by
  rw [slice, slice, ← List.map_take, List.take_range]

theorem slice_drop : (slice m pos len).drop len' = slice m (pos + len') (len - len') := by
  by_cases hle : len' ≤ len
  · obtain ⟨rest, rfl⟩ := Nat.exists_eq_add_of_le hle
    have hdrop : (slice m pos len' ++ slice m (pos + len') rest).drop (slice m pos len').length
        = slice m (pos + len') rest := List.drop_left
    rw [slice_length] at hdrop
    rw [slice_add, hdrop, Nat.add_sub_cancel_left]
  · rw [List.drop_of_length_le (by rw [slice_length]; omega), Nat.sub_eq_zero_of_le (by omega), slice_zero]

/-! ## Writing -/

theorem write_before {i : Nat} (h : i < pos) : write m pos xs i = m i := if_neg (Nat.not_le.mpr h)

theorem write_behind {i : Nat} (h : pos + xs.length ≤ i) : write m pos xs i = m i := by
  rw [write, if_pos (by omega), List.getElem?_eq_none (by omega), Option.getD_none]

theorem write_singleton {x : α} : write m pos [x] pos = x := by
  rw [write, if_pos (Nat.le_refl _), Nat.sub_self]
  rfl

variable (m pos xs) in
/-- What has been written is read. -/
theorem slice_write : slice (write m pos xs) pos xs.length = xs := by
  refine List.ext_getElem slice_length fun i hi₁ hi => ?_
  have hcell : (slice (write m pos xs) pos xs.length)[i] = write m pos xs (pos + i) := by
    simp only [slice, List.getElem_map, List.getElem_range]
  refine hcell.trans ?_
  rw [write, if_pos (Nat.le_add_right _ _), Nat.add_sub_cancel_left, List.getElem?_eq_getElem hi,
    Option.getD_some]

/-- What lies before it is as it was. -/
theorem slice_write_before (h : pos' + len ≤ pos) : slice (write m pos xs) pos' len = slice m pos' len :=
  slice_congr fun i hi => write_before (by omega)

/-- What lies behind it is as it was. -/
theorem slice_write_behind (h : pos + xs.length ≤ pos') : slice (write m pos xs) pos' len = slice m pos' len :=
  slice_congr fun i _ => write_behind (by omega)

end Cells

end Far2l
