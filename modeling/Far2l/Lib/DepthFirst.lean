/-
Lib.DepthFirst — what a depth-first scan of a tree has still ahead of it.

A path is a list of names, the innermost first, so that what is at a path or
below it are the lists that end with it. A scan is in a directory, and keeps the
names that are still to be listed for this directory and for each one above it.
Every directory but the topmost has a second turn when its names have been
listed. Nothing here is about a particular program.
-/
import Mathlib.Data.List.Basic
import Mathlib.Data.List.Infix

namespace Far2l.DepthFirst

variable {α : Type} {children : List α → List α} {d q : List α} {n : α} {rem : List α}
  {rems : List (List α)}

/-- A scan that is in `d`. -/
inductive Open (children : List α → List α) : List α → List (List α) → Prop where
  | top {rem : List α} (h : rem <:+ children []) : Open children [] [rem]
  | inside {d : List α} {n : α} {inner rem : List α} {rems : List (List α)}
      (h : Open children d (rem :: rems)) (hn : (n :: rem) <:+ children d)
      (hinner : inner <:+ children (n :: d)) : Open children (n :: d) (inner :: rem :: rems)

/-- `q` is still to be listed, or is below what is. -/
def First : List α → List (List α) → List α → Prop
  | _, [], _ => False
  | d, rem :: rems, q => (∃ n ∈ rem, (n :: d) <:+ q) ∨ First d.tail rems q

/-- `q` is a directory that has a second turn. -/
def Second : List α → List (List α) → List α → Prop
  | d, _ :: rem :: rems, q => q = d ∨ Second d.tail (rem :: rems) q
  | _, _, _ => False

/-! ## Where the scan is -/

theorem Open.suffix (h : Open children d (rem :: rems)) : rem <:+ children d := by
  cases h with
  | top h => exact h
  | inside _ _ h => exact h

/-- A name has been listed. -/
theorem Open.next (h : Open children d ((n :: rem) :: rems)) : Open children d (rem :: rems) := by
  cases h with
  | top h => exact .top ((List.suffix_cons n rem).trans h)
  | inside h hn hinner => exact .inside h hn ((List.suffix_cons n rem).trans hinner)

theorem Open.mem (h : Open children d ((n :: rem) :: rems)) : n ∈ children d :=
  h.suffix.subset List.mem_cons_self

/-! ## Distinct names -/

/-- A name is not listed again. -/
theorem not_mem_rest (hdistinct : (children d).Nodup) (hn : (n :: rem) <:+ children d) :
    n ∉ rem := by
  have hnodup : (n :: rem).Nodup := hdistinct.sublist hn.sublist
  exact (List.nodup_cons.mp hnodup).1

/-- Nothing comes after the last name. -/
theorem getLast?_eq_iff (hdistinct : (children d).Nodup) (hn : (n :: rem) <:+ children d) :
    (children d).getLast? = some n ↔ rem = [] := by
  have hmem := not_mem_rest hdistinct hn
  obtain ⟨pre, hpre⟩ := hn
  rw [← hpre, List.getLast?_append_of_ne_nil _ (List.cons_ne_nil _ _)]
  cases rem with
  | nil => simp
  | cons m rem =>
    rw [List.getLast?_cons_cons, List.getLast?_eq_getLast_of_ne_nil (List.cons_ne_nil _ _)]
    have hlast := List.getLast_mem (List.cons_ne_nil m rem)
    constructor
    · intro heq
      rw [Option.some.inj heq] at hlast
      exact absurd hlast hmem
    · intro hnil
      cases hnil

/-! ## What is ahead -/

theorem suffix_unique {m : α} (hm : (m :: d) <:+ q) (hn : (n :: d) <:+ q) : m = n := by
  have heq : m :: d = n :: d := by
    rcases List.suffix_or_suffix_of_suffix hm hn with h | h
    · exact h.eq_of_length rfl
    · exact (h.eq_of_length rfl).symm
  exact (List.cons.inj heq).1

/-- What is below is ahead too. -/
theorem First.mono {q' : List α} (hq : q <:+ q') :
    ∀ {d : List α} {stack : List (List α)}, First d stack q → First d stack q'
  | _, _ :: _, .inl ⟨n, hn, hnq⟩ => .inl ⟨n, hn, hnq.trans hq⟩
  | _, _ :: _, .inr h => .inr (First.mono hq h)

/-- A name that has been listed is not ahead, nor is what is below it. -/
theorem Open.not_first (hdistinct : ∀ d, (children d).Nodup) (h : Open children d (rem :: rems))
    (hn : n ∉ rem) (hq : (n :: d) <:+ q) : ¬ First d (rem :: rems) q := by
  generalize hstack : rem :: rems = stack at h
  induction h generalizing n rem rems with
  | top _ =>
    cases hstack
    rintro (⟨m, hm, hmq⟩ | hfalse)
    · exact hn (suffix_unique hmq hq ▸ hm)
    · exact hfalse
  | inside _ hname _ ih =>
    cases hstack
    rintro (⟨m, hm, hmq⟩ | hfirst)
    · exact hn (suffix_unique hmq hq ▸ hm)
    · exact ih (not_mem_rest (hdistinct _) hname) ((List.suffix_cons _ _).trans hq) rfl hfirst

/-- When a directory is left nothing in it is ahead. -/
theorem Open.not_first_tail (hdistinct : ∀ d, (children d).Nodup)
    (h : Open children d (rem :: rems)) (hq : d <:+ q) : ¬ First d.tail rems q := by
  cases h with
  | top _ => exact id
  | inside h hn _ => exact h.not_first hdistinct (not_mem_rest (hdistinct _) hn) hq

/-- A second turn is a turn of a directory that the scan is in. -/
theorem Second.suffix : ∀ {d : List α} {stack : List (List α)}, Second d stack q → q <:+ d
  | _, [], h => h.elim
  | _, [_], h => h.elim
  | _, _ :: _ :: _, .inl h => h ▸ List.suffix_refl _
  | d, _ :: _ :: _, .inr h => (Second.suffix h).trans d.tail_suffix

theorem Second.length_le {stack : List (List α)} (h : Second d stack q) : q.length ≤ d.length :=
  h.suffix.length_le

/-- The name that is listed next, what is below it, and the rest. -/
theorem First.cons : First d ((n :: rem) :: rems) q ↔ (n :: d) <:+ q ∨ First d (rem :: rems) q := by
  simp only [First, List.mem_cons, exists_eq_or_imp, or_assoc]

theorem Second.leave {stack : List (List α)} (h : Second d.tail stack q) :
    Second d (rem :: stack) q := by
  cases stack with
  | nil => exact h.elim
  | cons _ _ => exact .inr h

/-- The second turn of the innermost directory, and the others. -/
theorem Second.cases (h : Second d (rem :: rems) q) : q = d ∨ Second d.tail rems q := by
  cases rems with
  | nil => exact h.elim
  | cons _ _ => exact h

/-- The names that are left do not matter for the second turns. -/
theorem Second.congr {rem' : List α} (h : Second d (rem :: rems) q) : Second d (rem' :: rems) q := by
  cases rems with
  | nil => exact h.elim
  | cons _ _ => exact h

end Far2l.DepthFirst
