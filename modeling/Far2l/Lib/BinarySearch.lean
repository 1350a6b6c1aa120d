/-
Lib.BinarySearch — `qsort` and `bsearch` of the C library.

What `bsearch` needs of an array is that a key's comparison with its elements
falls (`Partitioned`); what `qsort` gives is a permutation that is sorted, if the
comparison orders the elements. Nothing here is about a particular comparison.
-/
import Mathlib.Data.List.Sort

namespace Far2l

variable {α : Type}

/-! ## `bsearch` -/

/-- The loop of `bsearch` between `l` and `u`. -/
def bsearchLoop (cmp : α → Int) (xs : List α) : Nat → Nat → Nat → Option α
  | 0, _, _ => none
  | fuel + 1, l, u =>
      if l < u then
        match xs[(l + u) / 2]? with
        | none => none
        | some x =>
            if cmp x < 0 then bsearchLoop cmp xs fuel l ((l + u) / 2)
            else if 0 < cmp x then bsearchLoop cmp xs fuel ((l + u) / 2 + 1) u
            else some x
      else none

/-- `bsearch`; `cmp` compares the key with an element. -/
def bsearch (cmp : α → Int) (xs : List α) : Option α := bsearchLoop cmp xs xs.length 0 xs.length

/-- The key is above the elements of a beginning and below those of an end. -/
def Partitioned (cmp : α → Int) (xs : List α) : Prop :=
  xs.Pairwise fun a b => (0 < cmp b → 0 < cmp a) ∧ (cmp a < 0 → cmp b < 0)

variable {cmp : α → Int} {xs : List α}

theorem bsearchLoop_sound : ∀ {fuel l u : Nat} {x : α}, bsearchLoop cmp xs fuel l u = some x →
    x ∈ xs ∧ cmp x = 0
  | fuel + 1, l, u, x, h => by
    rw [bsearchLoop] at h
    split at h
    · split at h
      · exact nomatch h
      · next y hy =>
        split at h
        · exact bsearchLoop_sound h
        · split at h
          · exact bsearchLoop_sound h
          · next hge hle =>
            cases h
            exact ⟨List.mem_of_getElem? hy, by omega⟩
    · exact nomatch h

/-- What is found is in the array and compares equal. -/
theorem bsearch_sound {x : α} (h : bsearch cmp xs = some x) : x ∈ xs ∧ cmp x = 0 :=
  bsearchLoop_sound h

/-- An element at `k` that compares equal is not missed while `k` is between the bounds. -/
theorem bsearchLoop_complete (hxs : Partitioned cmp xs) {k : Nat} {y : α} (hy : xs[k]? = some y)
    (hcmp : cmp y = 0) : ∀ {fuel l u : Nat}, u - l ≤ fuel → l ≤ k → k < u → u ≤ xs.length →
      (bsearchLoop cmp xs fuel l u).isSome
  | 0, l, u, hfuel, hl, hu, _ => absurd (Nat.lt_of_le_of_lt hl hu) (by omega)
  | fuel + 1, l, u, hfuel, hl, hu, hlength => by
    have hmid : (l + u) / 2 < xs.length := by omega
    obtain ⟨hk, rfl⟩ := List.getElem?_eq_some_iff.mp hy
    rw [bsearchLoop, if_pos (Nat.lt_of_le_of_lt hl hu), List.getElem?_eq_getElem hmid]
    dsimp only
    split
    · next hlt =>
      -- the key is below the element in the middle, and so below those after it
      have hkmid : k < (l + u) / 2 := by
        refine Nat.lt_of_not_le fun hle => ?_
        rcases Nat.lt_or_eq_of_le hle with hlt' | heq
        · have := (List.pairwise_iff_getElem.mp hxs _ _ hmid hk hlt').2 hlt
          omega
        · subst heq
          omega
      exact bsearchLoop_complete hxs hy hcmp (by omega) hl hkmid (by omega)
    · split
      · next hgt =>
        have hmidk : (l + u) / 2 < k := by
          refine Nat.lt_of_not_le fun hle => ?_
          rcases Nat.lt_or_eq_of_le hle with hlt' | heq
          · have := (List.pairwise_iff_getElem.mp hxs _ _ hk hmid hlt').1 hgt
            omega
          · subst heq
            omega
        exact bsearchLoop_complete hxs hy hcmp (by omega) hmidk hu hlength
      · rfl

/-- **In a partitioned array an element that compares equal is found.** -/
theorem bsearch_complete (hxs : Partitioned cmp xs) {y : α} (hmem : y ∈ xs) (hcmp : cmp y = 0) :
    (bsearch cmp xs).isSome := by
  obtain ⟨k, hk, hy⟩ := List.getElem_of_mem hmem
  exact bsearchLoop_complete hxs (List.getElem?_eq_some_iff.mpr ⟨hk, hy⟩) hcmp (Nat.le_refl _)
    (Nat.zero_le k) hk (Nat.le_refl _)

/-! ## `qsort` -/

/-- The comparison orders the elements. -/
structure Orders (cmp : α → α → Int) (xs : List α) : Prop where
  swap : ∀ a ∈ xs, ∀ b ∈ xs, cmp a b < 0 ↔ 0 < cmp b a
  trans : ∀ a ∈ xs, ∀ b ∈ xs, ∀ c ∈ xs, cmp a b ≤ 0 → cmp b c ≤ 0 → cmp a c ≤ 0

namespace Orders

variable {cmp : α → α → Int}

theorem total (h : Orders cmp xs) {a b : α} (ha : a ∈ xs) (hb : b ∈ xs) :
    cmp a b ≤ 0 ∨ cmp b a ≤ 0 := by
  have hswap := h.swap b hb a ha
  omega

/-- **A sorted array is partitioned by any key of the same order.** -/
theorem partitioned {key : α} (h : Orders cmp (key :: xs))
    (hsorted : xs.Pairwise fun a b => cmp a b ≤ 0) : Partitioned (cmp key) xs := by
  refine hsorted.imp_of_mem fun {a b} ha hb hab => ?_
  have hkey : key ∈ key :: xs := List.mem_cons_self
  have ha' := List.mem_cons_of_mem key ha
  have hb' := List.mem_cons_of_mem key hb
  constructor
  · intro hlt
    refine Int.not_le.mp fun hle => ?_
    have := h.trans key hkey a ha' b hb' hle hab
    omega
  · intro hlt
    refine Int.not_le.mp fun hle => ?_
    have hbk : cmp b key ≤ 0 := by
      have := h.swap key hkey b hb'
      omega
    have hak := h.trans a ha' b hb' key hkey hab hbk
    have := h.swap key hkey a ha'
    omega

end Orders

/-- A `qsort`: the C standard leaves open which one, and what becomes of elements that compare
equal. -/
structure Qsort where
  sort : {α : Type} → (α → α → Int) → List α → List α
  perm : ∀ {α : Type} (cmp : α → α → Int) (xs : List α), (sort cmp xs).Perm xs
  sorted : ∀ {α : Type} (cmp : α → α → Int) (xs : List α), Orders cmp xs →
    (sort cmp xs).Pairwise fun a b => cmp a b ≤ 0

/-- One of them: each element goes before the first that is not below it. -/
def Qsort.insertion : Qsort where
  sort cmp xs := xs.insertionSort fun a b => cmp a b ≤ 0
  perm cmp xs := List.perm_insertionSort _ xs
  sorted := by
    intro α cmp xs h
    let r (a b : {a // a ∈ xs}) : Prop := cmp a.1 b.1 ≤ 0
    have : Std.Total r := ⟨fun a b => h.total a.2 b.2⟩
    have : IsTrans _ r := ⟨fun a b c => h.trans a.1 a.2 b.1 b.2 c.1 c.2⟩
    have hmap := List.map_insertionSort r (fun a b => cmp a b ≤ 0) Subtype.val xs.attach
      fun a _ b _ => Iff.rfl
    rw [List.attach_map_subtype_val] at hmap
    rw [← hmap, List.pairwise_map]
    exact List.pairwise_insertionSort r xs.attach

end Far2l
