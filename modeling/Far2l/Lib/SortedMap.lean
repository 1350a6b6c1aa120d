/-
Lib.SortedMap — a map kept as a list of entries in the order of their keys, as
an ordered map of a standard library iterates over it.

The order is a comparison `lt` that is a strict weak order: keys neither of
which is below the other are equivalent, and a map holds at most one of them.
Nothing here is about a particular program.
-/

namespace Far2l

universe u v

/-- A strict weak order, as a comparison. -/
class StrictWeak {α : Type u} (lt : α → α → Bool) : Prop where
  irrefl : ∀ a, lt a a = false
  trans : ∀ {a b c}, lt a b = true → lt b c = true → lt a c = true
  cotrans : ∀ {a b}, lt a b = true → ∀ c, lt a c = true ∨ lt c b = true

/-- Neither key is below the other. -/
def equivKeys {α : Type u} (lt : α → α → Bool) (a b : α) : Bool := !lt a b && !lt b a

/-- The entries of an ordered map. -/
structure SortedMap (α : Type u) (β : Type v) (lt : α → α → Bool) where
  entries : List (α × β)
  sorted : entries.Pairwise fun x y => lt x.1 y.1 = true

namespace SortedMap

variable {α : Type u} {β : Type v} {lt : α → α → Bool}

section Equiv

variable {a b c : α}

theorem equiv_comm (a b : α) : equivKeys lt a b = equivKeys lt b a := Bool.and_comm _ _

theorem equiv_iff : equivKeys lt a b = true ↔ lt a b = false ∧ lt b a = false := by
  rw [equivKeys, Bool.and_eq_true, Bool.not_eq_true', Bool.not_eq_true']

theorem equiv_of_lt (h : lt a b = true) : equivKeys lt a b = false := by
  rw [equivKeys, h]
  rfl

theorem lt_of_not (h : lt a b = false) (hne : equivKeys lt a b = false) : lt b a = true := by
  rw [equivKeys, h] at hne
  simpa using hne

variable [StrictWeak lt]

theorem lt_irrefl (a : α) : lt a a = false := StrictWeak.irrefl a

theorem equiv_refl (a : α) : equivKeys lt a a = true := equiv_iff.mpr ⟨lt_irrefl a, lt_irrefl a⟩

/-- Equivalent keys are below the same keys. -/
theorem lt_congr (h : equivKeys lt a b = true) (hc : lt a c = true) : lt b c = true := by
  rcases StrictWeak.cotrans hc b with hab | hbc
  · rw [(equiv_iff.mp h).1] at hab
    exact absurd hab Bool.false_ne_true
  · exact hbc

theorem equiv_trans (hab : equivKeys lt a b = true) (hbc : equivKeys lt b c = true) :
    equivKeys lt a c = true := by
  refine equiv_iff.mpr ⟨?_, ?_⟩
  · refine Bool.eq_false_iff.mpr fun hac => ?_
    have hbc' := lt_congr hab hac
    rw [(equiv_iff.mp hbc).1] at hbc'
    exact Bool.false_ne_true hbc'
  · refine Bool.eq_false_iff.mpr fun hca => ?_
    rw [equiv_comm] at hbc
    have hba := lt_congr hbc hca
    rw [(equiv_iff.mp hab).2] at hba
    exact Bool.false_ne_true hba

end Equiv

theorem ext {m m' : SortedMap α β lt} (h : m.entries = m'.entries) : m = m' := by
  cases m
  cases m'
  cases h
  rfl

/-! ## Operations -/

/-- The map without entries. -/
def empty : SortedMap α β lt := ⟨[], .nil⟩

/-- The entry of a key. -/
def find? (m : SortedMap α β lt) (k : α) : Option (α × β) :=
  m.entries.find? fun e => equivKeys lt e.1 k

/-- An entry goes in front of the first one that is not below it. -/
def insertEntry (lt : α → α → Bool) (k : α) (v : β) : List (α × β) → List (α × β)
  | [] => [(k, v)]
  | e :: l => if lt e.1 k then e :: insertEntry lt k v l else (k, v) :: e :: l

/-- Entries that do not satisfy `p` are taken out. -/
def filter (m : SortedMap α β lt) (p : α × β → Bool) : SortedMap α β lt :=
  ⟨m.entries.filter p, m.sorted.filter p⟩

/-- Values are changed. -/
def mapValues (m : SortedMap α β lt) (f : α → β → β) : SortedMap α β lt :=
  ⟨m.entries.map fun e => (e.1, f e.1 e.2), List.pairwise_map.mpr m.sorted⟩

theorem perm_insertEntry (k : α) (v : β) : ∀ l : List (α × β),
    (insertEntry lt k v l).Perm ((k, v) :: l)
  | [] => .refl _
  | e :: l => by
    rw [insertEntry]
    split
    · exact ((perm_insertEntry k v l).cons e).trans (.swap _ _ _)
    · exact .refl _

theorem sorted_insertEntry [StrictWeak lt] (k : α) (v : β) : ∀ (l : List (α × β)),
    l.Pairwise (fun x y => lt x.1 y.1 = true) → (∀ e ∈ l, equivKeys lt e.1 k = false) →
    (insertEntry lt k v l).Pairwise fun x y => lt x.1 y.1 = true
  | [], _, _ => List.pairwise_singleton _ _
  | e :: l, h, hk => by
    obtain ⟨he, hl⟩ := List.pairwise_cons.mp h
    obtain ⟨hke, hkl⟩ := List.forall_mem_cons.mp hk
    rw [insertEntry]
    split
    · next hlt =>
      refine List.pairwise_cons.mpr ⟨fun x hx => ?_, sorted_insertEntry k v l hl hkl⟩
      rcases List.mem_cons.mp ((perm_insertEntry k v l).mem_iff.mp hx) with rfl | hx
      · exact hlt
      · exact he x hx
    · next hlt =>
      have hlt' : lt k e.1 = true := lt_of_not (by simpa using hlt) hke
      refine List.pairwise_cons.mpr ⟨fun x hx => ?_, h⟩
      rcases List.mem_cons.mp hx with rfl | hx
      · exact hlt'
      · exact StrictWeak.trans hlt' (he x hx)

theorem find?_none {m : SortedMap α β lt} {k : α} (h : m.find? k = none) :
    ∀ e ∈ m.entries, equivKeys lt e.1 k = false := fun e he => by
  simpa using List.find?_eq_none.mp h e he

/-- `emplace`: a new entry, unless there is an equivalent key. -/
def emplace [StrictWeak lt] (m : SortedMap α β lt) (k : α) (v : β) : SortedMap α β lt :=
  if h : m.find? k = none then
    ⟨insertEntry lt k v m.entries, sorted_insertEntry k v _ m.sorted (find?_none h)⟩
  else m

/-- `operator[]` as the target of an assignment. -/
def set [StrictWeak lt] (m : SortedMap α β lt) (k : α) (v : β) : SortedMap α β lt :=
  if m.find? k = none then m.emplace k v
  else m.mapValues fun k' v' => if equivKeys lt k' k then v else v'

/-- `erase`. -/
def erase (m : SortedMap α β lt) (k : α) : SortedMap α β lt :=
  m.filter fun e => !equivKeys lt e.1 k

/-! ## What the operations do -/

theorem entries_erase (m : SortedMap α β lt) (k : α) :
    (m.erase k).entries = m.entries.filter fun e => !equivKeys lt e.1 k := rfl

theorem find?_some {m : SortedMap α β lt} {k : α} {e : α × β} (h : m.find? k = some e) :
    e ∈ m.entries ∧ equivKeys lt e.1 k = true :=
  ⟨List.mem_of_find?_eq_some h,
    List.find?_some (p := fun e : α × β => equivKeys lt e.1 k) h⟩

/-- Two entries with equivalent keys are the same. -/
theorem eq_of_equiv {m : SortedMap α β lt} {e e' : α × β} (he : e ∈ m.entries)
    (he' : e' ∈ m.entries) (h : equivKeys lt e.1 e'.1 = true) : e = e' := by
  obtain ⟨hlt, hlt'⟩ := equiv_iff.mp h
  refine Classical.byContradiction fun hne => ?_
  obtain ⟨i, hi, rfl⟩ := List.getElem_of_mem he
  obtain ⟨j, hj, rfl⟩ := List.getElem_of_mem he'
  have hsorted := List.pairwise_iff_getElem.mp m.sorted
  rcases Nat.lt_trichotomy i j with hij | rfl | hji
  · rw [hsorted i j hi hj hij] at hlt
    exact absurd hlt.symm Bool.false_ne_true
  · exact hne rfl
  · rw [hsorted j i hj hi hji] at hlt'
    exact absurd hlt'.symm Bool.false_ne_true

/-- Behind all entries an entry is appended. -/
theorem insertEntry_last {k : α} {v : β} : ∀ {l : List (α × β)},
    (∀ e ∈ l, lt e.1 k = true) → insertEntry lt k v l = l ++ [(k, v)]
  | [], _ => rfl
  | e :: l, h => by
    obtain ⟨he, hl⟩ := List.forall_mem_cons.mp h
    rw [insertEntry, if_pos he, insertEntry_last hl, List.cons_append]

variable [StrictWeak lt]

theorem find?_of_mem {m : SortedMap α β lt} {k : α} {e : α × β} (he : e ∈ m.entries)
    (hk : equivKeys lt e.1 k = true) : m.find? k = some e := by
  cases h : m.find? k with
  | none =>
    rw [find?_none h e he] at hk
    exact absurd hk Bool.false_ne_true
  | some e' =>
    obtain ⟨he', hk'⟩ := find?_some h
    rw [equiv_comm] at hk
    rw [eq_of_equiv he' he (equiv_trans hk' hk)]

theorem entries_emplace {m : SortedMap α β lt} {k : α} (h : m.find? k = none) (v : β) :
    (m.emplace k v).entries = insertEntry lt k v m.entries := by
  rw [emplace, dif_pos h]

theorem entries_set_last {m : SortedMap α β lt} {k : α} {v : β}
    (h : ∀ e ∈ m.entries, lt e.1 k = true) : (m.set k v).entries = m.entries ++ [(k, v)] := by
  have hnone : m.find? k = none :=
    List.find?_eq_none.mpr fun e he => by rw [equiv_of_lt (h e he)]; exact Bool.false_ne_true
  rw [set, if_pos hnone, entries_emplace hnone, insertEntry_last h]

/-! ## What a key is mapped to -/

/-- The value of a key. -/
def value? (m : SortedMap α β lt) (k : α) : Option β := (m.find? k).map Prod.snd

omit [StrictWeak lt] in
theorem find?_mapValues (m : SortedMap α β lt) (f : α → β → β) (k : α) :
    (m.mapValues f).find? k = (m.find? k).map fun e => (e.1, f e.1 e.2) := by
  show List.find? _ (List.map _ _) = _
  rw [List.find?_map]
  rfl

theorem find?_emplace {m : SortedMap α β lt} {k : α} (h : m.find? k = none) (v : β) (k' : α) :
    (m.emplace k v).find? k' = if equivKeys lt k k' then some (k, v) else m.find? k' := by
  have hperm := @perm_insertEntry α β lt k v m.entries
  split
  · next heq =>
    refine find?_of_mem ?_ heq
    rw [entries_emplace h]
    exact hperm.mem_iff.mpr List.mem_cons_self
  · next hne =>
    cases hfind : m.find? k' with
    | some e =>
      obtain ⟨he, hk⟩ := find?_some hfind
      refine find?_of_mem ?_ hk
      rw [entries_emplace h]
      exact hperm.mem_iff.mpr (List.mem_cons_of_mem _ he)
    | none =>
      refine List.find?_eq_none.mpr fun e he => ?_
      rw [entries_emplace h] at he
      rcases List.mem_cons.mp (hperm.mem_iff.mp he) with rfl | he
      · exact hne
      · rw [find?_none hfind e he]
        exact Bool.false_ne_true

/-- A key that has been set has its value, the other keys have theirs. -/
theorem value?_set (m : SortedMap α β lt) (k : α) (v : β) (k' : α) :
    (m.set k v).value? k' = if equivKeys lt k k' then some v else m.value? k' := by
  simp only [value?, set]
  split
  · next hnone =>
    rw [find?_emplace hnone]
    split
    · rfl
    · rfl
  · next hsome =>
    rw [find?_mapValues, Option.map_map]
    cases hfind : m.find? k' with
    | none =>
      rw [if_neg]
      · rfl
      · intro heq
        obtain ⟨e, he⟩ := Option.ne_none_iff_exists'.mp hsome
        obtain ⟨hmem, hk⟩ := find?_some he
        rw [find?_of_mem hmem (equiv_trans hk heq)] at hfind
        exact Option.some_ne_none _ hfind
    | some e =>
      have hk : equivKeys lt e.1 k = equivKeys lt k k' := by
        have hek := (find?_some hfind).2
        rw [Bool.eq_iff_iff]
        constructor
        · intro h
          rw [equiv_comm] at h
          exact equiv_trans h hek
        · intro h
          rw [equiv_comm] at h
          exact equiv_trans hek h
      simp only [Option.map_some, Function.comp, hk]
      split
      · rfl
      · rfl

/-- A key that has been erased has no value, the other keys have theirs. -/
theorem value?_erase (m : SortedMap α β lt) (k k' : α) :
    (m.erase k).value? k' = if equivKeys lt k k' then none else m.value? k' := by
  have hmem : ∀ e, e ∈ (m.erase k).entries ↔ e ∈ m.entries ∧ equivKeys lt e.1 k = false := by
    intro e
    rw [entries_erase, List.mem_filter, Bool.not_eq_true']
  simp only [value?]
  cases hfind : (m.erase k).find? k' with
  | some e =>
    obtain ⟨he, hk⟩ := find?_some hfind
    obtain ⟨he, hne⟩ := (hmem e).mp he
    rw [if_neg, find?_of_mem he hk]
    intro heq
    rw [equiv_comm] at heq
    rw [equiv_trans hk heq] at hne
    exact absurd hne.symm Bool.false_ne_true
  | none =>
    split
    · rfl
    · next hne =>
      cases hold : m.find? k' with
      | none => rfl
      | some e =>
        obtain ⟨he, hk⟩ := find?_some hold
        have hke : equivKeys lt e.1 k = false := by
          refine Bool.eq_false_iff.mpr fun h => hne ?_
          rw [equiv_comm] at h
          exact equiv_trans h hk
        have := find?_none hfind e ((hmem e).mpr ⟨he, hke⟩)
        rw [hk] at this
        exact absurd this.symm Bool.false_ne_true

end SortedMap

end Far2l
