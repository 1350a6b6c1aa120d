/-
Lib.NodeList — linked lists whose nodes keep their identity, and iterators on them.

A node is an identity with a value; an iterator is the identity of the node it
stands on, or the end. A node that is taken out of its list leaves its identity
unused, and an iterator that stood on it stands on nothing. Nothing here is about a
particular program.
-/
import Mathlib.Data.List.Nodup

namespace Far2l

/-- A list of nodes. -/
abbrev NodeList (α : Type) : Type := List (Nat × α)

namespace NodeList

variable {α : Type}

/-- The identities of the nodes. -/
def ids (l : NodeList α) : List Nat := l.map Prod.fst

/-- Their values. -/
def values (l : NodeList α) : List α := l.map Prod.snd

/-- An iterator on the first node. -/
def begin_ (l : NodeList α) : Option Nat := l.head?.map Prod.fst

/-- The nodes from one on. -/
def suffix (n : Nat) (l : NodeList α) : NodeList α := l.dropWhile (·.1 ≠ n)

/-- The value of the node that an iterator stands on. -/
def deref (n : Nat) (l : NodeList α) : Option α := (suffix n l).head?.map Prod.snd

/-- The iterator on the next node. -/
def next (n : Nat) (l : NodeList α) : Option Nat := begin_ (suffix n l).tail

/-- The node is taken out. -/
def erase (n : Nat) (l : NodeList α) : NodeList α := l.filter (·.1 ≠ n)

/-- The values that an iterator still has before it. -/
def rest : Option Nat → NodeList α → List α
  | none, _ => []
  | some n, l => values (suffix n l)

variable {l : NodeList α} {n : Nat}

theorem suffix_cons_self (a : α) : suffix n ((n, a) :: l) = (n, a) :: l := by
  refine List.dropWhile_cons_of_neg ?_
  rw [decide_eq_true_eq]
  exact fun h => h rfl

theorem suffix_cons_ne {x : Nat × α} (h : x.1 ≠ n) : suffix n (x :: l) = suffix n l :=
  List.dropWhile_cons_of_pos (decide_eq_true h)

/-- The nodes from a node of the list on begin with it. -/
theorem suffix_eq_cons : ∀ {l : NodeList α}, n ∈ ids l →
    ∃ a tail, suffix n l = (n, a) :: tail ∧ (n, a) ∈ l ∧ ∀ x ∈ tail, x ∈ l
  | [], h => absurd h List.not_mem_nil
  | (m, b) :: l, h => by
    by_cases hm : m = n
    · rw [hm]
      exact ⟨b, l, suffix_cons_self b, List.mem_cons_self, fun x hx => List.mem_cons_of_mem _ hx⟩
    · have hmem : n ∈ ids l := (List.mem_cons.mp h).resolve_left (Ne.symm hm)
      obtain ⟨a, tail, hsuffix, ha, htail⟩ := suffix_eq_cons hmem
      rw [suffix_cons_ne (l := l) (x := (m, b)) hm]
      exact ⟨a, tail, hsuffix, List.mem_cons_of_mem _ ha, fun x hx => List.mem_cons_of_mem _ (htail x hx)⟩

theorem rest_begin (l : NodeList α) : rest l.begin_ l = l.values := by
  cases l with
  | nil => rfl
  | cons x l =>
    show values (suffix x.1 (x :: l)) = _
    rw [suffix_cons_self x.2]

theorem begin_mem {m : Nat} (h : l.begin_ = some m) : m ∈ ids l := by
  cases l with
  | nil => exact nomatch h
  | cons x l => exact Option.some.inj h ▸ List.mem_cons_self

theorem suffix_of_suffix : ∀ {l : NodeList α} {m : Nat} {tail : NodeList α} {a : α}, (ids l).Nodup →
    suffix n l = (n, a) :: tail → m ∈ ids tail → suffix m l = suffix m tail
  | [], _, _, _, _, h, _ => nomatch h
  | (k, b) :: l, m, tail, a, hnodup, h, hm => by
    rw [ids, List.map_cons, List.nodup_cons] at hnodup
    by_cases hk : k = n
    · obtain rfl := hk
      rw [suffix_cons_self] at h
      obtain rfl := (List.cons.inj h).2
      have hne : k ≠ m := fun heq => hnodup.1 (heq ▸ hm)
      exact suffix_cons_ne hne
    · rw [suffix_cons_ne (l := l) (x := (k, b)) hk] at h
      have hmem : m ∈ ids l := by
        obtain ⟨x, hx, rfl⟩ := List.mem_map.mp hm
        have hin : x ∈ suffix n l := h ▸ List.mem_cons_of_mem _ hx
        exact List.mem_map.mpr ⟨x, (List.dropWhile_suffix _).subset hin, rfl⟩
      have hne : k ≠ m := fun heq => hnodup.1 (heq ▸ hmem)
      rw [suffix_cons_ne (l := l) (x := (k, b)) hne]
      exact suffix_of_suffix hnodup.2 h hm

/-- **What an iterator has before it is its node and what the next one has.** -/
theorem rest_next (hnodup : (ids l).Nodup) (h : n ∈ ids l) :
    ∃ a, deref n l = some a ∧ (n, a) ∈ l ∧ rest (some n) l = a :: rest (next n l) l
      ∧ ∀ m, next n l = some m → m ∈ ids l := by
  obtain ⟨a, tail, hsuffix, ha, htail⟩ := suffix_eq_cons h
  have hnext : next n l = begin_ tail := by rw [next, hsuffix, List.tail_cons]
  refine ⟨a, by rw [deref, hsuffix]; rfl, ha, ?_, fun m hm => ?_⟩
  · rw [rest, hsuffix, hnext]
    cases htl : tail with
    | nil => rfl
    | cons x tl =>
      have hx : x.1 ∈ ids tail := htl ▸ List.mem_cons_self
      show a :: values (x :: tl) = a :: values (suffix x.1 l)
      rw [suffix_of_suffix hnodup hsuffix hx, htl, suffix_cons_self x.2]
  · obtain ⟨x, hx, rfl⟩ := List.mem_map.mp (begin_mem (hnext ▸ hm))
    exact List.mem_map.mpr ⟨x, htail x hx, rfl⟩

/-- Taking out other nodes takes them out of what an iterator has before it. -/
theorem suffix_filter {p : Nat × α → Bool} : ∀ {l : NodeList α}, (∀ x ∈ l, x.1 = n → p x = true) →
    suffix n (l.filter p) = (suffix n l).filter p
  | [], _ => rfl
  | x :: l, h => by
    have ih := suffix_filter fun y hy => h y (List.mem_cons_of_mem _ hy)
    by_cases hx : x.1 = n
    · have hp := h x List.mem_cons_self hx
      subst hx
      rw [List.filter_cons_of_pos hp, suffix_cons_self x.2, suffix_cons_self x.2,
        List.filter_cons_of_pos hp]
    · rw [suffix_cons_ne hx, ← ih]
      cases hp : p x with
      | true => rw [List.filter_cons_of_pos hp, suffix_cons_ne hx]
      | false => rw [List.filter_cons_of_neg (by rw [hp]; decide)]

theorem mem_ids_filter {p : Nat × α → Bool} (h : n ∈ ids l) (hp : ∀ x ∈ l, x.1 = n → p x = true) :
    n ∈ ids (l.filter p) := by
  obtain ⟨x, hx, rfl⟩ := List.mem_map.mp h
  exact List.mem_map.mpr ⟨x, List.mem_filter.mpr ⟨hx, hp x hx rfl⟩, rfl⟩

end NodeList

end Far2l
