/-
Far2l.Lib.Chain — doubly linked chains, apart from any program.

A chain is given by two partial functions, the successor and the predecessor of
an element; `Linked` says that they thread the elements of a list in order. The
two surgeries on a chain, insertion behind an element and removal, are proved
to act on the list as `insertIdx` and `eraseIdx`, from pointwise hypotheses on
the successor and predecessor functions, so that it does not matter how a
program stores them.
-/

namespace Far2l.Chain

variable {P : Type}

/-- `next` and `prev` thread the elements of `ps` in order. -/
structure Linked (next prev : P → Option P) (ps : List P) : Prop where
  nodup : ps.Nodup
  next_eq : ∀ {i : Nat} {p : P}, ps[i]? = some p → next p = ps[i + 1]?
  prev_zero : ∀ {p : P}, ps[0]? = some p → prev p = none
  prev_succ : ∀ {i : Nat} {p : P}, ps[i + 1]? = some p → prev p = ps[i]?

namespace Linked

variable {next prev next' prev' : P → Option P} {ps : List P}

/-- An element stands at one place only. -/
theorem index_inj (h : Linked next prev ps) {i j : Nat} {p : P} (hi : ps[i]? = some p)
    (hj : ps[j]? = some p) : i = j := by
  obtain ⟨hlt, _⟩ := List.getElem?_eq_some_iff.mp hi
  exact (List.getElem?_inj hlt h.nodup).mp (hi.trans hj.symm)

/-- `Linked` only looks at the elements of the list. -/
theorem congr (h : Linked next prev ps) (hn : ∀ p ∈ ps, next' p = next p)
    (hp : ∀ p ∈ ps, prev' p = prev p) : Linked next' prev' ps where
  nodup := h.nodup
  next_eq hi := (hn _ (List.mem_of_getElem? hi)).trans (h.next_eq hi)
  prev_zero hi := (hp _ (List.mem_of_getElem? hi)).trans (h.prev_zero hi)
  prev_succ hi := (hp _ (List.mem_of_getElem? hi)).trans (h.prev_succ hi)

theorem singleton {p : P} (hn : next p = none) (hp : prev p = none) : Linked next prev [p] where
  nodup := by simp
  next_eq := by
    intro i q hq
    cases i with
    | zero => obtain rfl : p = q := by simpa using hq
              simpa using hn
    | succ i => simp at hq
  prev_zero := by
    intro q hq
    obtain rfl : p = q := by simpa using hq
    exact hp
  prev_succ := by
    intro i q hq
    simp at hq

/-- **Insertion behind an element.** The new element takes the successor of `a`, and `a` the new
element; nothing else changes. -/
theorem insert (h : Linked next prev ps) {k : Nat} {a q : P} (ha : ps[k]? = some a)
    (hq : q ∉ ps) (hna : next' a = some q) (hnq : next' q = ps[k + 1]?)
    (hn : ∀ p ∈ ps, p ≠ a → next' p = next p) (hpq : prev' q = some a)
    (hpb : ∀ b, ps[k + 1]? = some b → prev' b = some q)
    (hp : ∀ p ∈ ps, ps[k + 1]? ≠ some p → prev' p = prev p) :
    Linked next' prev' (ps.insertIdx (k + 1) q) := by
  have hk : k < ps.length := (List.getElem?_eq_some_iff.mp ha).1
  have hget : ∀ i, (ps.insertIdx (k + 1) q)[i]?
      = if i < k + 1 then ps[i]? else if i = k + 1 then some q else ps[i - 1]? := by
    intro i
    rw [List.getElem?_insertIdx]
    split
    · rfl
    split
    · rw [if_pos (by omega)]
    · rfl
  refine ⟨?_, ?_, ?_, ?_⟩
  · exact (List.perm_insertIdx q ps (by omega)).symm.nodup (List.nodup_cons.mpr ⟨hq, h.nodup⟩)
  · intro i p hi
    rw [hget] at hi ⊢
    rcases Nat.lt_trichotomy i (k + 1) with hlt | rfl | hgt
    · rw [if_pos hlt] at hi
      by_cases hik : i = k
      · subst hik
        obtain rfl : a = p := Option.some.inj (ha.symm.trans hi)
        rw [if_neg (by omega), if_pos rfl, hna]
      · have hpa : p ≠ a := fun heq => hik (h.index_inj hi (heq ▸ ha))
        rw [if_pos (by omega), hn p (List.mem_of_getElem? hi) hpa, h.next_eq hi]
    · rw [if_neg (by omega), if_pos rfl] at hi
      obtain rfl : q = p := Option.some.inj hi
      rw [if_neg (by omega), if_neg (by omega), hnq, Nat.add_sub_cancel]
    · rw [if_neg (by omega), if_neg (by omega)] at hi
      have hpa : p ≠ a := fun heq => by
        have := h.index_inj hi (heq ▸ ha)
        omega
      rw [if_neg (by omega), if_neg (by omega), hn p (List.mem_of_getElem? hi) hpa,
        h.next_eq hi]
      congr 1
      omega
  · intro p hi
    rw [hget, if_pos (by omega)] at hi
    have hpb' : ps[k + 1]? ≠ some p := fun heq => by
      have := h.index_inj hi heq
      omega
    rw [hp p (List.mem_of_getElem? hi) hpb', h.prev_zero hi]
  · intro i p hi
    rw [hget] at hi ⊢
    rcases Nat.lt_trichotomy (i + 1) (k + 1) with hlt | heq | hgt
    · rw [if_pos hlt] at hi
      have hpb' : ps[k + 1]? ≠ some p := fun heq => by
        have := h.index_inj hi heq
        omega
      rw [if_pos (by omega), hp p (List.mem_of_getElem? hi) hpb', h.prev_succ hi]
    · rw [if_neg (by omega), if_pos heq] at hi
      obtain rfl : q = p := Option.some.inj hi
      obtain rfl : i = k := by omega
      rw [if_pos (by omega), hpq, ha]
    · rw [if_neg (by omega), if_neg (by omega), Nat.add_sub_cancel] at hi
      by_cases hik : i = k + 1
      · subst hik
        rw [if_neg (by omega), if_pos rfl, hpb p hi]
      · have hpb' : ps[k + 1]? ≠ some p := fun heq => hik (h.index_inj hi heq)
        obtain ⟨j, rfl⟩ : ∃ j, i = j + 1 := ⟨i - 1, by omega⟩
        rw [if_neg (by omega), if_neg (by omega), hp p (List.mem_of_getElem? hi) hpb',
          h.prev_succ hi, Nat.add_sub_cancel]

/-- **Removal of an element.** Its neighbours are joined; nothing else changes. -/
theorem erase (h : Linked next prev ps) {k : Nat}
    (hna : ∀ a, 0 < k → ps[k - 1]? = some a → next' a = ps[k + 1]?)
    (hn : ∀ {i p}, ps[i]? = some p → i ≠ k → i + 1 ≠ k → next' p = next p)
    (hpb : ∀ b, ps[k + 1]? = some b → prev' b = if k = 0 then none else ps[k - 1]?)
    (hp : ∀ {i p}, ps[i]? = some p → i ≠ k → i ≠ k + 1 → prev' p = prev p) :
    Linked next' prev' (ps.eraseIdx k) := by
  have hget : ∀ i, (ps.eraseIdx k)[i]? = if i < k then ps[i]? else ps[i + 1]? := by
    intro i
    rw [List.getElem?_eraseIdx]
  refine ⟨h.nodup.eraseIdx k, ?_, ?_, ?_⟩
  · intro i p hi
    rw [hget] at hi ⊢
    rcases Nat.lt_trichotomy (i + 1) k with hlt | heq | hgt
    · rw [if_pos (by omega)] at hi
      rw [if_pos hlt, hn hi (by omega) (by omega), h.next_eq hi]
    · rw [if_pos (by omega)] at hi
      rw [if_neg (by omega), hna p (by omega) (by rw [← heq, Nat.add_sub_cancel]; exact hi), heq]
    · rw [if_neg (by omega)] at hi
      rw [if_neg (by omega), hn hi (by omega) (by omega), h.next_eq hi]
  · intro p hi
    rw [hget] at hi
    by_cases hk : k = 0
    · subst hk
      rw [if_neg (by omega)] at hi
      rw [hpb p hi, if_pos rfl]
    · rw [if_pos (by omega)] at hi
      rw [hp hi (by omega) (by omega), h.prev_zero hi]
  · intro i p hi
    rw [hget] at hi ⊢
    rcases Nat.lt_trichotomy (i + 1) k with hlt | heq | hgt
    · rw [if_pos hlt] at hi
      rw [if_pos (by omega), hp hi (by omega) (by omega), h.prev_succ hi]
    · rw [if_neg (by omega)] at hi
      subst heq
      rw [if_pos (by omega), hpb p hi, if_neg (by omega), Nat.add_sub_cancel]
    · rw [if_neg (by omega)] at hi
      rw [if_neg (by omega), hp hi (by omega) (by omega), h.prev_succ hi]

end Linked

end Far2l.Chain
