/-
Lib.While — a loop that turns as long as a condition holds, and whose turns can fail.

The loop is given a number of turns that it may not exceed. It comes to an end exactly
when every turn that it comes to succeeds, and what every turn keeps holds at the end.
Nothing here is about a particular loop.
-/

namespace Far2l

section

variable {State : Type} (more : State → Bool) (turn : State → Option State)

/-- `while more do turn`, with at most that many turns, less one. -/
def whileLoop : Nat → State → Option State
  | 0, _ => none
  | n + 1, s => if more s then (turn s).bind (whileLoop n) else some s

/-- The states at the head of the loop. -/
inductive Comes (start : State) : State → Prop where
  | start : Comes start start
  | turn {s s' : State} (h : Comes start s) (hmore : more s = true) (hturn : turn s = some s') : Comes start s'

variable {more turn}

/-- The states that come after the first turn. -/
theorem Comes.head {s s' t : State} (hmore : more s = true) (hturn : turn s = some s')
    (h : Comes more turn s' t) : Comes more turn s t := by
  induction h with
  | start => exact .turn .start hmore hturn
  | turn _ hmore hturn ih => exact .turn ih hmore hturn

/-- What the turns keep holds in every state that the loop comes to. -/
theorem Comes.keeps {Inv : State → Prop} {s t : State} (h : Comes more turn s t) (hs : Inv s)
    (hkeep : ∀ s s', Inv s → more s = true → turn s = some s' → Inv s') : Inv t := by
  induction h with
  | start => exact hs
  | turn _ hmore hturn ih => exact hkeep _ _ ih hmore hturn

/-- The loop ends in a state that it comes to, and in which it does not go on. -/
theorem whileLoop_some {n : Nat} {s t : State} (h : whileLoop more turn n s = some t) :
    Comes more turn s t ∧ more t = false := by
  induction n generalizing s with
  | zero => cases h
  | succ n ih =>
    rw [whileLoop] at h
    split at h
    · next hmore =>
      obtain ⟨s', hturn, hrest⟩ := Option.bind_eq_some_iff.mp h
      exact ⟨(ih hrest).1.head hmore hturn, (ih hrest).2⟩
    · next hmore =>
      cases h
      exact ⟨.start, Bool.eq_false_iff.mpr hmore⟩

/-- A turn that fails ends the loop. -/
theorem whileLoop_fails {s t : State} (h : Comes more turn s t) (hmore : more t = true) (hturn : turn t = none) :
    ∀ n, whileLoop more turn n s = none := by
  have hhead : ∀ n, whileLoop more turn n t = none := by
    intro n
    cases n with
    | zero => rfl
    | succ n => rw [whileLoop, if_pos hmore, hturn, Option.bind_none]
  clear hmore hturn
  induction h with
  | start => exact hhead
  | turn _ hmore hturn ih =>
    refine ih fun n => ?_
    cases n with
    | zero => rfl
    | succ n => rw [whileLoop, if_pos hmore, hturn, Option.bind_some, hhead n]

/-- **When no turn fails, the loop comes to its end**: a number gets smaller with every turn. -/
theorem whileLoop_isSome {Inv : State → Prop} {left : State → Nat} {n : Nat} {s : State} (hs : Inv s)
    (hkeep : ∀ s s', Inv s → more s = true → turn s = some s' → Inv s' ∧ left s' < left s) (hleft : left s < n)
    (hturns : ∀ t, Comes more turn s t → more t = true → turn t ≠ none) :
    ∃ t, whileLoop more turn n s = some t := by
  induction n generalizing s with
  | zero => exact absurd hleft (Nat.not_lt_zero _)
  | succ n ih =>
    rw [whileLoop]
    split
    · next hmore =>
      obtain ⟨s', hturn⟩ := Option.ne_none_iff_exists'.mp (hturns s .start hmore)
      obtain ⟨hs', hless⟩ := hkeep s s' hs hmore hturn
      rw [hturn, Option.bind_some]
      exact ih hs' (by omega) fun t ht => hturns t (ht.head hmore hturn)
    · exact ⟨s, rfl⟩

end

end Far2l
