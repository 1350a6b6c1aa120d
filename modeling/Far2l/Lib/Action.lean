/-
Lib.Action — programs that call an environment, and the rules of pre- and
postconditions for them.

The environment answers every call with the next of a list of replies, so that
a theorem about all lists is about every behaviour of the environment. A program
returns, throws, or waits for a reply that is not there yet. Nothing here is
about a particular program.
-/

namespace Far2l

/-- How far a program has come with the replies there are. -/
inductive Outcome (σ ρ α : Type) where
  | returned (a : α) (s : σ) (replies : List ρ)
  | threw (s : σ) (replies : List ρ)
  | waits

/-- A program with states `σ` and replies `ρ`. -/
def Action (σ ρ α : Type) : Type := σ → List ρ → Outcome σ ρ α

namespace Action

variable {σ ρ α β : Type}

protected def pure (a : α) : Action σ ρ α := fun s replies => .returned a s replies

/-- One program after the other; what the first one throws ends both. -/
protected def bind (x : Action σ ρ α) (f : α → Action σ ρ β) : Action σ ρ β := fun s replies =>
  match x s replies with
  | .returned a s replies => f a s replies
  | .threw s replies => .threw s replies
  | .waits => .waits

instance : Monad (Action σ ρ) where
  pure := Action.pure
  bind := Action.bind

/-- The state is looked at. -/
def state : Action σ ρ σ := fun s replies => .returned s s replies

/-- The state is changed. -/
def modify (f : σ → σ) : Action σ ρ Unit := fun s replies => .returned () (f s) replies

/-- An exception. -/
def throws : Action σ ρ α := fun s replies => .threw s replies

/-- A program that comes no further. -/
def stuck : Action σ ρ α := fun _ _ => .waits

/-- A call. -/
def call (f : σ → ρ → α × σ) : Action σ ρ α
  | _, [] => .waits
  | s, reply :: replies => .returned (f s reply).1 (f s reply).2 replies

/-- A call that may fail. -/
def tried (f : σ → ρ → Option σ) : Action σ ρ Bool :=
  call fun s reply => match f s reply with
    | some s => (true, s)
    | none => (false, s)

/-- A call whose failure is thrown. -/
def orThrow (f : σ → ρ → Option σ) : Action σ ρ Unit
  | _, [] => .waits
  | s, reply :: replies =>
      match f s reply with
      | some s => .returned () s replies
      | none => .threw s replies

/-- A call that may fail, and has then done what it has done. -/
def partly (f : σ → ρ → Option α × σ) : Action σ ρ α
  | _, [] => .waits
  | s, reply :: replies =>
      match f s reply with
      | (some a, s) => .returned a s replies
      | (none, s) => .threw s replies

/-- What a program throws is caught. -/
def catching (x handler : Action σ ρ α) : Action σ ρ α := fun s replies =>
  match x s replies with
  | .returned a s replies => .returned a s replies
  | .threw s replies => handler s replies
  | .waits => .waits

/-- A call that is repeated until it succeeds: after each failure `again` asks whether to go on. -/
def retrying (f : σ → ρ → Option (α × σ)) (again : σ → ρ → Bool × σ) : Action σ ρ α
  | _, [] => .waits
  | s, reply :: replies =>
      match f s reply with
      | some (a, s) => .returned a s replies
      | none =>
          match replies with
          | [] => .waits
          | answer :: replies =>
              if (again s answer).1 then retrying f again (again s answer).2 replies
              else .threw (again s answer).2 replies

/-- At most so many rounds of a loop. -/
def loopFor (round : Action σ ρ (Option α)) : Nat → Action σ ρ α
  | 0 => stuck
  | fuel + 1 => do
      match ← round with
      | some a => pure a
      | none => loopFor round fuel

/-- A loop, which goes on as long as its rounds return `none`. Where every round uses a reply, no
more rounds than these can end. -/
def loop (round : Action σ ρ (Option α)) : Action σ ρ α := fun s replies =>
  loopFor round (replies.length + 1) s replies

/-! ## Postconditions -/

/-- Whatever the replies are, the program returns with `Q` or throws with `E` from the state `s`, if
it ends. -/
def Ensures (x : Action σ ρ α) (s : σ) (Q : α → σ → Prop) (E : σ → Prop) : Prop :=
  ∀ replies, match x s replies with
    | .returned a s _ => Q a s
    | .threw s _ => E s
    | .waits => True

namespace Ensures

variable {Q Q' : α → σ → Prop} {R : β → σ → Prop} {E E' : σ → Prop} {x : Action σ ρ α}
  {f : α → Action σ ρ β} {s : σ}

theorem pure {a : α} (h : Q a s) : (Pure.pure a : Action σ ρ α).Ensures s Q E := fun _ => h

theorem modify {f : σ → σ} {Q : Unit → σ → Prop} (h : Q () (f s)) :
    (modify f : Action σ ρ Unit).Ensures s Q E := fun _ => h

theorem throws (h : E s) : (throws : Action σ ρ α).Ensures s Q E := fun _ => h

theorem stuck : (stuck : Action σ ρ α).Ensures s Q E := fun _ => trivial

/-- The rule of composition. -/
theorem bind (hx : x.Ensures s Q E) (hf : ∀ a s', Q a s' → (f a).Ensures s' R E) :
    (x >>= f).Ensures s R E := by
  intro replies
  have h := hx replies
  show match Action.bind x f s replies with
    | .returned a s _ => R a s
    | .threw s _ => E s
    | .waits => True
  rw [Action.bind]
  cases hrun : x s replies with
  | returned a s' replies' =>
    rw [hrun] at h
    exact hf a s' h replies'
  | threw s' replies' =>
    rw [hrun] at h
    exact h
  | waits => trivial

/-- The state is looked at, and the program goes on. -/
theorem bind_state {f : σ → Action σ ρ β} (h : (f s).Ensures s R E) :
    (Action.state >>= f).Ensures s R E := h

/-- The state is changed, and the program goes on. -/
theorem bind_modify {g : σ → σ} {f : Unit → Action σ ρ β} (h : (f ()).Ensures (g s) R E) :
    (Action.modify g >>= f).Ensures s R E := h

/-- The rule of consequence. -/
theorem weaken (hx : x.Ensures s Q E) (hQ : ∀ a s', Q a s' → Q' a s') (hE : ∀ s', E s' → E' s') :
    x.Ensures s Q' E' := by
  intro replies
  have h := hx replies
  cases hrun : x s replies with
  | returned a s' replies' =>
    rw [hrun] at h
    exact hQ a s' h
  | threw s' replies' =>
    rw [hrun] at h
    exact hE s' h
  | waits => trivial

theorem call {g : σ → ρ → α × σ} (h : ∀ reply, Q (g s reply).1 (g s reply).2) :
    (call g).Ensures s Q E := by
  intro replies
  cases replies with
  | nil => trivial
  | cons reply replies => exact h reply

theorem tried {g : σ → ρ → Option σ} {Q : Bool → σ → Prop}
    (hok : ∀ reply s', g s reply = some s' → Q true s') (hfail : Q false s) :
    (tried g).Ensures s Q E := by
  refine call fun reply => ?_
  cases hg : g s reply with
  | none => exact hfail
  | some s' => exact hok reply s' hg

theorem orThrow {g : σ → ρ → Option σ} {Q : Unit → σ → Prop}
    (hok : ∀ reply s', g s reply = some s' → Q () s') (hfail : E s) :
    (orThrow g).Ensures s Q E := by
  intro replies
  cases replies with
  | nil => trivial
  | cons reply replies =>
    rw [Action.orThrow]
    cases hg : g s reply with
    | none => exact hfail
    | some s' => exact hok reply s' hg

theorem partly {g : σ → ρ → Option α × σ}
    (h : ∀ reply, match g s reply with
      | (some a, s') => Q a s'
      | (none, s') => E s') : (partly g).Ensures s Q E := by
  intro replies
  cases replies with
  | nil => trivial
  | cons reply replies =>
    have h := h reply
    rw [Action.partly]
    cases hg : g s reply with
    | mk r s' =>
      rw [hg] at h
      cases r with
      | none => exact h
      | some a => exact h

/-- The rule of handlers. -/
theorem catching {handler : Action σ ρ α} (hx : x.Ensures s Q E')
    (hh : ∀ s', E' s' → handler.Ensures s' Q E) : (catching x handler).Ensures s Q E := by
  intro replies
  have h := hx replies
  rw [Action.catching]
  cases hrun : x s replies with
  | returned a s' rest =>
    rw [hrun] at h
    exact h
  | threw s' rest =>
    rw [hrun] at h
    exact hh s' h rest
  | waits => trivial

/-- The rule of retrying: `I` holds before every attempt. -/
theorem retrying {g : σ → ρ → Option (α × σ)} {again : σ → ρ → Bool × σ} {I : σ → Prop}
    (hI : ∀ s, I s → ∀ answer, I (again s answer).2)
    (hok : ∀ s, I s → ∀ reply a s', g s reply = some (a, s') → Q a s')
    (hfail : ∀ s, I s → E s) (hs : I s) : (retrying g again).Ensures s Q E := by
  intro replies
  -- The replies are consumed two at a time, an attempt and an answer.
  induction hn : replies.length using Nat.strongRecOn generalizing replies s with
  | _ n ih =>
    cases replies with
    | nil => trivial
    | cons reply replies =>
      rw [Action.retrying.eq_def]
      dsimp only
      cases hg : g s reply with
      | some r => exact hok s hs reply r.1 r.2 hg
      | none =>
        cases replies with
        | nil => trivial
        | cons answer replies =>
          dsimp only
          by_cases hagain : (again s answer).1 = true
          · rw [if_pos hagain]
            exact ih replies.length (by rw [← hn]; simp only [List.length_cons]; omega)
              (hI s hs answer) replies rfl
          · rw [if_neg hagain]
            exact hfail _ (hI s hs answer)

theorem loopFor {round : Action σ ρ (Option α)} {I : σ → Prop}
    (hround : ∀ s, I s → round.Ensures s (fun r s' => match r with
      | some a => Q a s'
      | none => I s') E) :
    ∀ (fuel : Nat) {s : σ}, I s → (loopFor round fuel).Ensures s Q E
  | 0, _, _ => .stuck
  | fuel + 1, s, hs => by
    refine .bind (hround s hs) fun r s' h => ?_
    cases r with
    | some a => exact .pure h
    | none => exact loopFor hround fuel h

/-- The rule of loops: `I` holds before every round. -/
theorem loop {round : Action σ ρ (Option α)} {I : σ → Prop}
    (hround : ∀ s, I s → round.Ensures s (fun r s' => match r with
      | some a => Q a s'
      | none => I s') E) (hs : I s) : (loop round).Ensures s Q E := by
  intro replies
  exact loopFor hround (replies.length + 1) hs replies

end Ensures

end Action

end Far2l
