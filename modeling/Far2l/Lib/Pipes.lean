/-
Lib.Pipes — a client and a server that are joined by two streams.

Each process is a program over a state of its own: it sends an item, or it waits
for the next one. The streams are first in, first out, and in which order the two
processes take their steps is left open: a step of one and a step of the other
commute, so where one order comes to an end all of them come to that end.
Nothing here is about a particular program.
-/

namespace Far2l

/-! ## Relations whose steps commute -/

section

variable {State : Type} {R : State → State → Prop}

/-- `n` steps. -/
inductive Steps (R : State → State → Prop) : Nat → State → State → Prop where
  | refl (a : State) : Steps R 0 a a
  | head {n : Nat} {a b c : State} (h : R a b) (t : Steps R n b c) : Steps R (n + 1) a c

/-- Two steps from one state are the same, or each can be made up for after the other. -/
def Diamond (R : State → State → Prop) : Prop :=
  ∀ a b c, R a b → R a c → b = c ∨ ∃ d, R b d ∧ R c d

def Stopped (R : State → State → Prop) (a : State) : Prop := ∀ b, ¬ R a b

/-- **All orders end in `t`**: every run from `a` takes a bounded number of steps, and goes on to `t`,
where no step is left. -/
def Ends (R : State → State → Prop) (a t : State) : Prop :=
  Stopped R t ∧ ∃ n, ∀ m b, Steps R m a b → ∃ k, m + k = n ∧ Steps R k b t

namespace Steps

variable {a b c t : State} {m n : Nat}

theorem trans (h : Steps R m a b) (h' : Steps R n b c) : Steps R (n + m) a c := by
  induction h with
  | refl => exact h'
  | head hab _ ih => exact .head hab (ih h')

/-- Whatever the first step is, one less is left. -/
theorem after_step (hR : Diamond R) (hstop : Stopped R t) (h : Steps R n a t) (hab : R a b) :
    ∃ k, n = k + 1 ∧ Steps R k b t := by
  induction h generalizing b with
  | refl => exact absurd hab (hstop b)
  | @head n a c t hac hct ih =>
    refine ⟨n, rfl, ?_⟩
    rcases hR a b c hab hac with rfl | ⟨d, hbd, hcd⟩
    · exact hct
    · obtain ⟨k, rfl, hdt⟩ := ih hstop hcd
      exact .head hbd hdt

/-- **One order decides for all.** -/
theorem ends (hR : Diamond R) (hstop : Stopped R t) (h : Steps R n a t) : Ends R a t := by
  refine ⟨hstop, n, fun m b hab => ?_⟩
  induction hab generalizing n with
  | refl a => exact ⟨n, Nat.zero_add n, h⟩
  | @head m a c b hac _ ih =>
    obtain ⟨k, rfl, hct⟩ := after_step hR hstop h hac
    obtain ⟨j, rfl, hbt⟩ := ih hct
    exact ⟨j, Nat.add_right_comm m 1 j, hbt⟩

end Steps

/-- There is one end. -/
theorem Ends.unique {a t t' : State} (h : Ends R a t) (h' : Ends R a t') : t = t' := by
  obtain ⟨-, n, hn⟩ := h
  obtain ⟨hstop', n', hn'⟩ := h'
  obtain ⟨k, -, hk⟩ := hn' 0 a (.refl a)
  obtain ⟨j, -, hj⟩ := hn k t' hk
  cases hj with
  | refl => rfl
  | head hb _ => exact absurd hb (hstop' _)

end

/-! ## Programs -/

/-- A program over a state of type `σ` that sends and receives items. -/
inductive Prog (σ Item α : Type) where
  | done (a : α)
  | get (k : σ → Prog σ Item α)
  | set (s : σ) (k : Prog σ Item α)
  | send (i : Item) (k : Prog σ Item α)
  | recv (k : Item → Prog σ Item α)
  /-- It goes no further. -/
  | fail

namespace Prog

variable {σ Item α β : Type}

def bind (f : α → Prog σ Item β) : Prog σ Item α → Prog σ Item β
  | .done a => f a
  | .get k => .get fun s => (k s).bind f
  | .set s k => .set s (k.bind f)
  | .send i k => .send i (k.bind f)
  | .recv k => .recv fun i => (k i).bind f
  | .fail => .fail

instance : Monad (Prog σ Item) where
  pure := .done
  bind p f := p.bind f

/-- The state. -/
def state : Prog σ Item σ := .get .done

def modify (f : σ → σ) : Prog σ Item Unit := .get fun s => .set (f s) (.done ())

def sendItem (i : Item) : Prog σ Item Unit := .send i (.done ())

def recvItem : Prog σ Item Item := .recv .done

/-- One step, with what has come in: what is left of the program, its state, what is left of the
input, and what goes out. -/
def step : Prog σ Item α → σ → List Item → Option (Prog σ Item α × σ × List Item × List Item)
  | .done _, _, _ => none
  | .get k, s, input => some (k s, s, input, [])
  | .set s k, _, input => some (k, s, input, [])
  | .send i k, s, input => some (k, s, input, [i])
  | .recv _, _, [] => none
  | .recv k, s, i :: input => some (k i, s, input, [])
  | .fail, _, _ => none

/-- All steps, on an input that is there from the start: the result, the state, what is left of the
input, and what has gone out. -/
def run : Prog σ Item α → σ → List Item → Option (α × σ × List Item × List Item)
  | .done a, s, input => some (a, s, input, [])
  | .get k, s, input => (k s).run s input
  | .set s k, _, input => k.run s input
  | .send i k, s, input => (k.run s input).map fun r => (r.1, r.2.1, r.2.2.1, i :: r.2.2.2)
  | .recv _, _, [] => none
  | .recv k, s, i :: input => (k i).run s input
  | .fail, _, _ => none

/-- What comes in later does not change a step. -/
theorem step_append {p p' : Prog σ Item α} {s s' : σ} {input rest out : List Item}
    (h : p.step s input = some (p', s', rest, out)) (more : List Item) :
    p.step s (input ++ more) = some (p', s', rest ++ more, out) := by
  cases p with
  | done a => exact nomatch h
  | get k => cases h; rfl
  | set s k => cases h; rfl
  | send i k => cases h; rfl
  | recv k =>
    cases input with
    | nil => exact nomatch h
    | cons i input => cases h; rfl
  | fail => exact nomatch h

/-- What goes out until the program has to wait for more than the input. -/
def sent : Prog σ Item α → σ → List Item → List Item
  | .done _, _, _ => []
  | .get k, s, input => (k s).sent s input
  | .set s k, _, input => k.sent s input
  | .send i k, s, input => i :: k.sent s input
  | .recv _, _, [] => []
  | .recv k, s, i :: input => (k i).sent s input
  | .fail, _, _ => []

/-- A program that has come to its end, and then another one. -/
def andThen (f : α → Prog σ Item β) (r : α × σ × List Item × List Item) :
    Option (β × σ × List Item × List Item) :=
  ((f r.1).run r.2.1 r.2.2.1).map fun r' => (r'.1, r'.2.1, r'.2.2.1, r.2.2.2 ++ r'.2.2.2)

theorem step_bind {p p' : Prog σ Item α} (f : α → Prog σ Item β) {s s' : σ}
    {input rest out : List Item} (h : p.step s input = some (p', s', rest, out)) :
    (p >>= f).step s input = some (p' >>= f, s', rest, out) := by
  cases p with
  | done a => exact nomatch h
  | get k => cases h; rfl
  | set s k => cases h; rfl
  | send i k => cases h; rfl
  | recv k =>
    cases input with
    | nil => exact nomatch h
    | cons i input => cases h; rfl
  | fail => exact nomatch h

/-- **The rule of `>>=`**: one program after the other. -/
theorem run_bind (p : Prog σ Item α) (f : α → Prog σ Item β) (s : σ) (input : List Item) :
    (p >>= f).run s input = (p.run s input).bind (andThen f) := by
  show (p.bind f).run s input = _
  induction p generalizing s input with
  | done a => exact (congrFun Option.map_id _).symm
  | get k ih => exact ih s s input
  | set s' k ih => exact ih s' input
  | send i k ih =>
    show ((k.bind f).run s input).map _ = ((k.run s input).map _).bind _
    rw [ih]
    cases k.run s input with
    | none => rfl
    | some r =>
      show (andThen f r).map _ = _
      rw [andThen, Option.map_map]
      rfl
  | recv k ih =>
    cases input with
    | nil => rfl
    | cons i input => exact ih i s input
  | fail => rfl

/-- What goes out where one program is followed by another one, which it may have to wait before. -/
theorem sent_bind (p : Prog σ Item α) (f : α → Prog σ Item β) (s : σ) (input : List Item) :
    (p >>= f).sent s input = (p.run s input).elim (p.sent s input)
      fun r => r.2.2.2 ++ (f r.1).sent r.2.1 r.2.2.1 := by
  show (p.bind f).sent s input = _
  induction p generalizing s input with
  | done a => rfl
  | get k ih => exact ih s s input
  | set s' k ih => exact ih s' input
  | send i k ih =>
    show i :: (k.bind f).sent s input = ((k.run s input).map _).elim _ _
    rw [ih]
    cases k.run s input with
    | none => rfl
    | some r => rfl
  | recv k ih =>
    cases input with
    | nil => rfl
    | cons i input => exact ih i s input
  | fail => rfl

end Prog

/-! ## The two processes -/

/-- A client and a server, and what is on its way to each of them. -/
structure Joined (σ τ Item α : Type) where
  client : Prog σ Item α
  clientState : σ
  server : Prog τ Item Unit
  serverState : τ
  toServer : List Item
  toClient : List Item

namespace Joined

variable {σ τ Item α β : Type}

/-- One step of one of them. The server does what it does over and over. -/
inductive Step (body : Prog τ Item Unit) : Joined σ τ Item α → Joined σ τ Item α → Prop where
  | client {p p' s s' q t up down down' out}
      (h : Prog.step p s down = some (p', s', down', out)) :
      Step body ⟨p, s, q, t, up, down⟩ ⟨p', s', q, t, up ++ out, down'⟩
  | server {p s q q' t t' up up' down out}
      (h : Prog.step q t up = some (q', t', up', out)) :
      Step body ⟨p, s, q, t, up, down⟩ ⟨p, s, q', t', up', down ++ out⟩
  | again {p s t up down} : Step body ⟨p, s, .done (), t, up, down⟩ ⟨p, s, body, t, up, down⟩

variable {body : Prog τ Item Unit}

/-- **The steps commute.** -/
theorem diamond : Diamond (Step (σ := σ) (α := α) body) := by
  intro a b c hab hac
  cases hab with
  | client h =>
    cases hac with
    | client h' =>
      rw [h] at h'
      cases h'
      exact .inl rfl
    | server h' => exact .inr ⟨_, .server (Prog.step_append h' _), .client (Prog.step_append h _)⟩
    | again => exact .inr ⟨_, .again, .client h⟩
  | server h =>
    cases hac with
    | client h' => exact .inr ⟨_, .client (Prog.step_append h' _), .server (Prog.step_append h _)⟩
    | server h' =>
      rw [h] at h'
      cases h'
      exact .inl rfl
    | again => exact nomatch h
  | again =>
    cases hac with
    | client h' => exact .inr ⟨_, .client h', .again⟩
    | server h' => exact nomatch h'
    | again => exact .inl rfl

/-- The client alone, until it has to wait: what is left of it does the rest of what it does on a
longer input. -/
theorem client_waits (body q : Prog τ Item Unit) (t : τ) (up : List Item) {p : Prog σ Item α}
    {s s' : σ} {a : α} {down more rest out : List Item} (h : p.run s (down ++ more) = some (a, s', rest, out)) :
    ∃ n p' s₁ down' later, Steps (Step body) n ⟨p, s, q, t, up, down⟩
        ⟨p', s₁, q, t, up ++ p.sent s down, down'⟩
      ∧ out = p.sent s down ++ later ∧ p'.run s₁ (down' ++ more) = some (a, s', rest, later) := by
  induction p generalizing s up down out with
  | done b =>
    exact ⟨0, .done b, s, down, out, (List.append_nil up).symm ▸ .refl _, rfl, h⟩
  | get k ih =>
    obtain ⟨n, p', s₁, down', later, hn, hrest⟩ := ih s up h
    exact ⟨n + 1, p', s₁, down', later, .head (.client rfl) ((List.append_nil up).symm ▸ hn), hrest⟩
  | set s k ih =>
    obtain ⟨n, p', s₁, down', later, hn, hrest⟩ := ih up h
    exact ⟨n + 1, p', s₁, down', later, .head (.client rfl) ((List.append_nil up).symm ▸ hn), hrest⟩
  | send i k ih =>
    rw [Prog.run, Option.map_eq_some_iff] at h
    obtain ⟨⟨b, s'', rest', out'⟩, hk, heq⟩ := h
    cases heq
    obtain ⟨n, p', s₁, down', later, hn, rfl, hrest⟩ := ih (up ++ [i]) hk
    rw [List.append_assoc] at hn
    exact ⟨n + 1, p', s₁, down', later, .head (.client rfl) hn, rfl, hrest⟩
  | recv k ih =>
    cases down with
    | nil => exact ⟨0, .recv k, s, [], out, (List.append_nil up).symm ▸ .refl _, rfl, h⟩
    | cons i down =>
      obtain ⟨n, p', s₁, down', later, hn, hrest⟩ := ih i up h
      exact ⟨n + 1, p', s₁, down', later, .head (.client rfl) ((List.append_nil up).symm ▸ hn), hrest⟩
  | fail => exact nomatch h

/-- The client alone, through all it does. -/
theorem client_runs (body q : Prog τ Item Unit) (t : τ) (up : List Item) {p : Prog σ Item α}
    {s s' : σ} {a : α} {down rest out : List Item} (h : p.run s down = some (a, s', rest, out)) :
    ∃ n, Steps (Step body) n ⟨p, s, q, t, up, down⟩ ⟨.done a, s', q, t, up ++ out, rest⟩ := by
  induction p generalizing s up down out with
  | done b =>
    cases h
    exact ⟨0, (List.append_nil up).symm ▸ .refl _⟩
  | get k ih =>
    obtain ⟨n, hn⟩ := ih s up h
    exact ⟨n + 1, .head (.client rfl) ((List.append_nil up).symm ▸ hn)⟩
  | set s k ih =>
    obtain ⟨n, hn⟩ := ih up h
    exact ⟨n + 1, .head (.client rfl) ((List.append_nil up).symm ▸ hn)⟩
  | send i k ih =>
    rw [Prog.run, Option.map_eq_some_iff] at h
    obtain ⟨⟨b', s'', rest', out'⟩, hk, heq⟩ := h
    cases heq
    obtain ⟨n, hn⟩ := ih (up ++ [i]) hk
    rw [List.append_assoc] at hn
    exact ⟨n + 1, .head (.client rfl) hn⟩
  | recv k ih =>
    cases down with
    | nil => exact nomatch h
    | cons i down =>
      obtain ⟨n, hn⟩ := ih i up h
      exact ⟨n + 1, .head (.client rfl) ((List.append_nil up).symm ▸ hn)⟩
  | fail => exact nomatch h

/-- The server alone, through all it does once. -/
theorem server_runs (body : Prog τ Item Unit) (p : Prog σ Item α) (s : σ) (down : List Item)
    {q : Prog τ Item Unit} {t t' : τ} {up rest out : List Item} (h : q.run t up = some ((), t', rest, out)) :
    ∃ n, Steps (Step body) n ⟨p, s, q, t, up, down⟩ ⟨p, s, body, t', rest, down ++ out⟩ := by
  induction q generalizing t up down out with
  | done a =>
    cases h
    exact ⟨1, .head .again ((List.append_nil down).symm ▸ .refl _)⟩
  | get k ih =>
    obtain ⟨n, hn⟩ := ih t down h
    exact ⟨n + 1, .head (.server rfl) ((List.append_nil down).symm ▸ hn)⟩
  | set t k ih =>
    obtain ⟨n, hn⟩ := ih down h
    exact ⟨n + 1, .head (.server rfl) ((List.append_nil down).symm ▸ hn)⟩
  | send i k ih =>
    rw [Prog.run, Option.map_eq_some_iff] at h
    obtain ⟨⟨b', s'', rest', out'⟩, hk, heq⟩ := h
    cases heq
    obtain ⟨n, hn⟩ := ih (down ++ [i]) hk
    rw [List.append_assoc] at hn
    exact ⟨n + 1, .head (.server rfl) hn⟩
  | recv k ih =>
    cases up with
    | nil => exact nomatch h
    | cons i up =>
      obtain ⟨n, hn⟩ := ih i down h
      exact ⟨n + 1, .head (.server rfl) ((List.append_nil down).symm ▸ hn)⟩
  | fail => exact nomatch h

/-- **An exchange**: the client sends a request and waits, the server does once what it does with it,
and the client goes on with the reply. -/
theorem exchange {p : Prog σ Item α} {s s' : σ} {a : α} {t t' : τ}
    {request reply down rest : List Item} (hsent : p.sent s down = request)
    (hserved : body.run t request = some ((), t', [], reply))
    (hdone : p.run s (down ++ reply) = some (a, s', rest, request)) :
    ∃ n, Steps (Step body) n ⟨p, s, body, t, [], down⟩ ⟨.done a, s', body, t', [], rest⟩ := by
  obtain ⟨n₁, p', s₁, down', later, h₁, hout, hrest⟩ :=
    client_waits body body t [] hdone
  rw [hsent, List.nil_append] at h₁
  rw [hsent] at hout
  have hlater : later = [] := List.append_right_eq_self.mp hout.symm
  obtain ⟨n₂, h₂⟩ := server_runs body p' s₁ down' hserved
  rw [hlater] at hrest
  obtain ⟨n₃, h₃⟩ := client_runs body body t' [] hrest
  exact ⟨_, h₁.trans (h₂.trans h₃)⟩

/-- What a program does, it does in front of another one. -/
theorem steps_bind (f : α → Prog σ Item β) {n : Nat} {a b : Joined σ τ Item α}
    (h : Steps (Step body) n a b) :
    Steps (Step body) n
      ⟨a.client >>= f, a.clientState, a.server, a.serverState, a.toServer, a.toClient⟩
      ⟨b.client >>= f, b.clientState, b.server, b.serverState, b.toServer, b.toClient⟩ := by
  induction h with
  | refl => exact .refl _
  | head hab _ ih =>
    refine .head ?_ ih
    cases hab with
    | client h => exact .client (Prog.step_bind f h)
    | server h => exact .server h
    | again => exact .again

end Joined

end Far2l
