/-
Far2l.TTY.Interacts — requests to a far2l that runs the terminal, and their
replies: `Far2lInteract`, `DispatchFar2lInteract` and `OnFar2lReply` of
`WinPort/src/Backend/TTY/TTYBackend.cpp`.

Steps are the critical sections of the threads; the writer, which holds the lock
of the sent requests while it goes through those it has taken, makes a step for
each of them. There is no exit. An interaction is named by the number of those
made before it, which stands for the pointer to its data.
-/
import Far2l.Utils.StackSerializer
import Far2l.Lib.Reach
import Mathlib.Data.List.Perm.Subperm
import Mathlib.Data.List.Nodup
import Mathlib.Data.List.Range
import Mathlib.Logic.Function.Basic

namespace Far2l.TTY

/-- `Far2lInteractData` -/
structure Far2lInteractData where
  stkSer : StackSerializer := {}
  waited : Bool := false
  /-- `evnt` -/
  signalled : Bool := false

/-- Where the writer is. -/
inductive Writer where
  | outside
  /-- It has taken the queue, and is about to lock the sent interactions. -/
  | swapped (queued : List Nat)
  /-- It is in its loop. -/
  | draining (queued : List Nat)

/-- The interactions the writer has in hand. -/
def Writer.hand : Writer → List Nat
  | .outside => []
  | .swapped queued => queued
  | .draining queued => queued

/-- An interaction that has been sent, with its id. -/
structure Sending where
  interact : Nat
  id : UInt8
  message : StackSerializer

/-- An interaction that has been found under the id of a reply. -/
structure Replied where
  interact : Nat
  id : UInt8
  contents : StackSerializer

/-- The interactions of `TTYBackend`, and what has happened. -/
structure Interacts where
  far2lTty : Bool
  data : Nat → Far2lInteractData := fun _ => {}
  made : Nat := 0
  /-- `_far2l_interacts_queued` -/
  queued : List Nat := []
  writer : Writer := .outside
  /-- `_far2l_interacts_sent` -/
  sent : List (UInt8 × Nat) := []
  idCounter : UInt8 := 0
  /-- what was asked for -/
  requests : Nat → StackSerializer := fun _ => {}
  wire : List Sending := []
  refused : List Nat := []
  replied : List Replied := []
  returned : List (Nat × StackSerializer) := []

namespace Interacts

variable (s : Interacts)

/-! ## The calls -/

/-- `Far2lInteract`, up to where it waits. -/
def far2lInteract (stkSer : StackSerializer) (wait : Bool) : Interacts :=
  if s.far2lTty then
    { s with
      data := Function.update s.data s.made { stkSer := stkSer, waited := wait }
      requests := Function.update s.requests s.made stkSer
      made := s.made + 1
      queued := s.queued ++ [s.made] }
  else s

/-- `_far2l_interacts_sent.find` -/
def find (sent : List (UInt8 × Nat)) (id : UInt8) : Option Nat :=
  (sent.find? fun e => e.1 = id).map Prod.snd

/-- `DispatchFar2lInteract`: the loop that looks for an id. -/
def nextId (sent : List (UInt8 × Nat)) : (fuel : Nat) → (idCounter : UInt8) → Option UInt8
  | 0, _ => none
  | fuel + 1, idCounter =>
      let id := idCounter + 1
      if id ≠ 0 ∧ find sent id = none then some id else nextId sent fuel id

/-- The loop over ids ends after one round, or never. -/
def IDS : Nat := 256

/-- `DispatchFar2lInteract`: too many are sent. -/
def refuse (k : Nat) : Interacts :=
  { s with
    data := Function.update s.data k { s.data k with stkSer := {}, signalled := true }
    refused := s.refused ++ [k]
    writer := .outside }

/-- `DispatchFar2lInteract`: the interaction is sent. -/
def send (k : Nat) (rest : List Nat) (id : UInt8) : Interacts :=
  let message := (s.data k).stkSer.push [id]
  { s with
    data := Function.update s.data k { s.data k with stkSer := message }
    wire := s.wire ++ [⟨k, id, message⟩]
    writer := .draining rest }

/-- `DispatchFar2lInteract`: the interaction is registered under its id, and sent. -/
def sendWaited (k : Nat) (rest : List Nat) (id : UInt8) : Interacts :=
  { s.send k rest id with
    idCounter := id
    sent := if find s.sent id = none then (id, k) :: s.sent else s.sent }

/-- `DispatchFar2lInteract`: one turn of its loop. -/
def dispatchTurn (k : Nat) (rest : List Nat) : Interacts :=
  if (s.data k).waited then
    if s.sent.length ≥ 0xff then s.refuse k
    else
      match nextId s.sent IDS s.idCounter with
      | none => s
      | some id => s.sendWaited k rest id
  else s.send k rest 0

/-- `OnFar2lReply`, for an interaction that is found. -/
def answer (id : UInt8) (k : Nat) (contents : StackSerializer) : Interacts :=
  { s with
    data := Function.update s.data k { s.data k with stkSer := contents, signalled := true }
    sent := s.sent.filter fun e => e.1 ≠ id
    replied := s.replied ++ [⟨k, id, contents⟩] }

/-- `OnFar2lReply` -/
def onFar2lReply (stkSer : StackSerializer) : Interacts :=
  if s.far2lTty then
    match stkSer.popNum 1 with
    | none => s
    | some (id, contents) =>
        match find s.sent (UInt8.ofNat id) with
        | none => s
        | some k => s.answer (UInt8.ofNat id) k contents
  else s

/-! ## Steps -/

/-- The steps of the threads. -/
inductive Op where
  | interact (stkSer : StackSerializer) (wait : Bool)
  /-- The writer takes the queue. -/
  | swap
  /-- The writer locks the sent interactions. -/
  | lock
  /-- The writer makes a turn of its loop, or leaves it. -/
  | turn
  | reply (stkSer : StackSerializer)
  /-- The thread that has made the interaction goes on. -/
  | wake (k : Nat)

/-- The writer holds the lock of the sent interactions. -/
def locked : Bool :=
  match s.writer with
  | .draining _ => true
  | _ => false

/-- A step; a thread that has to wait for a lock stays where it is. -/
def perform : Op → Interacts
  | .interact stkSer wait => s.far2lInteract stkSer wait
  | .swap =>
      match s.writer with
      | .outside => { s with writer := .swapped s.queued, queued := [] }
      | _ => s
  | .lock =>
      match s.writer with
      | .swapped queued => { s with writer := .draining queued }
      | _ => s
  | .turn =>
      match s.writer with
      | .draining [] => { s with writer := .outside }
      | .draining (k :: rest) => s.dispatchTurn k rest
      | _ => s
  | .reply stkSer => if s.locked then s else s.onFar2lReply stkSer
  | .wake k =>
      if s.locked ∨ !(s.data k).signalled ∨ k ∈ s.returned.map Prod.fst then s
      else { s with returned := s.returned ++ [(k, (s.data k).stkSer)] }

/-- **The steps that lose nothing.** Where 255 interactions are outstanding, a waited one is the last
of those that the writer has taken. -/
def Roomy : Op → Prop
  | .turn => ∀ k rest, s.writer = .draining (k :: rest) → (s.data k).waited = true →
      s.sent.length ≥ 0xff → rest = []
  | _ => True

/-! ## What is to hold -/

/-- What a waiting thread is to receive: the contents of the reply to its own id, or nothing when it
was refused. -/
def Receives (k : Nat) (contents : StackSerializer) : Prop :=
  (k ∈ s.refused ∧ contents = {}) ∨ ∃ m ∈ s.wire, m.interact = k ∧ ⟨k, m.id, contents⟩ ∈ s.replied

/-- **Every interaction is accounted for.** Each one is in the queue, in the hand of the writer,
refused or sent, and is so once; what is sent is the request under an id, and who waits has an id
that is registered until its reply. -/
structure Accounted : Prop where
  once : (s.queued ++ s.writer.hand ++ s.refused ++ s.wire.map Sending.interact).Perm
    (List.range s.made)
  pending : ∀ k ∈ s.queued ++ s.writer.hand, (s.data k).stkSer = s.requests k
  request : ∀ m ∈ s.wire, m.message = (s.requests m.interact).push [m.id]
  waited : ∀ m ∈ s.wire, (s.data m.interact).waited = true →
    m.id ≠ 0 ∧ ((m.id, m.interact) ∈ s.sent ∨ ∃ r, ⟨m.interact, m.id, r⟩ ∈ s.replied)
  unwaited : ∀ m ∈ s.wire, (s.data m.interact).waited = false → m.id = 0
  distinct : (s.sent.map Prod.fst).Nodup
  outstanding : ∀ e ∈ s.sent, e.1 ≠ 0 ∧ (s.data e.2).signalled = false
    ∧ ∃ m ∈ s.wire, m.interact = e.2 ∧ m.id = e.1
  refused : ∀ k ∈ s.refused, (s.data k).waited = true ∧ (s.data k).signalled = true
  signalled : ∀ k, (s.data k).signalled = true → s.Receives k (s.data k).stkSer
  returned : ∀ r ∈ s.returned, s.Receives r.1 r.2

end Interacts

end Far2l.TTY
