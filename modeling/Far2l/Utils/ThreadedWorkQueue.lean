/-
Far2l.Utils.ThreadedWorkQueue — the thread pool of
`utils/src/ThreadedWorkQueue.cpp`, as a system whose steps are the critical
sections of its threads.

A section goes from taking the lock to giving it back or waiting. What a thread
waits for is left out: a waiting thread may take the lock again at any time, so
that a run of the model may contain wake-ups the program does not have, and no
run of the program is missed. Sequence numbers do not overflow.
-/
import Far2l.Lib.SortedMap

namespace Far2l.WorkQueue

variable {Item : Type}

/-- The order of sequence numbers. -/
def seqLt (a b : Nat) : Bool := a < b

instance : StrictWeak seqLt where
  irrefl a := decide_eq_false (Nat.lt_irrefl a)
  trans h h' := decide_eq_true (Nat.lt_trans (of_decide_eq_true h) (of_decide_eq_true h'))
  cotrans {a b} h c := by
    have hab : a < b := of_decide_eq_true h
    rcases Nat.lt_or_ge a c with hac | hca
    · exact .inl (decide_eq_true hac)
    · exact .inr (decide_eq_true (Nat.lt_of_le_of_lt hca hab))

/-! ## The queue -/

/-- What a worker thread is doing, with its variables `seq` and `twi`. -/
inductive Worker (Item : Type) where
  /-- It is about to take the lock, and has no item. -/
  | free
  /-- It is in `WorkProc`. -/
  | busy (seq : Nat) (twi : Item)
  /-- `WorkProc` has returned, and it is about to take the lock. -/
  | returned (seq : Nat) (twi : Item)
  /-- It has left its loop. -/
  | stopped

/-- The item a worker has taken, with its number. -/
def Worker.held : Worker Item → Option (Nat × Item)
  | .free => none
  | .busy seq twi => some (seq, twi)
  | .returned seq twi => some (seq, twi)
  | .stopped => none

/-- The members of `ThreadedWorkQueue`. -/
structure ThreadedWorkQueue (Item : Type) where
  backlog : List Item := []
  done : SortedMap Nat Item seqLt := .empty
  workers : List (Worker Item) := []
  threadsCount : Nat
  working : Int := 0
  stopping : Bool := false
  notifyOnDone : Bool := false
  doneCounter : Nat := 0
  finalizedCounter : Nat := 0
  backlogWaits : Nat := 0

namespace ThreadedWorkQueue

/-- How many of the items that are done come next, one after the other. -/
def inSequence (finalizedCounter : Nat) : List (Nat × Item) → Nat
  | [] => 0
  | e :: rest =>
      if e.1 = finalizedCounter + 1 then inSequence (finalizedCounter + 1) rest + 1 else 0

/-- `FetchOrderedDoneItems`: the queue, and what goes to the `OrderedItemsDestroyer`. -/
def fetchOrderedDoneItems (Q : ThreadedWorkQueue Item) : ThreadedWorkQueue Item × List Item :=
  let n := inSequence Q.finalizedCounter Q.done.entries
  ({ Q with
      done := ⟨Q.done.entries.drop n, Q.done.sorted.drop⟩
      finalizedCounter := Q.finalizedCounter + n },
    (Q.done.entries.take n).map Prod.snd)

/-- `WorkerThreadProc`: an item whose `WorkProc` has returned is done. -/
def record (Q : ThreadedWorkQueue Item) (seq : Nat) (twi : Item) : ThreadedWorkQueue Item :=
  { Q with done := Q.done.emplace seq twi, working := Q.working - 1, notifyOnDone := false }

/-- `WorkerThreadProc`: the rest of the section, without an item. -/
def dequeue (Q : ThreadedWorkQueue Item) : ThreadedWorkQueue Item × Worker Item :=
  if Q.stopping then (Q, .stopped)
  else
    match Q.backlog with
    | [] => (Q, .free)
    | twi :: backlog =>
        ({ Q with
            doneCounter := Q.doneCounter + 1, backlog := backlog, working := Q.working + 1 },
          .busy (Q.doneCounter + 1) twi)

/-- `WorkerThreadProc`: the section of a worker. -/
def workerSection (Q : ThreadedWorkQueue Item) : Worker Item → ThreadedWorkQueue Item × Worker Item
  | .returned seq twi => (Q.record seq twi).dequeue
  | _ => Q.dequeue

/-- `Queue`: a worker is added when there is none, or work for it; `started` tells whether its
thread could be started. -/
def addWorker (Q : ThreadedWorkQueue Item) (started : Bool) : ThreadedWorkQueue Item :=
  if Q.workers = [] ∨ (Q.backlog ≠ [] ∧ Q.workers.length < Q.threadsCount) then
    if started then { Q with workers := Q.workers ++ [.free] } else Q
  else Q

end ThreadedWorkQueue

/-! ## The threads -/

/-- What the producer is doing. -/
inductive Producer where
  /-- It is in no call. -/
  | idle
  /-- It waits in `Queue`. -/
  | inQueue (backlogLimit : Nat)
  /-- It waits in `Finalize`. -/
  | inFinalize
  /-- It has destroyed the queue. -/
  | gone

/-- The queue, its producer, and what has happened: `queued` are the items put into the backlog,
`inlined` those the producer has worked on itself, `passed` the arguments of all calls of `Queue`,
`handed` what went to an `OrderedItemsDestroyer`, `worked` the items whose `WorkProc` has returned
in a worker, with their numbers. -/
structure System (Item : Type) where
  queue : ThreadedWorkQueue Item
  producer : Producer := .idle
  passed : List Item := []
  queued : List Item := []
  inlined : List Item := []
  handed : List Item := []
  worked : List (Nat × Item) := []

/-- A step of a thread. -/
inductive Op (Item : Type) where
  /-- A call of `Queue`. -/
  | queue (twi : Item) (backlogLimit : Option Nat) (started : Bool)
  /-- The producer goes on in `Queue`. -/
  | queueWakes
  /-- A call of `Finalize`. -/
  | finalize
  /-- The producer goes on in `Finalize`. -/
  | finalizeWakes
  /-- The destructor. -/
  | destroy
  /-- The next section of a worker. -/
  | worker (i : Nat)
  /-- `WorkProc` returns in a worker. -/
  | workProc (i : Nat)

namespace System

/-- The queue is asked for the items that come next. -/
def fetch (S : System Item) : System Item :=
  let (queue, items) := S.queue.fetchOrderedDoneItems
  { S with queue := queue, handed := S.handed ++ items }

/-- `Queue`: while the backlog is too long the producer waits, then it fetches. -/
def waitBacklog (S : System Item) (backlogLimit : Nat) : System Item :=
  if S.queue.backlog.length > backlogLimit then
    { S with queue := { S.queue with notifyOnDone := true }, producer := .inQueue backlogLimit }
  else { S.fetch with producer := .idle }

/-- `Queue`: the item goes to the backlog. -/
def toBacklog (S : System Item) (twi : Item) : System Item :=
  { S with
    queue := { S.queue with backlog := S.queue.backlog ++ [twi] }
    queued := S.queued ++ [twi] }

/-- `Queue`. Without workers the producer works on the item itself. -/
def callQueue (S : System Item) (twi : Item) (backlogLimit : Option Nat) (started : Bool) :
    System Item :=
  let limit := backlogLimit.getD (2 * S.queue.threadsCount)
  let S := { S with queue := S.queue.addWorker started, passed := S.passed ++ [twi] }
  if S.queue.workers = [] then { S.fetch with inlined := S.inlined ++ [twi] }
  else
    let S := S.toBacklog twi
    let S := if S.queue.backlog.length > limit then
      { S with queue := { S.queue with backlogWaits := S.queue.backlogWaits + 1 } } else S
    S.waitBacklog limit

/-- `Finalize`, from taking the lock. -/
def callFinalize (S : System Item) : System Item :=
  if S.queue.backlog = [] ∧ S.queue.working = 0 then { S.fetch with producer := .idle }
  else { S with queue := { S.queue with notifyOnDone := true }, producer := .inFinalize }

/-- The section of a worker. -/
def callWorker (S : System Item) (i : Nat) : System Item :=
  match S.queue.workers[i]? with
  | none => S
  | some w =>
      let (queue, w) := S.queue.workerSection w
      { S with queue := { queue with workers := queue.workers.set i w } }

/-- `WorkProc` returns. -/
def endWork (S : System Item) (i : Nat) : System Item :=
  match S.queue.workers[i]? with
  | some (.busy seq twi) =>
      { S with
        queue := { S.queue with workers := S.queue.workers.set i (.returned seq twi) }
        worked := S.worked ++ [(seq, twi)] }
  | _ => S

/-- A step is taken. -/
def step (S : System Item) : Op Item → System Item
  | .queue twi backlogLimit started => S.callQueue twi backlogLimit started
  | .queueWakes =>
      match S.producer with
      | .inQueue backlogLimit => S.waitBacklog backlogLimit
      | _ => S
  | .finalize => S.callFinalize
  | .finalizeWakes => S.callFinalize
  | .destroy =>
      { S with
        queue := { S.queue with stopping := S.queue.stopping || S.queue.workers.length ≠ 0 }
        producer := .gone }
  | .worker i => S.callWorker i
  | .workProc i => S.endWork i

/-- Can the step be taken? The producer makes one call after the other; a worker in `WorkProc`
takes no lock, and only one that is there has sections. -/
def enabled (S : System Item) : Op Item → Prop
  | .queue _ _ _ => S.producer = .idle
  | .queueWakes => ∃ backlogLimit, S.producer = .inQueue backlogLimit
  | .finalize => S.producer = .idle
  | .finalizeWakes => S.producer = .inFinalize
  | .destroy => S.producer = .idle
  | .worker i => S.queue.workers[i]? = some .free
      ∨ ∃ seq twi, S.queue.workers[i]? = some (.returned seq twi)
  | .workProc i => ∃ seq twi, S.queue.workers[i]? = some (.busy seq twi)

end System

end Far2l.WorkQueue
