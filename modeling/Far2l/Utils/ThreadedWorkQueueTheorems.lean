/-
Far2l.Utils.ThreadedWorkQueueTheorems — work items are finalised in the order
they were queued in, each once, after its `WorkProc` has returned.

Every number between the two counters belongs to one item, which is done or with
one worker. So what is done and comes next is the next part of what was queued,
and when no worker has an item nothing is missing.
-/
import Far2l.Utils.ThreadedWorkQueue
import Far2l.Lib.Reach
import Mathlib.Data.List.Basic
import Mathlib.Data.List.Nodup
import Mathlib.Data.List.Perm.Basic
import Mathlib.Data.List.Range

namespace Far2l.WorkQueue

variable {Item : Type}

/-! ## The items that come next -/

namespace ThreadedWorkQueue

/-- The numbers of the items that come next follow the counter. -/
theorem inSequence_keys : ∀ (f : Nat) (entries : List (Nat × Item)),
    (entries.take (inSequence f entries)).map Prod.fst
      = List.range' (f + 1) (inSequence f entries)
  | _, [] => rfl
  | f, e :: rest => by
    rw [inSequence]
    split
    · next h =>
      rw [List.take_succ_cons, List.map_cons, inSequence_keys (f + 1) rest, List.range'_succ, h]
    · rfl

/-- When the numbers follow the counter, all items come next. -/
theorem inSequence_range : ∀ (f n : Nat) (entries : List (Nat × Item)),
    entries.map Prod.fst = List.range' (f + 1) n → inSequence f entries = entries.length
  | _, _, [], _ => rfl
  | f, 0, e :: rest, h => by simp at h
  | f, n + 1, e :: rest, h => by
    rw [List.map_cons, List.range'_succ] at h
    obtain ⟨he, hrest⟩ := List.cons.inj h
    rw [inSequence, if_pos he, inSequence_range (f + 1) n rest hrest, List.length_cons]

end ThreadedWorkQueue

/-! ## The invariant -/

/-- The items of the workers. -/
def heldItems (workers : List (Worker Item)) : List (Nat × Item) := workers.filterMap Worker.held

namespace System

/-- The items that have been taken from the backlog and not been handed out. -/
def pending (S : System Item) : List (Nat × Item) :=
  S.queue.done.entries ++ heldItems S.queue.workers

/-- The invariant of the system. -/
structure Inv (S : System Item) : Prop where
  /-- What has been taken from the backlog has got a number. -/
  backlog : S.queue.doneCounter ≤ S.queued.length
    ∧ S.queue.backlog = S.queued.drop S.queue.doneCounter
  /-- The numbers up to the second counter have been handed out. -/
  handed : S.queue.finalizedCounter ≤ S.queue.doneCounter
    ∧ S.handed = S.queued.take S.queue.finalizedCounter
  /-- Each of the others is pending, once. -/
  numbers : (S.pending.map Prod.fst).Perm
    (List.range' (S.queue.finalizedCounter + 1)
      (S.queue.doneCounter - S.queue.finalizedCounter))
  items : ∀ e ∈ S.pending, S.queued[e.1 - 1]? = some e.2
  working : S.queue.working = (heldItems S.queue.workers).length
  /-- `WorkProc` has returned for what is done or has been handed out. -/
  worked : (∀ k twi, S.handed[k]? = some twi → (k + 1, twi) ∈ S.worked)
    ∧ (∀ e ∈ S.queue.done.entries, e ∈ S.worked)
    ∧ ∀ seq twi, Worker.returned seq twi ∈ S.queue.workers → (seq, twi) ∈ S.worked
  /-- The producer works on an item only before there is a worker. -/
  passed : S.passed = S.inlined ++ S.queued ∧ (S.queued ≠ [] → S.queue.workers ≠ [])

variable {S : System Item}

/-- The system before the first call. -/
def initial (threadsCount : Nat) : System Item := { queue := { threadsCount := threadsCount } }

theorem inv_initial (threadsCount : Nat) : (initial threadsCount : System Item).Inv where
  backlog := ⟨Nat.le_refl _, rfl⟩
  handed := ⟨Nat.le_refl _, rfl⟩
  numbers := .refl _
  items := fun _ he => absurd he List.not_mem_nil
  working := rfl
  worked := ⟨fun _ _ hk => absurd hk (Option.some_ne_none _).symm,
    fun _ he => absurd he List.not_mem_nil, fun _ _ h => absurd h List.not_mem_nil⟩
  passed := ⟨rfl, fun h => absurd rfl h⟩

/-! ## Fetching -/

/-- The numbers that come next are those behind the counter. -/
theorem Inv.inSequence_le (h : S.Inv) :
    S.queue.finalizedCounter
        + ThreadedWorkQueue.inSequence S.queue.finalizedCounter S.queue.done.entries
      ≤ S.queue.doneCounter := by
  have hkeys := ThreadedWorkQueue.inSequence_keys S.queue.finalizedCounter S.queue.done.entries
  generalize ThreadedWorkQueue.inSequence S.queue.finalizedCounter S.queue.done.entries = n at hkeys
  have hle := h.handed.1
  by_cases hn : n = 0
  · omega
  · have hlast : S.queue.finalizedCounter + n ∈ S.pending.map Prod.fst := by
      have hmem : S.queue.finalizedCounter + n ∈ (S.queue.done.entries.take n).map Prod.fst := by
        rw [hkeys, List.mem_range'_1]
        omega
      obtain ⟨e, he, hek⟩ := List.mem_map.mp hmem
      exact List.mem_map.mpr ⟨e, List.mem_append_left _ (List.mem_of_mem_take he), hek⟩
    have hrange := h.numbers.mem_iff.mp hlast
    rw [List.mem_range'_1] at hrange
    omega

/-- The items that come next are the next ones of what was queued. -/
theorem Inv.fetched (h : S.Inv) :
    S.handed ++ (S.queue.fetchOrderedDoneItems).2
      = S.queued.take (S.queue.fetchOrderedDoneItems).1.finalizedCounter := by
  have hle := h.inSequence_le
  have hkeys := ThreadedWorkQueue.inSequence_keys S.queue.finalizedCounter S.queue.done.entries
  have hcounter : (S.queue.fetchOrderedDoneItems).1.finalizedCounter = S.queue.finalizedCounter
      + ThreadedWorkQueue.inSequence S.queue.finalizedCounter S.queue.done.entries := rfl
  have hitems : (S.queue.fetchOrderedDoneItems).2 = (S.queue.done.entries.take
      (ThreadedWorkQueue.inSequence S.queue.finalizedCounter S.queue.done.entries)).map Prod.snd :=
    rfl
  rw [hcounter, hitems, List.take_add, h.handed.2]
  refine congrArg _ ?_
  generalize ThreadedWorkQueue.inSequence S.queue.finalizedCounter S.queue.done.entries = n at hle hkeys
  have hlen : (S.queue.done.entries.take n).length = n := by
    rw [← List.length_map (f := Prod.fst), hkeys, List.length_range']
  refine List.ext_getElem? fun i => ?_
  by_cases hi : i < n
  · rw [List.getElem?_take_of_lt hi, List.getElem?_drop, List.getElem?_map]
    have hget : i < (S.queue.done.entries.take n).length := by rw [hlen]; exact hi
    rw [List.getElem?_eq_getElem hget, Option.map_some]
    have hmem : (S.queue.done.entries.take n)[i] ∈ S.pending :=
      List.mem_append_left _ (List.mem_of_mem_take (List.getElem_mem hget))
    have hkey : ((S.queue.done.entries.take n)[i]).1 = S.queue.finalizedCounter + 1 + i := by
      have hk := congrArg (fun l : List Nat => l[i]?) hkeys
      simp only [List.getElem?_map, List.getElem?_eq_getElem hget, Option.map_some] at hk
      rw [List.getElem?_range' hi] at hk
      simpa using hk
    have hitem := h.items _ hmem
    rw [hkey] at hitem
    rw [← hitem]
    congr 1
    omega
  · rw [List.getElem?_eq_none (by rw [List.length_map, hlen]; omega),
      List.getElem?_eq_none (by rw [List.length_take]; omega)]

theorem Inv.fetch (h : S.Inv) : S.fetch.Inv := by
  have hle := h.inSequence_le
  have hkeys := ThreadedWorkQueue.inSequence_keys S.queue.finalizedCounter S.queue.done.entries
  have hnumbers := h.numbers
  obtain ⟨n, hn⟩ : ∃ n, ThreadedWorkQueue.inSequence S.queue.finalizedCounter
    S.queue.done.entries = n := ⟨_, rfl⟩
  have hdone : S.fetch.queue.done.entries = S.queue.done.entries.drop n := by rw [← hn]; rfl
  have hcounter : S.fetch.queue.finalizedCounter = S.queue.finalizedCounter + n := by
    rw [← hn]
    rfl
  rw [hn] at hle hkeys
  have hpending : S.fetch.pending
      = S.queue.done.entries.drop n ++ heldItems S.queue.workers := by
    rw [pending, hdone]
    rfl
  have hsplit : S.pending = S.queue.done.entries.take n ++ S.fetch.pending := by
    rw [hpending, ← List.append_assoc, List.take_append_drop]
    rfl
  refine ⟨h.backlog, ⟨by rw [hcounter]; exact hle, h.fetched⟩, ?_, fun e he => ?_, h.working,
    ⟨fun k twi hk => ?_, fun e he => ?_, h.worked.2.2⟩, h.passed⟩
  · have hrange : List.range' (S.queue.finalizedCounter + 1)
        (S.queue.doneCounter - S.queue.finalizedCounter)
        = List.range' (S.queue.finalizedCounter + 1) n
          ++ List.range' (S.queue.finalizedCounter + n + 1)
            (S.queue.doneCounter - (S.queue.finalizedCounter + n)) := by
      rw [show S.queue.doneCounter - S.queue.finalizedCounter
        = n + (S.queue.doneCounter - (S.queue.finalizedCounter + n)) by omega, ← List.range'_append_1]
      congr 2
      omega
    rw [hsplit, List.map_append, hkeys, hrange] at hnumbers
    rw [hcounter]
    exact (List.perm_append_left_iff _).mp hnumbers
  · refine h.items e ?_
    rw [hsplit]
    exact List.mem_append_right _ he
  · have hq : k < S.queue.finalizedCounter + n ∧ S.queued[k]? = some twi := by
      have hall : S.fetch.handed = S.queued.take (S.queue.finalizedCounter + n) := by
        rw [← hcounter]
        exact h.fetched
      rw [hall, List.getElem?_take] at hk
      split at hk
      · next hlt => exact ⟨hlt, hk⟩
      · cases hk
    by_cases hold : k < S.queue.finalizedCounter
    · refine h.worked.1 k twi ?_
      rw [h.handed.2, List.getElem?_take_of_lt hold, hq.2]
    · have hmem : k + 1 ∈ (S.queue.done.entries.take n).map Prod.fst := by
        rw [hkeys, List.mem_range'_1]
        omega
      obtain ⟨⟨seq, twi'⟩, he, hseq⟩ := List.mem_map.mp hmem
      have hseq : seq = k + 1 := hseq
      subst hseq
      have he := List.mem_of_mem_take he
      have hitem : S.queued[k]? = some twi' := h.items _ (List.mem_append_left _ he)
      rw [hq.2] at hitem
      obtain rfl := Option.some.inj hitem
      exact h.worked.2.1 _ he
  · rw [hdone] at he
    exact h.worked.2.1 e (List.mem_of_mem_drop he)

/-! ## Workers -/

theorem heldItems_cons (w : Worker Item) (workers : List (Worker Item)) :
    heldItems (w :: workers) = w.held.toList ++ heldItems workers := by
  rw [heldItems, List.filterMap_cons]
  cases w.held <;> rfl

/-- What the workers have when one of them is another one. -/
theorem heldItems_set {workers : List (Worker Item)} {i : Nat} {w : Worker Item}
    (hi : workers[i]? = some w) : ∃ rest, (heldItems workers).Perm (w.held.toList ++ rest)
      ∧ ∀ w', (heldItems (workers.set i w')).Perm (w'.held.toList ++ rest) := by
  obtain ⟨hlt, hget⟩ := List.getElem?_eq_some_iff.mp hi
  refine ⟨heldItems (workers.eraseIdx i), ?_, fun w' => ?_⟩
  · rw [← heldItems_cons, ← hget]
    exact (List.getElem_cons_eraseIdx_perm hlt).symm.filterMap _
  · rw [← heldItems_cons]
    exact (List.set_perm_cons_eraseIdx hlt w').filterMap _

/-- A worker among the others after one of them has become `w'`. -/
theorem mem_set_worker {workers : List (Worker Item)} {i : Nat} {w w' : Worker Item}
    (h : w ∈ workers.set i w') : w ∈ workers ∨ w = w' := List.mem_or_eq_of_mem_set h

/-- The same items are pending. -/
theorem Inv.numbers_of_perm {S' : System Item} (h : S.Inv) (hperm : S'.pending.Perm S.pending)
    (hfinalized : S'.queue.finalizedCounter = S.queue.finalizedCounter)
    (hdone : S'.queue.doneCounter = S.queue.doneCounter) :
    (S'.pending.map Prod.fst).Perm (List.range' (S'.queue.finalizedCounter + 1)
      (S'.queue.doneCounter - S'.queue.finalizedCounter)) := by
  rw [hfinalized, hdone]
  exact (hperm.map Prod.fst).trans h.numbers

/-- `WorkProc` returns. -/
theorem Inv.endWork (h : S.Inv) (i : Nat) : (S.endWork i).Inv := by
  rw [System.endWork]
  cases hi : S.queue.workers[i]? with
  | none => exact h
  | some w =>
    cases w with
    | free => exact h
    | returned seq twi => exact h
    | stopped => exact h
    | busy seq twi =>
      obtain ⟨rest, hperm, hset⟩ := heldItems_set hi
      have hheld : (heldItems (S.queue.workers.set i (.returned seq twi))).Perm
          (heldItems S.queue.workers) := (hset _).trans hperm.symm
      have hpending : ((S.queue.done.entries
          ++ heldItems (S.queue.workers.set i (.returned seq twi)))).Perm S.pending :=
        hheld.append_left _
      refine ⟨h.backlog, h.handed, h.numbers_of_perm hpending rfl rfl,
        fun e he => h.items e (hpending.mem_iff.mp he), ?_, ⟨fun k twi' hk => ?_, fun e he => ?_,
          fun seq' twi' hw => ?_⟩, h.passed.1, fun hq hnil => h.passed.2 hq ?_⟩
      · rw [h.working, hheld.length_eq]
      · exact List.mem_append_left _ (h.worked.1 k twi' hk)
      · exact List.mem_append_left _ (h.worked.2.1 e he)
      · rcases mem_set_worker hw with hw | hw
        · exact List.mem_append_left _ (h.worked.2.2 seq' twi' hw)
        · obtain ⟨rfl, rfl⟩ := Worker.returned.inj hw
          exact List.mem_append_right _ List.mem_cons_self
      · exact (List.set_eq_nil_iff _ _).mp hnil

/-- The first part of a worker's section: what it has worked on is done. -/
def unload (S : System Item) (i seq : Nat) (twi : Item) : System Item :=
  { S with queue := { S.queue.record seq twi with workers := S.queue.workers.set i .free } }

theorem Inv.unload (h : S.Inv) {i seq : Nat} {twi : Item}
    (hi : S.queue.workers[i]? = some (.returned seq twi)) : (S.unload i seq twi).Inv := by
  obtain ⟨rest, hperm, hset⟩ := heldItems_set hi
  have hfree : (heldItems (S.queue.workers.set i .free)).Perm rest := hset .free
  have hpend : S.pending.Perm ((seq, twi) :: (S.queue.done.entries ++ rest)) :=
    (hperm.append_left _).trans List.perm_middle
  have hnodup : (S.pending.map Prod.fst).Nodup := h.numbers.nodup_iff.mpr List.nodup_range'
  have hnew : S.queue.done.find? seq = none := by
    refine List.find?_eq_none.mpr fun e he hequiv => ?_
    have hseq : e.1 = seq := by
      have hiff := SortedMap.equiv_iff.mp hequiv
      have h1 : ¬e.1 < seq := of_decide_eq_false hiff.1
      have h2 : ¬seq < e.1 := of_decide_eq_false hiff.2
      omega
    rw [(hpend.map Prod.fst).nodup_iff, List.map_cons, List.nodup_cons] at hnodup
    have hmem : e.1 ∈ (S.queue.done.entries ++ rest).map Prod.fst :=
      List.mem_map_of_mem (List.mem_append_left _ he)
    rw [hseq] at hmem
    exact hnodup.1 hmem
  have hentries : (S.queue.done.emplace seq twi).entries.Perm
      ((seq, twi) :: S.queue.done.entries) := by
    rw [SortedMap.entries_emplace hnew]
    exact SortedMap.perm_insertEntry _ _ _
  have hpending : (S.unload i seq twi).pending.Perm S.pending :=
    (hentries.append hfree).trans hpend.symm
  refine ⟨h.backlog, h.handed, h.numbers_of_perm hpending rfl rfl,
    fun e he => h.items e (hpending.mem_iff.mp he), ?_, ⟨h.worked.1, fun e he => ?_,
      fun seq' twi' hw => ?_⟩, h.passed.1, fun hq hnil => h.passed.2 hq ((List.set_eq_nil_iff _ _).mp hnil)⟩
  · have hlen := hperm.length_eq
    have hlen' := hfree.length_eq
    have hworking := h.working
    simp only [Worker.held, Option.toList_some, List.length_append, List.length_singleton] at hlen
    show S.queue.working - 1 = ((heldItems (S.queue.workers.set i .free)).length : Int)
    omega
  · rcases List.mem_cons.mp (hentries.mem_iff.mp he) with rfl | he
    · exact h.worked.2.2 seq twi (List.mem_of_getElem? hi)
    · exact h.worked.2.1 e he
  · rcases mem_set_worker hw with hw | hw
    · exact h.worked.2.2 seq' twi' hw
    · cases hw

/-- The rest of the section, with a worker that has no item. -/
def load (S : System Item) (i : Nat) : System Item :=
  { S with queue := { S.queue.dequeue.1 with
      workers := S.queue.workers.set i S.queue.dequeue.2 } }

theorem Inv.load (h : S.Inv) {i : Nat} {w : Worker Item} (hi : S.queue.workers[i]? = some w)
    (hw : w.held = none) : (S.load i).Inv := by
  obtain ⟨rest, hperm, hset⟩ := heldItems_set hi
  rw [hw] at hperm
  have hperm : (heldItems S.queue.workers).Perm rest := hperm
  have hnil : ∀ w', S.queued ≠ [] → S.queue.workers.set i w' ≠ [] := fun w' hq hnil =>
    h.passed.2 hq ((List.set_eq_nil_iff _ _).mp hnil)
  -- A worker without an item again.
  have hidle : ∀ w' : Worker Item, w'.held = none → (∀ seq twi, w' ≠ .returned seq twi) →
      Inv { S with queue := { S.queue with workers := S.queue.workers.set i w' } } := by
    intro w' hw' hret
    have hset' := hset w'
    rw [hw'] at hset'
    have hheld : (heldItems (S.queue.workers.set i w')).Perm (heldItems S.queue.workers) :=
      List.Perm.trans hset' hperm.symm
    have hpending : (S.queue.done.entries ++ heldItems (S.queue.workers.set i w')).Perm S.pending :=
      hheld.append_left _
    refine ⟨h.backlog, h.handed, h.numbers_of_perm hpending rfl rfl,
      fun e he => h.items e (hpending.mem_iff.mp he), ?_, ⟨h.worked.1, h.worked.2.1,
        fun seq twi hmem => ?_⟩, h.passed.1, hnil w'⟩
    · rw [h.working, hheld.length_eq]
    · rcases mem_set_worker hmem with hmem | hmem
      · exact h.worked.2.2 seq twi hmem
      · exact absurd hmem.symm (hret seq twi)
  by_cases hstop : S.queue.stopping = true
  · have hdeq : S.queue.dequeue = (S.queue, .stopped) := by
      rw [ThreadedWorkQueue.dequeue, if_pos hstop]
    rw [System.load, hdeq]
    exact hidle .stopped rfl fun _ _ => by simp
  cases hback : S.queue.backlog with
  | nil =>
    have hdeq : S.queue.dequeue = (S.queue, .free) := by
      rw [ThreadedWorkQueue.dequeue, if_neg hstop, hback]
    rw [System.load, hdeq]
    exact hidle .free rfl fun _ _ => by simp
  | cons twi backlog =>
    have hdeq : S.queue.dequeue = ({ S.queue with
        doneCounter := S.queue.doneCounter + 1, backlog := backlog
        working := S.queue.working + 1 }, .busy (S.queue.doneCounter + 1) twi) := by
      rw [ThreadedWorkQueue.dequeue, if_neg hstop, hback]
    rw [System.load, hdeq]
    obtain ⟨hle, hdrop⟩ := h.backlog
    rw [hback] at hdrop
    have hlt : S.queue.doneCounter < S.queued.length := by
      refine Nat.lt_of_not_le fun hge => ?_
      rw [List.drop_of_length_le hge] at hdrop
      cases hdrop
    have hcons := List.drop_eq_getElem_cons hlt
    rw [← hdrop] at hcons
    obtain ⟨htwi, hrest⟩ := List.cons.inj hcons
    -- The new number is the one behind the others.
    have hheld := hset (.busy (S.queue.doneCounter + 1) twi)
    have hpending : (S.queue.done.entries ++ heldItems (S.queue.workers.set i
        (.busy (S.queue.doneCounter + 1) twi))).Perm
        ((S.queue.doneCounter + 1, twi) :: S.pending) :=
      ((hheld.append_left _).trans List.perm_middle).trans
        ((hperm.symm.append_left S.queue.done.entries).cons _)
    refine ⟨⟨hlt, hrest⟩, ⟨Nat.le_succ_of_le h.handed.1, h.handed.2⟩, ?_, fun e he => ?_, ?_,
      ⟨h.worked.1, h.worked.2.1, fun seq twi' hmem => ?_⟩, h.passed.1, hnil _⟩
    · have hfinalized := h.handed.1
      refine (hpending.map Prod.fst).trans ?_
      rw [List.map_cons]
      refine (h.numbers.cons _).trans ((List.perm_append_singleton _ _).symm.trans ?_)
      have hrange : List.range' (S.queue.finalizedCounter + 1)
          (S.queue.doneCounter - S.queue.finalizedCounter) ++ [S.queue.doneCounter + 1]
          = List.range' (S.queue.finalizedCounter + 1)
            (S.queue.doneCounter + 1 - S.queue.finalizedCounter) := by
        rw [show S.queue.doneCounter + 1 - S.queue.finalizedCounter
          = (S.queue.doneCounter - S.queue.finalizedCounter) + 1 by omega, List.range'_1_concat]
        congr 2
        omega
      rw [hrange]
    · rcases List.mem_cons.mp (hpending.mem_iff.mp he) with rfl | he
      · show S.queued[S.queue.doneCounter]? = some twi
        rw [List.getElem?_eq_getElem hlt, htwi]
      · exact h.items e he
    · have hworking := h.working
      have hlen := hheld.length_eq
      have hlen' := hperm.length_eq
      simp only [Worker.held, Option.toList_some, List.length_append, List.length_singleton] at hlen
      show S.queue.working + 1 = ((heldItems (S.queue.workers.set i
        (.busy (S.queue.doneCounter + 1) twi))).length : Int)
      omega
    · rcases mem_set_worker hmem with hmem | hmem
      · exact h.worked.2.2 seq twi' hmem
      · cases hmem

theorem dequeue_workers (Q : ThreadedWorkQueue Item) (workers : List (Worker Item)) :
    ({ Q with workers := workers } : ThreadedWorkQueue Item).dequeue
      = ({ Q.dequeue.1 with workers := workers }, Q.dequeue.2) ∧ Q.dequeue.1.workers = Q.workers := by
  obtain ⟨backlog, done, old, threadsCount, working, stopping, notify, counter, final, waits⟩ := Q
  cases stopping with
  | true => exact ⟨rfl, rfl⟩
  | false => cases backlog <;> exact ⟨rfl, rfl⟩

/-- The section of a worker. -/
theorem Inv.callWorker (h : S.Inv) {i : Nat}
    (hen : S.queue.workers[i]? = some .free
      ∨ ∃ seq twi, S.queue.workers[i]? = some (.returned seq twi)) : (S.callWorker i).Inv := by
  rcases hen with hi | ⟨seq, twi, hi⟩
  · have hcall : S.callWorker i = S.load i := by
      rw [System.callWorker, hi]
      show ({ S with queue := { S.queue.dequeue.1 with
        workers := S.queue.dequeue.1.workers.set i S.queue.dequeue.2 } } : System Item) = _
      rw [(dequeue_workers S.queue S.queue.workers).2]
      rfl
    rw [hcall]
    exact h.load hi rfl
  · have hlt := (List.getElem?_eq_some_iff.mp hi).1
    have hcall : S.callWorker i = (S.unload i seq twi).load i := by
      rw [System.callWorker, hi, System.load, System.unload]
      obtain ⟨hdeq, hworkers⟩ := dequeue_workers (S.queue.record seq twi)
        (S.queue.workers.set i .free)
      rw [hdeq]
      show ({ S with queue := { (S.queue.record seq twi).dequeue.1 with
        workers := (S.queue.record seq twi).dequeue.1.workers.set i
          (S.queue.record seq twi).dequeue.2 } } : System Item) = _
      rw [hworkers]
      dsimp only
      rw [List.set_set]
      rfl
    rw [hcall]
    exact (h.unload hi).load (List.getElem?_set_self hlt) rfl

/-! ## The producer -/

theorem Inv.waitBacklog (h : S.Inv) (limit : Nat) : (S.waitBacklog limit).Inv := by
  rw [System.waitBacklog]
  split
  · exact ⟨h.backlog, h.handed, h.numbers, h.items, h.working, h.worked, h.passed⟩
  · have hf := h.fetch
    exact ⟨hf.backlog, hf.handed, hf.numbers, hf.items, hf.working, hf.worked, hf.passed⟩

theorem Inv.callFinalize (h : S.Inv) : S.callFinalize.Inv := by
  rw [System.callFinalize]
  split
  · have hf := h.fetch
    exact ⟨hf.backlog, hf.handed, hf.numbers, hf.items, hf.working, hf.worked, hf.passed⟩
  · exact ⟨h.backlog, h.handed, h.numbers, h.items, h.working, h.worked, h.passed⟩

/-- A worker that has been added has no item. -/
theorem Inv.addWorker (h : S.Inv) (started : Bool) :
    Inv { S with queue := S.queue.addWorker started } := by
  rw [ThreadedWorkQueue.addWorker]
  split
  · split
    · have hheld : heldItems (S.queue.workers ++ [.free]) = heldItems S.queue.workers := by
        rw [heldItems, List.filterMap_append]
        exact List.append_nil _
      have hpending : System.pending
          { S with queue := { S.queue with workers := S.queue.workers ++ [.free] } } = S.pending :=
        congrArg (S.queue.done.entries ++ ·) hheld
      refine ⟨h.backlog, h.handed, h.numbers_of_perm (.of_eq hpending) rfl rfl,
        fun e he => h.items e (hpending ▸ he), ?_, ⟨h.worked.1, h.worked.2.1, fun seq twi hw => ?_⟩,
        h.passed.1, fun _ hnil => by simp at hnil⟩
      · rw [h.working, hheld]
      · rcases List.mem_append.mp hw with hw | hw
        · exact h.worked.2.2 seq twi hw
        · cases List.mem_singleton.mp hw
    · exact h
  · exact h

/-- The item goes to the backlog. -/
theorem Inv.toBacklog (h : S.Inv) (hworkers : S.queue.workers ≠ []) (twi : Item) :
    Inv { S.toBacklog twi with passed := S.passed ++ [twi] } := by
  obtain ⟨hle, hdrop⟩ := h.backlog
  have hfinalized := h.handed.1
  refine ⟨⟨?_, ?_⟩, ⟨hfinalized, ?_⟩, h.numbers, fun e he => ?_, h.working, h.worked, ?_,
    fun _ => hworkers⟩
  · show S.queue.doneCounter ≤ (S.queued ++ [twi]).length
    rw [List.length_append]
    omega
  · show S.queue.backlog ++ [twi] = (S.queued ++ [twi]).drop S.queue.doneCounter
    rw [List.drop_append_of_le_length hle, hdrop]
  · show S.handed = (S.queued ++ [twi]).take S.queue.finalizedCounter
    rw [List.take_append_of_le_length (Nat.le_trans hfinalized hle), h.handed.2]
  · have hitem := h.items e he
    show (S.queued ++ [twi])[e.1 - 1]? = some e.2
    rw [List.getElem?_append_left (List.getElem?_eq_some_iff.mp hitem).1, hitem]
  · show S.passed ++ [twi] = S.inlined ++ (S.queued ++ [twi])
    rw [h.passed.1, List.append_assoc]

/-- Without workers the producer works on the item itself. -/
theorem Inv.inline (h : S.Inv) (hworkers : S.queue.workers = []) (twi : Item) :
    Inv { S with passed := S.passed ++ [twi], inlined := S.inlined ++ [twi] } := by
  have hqueued : S.queued = [] := Classical.byContradiction fun hq => h.passed.2 hq hworkers
  refine ⟨h.backlog, h.handed, h.numbers, h.items, h.working, h.worked, ?_, h.passed.2⟩
  show S.passed ++ [twi] = S.inlined ++ [twi] ++ S.queued
  rw [h.passed.1, hqueued, List.append_nil, List.append_nil]

theorem Inv.callQueue (h : S.Inv) (twi : Item) (backlogLimit : Option Nat) (started : Bool) :
    (S.callQueue twi backlogLimit started).Inv := by
  have hadd := h.addWorker started
  rw [System.callQueue]
  dsimp only
  split
  · next hnil =>
    exact hadd.fetch.inline hnil twi
  · next hne =>
    have hback := hadd.toBacklog hne twi
    refine Inv.waitBacklog ?_ _
    split
    · exact ⟨hback.backlog, hback.handed, hback.numbers, hback.items, hback.working, hback.worked,
        hback.passed⟩
    · exact hback

theorem Inv.step (h : S.Inv) (op : Op Item) (hen : S.enabled op) : (S.step op).Inv := by
  cases op with
  | queue twi backlogLimit started => exact h.callQueue twi backlogLimit started
  | queueWakes =>
    obtain ⟨limit, hp⟩ := hen
    rw [System.step, hp]
    exact h.waitBacklog limit
  | finalize => exact h.callFinalize
  | finalizeWakes => exact h.callFinalize
  | destroy => exact ⟨h.backlog, h.handed, h.numbers, h.items, h.working, h.worked, h.passed⟩
  | worker i => exact h.callWorker hen
  | workProc i => exact h.endWork i

/-! ## Runs -/

variable {threadsCount : Nat}

theorem reach_inv (h : Reach System.step System.enabled (initial threadsCount) S) : S.Inv :=
  h.invariant (inv_initial threadsCount) fun _ op hinv hen => hinv.step op hen

/-- The numbers of what is done, when no worker has an item. -/
theorem Inv.done_range (h : S.Inv) (hworking : S.queue.working = 0) :
    S.queue.done.entries.map Prod.fst = List.range' (S.queue.finalizedCounter + 1)
      (S.queue.doneCounter - S.queue.finalizedCounter) := by
  have hheld : heldItems S.queue.workers = [] := by
    have hlen := h.working
    rw [hworking] at hlen
    exact List.eq_nil_of_length_eq_zero (by omega)
  have hperm := h.numbers
  rw [pending, hheld, List.append_nil] at hperm
  have hsorted : (S.queue.done.entries.map Prod.fst).Pairwise (· < ·) :=
    List.pairwise_map.mpr (S.queue.done.sorted.imp fun hlt => of_decide_eq_true hlt)
  exact hperm.eq_of_pairwise (fun a b _ _ hab hba => absurd hab (Nat.lt_asymm hba)) hsorted
    List.pairwise_lt_range'

/-- With an empty backlog and no item at a worker, fetching hands out all that is left. -/
theorem Inv.fetch_complete (h : S.Inv) (hback : S.queue.backlog = [])
    (hworking : S.queue.working = 0) : S.fetch.handed = S.queued := by
  have hrange := h.done_range hworking
  have hall := ThreadedWorkQueue.inSequence_range _ _ _ hrange
  have hlen := congrArg List.length hrange
  rw [List.length_map, List.length_range'] at hlen
  obtain ⟨hle, hdrop⟩ := h.backlog
  rw [hback] at hdrop
  have hqueued := List.drop_eq_nil_iff.mp hdrop.symm
  have hfinalized := h.handed.1
  have hhanded : S.fetch.handed = S.queued.take (S.queue.finalizedCounter
      + ThreadedWorkQueue.inSequence S.queue.finalizedCounter S.queue.done.entries) := h.fetched
  rw [hhanded, hall, List.take_of_length_le (by omega)]

/-- A call of `Finalize` that returns has handed out everything. -/
theorem Inv.callFinalize_complete (h : S.Inv) (hreturn : S.callFinalize.producer = .idle) :
    S.callFinalize.handed = S.callFinalize.queued := by
  rw [System.callFinalize] at hreturn ⊢
  split at hreturn
  · next hc =>
    rw [if_pos hc]
    exact h.fetch_complete hc.1 hc.2
  · cases hreturn

/-- **Items are finalised in the order of the queue.** In every run, what has been handed out is a
prefix of what was queued and each of its items has been worked on before, and when a call of
`Finalize` returns it is everything. Items that were not queued were worked on by the producer,
before all others. -/
theorem reach_finalised (h : Reach System.step System.enabled (initial threadsCount) S) :
    S.handed <+: S.queued
      ∧ (∀ k twi, S.handed[k]? = some twi → (k + 1, twi) ∈ S.worked)
      ∧ S.passed = S.inlined ++ S.queued
      ∧ ∀ op, op = .finalize ∨ op = .finalizeWakes → S.enabled op →
        (S.step op).producer = .idle → (S.step op).handed = (S.step op).queued := by
  have hinv := reach_inv h
  refine ⟨?_, hinv.worked.1, hinv.passed.1, fun op hop _ hreturn => ?_⟩
  · rw [hinv.handed.2]
    exact List.take_prefix _ _
  · rcases hop with rfl | rfl
    · exact hinv.callFinalize_complete hreturn
    · exact hinv.callFinalize_complete hreturn

/-- Two items whose workers are done in the other order, the second one while the producer waits
in `Finalize`. -/
theorem reach_finalised_two :
    let S : System Nat := [.queue 5 none true, .queue 6 none true, .worker 0, .worker 1,
      .workProc 1, .worker 1, .finalize, .workProc 0, .worker 0].foldl System.step (initial 2)
    S.handed <+: S.queued
      ∧ (∀ k twi, S.handed[k]? = some twi → (k + 1, twi) ∈ S.worked)
      ∧ S.passed = S.inlined ++ S.queued
      ∧ ∀ op, op = .finalize ∨ op = .finalizeWakes → S.enabled op →
        (S.step op).producer = .idle → (S.step op).handed = (S.step op).queued := by
  have hstart : Reach System.step System.enabled (initial 2) (initial 2 : System Nat) := .start
  have h1 := Reach.step (Op.queue 5 none true) hstart rfl
  have h2 := Reach.step (Op.queue 6 none true) h1 rfl
  have h3 := Reach.step (Op.worker 0) h2 (.inl rfl)
  have h4 := Reach.step (Op.worker 1) h3 (.inl rfl)
  have h5 := Reach.step (Op.workProc 1) h4 ⟨2, 6, rfl⟩
  have h6 := Reach.step (Op.worker 1) h5 (.inr ⟨2, 6, rfl⟩)
  have h7 := Reach.step Op.finalize h6 rfl
  have h8 := Reach.step (Op.workProc 0) h7 ⟨1, 5, rfl⟩
  exact reach_finalised (Reach.step (Op.worker 0) h8 (.inr ⟨1, 5, rfl⟩))

/-- There everything has been handed out at the end, in the order of the queue. -/
example : (([.queue 5 none true, .queue 6 none true, .worker 0, .worker 1, .workProc 1, .worker 1,
    .finalize, .workProc 0, .worker 0, .finalizeWakes].foldl System.step (initial 2)
      : System Nat).handed) = [5, 6] := rfl

/-! ## Where the items are -/

theorem filterMap_range' (items : List Item) : ∀ f n : Nat, f + n ≤ items.length →
    (List.range' (f + 1) n).filterMap (fun k => items[k - 1]?) = (items.drop f).take n
  | f, 0, _ => by rw [List.take_zero]; rfl
  | f, n + 1, h => by
    have hf : f < items.length := by omega
    rw [List.range'_succ, List.drop_eq_getElem_cons hf, List.take_succ_cons,
      ← filterMap_range' items (f + 1) n (by omega)]
    exact List.filterMap_cons_some (List.getElem?_eq_getElem hf)

/-- What has been taken from the backlog and not been handed out lies between the counters. -/
theorem Inv.pending_perm (h : S.Inv) : (S.pending.map Prod.snd).Perm
    ((S.queued.drop S.queue.finalizedCounter).take
      (S.queue.doneCounter - S.queue.finalizedCounter)) := by
  have hitems : S.pending.map Prod.snd
      = (S.pending.map Prod.fst).filterMap fun k => S.queued[k - 1]? := by
    rw [List.filterMap_map, ← List.filterMap_eq_map]
    exact List.filterMap_congr fun e he => (h.items e he).symm
  have hle := h.backlog.1
  have hfinalized := h.handed.1
  rw [hitems, ← filterMap_range' S.queued _ _ (by omega)]
  exact h.numbers.filterMap _

/-- **No item is lost, or there twice**: in every run, each item that was passed to `Queue` has been
worked on by the producer, has been handed out, is done or with a worker, or in the backlog. When
all threads have left their loops nothing counts as being worked on, as the destructor asserts. -/
theorem reach_conserved (h : Reach System.step System.enabled (initial threadsCount) S) :
    S.passed.Perm (S.inlined ++ (S.handed ++ (S.pending.map Prod.snd ++ S.queue.backlog)))
    ∧ 0 ≤ S.queue.working ∧ S.queue.working ≤ S.queue.workers.length
    ∧ ((∀ w ∈ S.queue.workers, w.held = none) → S.queue.working = 0) := by
  have hinv := reach_inv h
  have hworking := hinv.working
  refine ⟨?_, by omega, ?_, fun hstopped => ?_⟩
  · have hfinalized := hinv.handed.1
    have hqueued := List.take_append_drop S.queue.finalizedCounter S.queued
    rw [← List.take_append_drop (S.queue.doneCounter - S.queue.finalizedCounter) (S.queued.drop _),
      List.drop_drop, Nat.add_sub_cancel' hfinalized, ← hinv.handed.2, ← hinv.backlog.2] at hqueued
    rw [hinv.passed.1, ← hqueued]
    exact .append_left _ (.append_left _ (hinv.pending_perm.symm.append_right _))
  · rw [hworking]
    exact Int.ofNat_le.mpr (List.length_filterMap_le _ _)
  · rw [hworking, heldItems, List.filterMap_eq_nil_iff.mpr hstopped]
    rfl

/-- One of two items is with a worker. -/
theorem reach_conserved_two :
    let S : System Nat := [.queue 5 none true, .queue 6 none false, .worker 0].foldl System.step (initial 2)
    S.passed.Perm (S.inlined ++ (S.handed ++ (S.pending.map Prod.snd ++ S.queue.backlog)))
    ∧ 0 ≤ S.queue.working ∧ S.queue.working ≤ S.queue.workers.length
    ∧ ((∀ w ∈ S.queue.workers, w.held = none) → S.queue.working = 0) := by
  have hstart : Reach System.step System.enabled (initial 2) (initial 2 : System Nat) := .start
  have h1 := Reach.step (Op.queue 5 none true) hstart rfl
  have h2 := Reach.step (Op.queue 6 none false) h1 rfl
  exact reach_conserved (Reach.step (Op.worker 0) h2 (.inl rfl))

end System

end Far2l.WorkQueue
