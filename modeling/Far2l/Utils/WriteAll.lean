/-
Far2l.Utils.WriteAll — `WriteAll` of `utils/src/utils.cpp`.

The memory is numbered from `data` on: the block is what has a number below
`len`, and something is behind it. Every call of `write` is answered by the
kernel; the loop runs as long as there are answers. No block is so large that
offsets wrap around.
-/
import Far2l.Utils.WideMB

namespace Far2l.Write

/-- What `write` does: it takes so many bytes, it fails with `EAGAIN` or `EINTR`,
or with something else. -/
inductive Answer where
  | written (n : Nat)
  | again
  | failed
  deriving DecidableEq, Repr

/-- `(size_t)-1` -/
def SIZE_MAX : Nat := 2 ^ 64 - 1

/-- The chunk that is written, once the argument has been looked at. -/
def chunkOf (len chunk : Nat) : Nat := if chunk = SIZE_MAX ∨ chunk ≥ len then len else chunk

/-- A call of `write`: where the bytes begin, and how many. -/
structure Request where
  ofs : Nat
  size : Nat
  deriving DecidableEq, Repr

/-- What a run has done: the calls of `write`, the bytes that the descriptor
accepted, and the value returned, if the run is over. -/
structure Run where
  requests : List Request
  accepted : List Byte
  result : Option Nat
  deriving DecidableEq, Repr

/-- One more call, which accepted these bytes, in front of a run. -/
def Run.after (r : Run) (request : Request) (bytes : List Byte) : Run :=
  { r with requests := request :: r.requests, accepted := bytes ++ r.accepted }

/-- The bytes from `ofs` on. -/
def bytesAt (mem : Nat → Byte) (ofs n : Nat) : List Byte := (List.range' ofs n).map mem

/-- The loop, at an offset and with a chunk. -/
def writeAllLoop (mem : Nat → Byte) (len : Nat) : List Answer → Nat → Nat → Run
  | [], ofs, chunk =>
      if ofs < len then ⟨[⟨ofs, chunkOf len chunk⟩], [], none⟩ else ⟨[], [], some len⟩
  | answer :: answers, ofs, chunk =>
      if ofs < len then
        let size := chunkOf len chunk
        match answer with
        | .again => (writeAllLoop mem len answers ofs size).after ⟨ofs, size⟩ []
        | .failed => ⟨[⟨ofs, size⟩], [], some ofs⟩
        | .written n => (writeAllLoop mem len answers (ofs + min n size) size).after ⟨ofs, size⟩ (bytesAt mem ofs n)
      else ⟨[], [], some len⟩

/-- `WriteAll` -/
def writeAll (mem : Nat → Byte) (len chunk : Nat) (answers : List Answer) : Run :=
  writeAllLoop mem len answers 0 chunk

/-- The block. -/
def block (mem : Nat → Byte) (len : Nat) : List Byte := bytesAt mem 0 len

end Far2l.Write

/-! # What `WriteAll` hands to the kernel.

The offset moves on by what has been accepted, but the size of the next call stays
the whole chunk. So a call reaches behind the block as soon as less than a chunk
is left: when the counts accepted so far add up to a number between `len - chunk`
and `len`, with neither end. -/

namespace Far2l.Write

/-! ## Answers -/

/-- `write` accepts at least one byte and at most what it was given. -/
def Fits (size : Nat) (answers : List Answer) : Prop :=
  ∀ n, Answer.written n ∈ answers → 1 ≤ n ∧ n ≤ size

/-- The answers before the first real failure. -/
def heard (answers : List Answer) : List Answer := answers.takeWhile (· ≠ .failed)

/-- The counts added up. -/
@[simp] def total : List Answer → Nat
  | [] => 0
  | .written n :: answers => n + total answers
  | _ :: answers => total answers

/-- No sum of the first counts, which begins at `ofs`, leaves less than a chunk. -/
def WholeChunks (len size ofs : Nat) (answers : List Answer) : Prop :=
  ∀ k, ¬ (len < ofs + total ((heard answers).take k) + size ∧ ofs + total ((heard answers).take k) < len)

theorem wholeChunks_now {len size ofs : Nat} {answers : List Answer} (h : WholeChunks len size ofs answers)
    (hofs : ofs < len) : ofs + size ≤ len := by
  have h0 := h 0
  rw [List.take_zero, total] at h0
  omega

theorem wholeChunks_nil {len size ofs : Nat} : WholeChunks len size ofs [] ↔ ofs < len → ofs + size ≤ len := by
  constructor
  · exact fun h => wholeChunks_now h
  · intro h k hk
    rw [heard, List.takeWhile_nil, List.take_nil, total] at hk
    omega

theorem wholeChunks_failed {len size ofs : Nat} {answers : List Answer} :
    WholeChunks len size ofs (.failed :: answers) ↔ (ofs < len → ofs + size ≤ len) := by
  have hheard : heard (.failed :: answers) = heard [] := List.takeWhile_cons_of_neg (by decide)
  rw [← wholeChunks_nil, WholeChunks, WholeChunks, hheard]

theorem wholeChunks_again {len size ofs : Nat} {answers : List Answer} :
    WholeChunks len size ofs (.again :: answers) ↔ WholeChunks len size ofs answers := by
  have hheard : heard (.again :: answers) = .again :: heard answers := List.takeWhile_cons_of_pos (by decide)
  constructor
  · intro h k
    have hk := h (k + 1)
    rw [hheard] at hk
    exact hk
  · intro h k
    rw [hheard]
    cases k with
    | zero => exact h 0
    | succ k => exact h k

theorem wholeChunks_written {len size ofs n : Nat} {answers : List Answer} :
    WholeChunks len size ofs (.written n :: answers) ↔
      (ofs < len → ofs + size ≤ len) ∧ WholeChunks len size (ofs + n) answers := by
  have hheard : heard (.written n :: answers) = .written n :: heard answers :=
    List.takeWhile_cons_of_pos (decide_eq_true (fun h => Answer.noConfusion h))
  have hsum : ∀ k, ofs + total ((Answer.written n :: heard answers).take (k + 1)) =
      ofs + n + total ((heard answers).take k) := fun k => by
    rw [List.take_succ_cons, total, Nat.add_assoc]
  constructor
  · intro h
    refine ⟨wholeChunks_now h, fun k => ?_⟩
    have hk := h (k + 1)
    rw [hheard, hsum] at hk
    exact hk
  · rintro ⟨hnow, h⟩ k
    rw [hheard]
    cases k with
    | zero =>
      rw [List.take_zero, total]
      omega
    | succ k =>
      rw [hsum]
      exact h k

/-- Nothing is left of the condition when the block has been written. -/
theorem wholeChunks_over {len size ofs : Nat} {answers : List Answer} (h : len ≤ ofs) :
    WholeChunks len size ofs answers := fun k hk => by omega

/-! ## The loop -/

/-- What `WriteAll` is for: nothing outside the block is handed to `write`, and
when the length is returned the descriptor has got the block. -/
def Right (mem : Nat → Byte) (len : Nat) (r : Run) : Prop :=
  (r.result = some len → r.accepted = block mem len) ∧ ∀ request ∈ r.requests, request.ofs + request.size ≤ len

theorem chunkOf_chunkOf (len chunk : Nat) : chunkOf len (chunkOf len chunk) = chunkOf len chunk := by
  unfold chunkOf
  split
  · rw [if_pos (.inr (Nat.le_refl _))]
  · rfl

theorem bytesAt_append (mem : Nat → Byte) (ofs m n : Nat) :
    bytesAt mem ofs m ++ bytesAt mem (ofs + m) n = bytesAt mem ofs (m + n) := by
  unfold bytesAt
  rw [← List.map_append, List.range'_append_1]

/-- What the loop does at an offset inside the block, when its calls stay inside. -/
def RightFrom (mem : Nat → Byte) (len ofs : Nat) (r : Run) : Prop :=
  (r.result = some len → r.accepted = bytesAt mem ofs (len - ofs)) ∧
    ∀ request ∈ r.requests, request.ofs + request.size ≤ len

/-- **The loop keeps inside the block exactly when no sum of counts leaves less
than a chunk.** -/
theorem writeAllLoop_right (mem : Nat → Byte) (len size : Nat) (hsize : chunkOf len size = size) :
    ∀ (answers : List Answer) (ofs : Nat), ofs ≤ len → Fits size answers →
      (RightFrom mem len ofs (writeAllLoop mem len answers ofs size) ↔ WholeChunks len size ofs answers) := by
  intro answers
  induction answers with
  | nil =>
    intro ofs hofs _
    rw [wholeChunks_nil, writeAllLoop, hsize]
    split
    · next hlt =>
      constructor
      · exact fun h _ => h.2 _ List.mem_cons_self
      · refine fun h => ⟨fun hresult => absurd hresult (by simp), fun request hrequest => ?_⟩
        rw [List.mem_singleton.mp hrequest]
        exact h hlt
    · next hge =>
      refine iff_of_true ⟨fun _ => ?_, fun _ h => absurd h List.not_mem_nil⟩ fun h => absurd h hge
      rw [Nat.sub_eq_zero_of_le (Nat.le_of_not_lt hge)]
      rfl
  | cons answer answers ih =>
    intro ofs hofs hfits
    have hrest : Fits size answers := fun n hn => hfits n (List.mem_cons_of_mem _ hn)
    by_cases hlt : ofs < len
    · rw [writeAllLoop, if_pos hlt, hsize]
      cases answer with
      | again =>
        rw [wholeChunks_again, ← ih ofs hofs hrest]
        constructor
        · exact fun h => ⟨h.1, fun request hrequest => h.2 request (List.mem_cons_of_mem _ hrequest)⟩
        · intro h
          have hnow := wholeChunks_now ((ih ofs hofs hrest).mp h) hlt
          exact ⟨h.1, List.forall_mem_cons.mpr ⟨hnow, h.2⟩⟩
      | failed =>
        rw [wholeChunks_failed]
        constructor
        · exact fun h _ => h.2 _ List.mem_cons_self
        · refine fun h => ⟨fun hresult => ?_, fun request hrequest => ?_⟩
          · exact absurd (Option.some.inj hresult) (Nat.ne_of_lt hlt)
          · rw [List.mem_singleton.mp hrequest]
            exact h hlt
      | written n =>
        obtain ⟨hpos, hn⟩ := hfits n List.mem_cons_self
        rw [wholeChunks_written]
        show RightFrom mem len ofs ((writeAllLoop mem len answers (ofs + min n size) size).after _ _) ↔ _
        rw [Nat.min_eq_left hn]
        constructor
        · intro h
          have hnow : ofs + size ≤ len := h.2 _ List.mem_cons_self
          refine ⟨fun _ => hnow, (ih (ofs + n) (by omega) hrest).mp ⟨fun hresult => ?_, fun request hrequest => ?_⟩⟩
          · have haccepted : bytesAt mem ofs n ++ (writeAllLoop mem len answers (ofs + n) size).accepted =
                bytesAt mem ofs (len - ofs) := h.1 hresult
            have hsplit : len - ofs = n + (len - (ofs + n)) := by omega
            rw [hsplit, ← bytesAt_append] at haccepted
            exact List.append_cancel_left haccepted
          · exact h.2 request (List.mem_cons_of_mem _ hrequest)
        · rintro ⟨hnow, h⟩
          obtain ⟨hresult', hrequests⟩ := (ih (ofs + n) (by have := hnow hlt; omega) hrest).mpr h
          refine ⟨fun hresult => ?_, List.forall_mem_cons.mpr ⟨hnow hlt, hrequests⟩⟩
          show bytesAt mem ofs n ++ (writeAllLoop mem len answers (ofs + n) size).accepted = _
          rw [hresult' hresult, bytesAt_append]
          congr 1
          have := hnow hlt
          omega
    · rw [writeAllLoop, if_neg hlt]
      refine iff_of_true ⟨fun _ => ?_, fun _ h => absurd h List.not_mem_nil⟩
        (wholeChunks_over (Nat.le_of_not_lt hlt))
      rw [Nat.sub_eq_zero_of_le (Nat.le_of_not_lt hlt)]
      rfl

/-- The chunk is settled at the first call. -/
theorem writeAllLoop_chunkOf (mem : Nat → Byte) (len chunk : Nat) (answers : List Answer) (ofs : Nat) :
    writeAllLoop mem len answers ofs (chunkOf len chunk) = writeAllLoop mem len answers ofs chunk := by
  cases answers with
  | nil => rw [writeAllLoop, writeAllLoop, chunkOf_chunkOf]
  | cons answer answers => rw [writeAllLoop, writeAllLoop, chunkOf_chunkOf]

/-- **`WriteAll` writes exactly the block, whatever the kernel accepts, if and only
if no sum of the counts accepted so far lies between `len - chunk` and `len`.** -/
theorem writeAll_right_iff (mem : Nat → Byte) (len chunk : Nat) (answers : List Answer)
    (hfits : Fits (chunkOf len chunk) answers) :
    Right mem len (writeAll mem len chunk answers) ↔ WholeChunks len (chunkOf len chunk) 0 answers := by
  rw [writeAll, ← writeAllLoop_chunkOf]
  exact writeAllLoop_right mem len _ (chunkOf_chunkOf len chunk) answers 0 (Nat.zero_le _) hfits

/-- Three bytes, written one after another. -/
theorem writeAll_right_bytes :
    Fits (chunkOf 3 1) [.written 1, .again, .written 1, .written 1] ∧
      (Right (fun i => UInt8.ofNat i) 3 (writeAll (fun i => UInt8.ofNat i) 3 1
          [.written 1, .again, .written 1, .written 1]) ↔
        WholeChunks 3 (chunkOf 3 1) 0 [.written 1, .again, .written 1, .written 1]) := by
  have hfits : Fits (chunkOf 3 1) [.written 1, .again, .written 1, .written 1] := by
    intro n hn
    simp only [List.mem_cons, List.not_mem_nil, or_false, Answer.written.injEq, reduceCtorEq, false_or] at hn
    have hone : n = 1 := by omega
    rw [hone]
    decide
  exact ⟨hfits, writeAll_right_iff _ 3 1 _ hfits⟩

/-- Of two bytes the kernel takes one; then two are handed to it again, and what is
behind the block is written. -/
theorem short_write_behind :
    writeAll (fun i => UInt8.ofNat i) 2 SIZE_MAX [.written 1, .written 2] =
        ⟨[⟨0, 2⟩, ⟨1, 2⟩], [0, 1, 2], some 2⟩ ∧
      ¬ ∀ (mem : Nat → Byte) (len chunk : Nat) (answers : List Answer),
        Fits (chunkOf len chunk) answers → Right mem len (writeAll mem len chunk answers) := by
  have hrun : writeAll (fun i => UInt8.ofNat i) 2 SIZE_MAX [.written 1, .written 2] =
      ⟨[⟨0, 2⟩, ⟨1, 2⟩], [0, 1, 2], some 2⟩ := by decide
  refine ⟨hrun, fun h => ?_⟩
  have hright := h (fun i => UInt8.ofNat i) 2 SIZE_MAX [.written 1, .written 2] (by
    intro n hn
    simp only [List.mem_cons, List.not_mem_nil, or_false, Answer.written.injEq] at hn
    have hchunk : chunkOf 2 SIZE_MAX = 2 := by decide
    omega)
  rw [hrun] at hright
  exact absurd (hright.2 ⟨1, 2⟩ (by decide)) (by decide)

/-! ## The default chunk -/

end Far2l.Write
