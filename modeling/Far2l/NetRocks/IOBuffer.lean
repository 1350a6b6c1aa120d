/-
Far2l.NetRocks.IOBuffer — the transfer buffer of `NetRocks/src/Op/Utils/IOBuffer.cpp`.

Whether an allocation succeeds is up to the system, so a stream of answers is given:
request number `i` fails, or yields a block whose bytes are anything. A copy that
reads or writes outside a block has no result. The one product that can leave
`size_t` is taken modulo `2 ^ 64`.
-/
import Mathlib.Order.Lattice
import Far2l.Utils.Chars

namespace Far2l.NetRocks

/-! ## The buffer -/

/-- A block of the heap: how many bytes it has, and what they are. -/
structure Block where
  size : Nat
  bytes : Nat → Byte

/-- What the requests for memory yield: the bytes of a new block, or nothing. -/
abbrev Allocator := Nat → Option (Nat → Byte)

structure IOBuffer where
  data : Block
  size : Nat
  capacity : Nat
  lowMemCountdown : Nat
  minSize : Nat
  maxSize : Nat
  /-- The requests that have been made. -/
  requests : Nat

namespace IOBuffer

def ALIGNMENT : Nat := 0x1000

def LOW_MEM_COUNTDOWN : Nat := 0x1000

/-- `ALIGN_SIZE` -/
def alignSize (sz : Nat) : Nat := sz - sz % ALIGNMENT

variable (alloc : Allocator)

/-- The constructor. It has no result where it throws. -/
def init (initialSize minSize maxSize : Nat) : Option IOBuffer :=
  let min' := if alignSize minSize = 0 then ALIGNMENT else alignSize minSize
  let max' := if alignSize maxSize < min' then min' else alignSize maxSize
  let size := if alignSize initialSize < min' then min' else alignSize initialSize
  let size := if size > max' then max' else size
  match alloc 0 with
  | some bytes => some ⟨⟨size, bytes⟩, size, initialSize, 0, min', max', 1⟩
  | none =>
      match alloc 1 with
      | some bytes => some ⟨⟨size, bytes⟩, size, initialSize, 0, min', max', 2⟩
      | none =>
          match alloc 2 with
          | some bytes => some ⟨⟨min', bytes⟩, min', initialSize, 0, min', max', 3⟩
          | none => none

/-- `IncreaseTo` -/
def increaseTo (b : IOBuffer) (newSize : Nat) (preserveData : Bool) : Option IOBuffer :=
  if newSize ≤ b.capacity then some { b with size := newSize }
  else if b.lowMemCountdown ≠ 0 then some { b with lowMemCountdown := b.lowMemCountdown - 1 }
  else
    match alloc b.requests with
    | none => some { b with lowMemCountdown := LOW_MEM_COUNTDOWN, requests := b.requests + 1 }
    | some bytes =>
        if preserveData then
          if b.size ≤ b.data.size ∧ b.size ≤ newSize then
            some { b with
              data := ⟨newSize, fun i => if i < b.size then b.data.bytes i else bytes i⟩
              size := newSize, capacity := newSize, requests := b.requests + 1 }
          else none
        else
          some { b with data := ⟨newSize, bytes⟩, size := newSize, capacity := newSize, requests := b.requests + 1 }

/-- The size that `Increase` asks for -/
def increased (b : IOBuffer) : Nat := min (alignSize (b.size * 3 % 2 ^ 64 / 2)) b.maxSize

/-- `Increase` -/
def increase (b : IOBuffer) (preserveData : Bool) : Option IOBuffer :=
  if b.size ≥ b.maxSize then some b else increaseTo alloc b b.increased preserveData

/-- `Decrease` -/
def decrease (b : IOBuffer) : Option IOBuffer :=
  if b.size ≤ b.minSize then some b else some { b with size := max (b.size / 2) b.minSize }

/-- `Desire` -/
def desire (b : IOBuffer) (size : Nat) (preserveData : Bool) : Option IOBuffer :=
  if size < b.size then some { b with size := max size b.minSize }
  else if size > b.size then
    if min size b.maxSize > b.size then increaseTo alloc b (min size b.maxSize) preserveData else some b
  else some b

/-- A call on the buffer. -/
inductive Call where
  | increase (preserveData : Bool)
  | decrease
  | increaseTo (newSize : Nat) (preserveData : Bool)
  | desire (size : Nat) (preserveData : Bool)
  deriving DecidableEq, Repr

def perform (b : IOBuffer) : Call → Option IOBuffer
  | .increase preserveData => increase alloc b preserveData
  | .decrease => decrease b
  | .increaseTo newSize preserveData => increaseTo alloc b newSize preserveData
  | .desire size preserveData => desire alloc b size preserveData

/-- A call without the argument keeps the contents anyway. -/
def Call.preserves : Call → Bool
  | .increase preserveData => preserveData
  | .decrease => true
  | .increaseTo _ preserveData => preserveData
  | .desire _ preserveData => preserveData

/-! ## What a call keeps -/

/-- The size is within the block, and with `preserve_data` what both sizes cover has not changed. -/
structure Kept (b : IOBuffer) (preserveData : Bool) (b' : IOBuffer) : Prop where
  within : b'.size ≤ b'.data.size
  same : preserveData → ∀ i < min b.size b'.size, b'.data.bytes i = b.data.bytes i

/-- A call has a result, and keeps what it has to. -/
def Keeps (b : IOBuffer) (call : Call) : Prop := ∃ b', perform alloc b call = some b' ∧ Kept b call.preserves b'

/-- A size that `IncreaseTo` is asked for is within the block if the capacity says so, and otherwise a
new block has room for what is copied into it. -/
def Room (b : IOBuffer) (newSize : Nat) (preserveData : Bool) : Prop :=
  if newSize ≤ b.capacity then newSize ≤ b.data.size
  else b.lowMemCountdown = 0 → (alloc b.requests).isSome → preserveData → b.size ≤ newSize

/-- A call finds the room it needs. -/
def Fits (b : IOBuffer) : Call → Prop
  | .increase preserveData => b.size < b.maxSize → Room alloc b b.increased preserveData
  | .decrease => True
  | .increaseTo newSize preserveData => Room alloc b newSize preserveData
  | .desire size preserveData =>
      if size < b.size then max size b.minSize ≤ b.data.size
      else b.size < min size b.maxSize → Room alloc b (min size b.maxSize) preserveData

variable {alloc} {b : IOBuffer}

theorem kept_self (h : b.size ≤ b.data.size) (preserveData : Bool) : Kept b preserveData b :=
  ⟨h, fun _ _ _ => rfl⟩

theorem increaseTo_keeps_iff (h : b.size ≤ b.data.size) (newSize : Nat) (preserveData : Bool) :
    (∃ b', increaseTo alloc b newSize preserveData = some b' ∧ Kept b preserveData b') ↔
      Room alloc b newSize preserveData := by
  rw [Room, increaseTo]
  by_cases hcap : newSize ≤ b.capacity
  · rw [if_pos hcap, if_pos hcap]
    refine ⟨fun ⟨b', heq, hkept⟩ => ?_, fun hroom => ⟨_, rfl, hroom, fun _ _ _ => rfl⟩⟩
    obtain rfl := Option.some.inj heq
    exact hkept.within
  rw [if_neg hcap, if_neg hcap]
  by_cases hlow : b.lowMemCountdown ≠ 0
  · rw [if_pos hlow]
    exact iff_of_true ⟨_, rfl, h, fun _ _ _ => rfl⟩ fun hzero => absurd hzero hlow
  rw [if_neg hlow]
  cases halloc : alloc b.requests with
  | none => exact iff_of_true ⟨_, rfl, h, fun _ _ _ => rfl⟩ fun _ hsome => by simp at hsome
  | some bytes =>
    cases preserveData with
    | false => exact iff_of_true ⟨_, rfl, le_rfl, fun hp => by simp at hp⟩ fun _ _ hp => by simp at hp
    | true =>
      by_cases hcopy : b.size ≤ newSize
      · refine iff_of_true ⟨_, (if_pos rfl).trans (if_pos ⟨h, hcopy⟩), le_rfl, fun _ i hi => ?_⟩ fun _ _ _ => hcopy
        exact if_pos (lt_of_lt_of_le hi (min_le_left _ _))
      · refine iff_of_false (fun ⟨b', heq, _⟩ => ?_) fun hroom => hcopy (hroom (not_not.mp hlow) rfl rfl)
        simp [hcopy] at heq

/-- A call keeps what it has to exactly when it finds the room it needs. -/
theorem keeps_iff (h : b.size ≤ b.data.size) (call : Call) : Keeps alloc b call ↔ Fits alloc b call := by
  cases call with
  | increase preserveData =>
    by_cases hmax : b.size ≥ b.maxSize
    · exact iff_of_true ⟨b, by simp [perform, increase, hmax], kept_self h _⟩ fun hlt => absurd hlt (by omega)
    · have hlt : b.size < b.maxSize := by omega
      simp only [Keeps, perform, increase, if_neg hmax, Fits, hlt, true_implies]
      exact increaseTo_keeps_iff h _ _
  | decrease =>
    refine iff_of_true ?_ trivial
    simp only [Keeps, perform, decrease]
    by_cases hmin : b.size ≤ b.minSize
    · exact ⟨b, if_pos hmin, kept_self h _⟩
    · refine ⟨_, if_neg hmin, ?_, fun _ _ _ => rfl⟩
      show max (b.size / 2) b.minSize ≤ b.data.size
      omega
  | increaseTo newSize preserveData => exact increaseTo_keeps_iff h _ _
  | desire size preserveData =>
    simp only [Keeps, perform, desire, Fits, Call.preserves]
    by_cases hless : size < b.size
    · rw [if_pos hless, if_pos hless]
      refine ⟨fun ⟨b', heq, hkept⟩ => ?_, fun hroom => ⟨_, rfl, hroom, fun _ _ _ => rfl⟩⟩
      obtain rfl := Option.some.inj heq
      exact hkept.within
    rw [if_neg hless, if_neg hless]
    by_cases hmore : b.size < min size b.maxSize
    · rw [if_pos (by omega), if_pos hmore]
      simp only [hmore, true_implies]
      exact increaseTo_keeps_iff h _ _
    · refine iff_of_true ⟨b, ?_, kept_self h _⟩ fun hlt => absurd hlt hmore
      rw [if_neg hmore, ite_self]

/-! ## A run -/

/-- Every call of a run has a result and keeps what it has to. -/
def AllKeep (alloc : Allocator) : List Call → IOBuffer → Prop
  | [], _ => True
  | call :: calls, b => Keeps alloc b call ∧ ∀ b', perform alloc b call = some b' → AllKeep alloc calls b'

/-- Every call of a run finds the room it needs. -/
def AllFit (alloc : Allocator) : List Call → IOBuffer → Prop
  | [], _ => True
  | call :: calls, b => Fits alloc b call ∧ ∀ b', perform alloc b call = some b' → AllFit alloc calls b'

theorem allKeep_iff : ∀ (calls : List Call) {b : IOBuffer}, b.size ≤ b.data.size →
    (AllKeep alloc calls b ↔ AllFit alloc calls b)
  | [], _, _ => Iff.rfl
  | call :: calls, b, h => by
    rw [AllKeep, AllFit, keeps_iff h call]
    refine and_congr_right fun hfits => forall_congr' fun b' => imp_congr_right fun heq => ?_
    obtain ⟨b'', heq', hkept⟩ := (keeps_iff h call).mpr hfits
    obtain rfl := Option.some.inj (heq.symm.trans heq')
    exact allKeep_iff calls hkept.within

/-- The sizes that the constructor leaves. -/
theorem init_sizes {initialSize minSize maxSize : Nat} (h : init alloc initialSize minSize maxSize = some b) :
    b.capacity = initialSize ∧ b.size = b.data.size ∧ b.minSize ≤ b.data.size ∧
      (b.minSize ≤ initialSize → b.data.size ≤ initialSize) := by
  have halign : alignSize initialSize ≤ initialSize := Nat.sub_le _ _
  unfold init at h
  extract_lets min' max' size₁ size at h
  have hmax : min' ≤ max' := by
    unfold max'
    split <;> omega
  have hsize : min' ≤ size ∧ (min' ≤ initialSize → size ≤ initialSize) := by
    unfold size size₁
    split <;> split <;> omega
  split at h
  · obtain rfl := Option.some.inj h
    exact ⟨rfl, rfl, hsize⟩
  split at h
  · obtain rfl := Option.some.inj h
    exact ⟨rfl, rfl, hsize⟩
  split at h
  · obtain rfl := Option.some.inj h
    exact ⟨rfl, rfl, Nat.le_refl _, id⟩
  · cases h

theorem init_within {initialSize minSize maxSize : Nat} (h : init alloc initialSize minSize maxSize = some b) :
    b.size ≤ b.data.size := (init_sizes h).2.1.le

/-- **The buffer over a run.** After every call the size is within the block and the contents are kept
exactly when every call finds the room it needs. -/
theorem run_keeps_iff (alloc : Allocator) (initialSize minSize maxSize : Nat) (calls : List Call) (b : IOBuffer)
    (hinit : init alloc initialSize minSize maxSize = some b) :
    AllKeep alloc calls b ↔ AllFit alloc calls b :=
  allKeep_iff calls (init_within hinit)

theorem run_keeps_iff_page :
    AllKeep (fun _ => some fun _ => 0) [.increaseTo 0x2000 true]
        ⟨⟨0x1000, fun _ => 0⟩, 0x1000, 0x1000, 0, 0x1000, 0x2000, 1⟩ ↔
      AllFit (fun _ => some fun _ => 0) [.increaseTo 0x2000 true]
        ⟨⟨0x1000, fun _ => 0⟩, 0x1000, 0x1000, 0, 0x1000, 0x2000, 1⟩ :=
  run_keeps_iff _ 0x1000 0x1000 0x2000 _ _ rfl

/-- The constructor rounds the size down, but records the capacity it was asked for. -/
theorem capacity_exceeds :
    ¬∀ (alloc : Allocator) (initialSize minSize maxSize : Nat) (calls : List Call) (b : IOBuffer),
      init alloc initialSize minSize maxSize = some b → AllKeep alloc calls b := by
  intro h
  obtain ⟨⟨b, heq, hkept⟩, -⟩ := h (fun _ => some fun _ => 0) 0x1800 0x1000 0x2000 [.increaseTo 0x1800 true] _ rfl
  obtain rfl := Option.some.inj heq
  exact absurd hkept.within (by decide)

/-! ## An exact capacity -/

/-- The capacity is the size of the block, and no size is above it. -/
structure Exact (b : IOBuffer) : Prop where
  block : b.capacity = b.data.size
  size_le : b.size ≤ b.capacity
  min_le : b.minSize ≤ b.capacity

theorem Exact.increaseTo (h : Exact b) {newSize : Nat} {preserveData : Bool} {b' : IOBuffer}
    (heq : IOBuffer.increaseTo alloc b newSize preserveData = some b') : Exact b' := by
  obtain ⟨hblock, hsize, hmin⟩ := h
  rw [IOBuffer.increaseTo] at heq
  split at heq
  · obtain rfl := Option.some.inj heq
    exact ⟨hblock, by assumption, hmin⟩
  have hmin' : b.minSize ≤ newSize := by omega
  split at heq
  · obtain rfl := Option.some.inj heq
    exact ⟨hblock, hsize, hmin⟩
  split at heq
  · obtain rfl := Option.some.inj heq
    exact ⟨hblock, hsize, hmin⟩
  split at heq
  · split at heq
    · obtain rfl := Option.some.inj heq
      exact ⟨rfl, le_rfl, hmin'⟩
    · cases heq
  · obtain rfl := Option.some.inj heq
    exact ⟨rfl, le_rfl, hmin'⟩

theorem Exact.perform (h : Exact b) {call : Call} {b' : IOBuffer} (heq : IOBuffer.perform alloc b call = some b') :
    Exact b' := by
  have hle := h.size_le
  have hmin := h.min_le
  cases call with
  | increase preserveData =>
    rw [IOBuffer.perform, IOBuffer.increase] at heq
    split at heq
    · exact Option.some.inj heq ▸ h
    · exact h.increaseTo heq
  | decrease =>
    rw [IOBuffer.perform, IOBuffer.decrease] at heq
    split at heq
    · exact Option.some.inj heq ▸ h
    · obtain rfl := Option.some.inj heq
      exact ⟨h.block, by change max _ _ ≤ b.capacity; omega, hmin⟩
  | increaseTo newSize preserveData => exact h.increaseTo heq
  | desire size preserveData =>
    rw [IOBuffer.perform, IOBuffer.desire] at heq
    split at heq
    · obtain rfl := Option.some.inj heq
      exact ⟨h.block, by change max _ _ ≤ b.capacity; omega, hmin⟩
    split at heq
    · split at heq
      · exact h.increaseTo heq
      · exact Option.some.inj heq ▸ h
    · exact Option.some.inj heq ▸ h

theorem Exact.room (h : Exact b) (newSize : Nat) (preserveData : Bool) : Room alloc b newSize preserveData := by
  have hblock := h.block
  have hsize := h.size_le
  rw [Room]
  split
  · omega
  · intro _ _ _
    omega

theorem Exact.fits (h : Exact b) (call : Call) : Fits alloc b call := by
  cases call with
  | increase preserveData => exact fun _ => h.room _ _
  | decrease => trivial
  | increaseTo newSize preserveData => exact h.room _ _
  | desire size preserveData =>
    have hblock := h.block
    have hsize := h.size_le
    have hmin := h.min_le
    rw [Fits]
    split
    · omega
    · exact fun _ => h.room _ _

theorem Exact.allKeep : ∀ (calls : List Call) {b : IOBuffer}, Exact b → AllKeep alloc calls b
  | [], _, _ => trivial
  | call :: calls, b, h => by
    have hkeeps : Keeps alloc b call := (keeps_iff (h.block ▸ h.size_le) call).mpr (h.fits call)
    exact ⟨hkeeps, fun b' heq => Exact.allKeep calls (h.perform heq)⟩

/-- **A buffer that is to be no smaller than its minimum** keeps what it has to in every run exactly when it has got
the size it was asked for. -/
theorem always_keeps_iff {initialSize minSize maxSize : Nat} (hinit : init alloc initialSize minSize maxSize = some b)
    (hmin : b.minSize ≤ initialSize) : (∀ calls, AllKeep alloc calls b) ↔ b.data.size = initialSize := by
  obtain ⟨hcapacity, hsize, hblock, hle⟩ := init_sizes hinit
  constructor
  · intro hall
    obtain ⟨⟨b', heq, hkept⟩, -⟩ := hall [.increaseTo initialSize true]
    rw [perform, increaseTo, if_pos (Nat.le_of_eq hcapacity.symm)] at heq
    obtain rfl := Option.some.inj heq
    exact Nat.le_antisymm (hle hmin) hkept.within
  · intro heq calls
    have hexact : Exact b := ⟨by omega, by omega, by omega⟩
    exact hexact.allKeep calls

/-- The buffer of a transfer, when there is memory for half of it only. -/
theorem always_keeps_half :
    ¬∀ calls, AllKeep (fun i => if i < 2 then none else some fun _ => 0) calls
      ⟨⟨0x8000, fun _ => 0⟩, 0x8000, 0x10000, 0, 0x8000, 0x1000000, 3⟩ := by
  have hiff := @always_keeps_iff (fun i => if i < 2 then none else some fun _ => 0)
    ⟨⟨0x8000, fun _ => 0⟩, 0x8000, 0x10000, 0, 0x8000, 0x1000000, 3⟩ 0x10000 0x8000 0x1000000 rfl (by decide)
  exact fun hall => absurd (hiff.mp hall) (by decide)

end IOBuffer

end Far2l.NetRocks
