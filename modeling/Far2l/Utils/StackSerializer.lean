/-
Far2l.Utils.StackSerializer — `utils/src/StackSerializer.cpp`: the stack of bytes
that messages between a terminal and its applications are built on.

What was pushed last is popped first. Numbers are little-endian; `none` is the
`range_error` of a stack that is too small.
-/
import Far2l.Utils.Chars

namespace Far2l

/-! ## Numbers -/

/-- A number in `n` bytes, the lowest first. -/
def numBytes : (n : Nat) → (v : Nat) → List Byte
  | 0, _ => []
  | n + 1, v => UInt8.ofNat v :: numBytes n (v / 256)

/-- The number that bytes stand for. -/
def bytesNum : List Byte → Nat
  | [] => 0
  | b :: rest => b.toNat + 256 * bytesNum rest

@[simp] theorem length_numBytes : ∀ n v : Nat, (numBytes n v).length = n
  | 0, _ => rfl
  | n + 1, v => by rw [numBytes, List.length_cons, length_numBytes n]

theorem bytesNum_numBytes : ∀ {n v : Nat}, v < 256 ^ n → bytesNum (numBytes n v) = v
  | 0, v, h => by
    rw [Nat.pow_zero] at h
    rw [numBytes, bytesNum]
    omega
  | n + 1, v, h => by
    have hdiv : v / 256 < 256 ^ n := by
      rw [Nat.pow_succ, Nat.mul_comm] at h
      exact Nat.div_lt_of_lt_mul h
    have hlow : (UInt8.ofNat v).toNat = v % 256 := UInt8.toNat_ofNat
    rw [numBytes, bytesNum, bytesNum_numBytes hdiv, hlow]
    exact Nat.mod_add_div v 256

/-! ## The stack -/

/-- `StackSerializer`; the bytes pushed last stand at the end. -/
structure StackSerializer where
  data : List Byte := []
deriving DecidableEq, Repr

namespace StackSerializer

variable (S : StackSerializer)

/-- `Push`. -/
def push (bytes : List Byte) : StackSerializer := ⟨S.data ++ bytes⟩

/-- `Pop`. -/
def pop (len : Nat) : Option (List Byte × StackSerializer) :=
  if len > S.data.length then none
  else some (S.data.drop (S.data.length - len), ⟨S.data.take (S.data.length - len)⟩)

/-- `PushNum` of a number of `n` bytes. -/
def pushNum (n v : Nat) : StackSerializer := S.push (numBytes n v)

/-- `PopNum` of a number of `n` bytes. -/
def popNum (n : Nat) : Option (Nat × StackSerializer) :=
  (S.pop n).map fun r => (bytesNum r.1, r.2)

/-- `PushStr`. -/
def pushStr (str : List Byte) : StackSerializer := (S.push str).pushNum 4 str.length

/-- `PopStr`. -/
def popStr : Option (List Byte × StackSerializer) :=
  (S.popNum 4).bind fun r => r.2.pop r.1

/-! ## What is pushed is popped -/

theorem pop_push (bytes : List Byte) : (S.push bytes).pop bytes.length = some (bytes, S) := by
  have hlen : (S.push bytes).data.length = S.data.length + bytes.length := List.length_append
  rw [pop, if_neg (by omega), hlen, Nat.add_sub_cancel]
  rw [push, List.drop_left, List.take_left]

theorem popNum_pushNum {n v : Nat} (h : v < 256 ^ n) : (S.pushNum n v).popNum n = some (v, S) := by
  have hpop := S.pop_push (numBytes n v)
  rw [length_numBytes] at hpop
  rw [pushNum, popNum, hpop, Option.map_some, bytesNum_numBytes h]

/-- A byte is popped as a number. -/
theorem popNum_push_singleton (b : Byte) : (S.push [b]).popNum 1 = some (b.toNat, S) := by
  have hpop := S.pop_push [b]
  rw [List.length_singleton] at hpop
  rw [popNum, hpop, Option.map_some]
  simp [bytesNum]

end StackSerializer

end Far2l
