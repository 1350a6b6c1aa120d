/-
Far2l.Sudo.Transaction — `BaseTransaction` of `WinPort/src/sudo/sudo_common.cpp`:
what the sudo client and the dispatcher send each other.

A value of a fixed size is its bytes, and a string is its length and its bytes. A
file descriptor travels beside the bytes, as the open file it stands for. Sending
and receiving leave `errno` as it is.
-/
import Far2l.Lib.Pipes
import Far2l.Utils.Chars

namespace Far2l.Sudo

/-! ## Values of a fixed size -/

/-- A type whose values are sent as they lie in memory. -/
class Pod (α : Type) where
  size : Nat
  bytes : α → List Byte
  ofBytes : List Byte → α
  length_bytes : ∀ v, (bytes v).length = size
  ofBytes_bytes : ∀ v, ofBytes (bytes v) = v

/-- The `k` low bytes of a number, the lowest one first. -/
def leBytes : Nat → Nat → List Byte
  | 0, _ => []
  | k + 1, n => UInt8.ofNat n :: leBytes k (n / 256)

def leNat : List Byte → Nat
  | [] => 0
  | b :: bs => b.toNat + 256 * leNat bs

theorem length_leBytes : ∀ k n : Nat, (leBytes k n).length = k
  | 0, _ => rfl
  | k + 1, n => congrArg (· + 1) (length_leBytes k (n / 256))

theorem leNat_leBytes : ∀ {k n : Nat}, n < 256 ^ k → leNat (leBytes k n) = n
  | 0, n, h => by
    rw [Nat.pow_zero, Nat.lt_one_iff] at h
    exact h.symm
  | k + 1, n, h => by
    have hdiv : n / 256 < 256 ^ k := Nat.div_lt_of_lt_mul (by rwa [Nat.pow_succ, Nat.mul_comm] at h)
    rw [leBytes, leNat, leNat_leBytes hdiv]
    show n % 256 + 256 * (n / 256) = n
    exact Nat.mod_add_div n 256

/-- `mode_t`, `uid_t`, `gid_t` -/
instance : Pod UInt32 where
  size := 4
  bytes v := leBytes 4 v.toNat
  ofBytes bs := UInt32.ofNat (leNat bs)
  length_bytes v := length_leBytes 4 v.toNat
  ofBytes_bytes v := by rw [leNat_leBytes v.toNat_lt, UInt32.ofNat_toNat]

/-- `size_t`, `unsigned long`, `dev_t` and pointers -/
instance : Pod UInt64 where
  size := 8
  bytes v := leBytes 8 v.toNat
  ofBytes bs := UInt64.ofNat (leNat bs)
  length_bytes v := length_leBytes 8 v.toNat
  ofBytes_bytes v := by rw [leNat_leBytes v.toNat_lt, UInt64.ofNat_toNat]

/-- `int` -/
instance : Pod Int32 where
  size := 4
  bytes v := Pod.bytes v.toUInt32
  ofBytes bs := (Pod.ofBytes bs : UInt32).toInt32
  length_bytes v := Pod.length_bytes v.toUInt32
  ofBytes_bytes v := by rw [Pod.ofBytes_bytes, Int32.toInt32_toUInt32]

/-- `ssize_t` -/
instance : Pod Int64 where
  size := 8
  bytes v := Pod.bytes v.toUInt64
  ofBytes bs := (Pod.ofBytes bs : UInt64).toInt64
  length_bytes v := Pod.length_bytes v.toUInt64
  ofBytes_bytes v := by rw [Pod.ofBytes_bytes, Int64.toInt64_toUInt64]

/-- A structure of `n` bytes. -/
abbrev Struct (n : Nat) : Type := { bs : List Byte // bs.length = n }

instance {n : Nat} : Pod (Struct n) where
  size := n
  bytes v := v.1
  ofBytes bs := if h : bs.length = n then ⟨bs, h⟩ else ⟨List.replicate n 0, List.length_replicate⟩
  length_bytes v := v.2
  ofBytes_bytes v := dif_pos v.2

/-- A string in memory. -/
abbrev Str : Type := { bs : List Byte // bs.length < 2 ^ 64 }

/-! ## Processes -/

/-- What travels. -/
inductive Item where
  | byte (b : Byte)
  | fd (file : Nat)

/-- A process: `errno`, and what it knows besides. -/
structure Process (σ : Type) where
  errno : Int32
  own : σ

/-- A program of a process. -/
abbrev Fn (σ α : Type) : Type := Prog (Process σ) Item α

section

variable {σ : Type}

def errno : Fn σ Int32 := do
  let p ← Prog.state
  pure p.errno

def setErrno (e : Int32) : Fn σ Unit := Prog.modify fun p => { p with errno := e }

/-! ## Sending -/

/-- `SendBuf` -/
def sendBuf : List Byte → Fn σ Unit
  | [] => pure ()
  | b :: bs => do
      Prog.sendItem (.byte b)
      sendBuf bs

/-- `SendPOD`, `SendInt` -/
def sendPOD {α : Type} [Pod α] (v : α) : Fn σ Unit := sendBuf (Pod.bytes v)

/-- `SendStr` -/
def sendStr (s : Str) : Fn σ Unit := do
  sendPOD (UInt64.ofNat s.1.length)
  sendBuf s.1

/-- `SendFD` -/
def sendFD (file : Nat) : Fn σ Unit := Prog.sendItem (.fd file)

/-- `SendErrno` -/
def sendErrno : Fn σ Unit := do sendPOD (← errno)

/-! ## Receiving -/

def recvByte : Fn σ Byte := do
  match ← Prog.recvItem with
  | .byte b => pure b
  | .fd _ => .fail

/-- `RecvBuf` -/
def recvBuf : Nat → Fn σ (List Byte)
  | 0 => pure []
  | n + 1 => do
      let b ← recvByte
      let bs ← recvBuf n
      pure (b :: bs)

/-- `RecvPOD`, `RecvInt` -/
def recvPOD (α : Type) [Pod α] : Fn σ α := do
  let bs ← recvBuf (Pod.size α)
  pure (Pod.ofBytes bs)

/-- `RecvStr` -/
def recvStr : Fn σ (List Byte) := do
  let len ← recvPOD UInt64
  recvBuf len.toNat

/-- `RecvFD` -/
def recvFD : Fn σ Nat := do
  match ← Prog.recvItem with
  | .byte _ => .fail
  | .fd file => pure file

/-- `RecvErrno` -/
def recvErrno : Fn σ Unit := do setErrno (← recvPOD Int32)

/-! ## What is received is what was sent -/

/-- A value on its way. -/
def pod {α : Type} [Pod α] (v : α) : List Item := (Pod.bytes v).map .byte

/-- A string on its way. -/
def str (s : Str) : List Item := pod (UInt64.ofNat s.1.length) ++ s.1.map .byte

variable {α : Type} [Pod α] (p : Process σ) (input rest : List Item)

@[simp] theorem errno_run : (errno : Fn σ Int32).run p input = some (p.errno, p, input, []) := rfl

@[simp] theorem setErrno_run (e : Int32) :
    (setErrno e : Fn σ Unit).run p input = some ((), { p with errno := e }, input, []) := rfl

@[simp] theorem pure_run {β : Type} (b : β) :
    (pure b : Fn σ β).run p input = some (b, p, input, []) := rfl

@[simp] theorem sendBuf_run (bs : List Byte) :
    (sendBuf bs : Fn σ Unit).run p input = some ((), p, input, bs.map .byte) := by
  induction bs with
  | nil => rfl
  | cons b bs ih =>
    show ((sendBuf bs : Fn σ Unit).run p input).map _ = _
    rw [ih]
    rfl

@[simp] theorem sendPOD_run (v : α) :
    (sendPOD v : Fn σ Unit).run p input = some ((), p, input, pod v) := sendBuf_run p input _

@[simp] theorem sendStr_run (s : Str) :
    (sendStr s : Fn σ Unit).run p input = some ((), p, input, str s) := by
  simp only [sendStr, Prog.run_bind, sendPOD_run, sendBuf_run, Option.bind_some, Prog.andThen,
    Option.map_some, str]

@[simp] theorem sendFD_run (file : Nat) :
    (sendFD file : Fn σ Unit).run p input = some ((), p, input, [.fd file]) := rfl

@[simp] theorem sendErrno_run :
    (sendErrno : Fn σ Unit).run p input = some ((), p, input, pod p.errno) := by
  simp only [sendErrno, Prog.run_bind, errno_run, sendPOD_run, Option.bind_some, Prog.andThen,
    Option.map_some, List.nil_append]

theorem recvBuf_run (bs : List Byte) :
    (recvBuf bs.length : Fn σ (List Byte)).run p (bs.map .byte ++ rest) = some (bs, p, rest, []) := by
  induction bs with
  | nil => rfl
  | cons b bs ih =>
    show ((recvBuf bs.length >>= fun bs => pure (b :: bs) : Fn σ (List Byte)).run p
      (bs.map .byte ++ rest)) = _
    rw [Prog.run_bind, ih]
    rfl

@[simp] theorem recvPOD_run (v : α) :
    (recvPOD α : Fn σ α).run p (pod v ++ rest) = some (v, p, rest, []) := by
  rw [recvPOD, Prog.run_bind, ← Pod.length_bytes v, pod, recvBuf_run]
  show some (Pod.ofBytes (Pod.bytes v), p, rest, []) = _
  rw [Pod.ofBytes_bytes]

@[simp] theorem recvStr_run (s : Str) :
    (recvStr : Fn σ (List Byte)).run p (str s ++ rest) = some (s.1, p, rest, []) := by
  have hlen : (UInt64.ofNat s.1.length).toNat = s.1.length := UInt64.toNat_ofNat_of_lt' s.2
  rw [recvStr, Prog.run_bind, str, List.append_assoc, recvPOD_run]
  show ((recvBuf (UInt64.ofNat s.1.length).toNat : Fn σ (List Byte)).run p
    (s.1.map .byte ++ rest)).map _ = _
  rw [hlen, recvBuf_run]
  rfl

/-- The last value. -/
@[simp] theorem recvPOD_run_last (v : α) :
    (recvPOD α : Fn σ α).run p (pod v) = some (v, p, [], []) := by
  have h := recvPOD_run p [] v
  rwa [List.append_nil] at h

@[simp] theorem recvStr_run_last (s : Str) :
    (recvStr : Fn σ (List Byte)).run p (str s) = some (s.1, p, [], []) := by
  have h := recvStr_run p [] s
  rwa [List.append_nil] at h

@[simp] theorem recvFD_run (file : Nat) :
    (recvFD : Fn σ Nat).run p (.fd file :: rest) = some (file, p, rest, []) := rfl

@[simp] theorem recvErrno_run (e : Int32) :
    (recvErrno : Fn σ Unit).run p (pod e ++ rest) = some ((), { p with errno := e }, rest, []) := by
  rw [recvErrno, Prog.run_bind, recvPOD_run]
  rfl

@[simp] theorem recvErrno_run_last (e : Int32) :
    (recvErrno : Fn σ Unit).run p (pod e) = some ((), { p with errno := e }, [], []) := by
  have h := recvErrno_run p [] e
  rwa [List.append_nil] at h

/-! ## Waiting -/

@[simp] theorem recvInt_waits : (recvPOD Int32 : Fn σ Int32).run p [] = none := rfl

@[simp] theorem recvInt_sent : (recvPOD Int32 : Fn σ Int32).sent p [] = [] := rfl

@[simp] theorem recvPointer_waits : (recvPOD UInt64 : Fn σ UInt64).run p [] = none := rfl

@[simp] theorem recvPointer_sent : (recvPOD UInt64 : Fn σ UInt64).sent p [] = [] := rfl

@[simp] theorem recvSize_waits : (recvPOD Int64 : Fn σ Int64).run p [] = none := rfl

@[simp] theorem recvSize_sent : (recvPOD Int64 : Fn σ Int64).sent p [] = [] := rfl

end

end Far2l.Sudo
