/-
Far2l.Copy.DiskFile — an open file: its content, and the position its descriptor
is at.
-/
import Mathlib.Algebra.GroupWithZero.Nat
import Mathlib.Algebra.Ring.Int.Defs

namespace Far2l.Copy

abbrev Byte := UInt8

/-- A content cut off at `n`, or filled up with zeroes to it. -/
def cutAt (n : Nat) (content : List Byte) : List Byte :=
  content.take n ++ List.replicate (n - content.length) 0

/-- A file and its descriptor. -/
structure DiskFile where
  content : List Byte := []
  pos : Nat := 0
  isOpen : Bool := false

namespace DiskFile

/-- `open`, at the beginning. -/
def opened (F : DiskFile) : DiskFile := { F with pos := 0, isOpen := true }

def close (F : DiskFile) : DiskFile := { F with isOpen := false }

/-- `write`: what lies between the end and the position is zero. -/
def write (F : DiskFile) (data : List Byte) : DiskFile :=
  { F with
    content := cutAt F.pos F.content ++ data ++ F.content.drop (F.pos + data.length)
    pos := F.pos + data.length }

/-- `lseek` to an absolute position. -/
def seek (F : DiskFile) (pos : Int) : Option DiskFile :=
  if F.isOpen ∧ 0 ≤ pos then some { F with pos := pos.toNat } else none

/-- `ftruncate` at the position. -/
def setEnd (F : DiskFile) : Option DiskFile :=
  if F.isOpen then some { F with content := cutAt F.pos F.content } else none

end DiskFile

/-! ## Cutting a content -/

variable {n m : Nat} {content data : List Byte}

theorem length_cutAt (n : Nat) (content : List Byte) : (cutAt n content).length = n := by
  rw [cutAt, List.length_append, List.length_take, List.length_replicate]
  omega

/-- A content is cut off where it ends. -/
theorem cutAt_length (content : List Byte) : cutAt content.length content = content := by
  rw [cutAt, List.take_length, Nat.sub_self, List.replicate_zero, List.append_nil]

/-- Cutting off inside the content. -/
theorem cutAt_of_le (h : n ≤ content.length) : cutAt n content = content.take n := by
  rw [cutAt, Nat.sub_eq_zero_of_le h, List.replicate_zero, List.append_nil]

/-- Filling up the content. -/
theorem cutAt_of_ge (h : content.length ≤ n) :
    cutAt n content = content ++ List.replicate (n - content.length) 0 := by
  rw [cutAt, List.take_of_length_le h]

/-- Filling up in two steps. -/
theorem cutAt_add (h : content.length ≤ n) (m : Nat) :
    cutAt (n + m) content = cutAt n content ++ List.replicate m 0 := by
  rw [cutAt_of_ge h, cutAt_of_ge (by omega), List.append_assoc, List.replicate_append_replicate]
  congr 2
  omega

/-- What has been filled up is cut off again. -/
theorem cutAt_take (h : content.length ≤ n) (hm : m ≤ n) :
    cutAt m content = (cutAt n content).take m := by
  rw [cutAt_of_ge h, List.take_append, List.take_replicate, cutAt]
  congr 2
  omega

/-- A beginning of the content is kept. -/
theorem cutAt_of_isPrefix (h : data <+: content) : cutAt data.length content = data := by
  rw [cutAt_of_le h.length_le]
  exact (List.prefix_iff_eq_take.mp h).symm

/-- A write at or behind the end appends. -/
theorem content_write {F : DiskFile} (h : F.content.length ≤ F.pos) (data : List Byte) :
    (F.write data).content = cutAt F.pos F.content ++ data := by
  show cutAt F.pos F.content ++ data ++ F.content.drop (F.pos + data.length) = _
  rw [List.drop_of_length_le (by omega), List.append_nil]

end Far2l.Copy
