/-
Far2l.Console.ConsoleBuffer — `ConsoleBuffer` of `WinPort/src/ConsoleBuffer.cpp`:
the cells of the screen, row after row.

An access through an index that has been checked cannot fail. A copy with
`memcpy` can: it gives no result when it would leave one of the two buffers.
Widths and heights are below `2^31`, so that a cast to `int` changes none.
-/
import Far2l.Utils.Chars

namespace Far2l

/-- `CHAR_INFO`. -/
structure CharInfo where
  unicodeChar : UInt64
  attributes : UInt64
  deriving DecidableEq, Repr, Inhabited

/-- A value that is stored in a `SHORT`. -/
def short (v : Int) : Int := (v + 32768) % 65536 - 32768

/-- `COORD`. -/
structure Coord where
  x : Int
  y : Int
  deriving DecidableEq, Repr

/-- `SMALL_RECT`. -/
structure SmallRect where
  left : Int
  top : Int
  right : Int
  bottom : Int
  deriving DecidableEq, Repr

/-! ## Copies of cells -/

/-- `memcpy` of `n` cells. -/
def copyCells (dst : List CharInfo) (di : Nat) (src : List CharInfo) (si n : Nat) :
    Option (List CharInfo) :=
  if di + n ≤ dst.length ∧ si + n ≤ src.length then
    some (dst.take di ++ (src.drop si).take n ++ dst.drop (di + n))
  else none

/-- A number of rows is copied, `n` cells of each. -/
def copyRows (src : List CharInfo) (dstWidth srcWidth n : Nat) :
    (rows : Nat) → (dst : List CharInfo) → (di si : Nat) → Option (List CharInfo)
  | 0, dst, _, _ => some dst
  | rows + 1, dst, di, si =>
      (copyCells dst di src si n).bind fun dst =>
        copyRows src dstWidth srcWidth n rows dst (di + dstWidth) (si + srcWidth)

/-- `ConsoleBuffer`. -/
structure ConsoleBuffer where
  width : Nat
  chars : List CharInfo

/-- `ConsoleBuffer::WriteResult`. -/
inductive WriteResult where
  | bad
  | same
  | modified
  deriving DecidableEq, Repr

namespace ConsoleBuffer

/-- The height `GetSize` gives. -/
def height (B : ConsoleBuffer) : Nat := if B.width = 0 then 0 else B.chars.length / B.width

/-- Is the column one of the screen, and the row none above it? -/
def addressable (B : ConsoleBuffer) (pos : Coord) : Prop := 0 ≤ pos.x ∧ 0 ≤ pos.y ∧ pos.x < B.width

instance (B : ConsoleBuffer) (pos : Coord) : Decidable (B.addressable pos) :=
  inferInstanceAs (Decidable (_ ∧ _))

/-- The index of a cell. -/
def index (B : ConsoleBuffer) (pos : Coord) : Nat := pos.y.toNat * B.width + pos.x.toNat

/-- `Read` of a cell. -/
def read (B : ConsoleBuffer) (pos : Coord) : Option CharInfo :=
  if B.addressable pos then B.chars[B.index pos]? else none

/-- `Write` of a cell. -/
def write (B : ConsoleBuffer) (ch : CharInfo) (pos : Coord) : WriteResult × ConsoleBuffer :=
  match B.read pos with
  | none => (.bad, B)
  | some dch =>
      if dch = ch then (.same, B)
      else (.modified, { B with chars := B.chars.set (B.index pos) ch })

/-- `InspectCopyArea`: the last column, or row, is not behind the screen. -/
def cutToScreen (limit : Nat) (last : Int) : Int := if limit ≤ last then short (limit - 1) else last

/-- `InspectCopyArea`: the columns, or rows, are no more than the data has. -/
def cutToData (avail first last : Int) : Int :=
  if avail ≤ last - first then short (first + avail - 1) else last

/-- `InspectCopyArea`: the rectangle cut to what there is, and the index of its first cell. -/
def inspectCopyArea (B : ConsoleBuffer) (dataSize dataPos : Coord) (rect : SmallRect) :
    SmallRect × Option Nat :=
  if dataPos.x < 0 ∨ dataPos.y < 0 ∨ dataSize.x < 0 ∨ dataSize.y < 0
      ∨ dataPos.x ≥ dataSize.x ∨ dataPos.y ≥ dataSize.y then (rect, none)
  else
    let rect : SmallRect := { rect with
      right := cutToData (short (dataSize.x - dataPos.x)) rect.left (cutToScreen B.width rect.right)
      bottom := cutToData (short (dataSize.y - dataPos.y)) rect.top
        (cutToScreen B.height rect.bottom) }
    if B.width ≤ rect.left ∨ rect.right < rect.left ∨ rect.left < 0 then (rect, none)
    else if B.height ≤ rect.top ∨ rect.bottom < rect.top ∨ rect.top < 0 then (rect, none)
    else (rect, some (rect.top.toNat * B.width + rect.left.toNat))

/-- The rows of a rectangle. A loop over them whose last row is `MAXSHORT` does not end: the next
number of a row would be the least `SHORT`. -/
def rows (rect : SmallRect) : Option Nat :=
  if rect.bottom = 32767 then none else some (rect.bottom + 1 - rect.top).toNat

/-- `Read` of an area: the data and the rectangle. -/
def readArea (B : ConsoleBuffer) (data : List CharInfo) (dataSize dataPos : Coord)
    (rect : SmallRect) : Option (List CharInfo × SmallRect) :=
  match B.inspectCopyArea dataSize dataPos rect with
  | (rect, none) => some (data, rect)
  | (rect, some screen) =>
      (rows rect).bind fun rows =>
        (copyRows B.chars dataSize.x.toNat B.width (rect.right + 1 - rect.left).toNat rows data
          (dataPos.y.toNat * dataSize.x.toNat + dataPos.x.toNat) screen).map fun data => (data, rect)

/-- `Write` of an area: the buffer and the rectangle. -/
def writeArea (B : ConsoleBuffer) (data : List CharInfo) (dataSize dataPos : Coord)
    (rect : SmallRect) : Option (ConsoleBuffer × SmallRect) :=
  match B.inspectCopyArea dataSize dataPos rect with
  | (rect, none) => some (B, rect)
  | (rect, some screen) =>
      (rows rect).bind fun rows =>
        (copyRows data B.width dataSize.x.toNat (rect.right + 1 - rect.left).toNat rows B.chars
          screen (dataPos.y.toNat * dataSize.x.toNat + dataPos.x.toNat)).map fun chars =>
            ({ B with chars := chars }, rect)

end ConsoleBuffer

end Far2l
