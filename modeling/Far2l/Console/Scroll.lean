/-
Far2l.Console.Scroll — the console functions that move and fill cells without
writing text: `Scroll`, `FillCharacterAt` and `FillAttributeAt` of
`WinPort/src/ConsoleOutput.cpp`, and what `WinPort/src/APIConsole.cpp` tells of a
console.

A loop over the columns or the rows up to `MAXSHORT` does not end: the next
number would be the least `SHORT`. `turns` is the loop of `ModifySequenceAt` with
a bound on the turns.
-/
import Far2l.Console.ConsoleOutput

namespace Far2l

/-- The loop of `ModifySequenceAt`, of `fuel` turns at most. -/
def Writing.turns (cc : CharClasses) : (fuel : Nat) → Writing → Option Writing
  | 0, W => if W.sm.count = 0 then some W else none
  | fuel + 1, W => if W.sm.count = 0 then some W else (W.turn cc).bind (turns cc fuel)

/-- `CONSOLE_SCREEN_BUFFER_INFO`, without `dwMaximumWindowSize`. -/
structure ScreenBufferInfo where
  size : Coord
  cursorPosition : Coord
  attributes : UInt64
  window : SmallRect

namespace ConsoleBuffer

/-- A row of the loops that fill a rectangle. -/
def fillRow (fill : CharInfo) (left y : Int) : (columns : Nat) → ConsoleBuffer → ConsoleBuffer
  | 0, B => B
  | n + 1, B => ((fillRow fill left y n B).write fill ⟨left + n, y⟩).2

/-- The rows of the loops that fill a rectangle. -/
def fillRows (fill : CharInfo) (left top : Int) (columns : Nat) :
    (rows : Nat) → ConsoleBuffer → ConsoleBuffer
  | 0, B => B
  | n + 1, B => fillRow fill left (top + n) columns (fillRows fill left top columns n B)

/-- The loops of `Scroll` that fill a rectangle. -/
def fillArea (B : ConsoleBuffer) (fill : CharInfo) (rect : SmallRect) : Option ConsoleBuffer :=
  if rect.top ≤ rect.bottom
      ∧ (rect.bottom = 32767 ∨ rect.left ≤ rect.right ∧ rect.right = 32767) then none
  else some (fillRows fill rect.left rect.top (rect.right + 1 - rect.left).toNat
    (rect.bottom + 1 - rect.top).toNat B)

end ConsoleBuffer

/-- `ClipRect` -/
def clipRect (rect clip : SmallRect) : SmallRect where
  left := if rect.left < clip.left then clip.left else rect.left
  top := if rect.top < clip.top then clip.top else rect.top
  right := if rect.right > clip.right then clip.right else rect.right
  bottom := if rect.bottom > clip.bottom then clip.bottom else rect.bottom

/-- `ClipRect`: the offset of a rectangle that is clipped. -/
def clipOffset (rect clip : SmallRect) (offset : Coord) : Coord where
  x := if rect.left < clip.left then short (offset.x + (clip.left - rect.left)) else offset.x
  y := if rect.top < clip.top then short (offset.y + (clip.top - rect.top)) else offset.y

namespace ConsoleOutput

/-- `GetConsoleScreenBufferInfo` -/
def getConsoleScreenBufferInfo (O : ConsoleOutput) : ScreenBufferInfo where
  size := ⟨short O.buf.width, short O.buf.height⟩
  cursorPosition := O.cursorPos
  attributes := O.attributes
  window := ⟨0, 0, short ((O.buf.width : Int) - 1), short ((O.buf.height : Int) - 1)⟩

/-- `SetCursor` -/
def setCursor (O : ConsoleOutput) (pos : Coord) : ConsoleOutput := { O with cursorPos := pos }

/-- `GetScrollRegion`: the first row. -/
def scrollRegionTop (O : ConsoleOutput) : Int := short O.scrollTop

/-- `GetScrollRegion`: the last row. -/
def scrollRegionBottom (O : ConsoleOutput) : Int := short O.scrollBottom

/-! ## `Scroll` -/

/-- The greatest `size` of `_temp_chars`. -/
def maxTempChars : Nat := 2 ^ 59 - 1

/-- The cells that have been read go to `dst`, once `src` has been filled. -/
def place (O : ConsoleOutput) (temp : List CharInfo) (dataSize : Coord) (src dst : SmallRect)
    (clip : Option SmallRect) (fill : CharInfo) : Option ConsoleOutput := do
  let dataPos : Coord := clip.elim ⟨0, 0⟩ fun clip => clipOffset dst clip ⟨0, 0⟩
  let buf ← O.buf.fillArea fill (clip.elim src (clipRect src))
  let (buf, _) ← buf.writeArea temp dataSize dataPos (clip.elim dst (clipRect dst))
  some { O with buf := buf, tempChars := temp }

/-- `Scroll`. There is no result where `_temp_chars` cannot be as large as it is to be: the product
of two sizes is that of two `size_t`. -/
def scroll (O : ConsoleOutput) (rect : SmallRect) (clip : Option SmallRect) (origin : Coord)
    (fill : CharInfo) : Option ConsoleOutput :=
  if rect.right < rect.left ∨ rect.bottom < rect.top then some O
  else
    let dataSize : Coord := ⟨short (rect.right + 1 - rect.left), short (rect.bottom + 1 - rect.top)⟩
    let totalChars := (dataSize.x % 2 ^ 64 * (dataSize.y % 2 ^ 64) % 2 ^ 64).toNat
    let dst : SmallRect := ⟨origin.x, origin.y, short (origin.x + dataSize.x - 1),
      short (origin.y + dataSize.y - 1)⟩
    if maxTempChars < totalChars then none
    else do
      let (temp, src) ← O.buf.readArea (resize O.tempChars totalChars) dataSize ⟨0, 0⟩ rect
      O.place temp dataSize src dst clip fill

/-! ## Filling -/

/-- `FillConsoleOutputCharacter` -/
def fillCharacter (cc : CharClasses) (O : ConsoleOutput) (chr : WChar) (count : Nat) (pos : Coord) :
    Option ConsoleOutput :=
  (Writing.turns cc count ⟨O, .fillChar chr count, pos, 0⟩).map Writing.out

/-- `FillConsoleOutputAttribute` -/
def fillAttribute (cc : CharClasses) (O : ConsoleOutput) (attr : UInt64) (count : Nat) (pos : Coord) :
    Option ConsoleOutput :=
  (Writing.turns cc count ⟨O, .fillAttr attr count, pos, 0⟩).map Writing.out

end ConsoleOutput

end Far2l
