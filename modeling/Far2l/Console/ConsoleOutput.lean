/-
Far2l.Console.ConsoleOutput — writing to the console: `ConsoleOutput` of
`WinPort/src/ConsoleOutput.cpp`, and the composite characters of
`WinPort/src/APIConsole.cpp`.

The areas that are to be repainted, and the backend that repaints them, are left
out. `ModifySequenceAt` is a loop that need not end; `turn` is its body.
-/
import Far2l.Console.ConsoleBuffer
import Far2l.Utils.CharClasses

namespace Far2l

/-! ## Composite characters -/

/-- `COMPOSITE_CHAR_MARK`. -/
def COMPOSITE_CHAR_MARK : UInt64 := 0x8000000000000000

/-- A `WCHAR` that becomes a `COMP_CHAR` without a cast to an unsigned type. -/
def signExtend (c : WChar) : UInt64 :=
  if c < 0x80000000 then c.toUInt64 else c.toUInt64 ||| 0xFFFFFFFF00000000

/-- `CompositeCharRegister`, over the sequences registered before. -/
def compositeCharRegister (id2str : List WStr) (sequence : WStr) : List WStr × UInt64 :=
  match sequence.takeWhile (· ≠ 0) with
  | [] => (id2str, 0)
  | [c] => (id2str, signExtend c)
  | str =>
      match id2str.idxOf? str with
      | some id => (id2str, UInt64.ofNat id ||| COMPOSITE_CHAR_MARK)
      | none => (id2str ++ [str], UInt64.ofNat id2str.length ||| COMPOSITE_CHAR_MARK)

/-- `CompositeCharLookup`. -/
def compositeCharLookup (id2str : List WStr) (compositeChar : UInt64) : WStr :=
  if compositeChar &&& COMPOSITE_CHAR_MARK = 0 then [0x2022]
  else id2str.getD (compositeChar &&& 0x7FFFFFFFFFFFFFFF).toNat [0x2022]

/-! ## `ConsoleOutput` -/

/-- The members of `ConsoleOutput` that writing looks at. `composites` are the composite
characters there are, which all consoles share; `scrollTop` and `scrollBottom` are
`_scroll_region`. -/
structure ConsoleOutput where
  buf : ConsoleBuffer
  tempChars : List CharInfo := []
  mode : UInt32 := 3
  attributes : UInt64 := 7
  prevPos : Coord := ⟨-1, -1⟩
  cursorPos : Coord := ⟨0, 0⟩
  scrollCallback : Bool := false
  scrollTop : Nat := 0
  scrollBottom : Nat := 32767
  composites : List WStr := []

/-- What `ModifySequenceAt` does to the cells, one after the other. -/
inductive SequenceModifier where
  | writeStr (str : WStr)
  | fillChar (chr : WChar) (count : Nat)
  | fillAttr (attr : UInt64) (count : Nat)

/-- `sm.count` -/
def SequenceModifier.count : SequenceModifier → Nat
  | .writeStr str => str.length
  | .fillChar _ count => count
  | .fillAttr _ count => count

namespace ConsoleOutput

/-- `ENABLE_PROCESSED_OUTPUT` -/
def processed (O : ConsoleOutput) : Bool := O.mode &&& 1 ≠ 0

/-- `ENABLE_WRAP_AT_EOL_OUTPUT` -/
def wrapAtEol (O : ConsoleOutput) : Bool := O.mode &&& 2 ≠ 0

/-- `ApplyCoordinateLimits`. -/
def applyCoordinateLimits (v : Int) (limit : Nat) : Int :=
  if v ≤ 0 then 0 else if v.toNat ≥ limit then short (limit - 1) else v

/-- `SetScrollRegion`; the members are `USHORT`s. -/
def setScrollRegion (O : ConsoleOutput) (top bottom : Int) : ConsoleOutput :=
  let bottom := applyCoordinateLimits bottom O.buf.height
  let top := applyCoordinateLimits top bottom.toNat
  { O with scrollTop := (top % 65536).toNat, scrollBottom := (bottom % 65536).toNat }

/-! ## Scrolling -/

/-- A blank cell. -/
def blank (O : ConsoleOutput) : CharInfo := ⟨SPACE.toUInt64, O.attributes⟩

/-- `_temp_chars.resize`. -/
def resize (chars : List CharInfo) (n : Nat) : List CharInfo :=
  chars.take n ++ List.replicate (n - chars.length) default

/-- The first row goes to the scroll callback, through `_temp_chars`. -/
def readForCallback (O : ConsoleOutput) (temp : List CharInfo) : Option (List CharInfo) :=
  if O.scrollCallback ∧ O.scrollTop = 0 then
    (O.buf.readArea temp ⟨short O.buf.width, 1⟩ ⟨0, 0⟩ ⟨0, 0, short (O.buf.width - 1), 0⟩).map
      Prod.fst
  else some temp

/-- `_temp_chars` is filled with blanks, as far as a row goes. -/
def blankRow (O : ConsoleOutput) (temp : List CharInfo) : Option (List CharInfo) :=
  if temp.length < O.buf.width then none
  else some (List.replicate O.buf.width O.blank ++ temp.drop O.buf.width)

/-- `ScrollOutputOnOverflow`. -/
def scrollOutputOnOverflow (O : ConsoleOutput) : Option ConsoleOutput :=
  let width := O.buf.width
  let height := min O.buf.height (O.scrollBottom + 1)
  if ((height : Int) - O.scrollTop) % 2 ^ 32 < 2 ∨ width = 0 then some O
  else
    let temp := resize O.tempChars (width * (height - 1))
    if temp = [] then some { O with tempChars := temp }
    else do
      let temp ← O.readForCallback temp
      let size : Coord := ⟨short width, short ((height : Int) - 1 - O.scrollTop)⟩
      let (temp, rect) ← O.buf.readArea temp size ⟨0, 0⟩
        ⟨0, short (O.scrollTop + 1), short (width - 1), short ((height : Int) - 1)⟩
      if rect ≠ ⟨0, O.scrollTop + 1, (width : Int) - 1, (height : Int) - 1⟩ then
        some { O with tempChars := temp }
      else
        let (buf, rect) ← O.buf.writeArea temp size ⟨0, 0⟩
          { rect with top := short O.scrollTop, bottom := short ((height : Int) - 2) }
        let temp ← O.blankRow temp
        let (buf, _) ← buf.writeArea temp { size with y := 1 } ⟨0, 0⟩
          { rect with
            left := 0, right := short (width - 1)
            top := short ((height : Int) - 1), bottom := short ((height : Int) - 1) }
        some { O with buf := buf, tempChars := temp }

/-! ## A cell -/

/-- A cell is written, and the second cell behind it when `out` is 2 and the first is modified. -/
def writeEntity (O : ConsoleOutput) (ch : CharInfo) (pos : Coord) (out : Int) : ConsoleOutput :=
  match O.buf.write ch pos with
  | (.modified, buf) =>
      if out = 2 then
        { O with buf := (buf.write { ch with unicodeChar := 0 } ⟨short (pos.x + 1), pos.y⟩).2 }
      else { O with buf := buf }
  | (_, buf) => { O with buf := buf }

/-- `ModifySequenceEntityAt` with `SM_WRITE_STR`; with the number of columns that are taken. -/
def writeCharAt (cc : CharClasses) (O : ConsoleOutput) (c : WChar) (pos : Coord) :
    ConsoleOutput × Int :=
  if cc.isPrefix c then
    ({ O with prevPos := pos }.writeEntity ⟨c.toUInt64, O.attributes⟩ pos 0, 0)
  else if O.prevPos.x ≥ 0 ∧ cc.suffix c then
    match O.buf.read O.prevPos with
    | none => (O, 0)
    | some ch =>
        let tmp := if ch.unicodeChar &&& COMPOSITE_CHAR_MARK ≠ 0 then
          compositeCharLookup O.composites ch.unicodeChar else [ch.unicodeChar.toUInt32]
        let (composites, compositeChar) := compositeCharRegister O.composites (tmp ++ [c])
        ({ O with composites := composites }.writeEntity ⟨compositeChar, O.attributes⟩ O.prevPos 0,
          0)
  else if c = TAB ∧ O.processed then
    ({ O with prevPos := pos }.writeEntity ⟨SPACE.toUInt64, O.attributes⟩ pos 1, 1)
  else
    let out := if cc.fullWidth c then 2 else 1
    ({ O with prevPos := pos }.writeEntity ⟨c.toUInt64, O.attributes⟩ pos out, out)

/-- `ModifySequenceEntityAt` with `SM_FILL_CHAR` or `SM_FILL_ATTR`. -/
def fillAt (O : ConsoleOutput) (f : CharInfo → CharInfo) (pos : Coord) : ConsoleOutput × Int :=
  match O.buf.read pos with
  | none => (O, 1)
  | some ch => (O.writeEntity (f ch) pos 1, 1)

/-! ## The loop of `ModifySequenceAt` -/

/-- `scroll_edge` -/
def scrollEdge (O : ConsoleOutput) : Nat := min O.buf.height (O.scrollBottom + 1)

/-- The position goes to the next row; the text is scrolled when there is none. -/
def nextRow (O : ConsoleOutput) (pos : Coord) : Option (ConsoleOutput × Coord) :=
  let y := short (pos.y + 1)
  if y ≥ O.scrollEdge then
    O.scrollOutputOnOverflow.map fun O => (O, { pos with y := short (y - 1) })
  else some (O, { pos with y := y })

/-- Is the next character to stand in the next row, behind the last column? -/
def wraps (O : ConsoleOutput) (c : WChar) : Bool :=
  O.wrapAtEol && (!O.processed || (c ≠ CR && c ≠ LF))

/-- A position behind the last column goes to the next row or back to that column. -/
def leaveMargin (O : ConsoleOutput) (wraps : Bool) (pos : Coord) : Option (ConsoleOutput × Coord) :=
  if pos.x ≥ O.buf.width then
    if wraps then O.nextRow { pos with x := 0 }
    else some (O, { pos with x := short (O.buf.width - 1) })
  else some (O, pos)

/-- What a character of a string does, once the position is in front of the margin. -/
def putChar (cc : CharClasses) (O : ConsoleOutput) (c : WChar) (pos : Coord) :
    Option (ConsoleOutput × Coord) :=
  if c = 0x08 ∧ O.processed then
    some (O, if pos.x > 0 then { pos with x := short (pos.x - 1) } else pos)
  else if c = CR ∧ O.processed then some (O, { pos with x := 0 })
  else if c = LF ∧ O.processed then O.nextRow pos
  else
    let (O, out) := O.writeCharAt cc c pos
    some (O, { pos with x := short (pos.x + out) })

end ConsoleOutput

/-- The variables of `ModifySequenceAt`. -/
structure Writing where
  out : ConsoleOutput
  sm : SequenceModifier
  pos : Coord
  rv : Nat := 0

namespace Writing

variable (cc : CharClasses)

/-- The body of the loop for a character of a string. A tabulator is kept until the column is a
multiple of 8. -/
def turnChar (W : Writing) (c : WChar) (str : WStr) : Option Writing :=
  if c = 0x07 ∧ W.out.processed then some { W with sm := .writeStr str }
  else do
    let (O, pos) ← W.out.leaveMargin (W.out.wraps c) W.pos
    let (O, pos) ← O.putChar cc c pos
    if c ≠ TAB ∨ pos.x % 8 = 0 ∨ O.processed = false then
      some ⟨O, .writeStr str, pos, W.rv + 1⟩
    else some ⟨O, .writeStr (c :: str), pos, W.rv⟩

/-- The body of the loop for a cell that is filled. -/
def turnFill (W : Writing) (f : CharInfo → CharInfo) (sm : SequenceModifier) : Option Writing := do
  let (O, pos) ← W.out.leaveMargin true W.pos
  let (O, out) := O.fillAt f pos
  some ⟨O, sm, { pos with x := short (pos.x + out) }, W.rv + 1⟩

/-- The body of the loop of `ModifySequenceAt`. -/
def turn (W : Writing) : Option Writing :=
  match W.sm with
  | .writeStr [] => some W
  | .writeStr (c :: str) => W.turnChar cc c str
  | .fillChar _ 0 => some W
  | .fillChar chr (count + 1) =>
      W.turnFill (fun ch => { ch with unicodeChar := chr.toUInt64 }) (.fillChar chr count)
  | .fillAttr _ 0 => some W
  | .fillAttr attr (count + 1) =>
      W.turnFill (fun ch => { ch with attributes := attr }) (.fillAttr attr count)

end Writing

end Far2l
