/-
Far2l.Console.ScreenBuf — the virtual buffer of the screen: `ScreenBuf` of
`far/src/console/scrbuf.cpp`, over the console that `console::ReadOutput` and
`console::WriteOutput` of `far/src/console/console.cpp` read and write.

`bufX` and `bufY` are `SHORT`s that are not negative, so that no column and no row
of the screen leaves the range of a `SHORT`. An access that is not inside the
memory it belongs to gives no result. The indicators of macros and of elevated
rights are left out.
-/
import Far2l.Console.ConsoleBuffer

namespace Far2l

/-! ## The console, in portions -/

namespace Console

/-- `MAXSIZE`: what is read or written at once. -/
def MAXSIZE : Int := 0x8000

/-- The rows of a portion. -/
def portionRows (width : Int) : Int := max (MAXSIZE / (width * 16)) 1

/-- The loop of `WriteOutput`, from the row `i` of the region on. -/
def writePortions (start : List CharInfo) (size coord : Coord) (region : SmallRect) :
    (fuel : Nat) → (i : Int) → ConsoleBuffer → Option ConsoleBuffer
  | 0, _, B => some B
  | fuel + 1, i, B =>
      if i < region.bottom - region.top + 1 then
        (B.writeArea (start.drop (i * size.x).toNat) size coord
          { region with top := short (region.top + i) }).bind fun written =>
            writePortions start size coord region fuel (i + size.y) written.1
      else some B

/-- `console::WriteOutput`. -/
def writeOutput (B : ConsoleBuffer) (buffer : List CharInfo) (size coord : Coord)
    (region : SmallRect) : Option ConsoleBuffer :=
  let start := buffer.drop (coord.y * size.x).toNat
  let size := { size with y := short (size.y - coord.y) }
  let coord := { coord with y := 0 }
  if size.x * size.y * 16 > MAXSIZE then
    writePortions start { size with y := short (portionRows size.x) } coord region
      (region.bottom - region.top + 1).toNat 0 B
  else (B.writeArea start size coord region).map Prod.fst

/-- The loop of `ReadOutput`, from the row `i` of the region on. -/
def readPortions (B : ConsoleBuffer) (size coord : Coord) (region : SmallRect) :
    (fuel : Nat) → (i : Int) → (start : List CharInfo) → Option (List CharInfo)
  | 0, _, start => some start
  | fuel + 1, i, start =>
      if i < region.bottom - region.top + 1 then
        let skipped := (i * size.x).toNat
        (B.readArea (start.drop skipped) size coord
          { region with top := short (region.top + i) }).bind fun data =>
            readPortions B size coord region fuel (i + size.y) (start.take skipped ++ data.1)
      else some start

/-- `console::ReadOutput`. -/
def readOutput (B : ConsoleBuffer) (buffer : List CharInfo) (size coord : Coord)
    (region : SmallRect) : Option (List CharInfo) :=
  let skipped := (coord.y * size.x).toNat
  let start := buffer.drop skipped
  let size := { size with y := short (size.y - coord.y) }
  let coord := { coord with y := 0 }
  let data :=
    if size.x * size.y * 16 > MAXSIZE then
      readPortions B { size with y := short (portionRows size.x) } coord region
        (region.bottom - region.top + 1).toNat 0 start
    else (B.readArea start size coord region).map Prod.fst
  data.map (buffer.take skipped ++ ·)

end Console

/-! ## The buffer -/

/-- The corners of a rectangle. -/
structure Rect where
  x1 : Int
  y1 : Int
  x2 : Int
  y2 : Int
  deriving DecidableEq, Repr

/-- `Width` -/
def Rect.width (r : Rect) : Nat := (r.x2 - r.x1 + 1).toNat

/-- `Height` -/
def Rect.height (r : Rect) : Nat := (r.y2 - r.y1 + 1).toNat

/-- `SaveScreen`: a part of the screen that has been saved. -/
structure SaveScreen where
  rect : Rect
  screenBuf : List CharInfo

/-- `ScreenBuf`, with the flags of `SBFlags`. -/
structure ScreenBuf where
  bufX : Nat
  bufY : Nat
  buf : List CharInfo
  shadow : List CharInfo
  flushed : Bool := true
  flushedCurPos : Bool := true
  flushedCurType : Bool := true
  useShadow : Bool := false
  curX : Int := 0
  curY : Int := 0
  curVisible : Bool := false
  curSize : UInt32 := 0
  lockCount : Int := 0

/-- A cell that a pointer stands at is changed. -/
def modifyCell (buf : List CharInfo) (p : Int) (f : CharInfo → Option CharInfo) :
    Option (List CharInfo) :=
  if p < 0 then none
  else (buf[p.toNat]?).bind fun c => (f c).map fun c => buf.set p.toNat c

/-- The first `n` cells from `p` on are changed, one after the other. -/
def cellLoop (f : Nat → CharInfo → Option CharInfo) (p : Int) :
    (n : Nat) → List CharInfo → Option (List CharInfo)
  | 0, buf => some buf
  | n + 1, buf => (cellLoop f p n buf).bind fun buf => modifyCell buf (p + n) (f n)

/-- The cells of the first `n` rows of a rectangle are changed, one row after the other. -/
def rowLoop (bufX : Nat) (r : Rect) (f : Nat → Nat → CharInfo → Option CharInfo) :
    (n : Nat) → List CharInfo → Option (List CharInfo)
  | 0, buf => some buf
  | n + 1, buf => (rowLoop bufX r f n buf).bind fun buf =>
      cellLoop (f n) ((r.y1 + n) * bufX + r.x1) r.width buf

/-- The attributes `ApplyShadow` makes of others. -/
def shadowAttr (attr64 : UInt64) : UInt64 :=
  let attr64 := attr64 &&& 0xFFFFFFFFFFFFFF07
  let halved : UInt64 := attr64 >>> 1
  let attr64 := (attr64 &&& 0xFFFF) ||| (halved &&& 0x7F7F7F7F7F7F0000)
  if (attr64 &&& 0xFF) = 0 then attr64 ||| 8 else attr64

namespace ScreenBuf

/-- `SetVidChar`, over the table `Oem2Unicode`. -/
def setVidChar (oem2Unicode : UInt64 → UInt64) (chr : UInt64) : UInt64 :=
  if chr < 0x20 ∨ chr = 0x7F then oem2Unicode chr else chr

/-- `Write`; `text` is what is there to be read. -/
def write (oem2Unicode : UInt64 → UInt64) (s : ScreenBuf) (x y : Int) (text : List CharInfo)
    (textLength : Int) : Option ScreenBuf :=
  let text := if x < 0 then text.drop (-x).toNat else text
  let textLength := if x < 0 then max 0 (textLength + x) else textLength
  let x := if x < 0 then 0 else x
  if x ≥ s.bufX ∨ y ≥ s.bufY ∨ textLength = 0 ∨ y < 0 then some s
  else
    let textLength := if x + textLength ≥ s.bufX then s.bufX - x else textLength
    (cellLoop (fun i _ => (text[i]?).map fun ch =>
        { ch with unicodeChar := setVidChar oem2Unicode ch.unicodeChar })
      (y * s.bufX + x) textLength.toNat s.buf).map fun buf =>
        { s with buf := buf, flushed := false }

/-- The rectangle as far as the screen goes. -/
def cut (s : ScreenBuf) (r : Rect) : Rect :=
  ⟨max 0 r.x1, max 0 r.y1, min (s.bufX - 1) r.x2, min (s.bufY - 1) r.y2⟩

/-- Is a part of the rectangle on the screen? -/
def onScreen (s : ScreenBuf) (r : Rect) : Prop :=
  r.x1 ≤ (s.bufX : Int) - 1 ∧ r.y1 ≤ (s.bufY : Int) - 1 ∧ r.x2 ≥ 0 ∧ r.y2 ≥ 0

instance (s : ScreenBuf) (r : Rect) : Decidable (s.onScreen r) := inferInstanceAs (Decidable (_ ∧ _))

/-- What an operation makes of the attributes of a rectangle: the new ones of the cell in its row
`i` and column `j`. -/
def recolour (s : ScreenBuf) (r : Rect) (attr : Nat → Nat → CharInfo → Option UInt64) :
    Option ScreenBuf :=
  (rowLoop s.bufX r (fun i j c => (attr i j c).map fun a => { c with attributes := a }) r.height
    s.buf).map fun buf => { s with buf := buf }

/-- `SrcBuf->Attributes` in `ApplyShadow`. -/
def sourceAttr (ss : Option SaveScreen) (r : Rect) (i j : Nat) (c : CharInfo) : Option UInt64 :=
  match ss with
  | none => some c.attributes
  | some ss =>
      let p := (r.y1 + i - ss.rect.y1) * (ss.rect.x2 + 1 - ss.rect.x1) + (r.x1 - ss.rect.x1) + j
      if p < 0 then none else (ss.screenBuf[p.toNat]?).map CharInfo.attributes

/-- `ApplyShadow`. -/
def applyShadow (s : ScreenBuf) (r : Rect) (ss : Option SaveScreen) : Option ScreenBuf :=
  s.recolour r fun i j c => (sourceAttr ss r i j c).map shadowAttr

/-- The attributes `ApplyColorMask` makes of others. -/
def maskAttr (colorMask attr : UInt64) : UInt64 :=
  if attr &&& ~~~colorMask = 0 then 0x08 else attr &&& ~~~colorMask

/-- `ApplyColorMask`. -/
def applyColorMask (s : ScreenBuf) (r : Rect) (colorMask : UInt64) : Option ScreenBuf :=
  s.recolour r fun _ _ c => some (maskAttr colorMask c.attributes)

/-- `ApplyColor`. -/
def applyColor (s : ScreenBuf) (r : Rect) (color : UInt64) : Option ScreenBuf :=
  if s.onScreen r then s.recolour (s.cut r) fun _ _ _ => some color else some s

/-- `ApplyColor` with a colour that is left as it is. -/
def applyColorExcept (s : ScreenBuf) (r : Rect) (color exceptColor : UInt64) : Option ScreenBuf :=
  if s.onScreen r then
    s.recolour (s.cut r) fun _ _ c =>
      some (if c.attributes ≠ exceptColor then color else c.attributes)
  else some s

/-- `FillRect`. -/
def fillRect (oem2Unicode : UInt64 → UInt64) (s : ScreenBuf) (r : Rect) (ch color : UInt64) :
    Option ScreenBuf :=
  (rowLoop s.bufX r (fun _ _ _ => some ⟨setVidChar oem2Unicode ch, color⟩) r.height s.buf).map
    fun buf => { s with buf := buf, flushed := false }

/-- `MoveCursor`. -/
def moveCursor (s : ScreenBuf) (x y : Int) : ScreenBuf :=
  let s := if s.curX < 0 ∨ s.curY < 0 ∨ s.curX > s.bufX - 1 ∨ s.curY > s.bufY - 1 then
    { s with curVisible := false } else s
  if x ≠ s.curX ∨ y ≠ s.curY ∨ s.curVisible = false then
    { s with curX := short x, curY := short y, flushedCurPos := false }
  else s

/-- `SetCursorType`. -/
def setCursorType (s : ScreenBuf) (visible : Bool) (size : UInt32) : ScreenBuf :=
  if s.curVisible ≠ visible ∨ s.curSize ≠ size then
    { s with curVisible := visible, curSize := size, flushedCurType := false }
  else s

/-- `Lock`. -/
def lock (s : ScreenBuf) : ScreenBuf := { s with lockCount := s.lockCount + 1 }

/-- `Unlock`. -/
def unlock (s : ScreenBuf) : ScreenBuf :=
  if s.lockCount > 0 then { s with lockCount := s.lockCount - 1 } else s

/-! ## What `Flush` writes -/

/-- The variables of the loop over the cells; `writeList` has its last rectangle in front. -/
structure Diff where
  region : SmallRect
  started : Bool
  changes : Bool
  writeList : List SmallRect

/-- The region nothing has been added to. -/
def noRegion (s : ScreenBuf) : SmallRect := ⟨s.bufX - 1, s.bufY - 1, 0, 0⟩

/-- Does the cell differ from the one in `Shadow`? -/
def differs (s : ScreenBuf) (x y : Nat) : Prop :=
  s.buf[y * s.bufX + x]? ≠ s.shadow[y * s.bufX + x]?

instance (s : ScreenBuf) (x y : Nat) : Decidable (s.differs x y) :=
  inferInstanceAs (Decidable (_ ≠ _))

/-- The region with one more cell. -/
def extend (region : SmallRect) (x y : Nat) : SmallRect :=
  ⟨min region.left x, min region.top y, max region.right x, max region.bottom y⟩

/-- The region with a column more on either side. -/
def widen (s : ScreenBuf) (region : SmallRect) : SmallRect :=
  { region with left := max 0 (region.left - 1), right := min (region.right + 1) (s.bufX - 1) }

/-- `MAX_DELTA` -/
def MAX_DELTA : Int := 5

/-- Does the region go on where the last rectangle ends? -/
def merges (region last : SmallRect) : Prop :=
  region.top - 1 = last.bottom
    ∧ ((region.left ≥ last.left ∧ region.left - last.left < MAX_DELTA)
      ∨ (last.right ≥ region.right ∧ last.right - region.right < MAX_DELTA))

instance (region last : SmallRect) : Decidable (merges region last) :=
  inferInstanceAs (Decidable (_ ∧ _))

/-- The region is put behind the list, or becomes a part of the last rectangle. -/
def push (region : SmallRect) : List SmallRect → List SmallRect
  | [] => [region]
  | last :: list =>
      if merges region last then
        { last with
          bottom := region.bottom
          left := min last.left region.left
          right := max last.right region.right } :: list
      else region :: last :: list

/-- What a cell does to the variables. -/
def diffCell (s : ScreenBuf) (d : Diff) (x y : Nat) : Diff :=
  if s.differs x y then
    { d with region := extend d.region x y, changes := true, started := true }
  else if d.started ∧ (y : Int) > d.region.bottom ∧ (x : Int) ≥ d.region.left then
    { d with
      region := s.noRegion, started := false, writeList := push (s.widen d.region) d.writeList }
  else d

/-- The first `n` cells of a row. -/
def diffRow (s : ScreenBuf) (d : Diff) (y : Nat) : (n : Nat) → Diff
  | 0 => d
  | n + 1 => s.diffCell (s.diffRow d y n) n y

/-- The first `n` rows. -/
def diffRows (s : ScreenBuf) : (n : Nat) → Diff
  | 0 => ⟨s.noRegion, false, false, []⟩
  | n + 1 => s.diffRow (s.diffRows n) n s.bufX

/-- `WriteList` and `Changes`. -/
def writeList (s : ScreenBuf) : List SmallRect × Bool :=
  if s.useShadow then
    let d := s.diffRows s.bufY
    ((if d.started then d.region :: d.writeList else d.writeList).reverse, d.changes)
  else ([⟨0, 0, s.bufX - 1, s.bufY - 1⟩], true)

end ScreenBuf

/-! ## The buffer and the console -/

/-- The buffer, the cells of the console, where its cursor is and how it looks. -/
structure Display where
  scrBuf : ScreenBuf
  console : ConsoleBuffer
  cursorPosition : Coord
  cursorInfo : UInt32 × Bool

namespace Display

/-- `FillBuf`. -/
def fillBuf (S : Display) : Option Display :=
  let s := S.scrBuf
  (Console.readOutput S.console s.buf ⟨s.bufX, s.bufY⟩ ⟨0, 0⟩
    ⟨0, 0, s.bufX - 1, s.bufY - 1⟩).map fun buf =>
      { S with scrBuf := { s with
          buf := buf, shadow := buf, useShadow := true
          curX := S.cursorPosition.x, curY := S.cursorPosition.y } }

/-- The regions of `WriteList` are written, one after the other. -/
def writeRegions (s : ScreenBuf) : List SmallRect → ConsoleBuffer → Option ConsoleBuffer
  | [], B => some B
  | region :: list, B =>
      (Console.writeOutput B s.buf ⟨s.bufX, s.bufY⟩ ⟨region.left, region.top⟩ region).bind
        (writeRegions s list)

/-- What `Flush` does to the cells. `ShowTime` writes the clock, if it is shown and has changed. -/
def flushCells (oem2Unicode : UInt64 → UInt64) (S : Display) (clock : Option (List CharInfo)) :
    Option Display := do
  let s := { S.scrBuf with flushed := true }
  let s ← clock.elim (some s) fun text => s.write oem2Unicode (s.bufX - 1 - 4) 0 text text.length
  let (list, changes) := s.writeList
  if changes then
    let console ← writeRegions s list S.console
    some { S with scrBuf := { s with shadow := s.buf }, console := console }
  else some { S with scrBuf := s }

/-- `Console.SetCursorInfo` in `Flush`, for a cursor that is to be seen or not. -/
def flushCursorType (S : Display) (visible : Bool) : Display :=
  if S.scrBuf.flushedCurType = false ∧ S.scrBuf.curVisible = visible then
    { S with
      cursorInfo := (S.scrBuf.curSize, S.scrBuf.curVisible)
      scrBuf := { S.scrBuf with flushedCurType := true } }
  else S

/-- `Console.SetCursorPosition` in `Flush`. -/
def flushCursorPos (S : Display) : Display :=
  if S.scrBuf.flushedCurPos = false then
    { S with
      cursorPosition := ⟨S.scrBuf.curX, S.scrBuf.curY⟩
      scrBuf := { S.scrBuf with flushedCurPos := true } }
  else S

/-- `Flush`. -/
def flush (oem2Unicode : UInt64 → UInt64) (S : Display) (force : Bool)
    (clock : Option (List CharInfo)) : Option Display :=
  if S.scrBuf.lockCount ≠ 0 then some S
  else
    let S := S.flushCursorType false
    (if force ∨ S.scrBuf.flushed = false then S.flushCells oem2Unicode clock else some S).map
      fun S =>
        let S := S.flushCursorPos.flushCursorType true
        { S with scrBuf := { S.scrBuf with useShadow := true, flushed := true } }

/-! ## Runs -/

/-- The operations. `Flush` comes with the text of the clock it shows. -/
inductive Op where
  | write (x y : Int) (text : List CharInfo) (textLength : Int)
  | applyShadow (r : Rect) (ss : Option SaveScreen)
  | applyColorMask (r : Rect) (colorMask : UInt64)
  | applyColor (r : Rect) (color : UInt64)
  | applyColorExcept (r : Rect) (color exceptColor : UInt64)
  | fillRect (r : Rect) (ch color : UInt64)
  | moveCursor (x y : Int)
  | setCursorType (visible : Bool) (size : UInt32)
  | lock
  | unlock
  | flush (force : Bool) (clock : Option (List CharInfo))

/-- The screen with another buffer. -/
def onBuf (S : Display) (s : Option ScreenBuf) : Option Display := s.map fun s => { S with scrBuf := s }

/-- What an operation does. -/
def step (oem2Unicode : UInt64 → UInt64) (S : Display) : Op → Option Display
  | .write x y text textLength => S.onBuf (S.scrBuf.write oem2Unicode x y text textLength)
  | .applyShadow r ss => S.onBuf (S.scrBuf.applyShadow r ss)
  | .applyColorMask r colorMask => S.onBuf (S.scrBuf.applyColorMask r colorMask)
  | .applyColor r color => S.onBuf (S.scrBuf.applyColor r color)
  | .applyColorExcept r color exceptColor => S.onBuf (S.scrBuf.applyColorExcept r color exceptColor)
  | .fillRect r ch color => S.onBuf (S.scrBuf.fillRect oem2Unicode r ch color)
  | .moveCursor x y => S.onBuf (some (S.scrBuf.moveCursor x y))
  | .setCursorType visible size => S.onBuf (some (S.scrBuf.setCursorType visible size))
  | .lock => S.onBuf (some S.scrBuf.lock)
  | .unlock => S.onBuf (some S.scrBuf.unlock)
  | .flush force clock => S.flush oem2Unicode force clock

end Display

end Far2l
