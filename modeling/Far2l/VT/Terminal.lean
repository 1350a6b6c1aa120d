/-
Far2l.VT.Terminal — what the actions of the automaton do to the console:
`VTAnsiContext` of `far/src/vt/vtansi.cpp`.

Fonts are left to `FontOps`, and what goes to the shell (replies, mouse modes,
titles, the palette) is left out. `fuel` bounds the turns of the loop that writes
a character, which need not end.
-/
import Far2l.Console.Scroll
import Far2l.VT.Parser

namespace Far2l

namespace VT

/-- `AnsiEsc::FontState`, as far as the terminal uses it. -/
structure FontOps (Font : Type) where
  initial : Font
  parseSuffixM : Font → List Int → Nat → Font
  toConsoleAttributes : Font → UInt64
  fromConsoleAttributes : Font → UInt64 → Font

/-- `SavedScreenBuffer` -/
structure SavedScreenBuffer where
  chars : List CharInfo
  info : ScreenBufferInfo

/-- `AttrStackEntry` -/
structure AttrStackEntry where
  blankCharacter : WChar
  attributes : UInt16

/-- The members of `VTAnsiContext` and its console. `saveCursorInfo` is the position of
`save_cursor_info`, `savedAttributes` are those of `saved_state`, and `alternative` and `other` are the
members of `alternative_screen_buffer`. -/
structure Terminal (Font : Type) where
  console : ConsoleOutput
  screenTop : Int := -1
  blankCharacter : WChar := wch ' '
  charBuffer : WStr := []
  wrapped : Bool := false
  savedPos : Coord := ⟨0, 0⟩
  fontState : Font
  saveCursorInfo : Coord := ⟨0, 0⟩
  savedAttributes : UInt64 := 7
  alternative : Bool := false
  other : Option SavedScreenBuffer := none
  attrStack : List AttrStackEntry := []
  outputDisabled : Bool := false

/-- `BUFFER_SIZE` -/
def BUFFER_SIZE : Nat := 2048

/-- A value that is stored in a `DWORD`. -/
def dword (v : Int) : Nat := (v % 4294967296).toNat

/-- `DECSpecialGraphicsCharset`, from `FIRST_SG` to `LAST_SG`. -/
def DECSpecialGraphicsCharset : List WChar :=
  [0x00a0, 0x2666, 0x2592, 0x2409, 0x240c, 0x240d, 0x240a, 0x00b0, 0x00b1, 0x2424, 0x240b, 0x2518,
    0x2510, 0x250c, 0x2514, 0x253c, 0x00af, 0x25ac, 0x2500, wch '_', wch '_', 0x251c, 0x2524, 0x2534,
    0x252c, 0x2502, 0x2264, 0x2265, 0x03c0, 0x2260, 0x00a3, 0x00b7]

/-- The character as the character set has it. -/
def charsetChar (charset c : WChar) : WChar :=
  if (charset = wch '2' ∨ charset = wch '0') ∧ wch '_' ≤ c ∧ c ≤ wch '~' then
    DECSpecialGraphicsCharset.getD (c - wch '_').toNat c
  else c

end VT

namespace ConsoleOutput

/-- `SetMode`: the modes of editing are only changed with `ENABLE_EXTENDED_FLAGS`. -/
def setMode (O : ConsoleOutput) (mode : UInt32) : ConsoleOutput :=
  { O with mode := if mode &&& 0x80 = 0 then (mode &&& 0xFFFFFF9F) ||| (O.mode &&& 0x60) else mode }

/-- `WriteString` -/
def writeString (cc : CharClasses) (fuel : Nat) (O : ConsoleOutput) (str : WStr) :
    Option ConsoleOutput :=
  (Writing.turns cc fuel ⟨O, .writeStr str, O.cursorPos, 0⟩).map fun W =>
    { W.out with cursorPos := W.pos }

/-- `SetSize`; the size is not less than 24 columns and 12 rows. -/
def setSize (O : ConsoleOutput) (width height : Nat) : Option ConsoleOutput := do
  let width := max width 24
  let height := max height 12
  let buf ←
    if width = O.buf.width ∧ width * height = O.buf.chars.length then some O.buf
    else
      let blanks := List.replicate (height * width) O.blank
      if O.buf.chars = [] then some ⟨width, blanks⟩
      else
        ((⟨width, blanks⟩ : ConsoleBuffer).writeArea O.buf.chars
          ⟨short O.buf.width, short O.buf.height⟩ ⟨0, 0⟩
          ⟨0, 0, short ((width : Int) - 1), short ((height : Int) - 1)⟩).map Prod.fst
  let cursorPos : Coord :=
    { x := if O.cursorPos.x ≥ width then short ((width : Int) - 1) else O.cursorPos.x
      y := if O.cursorPos.y ≥ height then short ((height : Int) - 1) else O.cursorPos.y }
  some { O with buf := buf, scrollTop := 0, scrollBottom := 32767, cursorPos := cursorPos }

/-- `SetWindowInfo`. There is no memory for a size that is negative: it becomes an `unsigned int`. -/
def setWindowInfo (O : ConsoleOutput) (rect : SmallRect) : Option ConsoleOutput :=
  let width := rect.right - rect.left + 1
  let height := rect.bottom - rect.top + 1
  if width < 0 ∨ height < 0 then none else O.setSize width.toNat height.toNat

end ConsoleOutput

namespace VT.Terminal

variable {Font : Type} (ops : FontOps Font) (cc : CharClasses) (fuel : Nat) (T : Terminal Font)

/-- `GetConsoleScreenBufferInfo` -/
def info : ScreenBufferInfo := T.console.getConsoleScreenBufferInfo

/-- The console after a call, which may fail. -/
def onConsole (console : Option ConsoleOutput) : Option (Terminal Font) :=
  console.map fun O => { T with console := O }

/-- `SetConsoleCursorPosition` -/
def setCursor (pos : Coord) : Terminal Font := { T with console := T.console.setCursor pos }

/-- `SetConsoleTextAttribute` -/
def setAttributes (attributes : UInt64) : Terminal Font :=
  { T with console := { T.console with attributes := attributes } }

/-- A blank cell of the terminal. -/
def blank : CharInfo := ⟨T.blankCharacter.toUInt64, T.console.attributes⟩

/-! ## Printing -/

/-- `FlushBuffer`, character by character: the cursor that stays in its column, or goes to the first,
tells that the text is wrapped. -/
def flushChars : WStr → Terminal Font → Option (Terminal Font)
  | [], T => some T
  | c :: cs, T => do
      let console ← T.console.writeString cc fuel [c]
      let x := console.cursorPos.x
      let wrapped := if c ≠ CR ∧ c ≠ 0x08 ∧ c ≠ BEL ∧ (x = 0 ∨ x = T.console.cursorPos.x) then true
        else T.wrapped
      flushChars cs { T with console := console, wrapped := wrapped }

/-- `FlushBuffer` -/
def flushBuffer (crm : Bool) : Option (Terminal Font) :=
  if T.outputDisabled ∨ T.charBuffer = [] then some { T with charBuffer := [] }
  else if crm then do
    let mode := T.console.mode
    let console ← (T.console.setMode (mode &&& 0xFFFFFFFE)).writeString cc fuel T.charBuffer
    some { T with console := console.setMode mode, charBuffer := [] }
  else (flushChars cc fuel T.charBuffer T).map fun T => { T with charBuffer := [] }

/-- `WriteConsoleIfEnabled` -/
def writeConsoleIfEnabled (str : WStr) : Option (Terminal Font) :=
  if T.outputDisabled then some T else T.onConsole (T.console.writeString cc fuel str)

/-- Are all cells of the row of the cursor blank? The low 32 bits of their characters are compared.
Where there is no such row the cells are what `malloc` leaves; here they are zero. -/
def rowIsBlank : Option Bool :=
  let info := T.info
  let w := info.size.x.toNat
  (T.console.buf.readArea (List.replicate w default) ⟨info.size.x, 1⟩ ⟨0, 0⟩
    ⟨0, info.cursorPosition.y, short (info.size.x - 1), info.cursorPosition.y⟩).map fun read =>
      (read.1.take w).all fun cell => cell.unicodeChar.toUInt32 == T.blankCharacter

/-- `PushBuffer` of a newline, without `crm`: nothing is written where the text has been wrapped to
a row that is blank. -/
def pushNewline : Option (Terminal Font) :=
  if T.wrapped then do
    let blank ← T.rowIsBlank
    let T := { T with wrapped := false }
    if blank then
      if T.console.cursorPos.x = 0 then some T else T.writeConsoleIfEnabled cc fuel [CR]
    else T.writeConsoleIfEnabled cc fuel [LF]
  else T.writeConsoleIfEnabled cc fuel [LF]

/-- `PushBuffer` -/
def pushBuffer (c charset : WChar) (crm : Bool) : Option (Terminal Font) :=
  if c = LF then
    if crm then do
      let T ← ({ T with charBuffer := T.charBuffer ++ [c] } : Terminal Font).flushBuffer cc fuel crm
      if T.console.cursorPos.x ≠ 0 then T.writeConsoleIfEnabled cc fuel [LF] else some T
    else (T.flushBuffer cc fuel crm).bind (pushNewline cc fuel)
  else
    let T := { T with charBuffer := T.charBuffer ++ [charsetChar charset c] }
    if T.charBuffer.length = BUFFER_SIZE then T.flushBuffer cc fuel crm else some T

/-! ## Erasing -/

/-- `FillBlank`; `len` is a `DWORD`. -/
def fillBlank (len : Int) (pos : Coord) : Option (Terminal Font) := do
  let console ← T.console.fillCharacter cc T.blankCharacter (dword len) pos
  let console ← console.fillAttribute cc T.console.attributes (dword len) pos
  some { T with console := console }

/-- `ClearScreenAndHomeCursor` -/
def clearScreenAndHomeCursor : Option (Terminal Font) := do
  let info := T.info
  let range := info.window.bottom - info.window.top
  let (T, window) ←
    if info.window.top ≠ T.screenTop ∨ info.window.bottom = info.size.y - 1 then do
      let (console, window) ←
        if info.cursorPosition.y + range < info.size.y then
          some (T.console, { info.window with
            top := info.cursorPosition.y, bottom := short (info.cursorPosition.y + range) })
        else
          let bottom := short (info.size.y - 1)
          let top := short (bottom - range)
          (T.console.scroll ⟨0, short (info.cursorPosition.y - top), short (info.size.x - 1),
            short (info.cursorPosition.y - 1)⟩ none ⟨0, 0⟩ T.blank).map fun console =>
              (console, { info.window with top := top, bottom := bottom })
      let console ← console.setWindowInfo window
      some ({ T with console := console, screenTop := window.top }, window)
    else some (T, info.window)
  let pos : Coord := ⟨0, window.top⟩
  let T ← T.fillBlank cc ((window.bottom - window.top + 1) * info.size.x) pos
  some (T.setCursor pos)

/-- `ESC[#J` -/
def eraseDisplay (n : Int) : Option (Terminal Font) :=
  let info := T.info
  let cursor := info.cursorPosition
  if n = 0 then
    T.fillBlank cc ((info.window.bottom - cursor.y) * info.size.x + info.size.x - cursor.x) cursor
  else if n = 1 then
    T.fillBlank cc ((cursor.y - info.window.top) * info.size.x + cursor.x + 1) ⟨0, info.window.top⟩
  else if n = 2 then T.clearScreenAndHomeCursor cc
  else some T

/-- `ESC[#K` -/
def eraseLine (n : Int) : Option (Terminal Font) :=
  let info := T.info
  let cursor := info.cursorPosition
  if n = 0 then T.fillBlank cc (info.size.x - cursor.x) cursor
  else if n = 1 then T.fillBlank cc (cursor.x + 1) ⟨0, cursor.y⟩
  else if n = 2 then T.fillBlank cc info.size.x ⟨0, cursor.y⟩
  else some T

/-- `ESC[#X` -/
def eraseChars (n : Int) : Option (Terminal Font) := T.fillBlank cc n T.info.cursorPosition

/-! ## Lines and characters -/

/-- `LimitByScrollRegion` -/
def limitByScrollRegion (rect : SmallRect) : SmallRect :=
  let top := T.console.scrollRegionTop
  let bottom := T.console.scrollRegionBottom
  { rect with
    top := if rect.top < top then top else rect.top
    bottom := if rect.bottom > bottom then bottom else rect.bottom }

/-- `srWindow` in the scroll region, as wide as the screen. -/
def scrollWindow : SmallRect :=
  { T.limitByScrollRegion T.info.window with left := 0, right := short (T.info.size.x - 1) }

/-- `ScrollConsoleScreenBuffer`, with blank cells. -/
def scroll (rect : SmallRect) (clip : Option SmallRect) (pos : Coord) : Option (Terminal Font) :=
  T.onConsole (T.console.scroll rect clip pos T.blank)

/-- `ESC[#L` -/
def insertLines (n : Int) : Option (Terminal Font) :=
  let window := T.scrollWindow
  let y := T.info.cursorPosition.y
  T.scroll { window with top := y } (some window) ⟨0, short (y + n)⟩

/-- `ESC[#S`: the destination is the first row of the screen. -/
def scrollUp (n : Int) : Option (Terminal Font) :=
  let window := T.scrollWindow
  let y := T.info.window.top
  T.scroll { window with top := short (y + n) } (some window) ⟨0, y⟩

/-- `ESC[#T` -/
def scrollDown (n : Int) : Option (Terminal Font) :=
  let window := T.scrollWindow
  T.scroll { window with bottom := short (window.bottom - n) } (some window)
    ⟨0, short (window.top + n)⟩

/-- `ESC[#M`: the rectangle is its own clip rectangle. -/
def deleteLines (n : Int) : Option (Terminal Font) :=
  let rect := { T.scrollWindow with top := T.info.cursorPosition.y }
  T.scroll rect (some rect) ⟨0, short (rect.top - n)⟩

/-- `srWindow` from the column of the cursor on. -/
def restWindow : SmallRect :=
  { T.info.window with left := T.info.cursorPosition.x, right := short (T.info.size.x - 1) }

/-- `ESC[#P` -/
def deleteChars (n : Int) : Option (Terminal Font) :=
  let window := T.restWindow
  let cursor := T.info.cursorPosition
  T.scroll ⟨short (cursor.x + n), cursor.y, window.right, cursor.y⟩ (some window) cursor

/-- `ESC[#@` -/
def insertChars (n : Int) : Option (Terminal Font) :=
  let window := T.restWindow
  let cursor := T.info.cursorPosition
  T.scroll ⟨cursor.x, cursor.y, window.right, cursor.y⟩ (some window) ⟨short (cursor.x + n), cursor.y⟩

/-! ## The cursor -/

/-- Up by a number of rows. -/
def rowUp (n : Int) : Int :=
  let y := short (T.info.cursorPosition.y - n)
  if y < T.info.window.top then T.info.window.top else y

/-- Down by a number of rows. -/
def rowDown (n : Int) : Int :=
  let y := short (T.info.cursorPosition.y + n)
  if y > T.info.window.bottom then T.info.window.bottom else y

/-- A column that is not behind the last one. -/
def cutColumn (x : Int) : Int := if x > T.info.size.x - 1 then short (T.info.size.x - 1) else x

/-- A column that is not in front of the first one. -/
def firstColumn (x : Int) : Int := if x < 0 then 0 else x

/-- The row of an argument, on the screen. -/
def rowOf (n : Int) : Int :=
  let y := short (n - 1)
  let y := if y < T.info.window.top then T.info.window.top else y
  if y > T.info.window.bottom then T.info.window.bottom else y

/-- The column of `ESC[#I`. -/
def tabForward (n : Int) : Int :=
  let x := T.info.cursorPosition.x
  T.cutColumn (short (x - x % 8 + n * 8))

/-- The column of `ESC[#Z`. -/
def tabBack (n : Int) : Int :=
  let x := T.info.cursorPosition.x
  firstColumn (if x % 8 = 0 then short (x - n * 8) else short (x - x % 8 - (n - 1) * 8))

/-- `ESC[u` -/
def recallPos : Coord where
  x := T.cutColumn T.savedPos.x
  y :=
    let y := short (T.savedPos.y + T.info.window.top)
    if y > T.info.window.bottom then T.info.window.bottom else y

/-- A sequence that moves the cursor by one argument, which is `1` when it is not there. -/
def movedBy (suffix : Byte) (n : Int) : Option Coord :=
  let cursor := T.info.cursorPosition
  if suffix = ch 'k' ∨ suffix = ch 'A' then some ⟨cursor.x, T.rowUp n⟩
  else if suffix = ch 'e' ∨ suffix = ch 'B' then some ⟨cursor.x, T.rowDown n⟩
  else if suffix = ch 'a' ∨ suffix = ch 'C' then some ⟨T.cutColumn (short (cursor.x + n)), cursor.y⟩
  else if suffix = ch 'j' ∨ suffix = ch 'D' then some ⟨firstColumn (short (cursor.x - n)), cursor.y⟩
  else if suffix = ch 'E' then some ⟨0, T.rowDown n⟩
  else if suffix = ch 'F' then some ⟨0, T.rowUp n⟩
  else if suffix = ch '\u0060' ∨ suffix = ch 'G' then
    some ⟨firstColumn (T.cutColumn (short (n - 1))), cursor.y⟩
  else if suffix = ch 'd' then some ⟨cursor.x, T.rowOf n⟩
  else if suffix = ch 'I' then some ⟨T.tabForward n, cursor.y⟩
  else if suffix = ch 'Z' then some ⟨T.tabBack n, cursor.y⟩
  else none

/-- `ReverseIndex`, behind `FlushBuffer`. -/
def reverseIndex : Option (Terminal Font) :=
  let info := T.info
  let cut (row : Int) : Int :=
    let row := if row < info.window.top then info.window.top else row
    if row > info.window.bottom then info.window.bottom else row
  let top := cut T.console.scrollRegionTop
  let bottom := cut T.console.scrollRegionBottom
  if info.cursorPosition.y ≠ top then
    some (T.setCursor { info.cursorPosition with y := short (info.cursorPosition.y - 1) })
  else if top ≥ bottom then some T
  else T.scroll ⟨info.window.left, top, info.window.right, short (bottom - 1)⟩ none
    ⟨0, short (top + 1)⟩

/-! ## The alternative screen -/

/-- Rows that are filled with spaces, from one row to another. -/
def fillRows (x : Int) (count : Nat) : (rows : Nat) → (y : Int) → ConsoleOutput → Option ConsoleOutput
  | 0, _, O => some O
  | n + 1, y, O =>
      (O.fillCharacter cc SPACE count ⟨x, y⟩).bind (fillRows x count n (short (y + 1)))

/-- The other screen is shown again. -/
def showOther (saved other : ScreenBufferInfo) (chars : List CharInfo) (O : ConsoleOutput) :
    Option ConsoleOutput := do
  let originY := if saved.size.y < other.size.y then short (other.size.y - saved.size.y) else 0
  let x := if other.cursorPosition.x ≥ saved.size.x then
    if saved.size.x > 0 then short (saved.size.x - 1) else 0 else other.cursorPosition.x
  let y := if x ≥ saved.size.x then
    if saved.size.y > 0 then short (saved.size.y - 1) else 0 else other.cursorPosition.y
  let (buf, _) ← O.buf.writeArea chars other.size ⟨0, originY⟩ other.window
  let O := { O with buf := buf }
  let O ←
    if saved.size.y > other.size.y then
      fillRows cc 0 saved.size.x.toNat (saved.size.y - other.size.y).toNat (short (other.size.y + 1)) O
    else some O
  let O ←
    if saved.size.x > other.size.x then
      fillRows cc (short (saved.window.left + other.size.x + 1))
        (saved.size.x - other.size.x).toNat (saved.size.y + 1).toNat 0 O
    else some O
  some (O.setCursor ⟨x, y⟩)

/-- `AlternativeScreenBuffer::Toggle` -/
def toggle (enable : Bool) : Option (Terminal Font) :=
  if T.alternative = enable then some T
  else do
    let info := T.info
    let (chars, window) ←
      if info.size.y > 0 ∧ info.size.x > 0 then
        T.console.buf.readArea (List.replicate (info.size.y.toNat * info.size.x.toNat) default) info.size
          ⟨0, 0⟩ info.window
      else some ([], info.window)
    let saved : ScreenBufferInfo := { info with window := window }
    let (console, attributes) ←
      match T.other with
      | some other =>
          (showOther cc saved other.info other.chars T.console).map fun O => (O, other.info.attributes)
      | none => do
          let len := dword (info.size.y * info.size.x)
          let O ← T.console.fillCharacter cc SPACE len ⟨0, 0⟩
          let O ← O.fillAttribute cc T.savedAttributes len ⟨0, 0⟩
          some (O.setCursor ⟨0, 0⟩, T.savedAttributes)
    some { ({ T with console := console } : Terminal Font).setAttributes attributes with
      fontState := ops.fromConsoleAttributes T.fontState attributes
      other := some ⟨chars, saved⟩
      alternative := enable }

/-! ## Sequences -/

/-- The mode of `ESC[?7h` and `ESC[?7l`. -/
def wrapMode (on : Bool) : UInt32 := 0x99 ||| (if on then 2 else 0)

/-- An argument of `ESC[?#h` or `ESC[?#l`. -/
def privateMode (on : Bool) (n : Int) : Option (Terminal Font) :=
  if n = 1049 then T.toggle ops cc on
  else if n = 7 then some { T with console := T.console.setMode (wrapMode on) }
  else some T

/-- The sequences that change lines or characters, by one argument, which is `1` when it is not
there. -/
def changedBy (suffix : Byte) (n : Int) : Option (Option (Terminal Font)) :=
  if suffix = ch 'X' then some (T.eraseChars cc n)
  else if suffix = ch 'L' then some (T.insertLines n)
  else if suffix = ch 'S' then some (T.scrollUp n)
  else if suffix = ch 'T' then some (T.scrollDown n)
  else if suffix = ch 'M' then some (T.deleteLines n)
  else if suffix = ch 'P' then some (T.deleteChars n)
  else if suffix = ch '@' then some (T.insertChars n)
  else (T.movedBy suffix n).map fun pos => some (T.setCursor pos)

/-- The sequences without a second letter in front. -/
def interpretSuffix (p : Parser) : Option (Terminal Font) :=
  let q := p.interpretSuffix.1
  if p.suffix = ch 'm' then
    let font := ops.parseSuffixM T.fontState p.esArgv p.esArgc
    some { T.setAttributes (ops.toConsoleAttributes font) with fontState := font }
  else if p.suffix = ch 'J' then if q.esArgc = 1 then T.eraseDisplay cc (q.arg 0) else some T
  else if p.suffix = ch 'K' then if q.esArgc = 1 then T.eraseLine cc (q.arg 0) else some T
  else if p.suffix = ch 'f' ∨ p.suffix = ch 'H' then
    if q.esArgc > 2 then some T
    else some (T.setCursor ⟨T.cutColumn (firstColumn (short (q.arg 1 - 1))), T.rowOf (q.arg 0)⟩)
  else if p.suffix = ch 's' then
    if p.esArgc ≠ 0 then some T
    else some { T with savedPos :=
      ⟨T.info.cursorPosition.x, short (T.info.cursorPosition.y - T.info.window.top)⟩ }
  else if p.suffix = ch 'u' then
    if p.esArgc ≠ 0 then some T else some (T.setCursor T.recallPos)
  else if p.suffix = ch 'r' then
    some { T with console :=
      T.console.setScrollRegion (short (q.arg 0 - 1)) (short (q.arg 1 - 1)) }
  else if p.suffix ∈ Parser.counted then
    if q.esArgc = 1 then (T.changedBy cc p.suffix (q.arg 0)).getD (some T) else some T
  else some T

/-- `InterpretEscSeq`, without what the parser does. `ESC[#b` is a number of characters. -/
def interpretEscSeq (p : Parser) : Option (Terminal Font) :=
  if p.prefix1 = ch '[' then
    if p.prefix2 = ch '?' ∧ (p.suffix = ch 'h' ∨ p.suffix = ch 'l') then
      (p.esArgv.take p.esArgc).foldlM (fun T n => T.privateMode ops cc (p.suffix = ch 'h') n) T
    else if p.prefix2 ≠ 0 then some T
    else T.interpretSuffix ops cc p
  else some T

/-! ## Strings -/

/-- The bytes of a string of the source. -/
def bytesOf (s : String) : List Byte := s.toList.map ch

/-- A `char` that becomes a `TCHAR`. -/
def ofChar (b : Byte) : WChar := if b < 0x80 then b.toUInt32 else b.toUInt32 ||| 0xFFFFFF00

/-- `push-attr`: a quarter of the entries goes when there are too many. -/
def pushAttr : Terminal Font :=
  let stack := T.attrStack ++ [⟨T.blankCharacter, T.console.attributes.toUInt16⟩]
  { T with attrStack := if stack.length > 0x1000 then stack.drop (stack.length / 4) else stack }

/-- `pop-attr` -/
def popAttr : Terminal Font :=
  match T.attrStack.getLast? with
  | none => T
  | some entry =>
      { T.setAttributes entry.attributes.toUInt64 with
        blankCharacter := entry.blankCharacter
        fontState := ops.fromConsoleAttributes T.fontState entry.attributes.toUInt64
        attrStack := T.attrStack.dropLast }

/-- `InterpretControlString`, behind `FlushBuffer`. -/
def interpretControlString (p : Parser) : Terminal Font :=
  if p.prefix1 ≠ ch '_' then T
  else if (bytesOf "set-blank=").isPrefixOf p.osCmdArg then
    { T with blankCharacter :=
      if p.osCmdArg.length > 10 then ofChar (p.osCmdArg.getD 10 0) else wch ' ' }
  else if p.osCmdArg = bytesOf "push-attr" then T.pushAttr
  else if p.osCmdArg = bytesOf "pop-attr" then T.popAttr ops
  else T

/-! ## Actions -/

/-- `ResetTerminal` -/
def resetTerminal : Terminal Font :=
  { T with
    console := T.console.setScrollRegion 0 32767
    charBuffer := []
    savedPos := ⟨0, 0⟩
    fontState := ops.initial
    wrapped := false
    screenTop := -1 }

/-- An action of the automaton. -/
def perform : Action → Option (Terminal Font)
  | .pushBuffer c charset crm => T.pushBuffer cc fuel c charset crm
  | .flushBuffer crm => T.flushBuffer cc fuel crm
  | .interpretEscSeq p => T.interpretEscSeq ops cc p
  | .interpretControlString p => some (T.interpretControlString ops p)
  | .reverseIndex => T.reverseIndex
  | .saveCursor => some { T with saveCursorInfo := T.info.cursorPosition }
  | .restoreCursor => some (T.setCursor T.saveCursorInfo)
  | .clearScreenAndHomeCursor => T.clearScreenAndHomeCursor cc
  | .resetTerminal => some (T.resetTerminal ops)

/-- Actions, one after the other. -/
def performAll (T : Terminal Font) (actions : List Action) : Option (Terminal Font) :=
  actions.foldlM (fun T action => T.perform ops cc fuel action) T

end VT.Terminal

end Far2l
