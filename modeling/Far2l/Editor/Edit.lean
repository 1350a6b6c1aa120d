/-
Far2l.Editor.Edit — one line of the editor (`far/src/edit.cpp`).

The model covers an `Edit` as `Editor::CreateString` makes it: editor mode, no
mask, no length limit, never read-only. What only concerns drawing (`LeftPos`,
colours, `PrevCurPos`) is left out. The settings every line shares
(`EdOpt.TabSize`, `EdOpt.ExpandTabs`, the character classes) are a parameter.
-/
import Far2l.Utils.Chars

namespace Far2l

/-! ## Characters -/

/-- `IsSpace` of `locale.hpp`. -/
def isSpace (x : WChar) : Bool := x == SPACE || x == TAB || x == 0x3000

/-- `IsEol` of `locale.hpp`. -/
def isEol (x : WChar) : Bool := x == CR || x == LF

/-- `EXPAND_NOTABS`, `EXPAND_NEWTABS`, `EXPAND_ALLTABS`. -/
inductive TabExpandMode where
  | noTabs
  | newTabs
  | allTabs
deriving DecidableEq, Repr

/-- What the lines of one editor share. `fullWidth` and `xxxfix` are `CharClasses`. -/
structure EditConf where
  tabSize : Nat
  tabExpandMode : TabExpandMode
  persistentBlocks : Bool
  fullWidth : WChar → Bool
  xxxfix : WChar → Bool

/-! ## Line ends -/

/-- `EOL_NONE` .. `EOL_CRCRLF`. -/
inductive EolType where
  | none
  | cr
  | lf
  | crlf
  | crcrlf
deriving DecidableEq, Repr

/-- `EOL_TYPE_CHARS`. -/
def EolType.chars : EolType → WStr
  | .none => []
  | .cr => [CR]
  | .lf => [LF]
  | .crlf => [CR, LF]
  | .crcrlf => [CR, CR, LF]

/-- `Edit::SetEOL`, as a function of the characters it is given. -/
def EolType.ofChars : WStr → EolType
  | [] => .none
  | c :: cs =>
      if c = CR then
        match cs with
        | c1 :: cs1 =>
            if c1 = LF then .crlf
            else if c1 = CR then
              match cs1 with
              | c2 :: _ => if c2 = LF then .crcrlf else .cr
              | [] => .cr
            else .cr
        | [] => .cr
      else if c = LF then .lf
      else .none

@[simp] theorem EolType.ofChars_chars (eol : EolType) : EolType.ofChars eol.chars = eol := by
  cases eol <;> rfl

/-- The line end `SetBinaryString` finds at the end of its argument, and what stands in front
of it; `Option.none` for the empty argument, where `EndType` keeps its value. -/
def splitEol (s : WStr) : WStr × Option EolType :=
  match s.getLast? with
  | Option.none => (s, Option.none)
  | some c =>
      if c = CR then (s.dropLast, some .cr)
      else if c = LF then
        if s.dropLast.getLast? = some CR then
          if s.dropLast.dropLast.getLast? = some CR then
            (s.dropLast.dropLast.dropLast, some .crcrlf)
          else (s.dropLast.dropLast, some .crlf)
        else (s.dropLast, some .lf)
      else (s, some .none)

/-! ## The object -/

/-- The members of `Edit` the editor works with; `str` is `Str` with its `StrSize`. -/
structure Edit where
  str : WStr := []
  endType : EolType := .none
  curPos : Nat := 0
  selStart : Int := -1
  selEnd : Int := 0
  overtype : Bool := false
deriving DecidableEq, Repr

namespace Edit

variable (conf : EditConf)

/-- `GetLength`. -/
def length (e : Edit) : Nat := e.str.length

/-! ### Columns -/

/-- The loop of `RealPosToCell(0, 0, Pos, nullptr)` over the characters in front of `Pos`. -/
def realPosToCellLoop : WStr → Nat → Nat
  | [], tabPos => tabPos
  | c :: rest, tabPos =>
      if c = TAB ∧ conf.tabExpandMode ≠ .allTabs then
        realPosToCellLoop rest (tabPos + (conf.tabSize - tabPos % conf.tabSize))
      else if conf.fullWidth c then realPosToCellLoop rest (tabPos + 2)
      else if !conf.xxxfix c then realPosToCellLoop rest (tabPos + 1)
      else realPosToCellLoop rest tabPos

/-- `RealPosToCell(int Pos)`. -/
def realPosToCell (e : Edit) (pos : Nat) : Nat :=
  realPosToCellLoop conf (e.str.take pos) 0 + (pos - e.length)

/-- The loop of `CellPosToReal`. `base` is set right after a character other than a tab, where
the combining characters that follow belong to it. -/
def cellPosToRealLoop (pos : Nat) : WStr → Bool → Nat → Nat → Nat
  | [], _, index, cellPos => index + (pos - cellPos)
  | c :: rest, base, index, cellPos =>
      if base ∧ conf.xxxfix c then cellPosToRealLoop pos rest true (index + 1) cellPos
      else if pos ≤ cellPos then index
      else if c = TAB ∧ conf.tabExpandMode ≠ .allTabs then
        let newCellPos := cellPos + conf.tabSize - cellPos % conf.tabSize
        if newCellPos > pos then index
        else cellPosToRealLoop pos rest false (index + 1) newCellPos
      else
        cellPosToRealLoop pos rest true (index + 1) (cellPos + if conf.fullWidth c then 2 else 1)

/-- `CellPosToReal`. -/
def cellPosToReal (e : Edit) (pos : Int) : Nat :=
  cellPosToRealLoop conf pos.toNat e.str false 0 0

/-- `GetCellCurPos`. -/
def cellCurPos (e : Edit) : Nat := e.realPosToCell conf e.curPos

/-- `SetCellCurPos`. -/
def setCellCurPos (e : Edit) (newPos : Int) : Edit :=
  { e with curPos := e.cellPosToReal conf newPos }

/-- `SetCurPos`. -/
def setCurPos (e : Edit) (newPos : Nat) : Edit := { e with curPos := newPos }

/-! ### Steps over combining characters -/

/-- `do --Pos; while (Pos > 0 && CharClasses(Str[Pos]).Xxxfix())`, below `Pos`. -/
def stepBack (s : WStr) : Nat → Nat
  | 0 => 0
  | pos + 1 => if conf.xxxfix (s.getD (pos + 1) 0) then stepBack s pos else pos + 1

/-- `while (Pos < StrSize && CharClasses(Str[Pos]).Xxxfix()) ++Pos`. -/
def stepFwd (s : WStr) (pos : Nat) : Nat := pos + ((s.drop pos).takeWhile conf.xxxfix).length

/-- `CalcPosFwdTo(Pos)` without a limit. -/
def calcPosFwdTo (e : Edit) (pos : Int) : Nat := stepFwd conf e.str (pos + 1).toNat

/-- `CalcPosBwdTo`. -/
def calcPosBwdTo (e : Edit) (pos : Int) : Nat :=
  if pos ≤ 0 then 0 else stepBack conf e.str (pos - 1).toNat

/-! ### Selection -/

/-- `SanitizeSelectionRange`: what becomes of `SelStart` and `SelEnd` in a line with text
`str`. -/
def sanitizeRange (str : WStr) (selStart selEnd : Int) : Int × Int :=
  let (selStart, selEnd) : Int × Int :=
    if selEnd ≥ selStart ∧ selStart ≥ 0 then
      (stepBack conf str selStart.toNat, stepFwd conf str selEnd.toNat)
    else (selStart, selEnd)
  let (selStart, selEnd) :=
    if selEnd < selStart ∧ selEnd ≠ -1 then (-1, 0) else (selStart, selEnd)
  if selStart = -1 ∧ selEnd = -1 then (-1, 0) else (selStart, selEnd)

/-- `SanitizeSelectionRange`. -/
def sanitizeSelectionRange (e : Edit) : Edit :=
  { e with
    selStart := (sanitizeRange conf e.str e.selStart e.selEnd).1
    selEnd := (sanitizeRange conf e.str e.selStart e.selEnd).2 }

/-- `Select`. -/
def select (e : Edit) (start stop : Int) : Edit :=
  sanitizeSelectionRange conf { e with selStart := start, selEnd := stop }

/-- `GetSelection`. -/
def getSelection (e : Edit) : Int × Int :=
  (if e.selStart > e.length then e.length else e.selStart,
   if e.selEnd > e.length then -1 else e.selEnd)

/-- `GetRealSelection`. -/
def getRealSelection (e : Edit) : Int × Int := (e.selStart, e.selEnd)

/-- `IsSelection`. -/
def isSelection (e : Edit) : Bool := !(e.selStart == -1 && e.selEnd == 0)

/-! ### Tabs -/

/-- The loop of `ExpandTabs`: `pre` is the text in front of `Pos`, free of tabs. -/
def expandTabsLoop (e : Edit) (pre : WStr) : WStr → Edit
  | [] => { e with str := pre }
  | c :: rest =>
      if c = TAB then
        let pos : Int := pre.length
        let s : Nat := conf.tabSize - pre.length % conf.tabSize
        let selStart :=
          if e.selStart ≠ -1 ∧ pos ≤ e.selStart then
            e.selStart + s - (if pos = e.selStart then 0 else 1)
          else e.selStart
        let selEnd :=
          if e.selStart ≠ -1 ∧ e.selEnd ≠ -1 ∧ pos < e.selEnd then e.selEnd + s - 1 else e.selEnd
        let curPos := if e.curPos > pre.length then e.curPos + s - 1 else e.curPos
        expandTabsLoop { e with selStart := selStart, selEnd := selEnd, curPos := curPos }
          (pre ++ List.replicate s SPACE) rest
      else expandTabsLoop e (pre ++ [c]) rest

/-- `ExpandTabs`. -/
def expandTabs (e : Edit) : Edit := expandTabsLoop conf e [] e.str

/-- `InsertTab`. -/
def insertTab (e : Edit) : Edit :=
  let pos : Int := e.curPos
  let s : Nat := conf.tabSize - e.curPos % conf.tabSize
  { e with
    str := e.str.take e.curPos ++ List.replicate s SPACE ++ e.str.drop e.curPos
    selStart :=
      if e.selStart ≠ -1 ∧ pos ≤ e.selStart then
        e.selStart + s - (if pos = e.selStart then 0 else 1)
      else e.selStart
    selEnd :=
      if e.selStart ≠ -1 ∧ e.selEnd ≠ -1 ∧ pos < e.selEnd then e.selEnd + s else e.selEnd
    curPos := e.curPos + s }

/-! ### Setting the text -/

/-- `SetBinaryString`. -/
def setBinaryString (e : Edit) (s : WStr) : Edit :=
  let (text, eol) := splitEol s
  let e := { e with endType := eol.getD e.endType, curPos := 0, str := text }
  let e := if conf.tabExpandMode = .allTabs then e.expandTabs conf else e
  { e with curPos := e.length }

/-- `SetString`. -/
def setString (e : Edit) (s : WStr) : Edit := (e.select conf (-1) 0).setBinaryString conf s

/-- `SetEOL`. -/
def setEOL (e : Edit) (eol : WStr) : Edit := { e with endType := EolType.ofChars eol }

/-- `GetEOL`, the second result of `GetBinaryString`. -/
def getEOL (e : Edit) : WStr := e.endType.chars

/-- `wmemset(&Str[StrSize], L' ', ...)`: the text, with spaces up to the cursor. -/
def padTo (s : WStr) (n : Nat) : WStr := s ++ List.replicate (n - s.length) SPACE

/-- `InsertBinaryString`. -/
def insertBinaryString (e : Edit) (s : WStr) : Edit :=
  let text := padTo e.str e.curPos
  let e :=
    { e with
      str := text.take e.curPos ++ s ++ text.drop e.curPos
      curPos := e.curPos + s.length }
  if conf.tabExpandMode = .allTabs then e.expandTabs conf else e

/-- `DeleteBlock`. -/
def deleteBlock (e : Edit) : Edit :=
  if e.selStart = -1 ∨ e.selStart ≥ e.selEnd then e
  else
    let fr := min e.selStart.toNat e.length
    let till := min e.selEnd.toNat e.length
    { e with
      str := e.str.take fr ++ e.str.drop till
      curPos :=
        if e.curPos > fr then if e.curPos < till then fr else e.curPos - (till - fr) else e.curPos
      selStart := -1
      selEnd := 0 }

/-! ### Keys -/

/-- `InsertKey`. -/
def insertKey (e : Edit) (key : WChar) : Edit :=
  if key = TAB ∧ e.overtype then
    let cursorPos := e.cellCurPos conf
    e.setCellCurPos conf ((cursorPos + (conf.tabSize - cursorPos % conf.tabSize) : Nat) : Int)
  else if key = TAB ∧ conf.tabExpandMode ≠ .noTabs then
    { e with str := padTo e.str e.curPos }.insertTab conf
  else if e.overtype then
    let text := padTo e.str (e.curPos + 1)
    { e with str := text.set e.curPos key, curPos := e.curPos + 1 }
  else
    let text := padTo e.str e.curPos
    { e with
      str := text.take e.curPos ++ key :: text.drop e.curPos
      selStart := if e.selStart ≠ -1 ∧ (e.curPos : Int) < e.selStart then e.selStart + 1
        else e.selStart
      selEnd := if e.selStart ≠ -1 ∧ e.selEnd ≠ -1 ∧ (e.curPos : Int) < e.selEnd then e.selEnd + 1
        else e.selEnd
      curPos := e.curPos + 1 }

/-- `ProcessKey` of a character: without persistent blocks the selected text goes first. -/
def processChar (e : Edit) (key : WChar) : Edit :=
  (if conf.persistentBlocks then e else e.deleteBlock).insertKey conf key

/-- `ProcessKey(KEY_DEL)`. -/
def processDel (e : Edit) : Edit :=
  if e.curPos ≥ e.length then e
  else
    let pos : Int := e.curPos
    let selEnd :=
      if e.selStart ≠ -1 ∧ e.selEnd ≠ -1 ∧ pos < e.selEnd then e.selEnd - 1 else e.selEnd
    let selStart := if e.selStart ≠ -1 ∧ pos < e.selStart then e.selStart - 1 else e.selStart
    let collapsed := e.selStart ≠ -1 ∧ selEnd ≠ -1 ∧ selEnd ≤ selStart
    { e with
      str := e.str.take e.curPos ++ e.str.drop (e.calcPosFwdTo conf pos)
      selStart := if collapsed then -1 else selStart
      selEnd := if collapsed then 0 else selEnd }

/-- `ProcessKey(KEY_BS)`. -/
def processBS (e : Edit) : Edit :=
  if e.curPos = 0 then e
  else { e with curPos := e.calcPosBwdTo conf e.curPos }.processDel conf

/-- `ProcessKey(KEY_HOME)`. -/
def processHome (e : Edit) : Edit := { e with curPos := 0 }

/-- `ProcessKey(KEY_END)`. -/
def processEnd (e : Edit) : Edit := { e with curPos := e.length }

/-- `ProcessKey(KEY_LEFT)`. -/
def processLeft (e : Edit) : Edit :=
  if e.curPos > 0 then { e with curPos := e.calcPosBwdTo conf e.curPos } else e

/-- `ProcessKey(KEY_RIGHT)`. -/
def processRight (e : Edit) : Edit := { e with curPos := e.calcPosFwdTo conf e.curPos }

end Edit

end Far2l
