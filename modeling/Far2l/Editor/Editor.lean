/-
Far2l.Editor.Editor — the state of the editor and the functions of
`far/src/editor.cpp` every command uses: `TextChanged`, `AddUndoData`,
`ShowEditor`, `UnmarkBlock`, `DeleteString`, `CreateString`.

Left out is what only concerns drawing: colours, `LeftPos`, the scroll bar, the
plugin events. `ShowEditor` stays, because it moves `TopScreen` and the cursor;
whether it redraws the current line only depends on `LeftPos`, so that choice is
a parameter of the state, `leftPosKept`.
-/
import Far2l.Editor.LineList
import Far2l.Editor.UndoLog

namespace Far2l

/-- `EditorOptions`, as far as the model reads it. -/
structure EditorOptions where
  tabSize : Nat := 8
  expandTabs : TabExpandMode := .noTabs
  persistentBlocks : Bool := false
  delRemovesBlocks : Bool := true
  autoIndent : Bool := false
  cursorBeyondEOL : Bool := true
  bsLikeDel : Bool := true
  allowEmptySpaceAfterEof : Bool := false
  undoSize : Nat := 0
deriving DecidableEq, Repr

/-- `NATIVE_EOLW`. -/
def NATIVE_EOLW : WStr := [LF]

/-- `POS_NONE`. -/
def POS_NONE : Int := -1

/-- The members of `Editor`. -/
structure Editor extends LineList, UndoLog where
  edOpt : EditorOptions := {}
  fullWidth : WChar → Bool := fun _ => false
  xxxfix : WChar → Bool := fun _ => false
  leftPosKept : Bool := true
  /-- `FEDITOR_MODIFIED` -/
  modified : Bool := false
  /-- `FEDITOR_DISABLEUNDO` -/
  disableUndo : Bool := false
  /-- `FEDITOR_LOCKMODE` -/
  lockMode : Bool := false
  /-- `FEDITOR_MARKINGBLOCK` -/
  markingBlock : Bool := false
  /-- `FEDITOR_MARKINGVBLOCK` -/
  markingVBlock : Bool := false
  /-- `FEDITOR_CURPOSCHANGEDBYPLUGIN` -/
  curPosChangedByPlugin : Bool := false
  /-- `FEDITOR_OVERTYPE` -/
  overtype : Bool := false
  /-- the counter of `Lock` and `Unlock` -/
  locked : Nat := 0
  pasting : Nat := 0
  maxRightPos : Nat := 0
  globalEOL : WStr := NATIVE_EOLW
  blockStart : Option Ptr := none
  blockStartLine : Int := 0
  vBlockStart : Option Ptr := none
  vBlockX : Int := 0
  vBlockSizeX : Int := 0
  vBlockY : Int := 0
  vBlockSizeY : Int := 0
  /-- `SavePos.Line` -/
  savePosLine : List Int := []
  /-- the `Line` of each stack bookmark, the oldest first -/
  stackBookmarks : List Int := []
  /-- which of them `StackPos` points to -/
  stackPos : Nat := 0

namespace Editor

/-- The settings the lines share. -/
def conf (E : Editor) : EditConf where
  tabSize := E.edOpt.tabSize
  tabExpandMode := E.edOpt.expandTabs
  persistentBlocks := E.edOpt.persistentBlocks
  fullWidth := E.fullWidth
  xxxfix := E.xxxfix

/-- An action on the list of lines. -/
def onLines (E : Editor) (f : LineList → LineList) : Editor :=
  { E with toLineList := f E.toLineList }

/-- A call of a member function of the line at `p`. -/
def modifyLine (E : Editor) (p : Option Ptr) (f : Edit → Edit) : Editor :=
  E.onLines fun S => S.modify p f

/-- `CurLine->...`. -/
def modifyCur (E : Editor) (f : Edit → Edit) : Editor := E.modifyLine E.curLine f

/-- `*CurLine`. -/
def curEdit (E : Editor) : Edit := E.edit E.curLine

/-- `TextChanged`. -/
def textChanged (E : Editor) (state : Bool) : Editor := { E with modified := state }

/-- `TurnOffMarkingBlock`. -/
def turnOffMarkingBlock (E : Editor) : Editor :=
  { E with markingBlock := false, markingVBlock := false }

/-- `Flags.Set(FEDITOR_NEWUNDO)`. -/
def setNewUndo (E : Editor) : Editor := { E with newUndo := true }

/-! ## Undo records -/

/-- `AddUndoData`. -/
def addUndoData (E : Editor) (u : EditorUndoData) : Editor :=
  let u := if u.strNum = -1 then { u with strNum := E.numLine } else u
  { E with
    toUndoLog := if E.disableUndo then E.toUndoLog else E.toUndoLog.add E.edOpt.undoSize u }

/-- `AddUndoData(UNDO_BEGIN)`. -/
def addUndoBegin (E : Editor) : Editor := E.addUndoData { type := .begin_ }

/-- `AddUndoData(UNDO_END)`. -/
def addUndoEnd (E : Editor) : Editor := E.addUndoData { type := .end_ }

/-- `AddUndoData(UNDO_EDIT, p->GetStringAddr(), p->GetEOL(), StrNum, p->GetCurPos(),
p->GetLength())`. -/
def addUndoEdit (E : Editor) (p : Option Ptr) (strNum : Int) : Editor :=
  let e := E.edit p
  E.addUndoData
    { type := .edit, str := some e.str, eol := e.getEOL, strNum := strNum, strPos := e.curPos }

/-! ## The screen -/

/-- `ShowEditor` returns at once. -/
def hidden (E : Editor) : Bool := E.locked > 0 ∨ E.topList = none

/-- `ShowEditor`, its action on the lines. -/
def showLines (E : Editor) (curLineOnly : Bool) : LineList :=
  let S := E.toLineList.showEditor E.conf E.edOpt.allowEmptySpaceAfterEof E.edOpt.cursorBeyondEOL
    curLineOnly
  S.modify S.curLine fun e => { e with overtype := E.overtype }

/-- `ShowEditor`. -/
def showEditor (E : Editor) (curLineOnly : Bool) : Editor :=
  { E with
    maxRightPos := if E.hidden ∨ E.edOpt.cursorBeyondEOL then E.maxRightPos
      else E.curEdit.cellCurPos E.conf
    toLineList := if E.hidden then E.toLineList else E.showLines curLineOnly }

/-- `Show`. -/
def show_ (E : Editor) : Editor := E.showEditor false

/-! ## Blocks -/

/-- `BlockStart = p`, `BlockStartLine = line`. -/
def setBlockStart (E : Editor) (p : Option Ptr) (line : Int) : Editor :=
  { E with blockStart := p, blockStartLine := line }

/-- The loop of `UnmarkBlock` over the lines from `BlockStart` on. -/
def unmarkLoop (conf : EditConf) : Nat → LineList → Option Ptr → LineList
  | 0, S, _ => S
  | fuel + 1, S, blockStart =>
      if blockStart = none then S
      else if (S.edit blockStart).getSelection.1 = -1
          ∧ (S.next blockStart = none ∨ (S.edit (S.next blockStart)).getSelection.1 = -1) then S
      else
        unmarkLoop conf fuel (S.modify blockStart fun e => e.select conf (-1) 0)
          (S.next blockStart)

/-- `UnmarkBlock`. -/
def unmarkBlock (E : Editor) : Editor :=
  if E.blockStart = none ∧ E.vBlockStart = none then E
  else
    let E := { E with vBlockStart := none }.turnOffMarkingBlock
    let E := E.onLines fun S => unmarkLoop E.conf E.fresh S E.blockStart
    { E with blockStart := none }.show_

/-- `UnmarkEmptyBlock`: does the loop over the lines of the block find a marked character? -/
def blockHasText (S : LineList) : Nat → Option Ptr → Bool
  | 0, _ => false
  | fuel + 1, block =>
      if block = none then false
      else
        let (startSel, endSel) := (S.edit block).getRealSelection
        if startSel = -1 then false
        else if startSel ≠ endSel then true
        else blockHasText S fuel (S.next block)

/-- `UnmarkEmptyBlock`. -/
def unmarkEmptyBlock (E : Editor) : Editor :=
  if E.blockStart = none ∧ E.vBlockStart = none then E
  else
    let lines : Bool :=
      if E.vBlockStart ≠ none then E.vBlockSizeX ≠ 0 ∧ E.vBlockSizeY ≠ 0
      else blockHasText E.toLineList E.fresh E.blockStart
    if lines then E else E.unmarkBlock

/-! ## `DeleteString` -/

/-- The vertical block is marked, and does not end above the cursor. -/
def vBlockAhead (E : Editor) : Bool :=
  E.vBlockStart ≠ none ∧ E.numLine < E.vBlockY + E.vBlockSizeY

/-- `DeleteString`: the vertical block moves up, or loses a line. -/
def shrinkVBlock (E : Editor) : Editor :=
  let below : Bool := E.vBlockAhead ∧ E.numLine < E.vBlockY
  let inside : Bool := E.vBlockAhead ∧ ¬ E.numLine < E.vBlockY
  { E with
    vBlockY := if below ∧ E.vBlockY > 0 then E.vBlockY - 1 else E.vBlockY
    blockStartLine := if below ∧ E.vBlockY > 0 then E.blockStartLine - 1 else E.blockStartLine
    vBlockSizeY := if inside then E.vBlockSizeY - 1 else E.vBlockSizeY
    vBlockStart := if inside ∧ E.vBlockSizeY - 1 ≤ 0 then none else E.vBlockStart }

/-- `DeleteString`: the loop over the stack bookmarks; `i` counts those kept so far. -/
def dropStackBookmarks (undoLine : Int) : List Int → Nat → Nat → List Int × Nat
  | [], _, stackPos => ([], stackPos)
  | line :: rest, i, stackPos =>
      if line = undoLine then
        -- `DeleteStackBookmark`: `StackPos` goes to the next one, or to the previous one
        let stackPos :=
          if stackPos > i ∨ (stackPos = i ∧ rest = []) then stackPos - 1 else stackPos
        dropStackBookmarks undoLine rest i stackPos
      else
        let line := if undoLine < line then line - 1 else line
        let (lines, stackPos) := dropStackBookmarks undoLine rest (i + 1) stackPos
        (line :: lines, stackPos)

/-- `DeleteString`: the bookmarks below the line move up. -/
def bookmarksUp (E : Editor) (undoLine : Int) : Editor :=
  let (lines, stackPos) := dropStackBookmarks undoLine E.stackBookmarks 0 E.stackPos
  { E with
    savePosLine := E.savePosLine.map fun line =>
      if line ≠ POS_NONE ∧ undoLine < line then line - 1 else line
    stackBookmarks := lines
    stackPos := stackPos }

/-- `DeleteString`: the blocks leave `DelPtr`, which is unlinked but still readable. -/
def leaveBlocks (E : Editor) (delPtr : Option Ptr) : Editor :=
  let blockNext := E.next E.blockStart
  { E with
    blockStart :=
      if delPtr = E.blockStart then
        if blockNext ≠ none ∧ !(E.edit blockNext).isSelection then none else blockNext
      else E.blockStart
    vBlockStart := if delPtr = E.vBlockStart then E.next E.vBlockStart else E.vBlockStart }

/-- `DeleteString`. -/
def deleteString (E : Editor) (delPtr : Option Ptr) (lineNumber : Int) (deleteLast : Bool)
    (undoLine : Int) : Editor :=
  if E.lockMode then E
  else
    let E := E.shrinkVBlock.textChanged true
    if E.next delPtr = none ∧ (!deleteLast ∨ E.prev delPtr = none) then
      (E.addUndoEdit delPtr undoLine).modifyLine delPtr fun e => e.setString E.conf []
    else
      let E := E.bookmarksUp undoLine
      let E := E.onLines fun S => S.unlinkLine E.conf delPtr lineNumber
      let E := E.leaveBlocks delPtr
      let e := E.edit delPtr
      let E :=
        if undoLine ≠ -1 then
          E.addUndoData
            { type := .delStr, str := some e.str, eol := e.getEOL, strNum := undoLine, strPos := 0 }
        else E
      E.onLines fun S => S.free delPtr

/-! ## Lines -/

/-- `CreateString`; `none` is the null `lpwszStr`. -/
def createString (E : Editor) (lpwszStr : Option WStr) : Edit :=
  match lpwszStr with
  | none => {}
  | some s => (({} : Edit).setBinaryString E.conf s).setCurPos 0

/-- `InsertString(lpwszStr, nLength, pAfter, AfterLineNumber)`. -/
def insertStringAfter (E : Editor) (lpwszStr : Option WStr) (pAfter : Option Ptr)
    (afterLineNumber : Int) : Editor :=
  E.onLines fun S => S.insertString (E.createString lpwszStr) pAfter afterLineNumber

/-- `InsertString(lpwszStr, nLength)`: the line is appended. -/
def appendString (E : Editor) (lpwszStr : Option WStr) : Editor :=
  E.insertStringAfter lpwszStr none (-1)

/-- `GoToLine`. -/
def goToLine (E : Editor) (line : Int) : Editor :=
  (E.onLines fun S => S.goToLine E.conf line).show_

/-- `GetStringByNumber`. -/
def getStringByNumber (E : Editor) (destLine : Int) : Editor × Option Ptr :=
  let (S, p) := E.toLineList.getStringByNumber destLine
  ({ E with toLineList := S }, p)

/-- The editor its constructor leaves behind, or `FreeAllocatedData`, before any line is there. -/
def empty (edOpt : EditorOptions) (fullWidth xxxfix : WChar → Bool) : Editor :=
  { edOpt := edOpt, fullWidth := fullWidth, xxxfix := xxxfix }

end Editor

end Far2l
