/-
Far2l.Editor.Keys — `Editor::ProcessKey` of `far/src/editor.cpp` for the keys
that move the cursor by a character or a line, mark text from the cursor on,
and change lines, with `Editor::Undo`.

Keys handled while `Pasting` is set, as handlers and `Undo` send them to the
editor itself, skip what `ProcessKey` does first with a block.
-/
import Far2l.Editor.Commands

namespace Far2l

namespace Editor

/-- `Lock`. -/
def lock (E : Editor) : Editor := { E with locked := E.locked + 1 }

/-- `Unlock`. -/
def unlock (E : Editor) : Editor := { E with locked := E.locked - 1 }

/-- `Pasting++`, calls, `Pasting--`. -/
def whilePasting (E : Editor) (f : Editor → Editor) : Editor :=
  let E := f { E with pasting := E.pasting + 1 }
  { E with pasting := E.pasting - 1 }

/-! ## The line with the cursor -/

/-- `CurLine->FastShow()`, as far as it moves the cursor. -/
def fastShow (E : Editor) : Editor :=
  E.modifyCur fun e =>
    if !E.edOpt.cursorBeyondEOL ∧ e.curPos > e.length then e.setCurPos e.length else e

/-- `CurLine->Show()`: a line is locked with its editor. -/
def showCur (E : Editor) : Editor := if E.locked > 0 then E else E.fastShow

/-- `CurLine->ProcessKey`: the line shows itself before and after. -/
def curKey (E : Editor) (f : Edit → Edit) : Editor := (E.showCur.modifyCur f).showCur

/-! ## Keys that move the cursor -/

/-- `KEY_HOME`. -/
def keyHome (E : Editor) : Editor :=
  let E := E.curKey Edit.processHome
  E.showEditor E.leftPosKept

/-- `KEY_END`. -/
def keyEnd (E : Editor) : Editor :=
  let E := E.curKey Edit.processEnd
  E.showEditor E.leftPosKept

/-- `KEY_UP` and `KEY_DOWN`, once the cursor is on its line. -/
def keepMaxPos (E : Editor) (prevMaxPos : Nat) (lastTopScreen : Option Ptr) : Editor :=
  let E := E.showEditor (E.topScreen = lastTopScreen)
  if prevMaxPos > E.curEdit.cellCurPos E.conf then
    (E.modifyCur fun e => e.setCellCurPos E.conf prevMaxPos).show_
  else E

/-- `KEY_UP`. -/
def keyUp (E : Editor) : Editor := E.setNewUndo.up.keepMaxPos E.maxRightPos E.topScreen

/-- `KEY_DOWN`. -/
def keyDown (E : Editor) : Editor := E.setNewUndo.down.keepMaxPos E.maxRightPos E.topScreen

/-- `KEY_CTRLUP`. -/
def keyCtrlUp (E : Editor) : Editor := (E.setNewUndo.onLines fun S => S.scrollUp E.conf).show_

/-- `KEY_CTRLDOWN`. -/
def keyCtrlDown (E : Editor) : Editor :=
  (E.setNewUndo.onLines fun S => S.scrollDown E.conf E.edOpt.allowEmptySpaceAfterEof).show_

/-- `KEY_LEFT`; `curPos` is where the cursor was when the key came. -/
def keyLeft (E : Editor) (curPos : Nat) : Editor :=
  let E := E.setNewUndo
  if curPos = 0 ∧ E.prev E.curLine ≠ none then (E.up.show_.curKey Edit.processEnd).show_
  else
    let E := E.curKey (Edit.processLeft E.conf)
    E.showEditor E.leftPosKept

/-- `KEY_RIGHT`. -/
def keyRight (E : Editor) : Editor :=
  if !E.edOpt.cursorBeyondEOL ∧ E.curEdit.curPos ≥ E.curEdit.length ∧ E.next E.curLine ≠ none then
    (E.whilePasting fun E => E.keyHome.keyDown).show_
  else
    let E := E.curKey (Edit.processRight E.conf)
    E.showEditor E.leftPosKept

/-! ## Keys that mark text -/

/-- `SelStart`, `SelEnd`, `SelFirst` and `SelAtBeginning` of `ProcessKey`. -/
structure ShiftSel where
  selStart : Int
  selEnd : Int
  selFirst : Bool
  selAtBeginning : Bool

/-- A shifted key comes after a plugin has moved the cursor: the marking ends where the cursor
has left the ends of the block. -/
def checkPluginPos (E : Editor) (curPos : Int) (selStart selEnd : Int) : Editor :=
  if E.curPosChangedByPlugin then
    let left : Bool := selStart ≠ -1
      ∧ (curPos < selStart
          ∨ (selEnd ≠ -1 ∧ (curPos > selEnd ∨ (curPos > selStart ∧ curPos < selEnd))))
      ∧ curPos < E.curEdit.length
    { (if left then E.turnOffMarkingBlock else E) with curPosChangedByPlugin := false }
  else E

/-- What a shifted key does first. -/
def startMarking (E : Editor) (curPos : Nat) : Editor × ShiftSel :=
  let E := E.unmarkEmptyBlock
  let (selStart, selEnd) := E.curEdit.getRealSelection
  let E := E.checkPluginPos curPos selStart selEnd
  if !E.markingBlock then
    let E := E.unmarkBlock
    ({ E with markingBlock := true }.setBlockStart E.curLine E.numLine,
      { selStart := curPos, selEnd := curPos, selFirst := true, selAtBeginning := false })
  else
    (E, { selStart := if selStart = -1 then curPos else selStart
          selEnd := if selStart = -1 then curPos else selEnd
          selFirst := false
          selAtBeginning := E.curLine = E.blockStart ∧ (curPos : Int) = selStart })

/-- `KEY_SHIFTLEFT`: what is marked. -/
def markLeft (E : Editor) (curPos : Nat) (sel : ShiftSel) : Editor :=
  let conf := E.conf
  let prev := E.prev E.curLine
  if curPos = 0 then
    if sel.selAtBeginning then
      (E.modifyLine prev fun e => e.select conf e.length (-1)).setBlockStart prev E.blockStartLine
    else
      (E.modifyCur fun e => e.select conf (-1) 0).modifyLine prev fun e =>
        e.select conf e.selStart e.length
  else if sel.selAtBeginning ∨ sel.selFirst then
    E.modifyCur fun e => e.select conf (e.calcPosBwdTo conf sel.selStart) sel.selEnd
  else E.modifyCur fun e => e.select conf sel.selStart (e.calcPosBwdTo conf sel.selEnd)

/-- `KEY_SHIFTLEFT`. -/
def keyShiftLeft (E : Editor) (curPos : Nat) : Editor :=
  let (E, sel) := E.startMarking curPos
  let E :=
    if curPos = 0 ∧ E.prev E.curLine = none then E
    else
      let E := E.markLeft curPos sel
      let oldCur := E.curLine
      let oldNumLine := E.numLine
      let E := E.whilePasting fun E => E.keyLeft E.curEdit.curPos
      let E := if oldNumLine ≠ E.numLine then E.setBlockStart E.blockStart E.numLine else E
      E.showEditor (oldCur = E.curLine ∧ E.leftPosKept)
  E.unmarkEmptyBlock

/-- `KEY_SHIFTRIGHT`: what is marked before the cursor moves. -/
def markRight (E : Editor) (sel : ShiftSel) : Editor :=
  let conf := E.conf
  E.modifyCur fun e =>
    if sel.selAtBeginning then e.select conf (e.calcPosFwdTo conf sel.selStart) sel.selEnd
    else e.select conf sel.selStart (e.calcPosFwdTo conf sel.selEnd)

/-- `KEY_SHIFTRIGHT`: what is marked of the line the cursor has left. -/
def markLeftLine (E : Editor) (oldCur : Option Ptr) (sel : ShiftSel) : Editor :=
  let conf := E.conf
  if oldCur = E.curLine then E
  else if sel.selAtBeginning then
    (E.modifyLine oldCur fun e => e.select conf (-1) 0).setBlockStart E.curLine E.numLine
  else E.modifyLine oldCur fun e => e.select conf sel.selStart (-1)

/-- `KEY_SHIFTRIGHT`. -/
def keyShiftRight (E : Editor) (curPos : Nat) : Editor :=
  let (E, sel) := E.startMarking curPos
  let E :=
    if E.next E.curLine = none ∧ curPos = E.curEdit.length ∧ !E.edOpt.cursorBeyondEOL then E
    else
      let E := E.markRight sel
      let oldCur := E.curLine
      let E := E.whilePasting keyRight
      let E := E.markLeftLine oldCur sel
      E.showEditor (oldCur = E.curLine ∧ E.leftPosKept)
  E.unmarkEmptyBlock

/-! ## Keys that change lines -/

/-- `KEY_ENTER`. -/
def keyEnter (E : Editor) : Editor :=
  let E :=
    if E.pasting = 0 ∧ !E.edOpt.persistentBlocks ∧ E.blockStart ≠ none then E.deleteBlock else E
  E.setNewUndo.insertString.fastShow.show_

/-- `KEY_CTRLY`. -/
def keyCtrlY (E : Editor) : Editor := (E.deleteString E.curLine E.numLine false E.numLine).show_

/-- `KEY_CTRLD`. -/
def keyCtrlD (E : Editor) : Editor :=
  if E.lockMode then E else E.turnOffMarkingBlock.deleteBlock.show_

/-- `KEY_DEL` at the end of a line: the selection of the joined line. -/
def joinSelection (E : Editor) (length : Nat) (sel nextSel : Int × Int) : Editor :=
  let conf := E.conf
  let stop : Int := if nextSel.2 = -1 then -1 else length + nextSel.2
  if nextSel.1 = -1 then E
  else if sel.1 = -1 then
    (E.modifyCur fun e => e.select conf (length + nextSel.1) stop).setBlockStart E.curLine E.numLine
  else E.modifyCur fun e => e.select conf sel.1 stop

/-- `KEY_DEL` at the end of a line: the next line is joined to it. -/
def joinWithNext (E : Editor) (curPos : Nat) : Editor :=
  let conf := E.conf
  let length := E.curEdit.length
  let sel := E.curEdit.getSelection
  let next := E.edit (E.next E.curLine)
  let E := E.modifyCur fun e =>
    ((e.insertBinaryString conf next.str).setEOL next.getEOL).setCurPos curPos
  let E := E.deleteString (E.next E.curLine) (E.numLine + 1) true (E.numLine + 1)
  let E := E.modifyCur fun e => if next.str = [] then e.setEOL [] else e
  E.joinSelection length sel next.getSelection

/-- `KEY_DEL`, when no block is deleted. -/
def delChar (E : Editor) (curPos : Nat) : Editor :=
  if curPos ≥ E.curEdit.length then
    let E := E.addUndoBegin.addUndoEdit E.curLine E.numLine
    let E := if E.next E.curLine = none then E.modifyCur fun e => e.setEOL []
      else E.joinWithNext curPos
    E.addUndoEnd
  else (E.addUndoEdit E.curLine E.numLine).curKey (Edit.processDel E.conf)

/-- `KEY_DEL`. -/
def keyDel (E : Editor) (curPos : Nat) : Editor :=
  if E.lockMode then E
  else if E.next E.curLine = none ∧ curPos ≥ E.curEdit.length
      ∧ E.blockStart = none ∧ E.vBlockStart = none then E
  else
    let E := if E.pasting = 0 then E.unmarkEmptyBlock else E
    let E :=
      if E.pasting = 0 ∧ E.edOpt.delRemovesBlocks ∧ (E.blockStart ≠ none ∨ E.vBlockStart ≠ none) then
        E.deleteBlock
      else (E.delChar curPos).textChanged true
    E.show_

/-- `KEY_BS`: `IsDelBlock`. -/
def bsDeletesBlock (E : Editor) : Bool :=
  if E.edOpt.bsLikeDel then
    E.pasting = 0 ∧ E.edOpt.delRemovesBlocks
      ∧ (E.blockStart ≠ none ∨ (E.vBlockStart ≠ none ∧ E.vBlockSizeX > 0 ∧ E.vBlockSizeY > 0))
  else E.pasting = 0 ∧ !E.edOpt.persistentBlocks ∧ E.blockStart ≠ none

/-- `KEY_BS`. -/
def keyBS (E : Editor) (curPos : Nat) : Editor :=
  if E.lockMode then E
  else if E.prev E.curLine = none ∧ curPos = 0 ∧ E.blockStart = none ∧ E.vBlockStart = none then E
  else
    let E := E.textChanged true
    let E :=
      if E.bsDeletesBlock then E.deleteBlock
      else if curPos = 0 ∧ E.prev E.curLine ≠ none then
        E.whilePasting fun E =>
          let E := E.up.curKey Edit.processEnd
          E.keyDel E.curEdit.curPos
      else (E.addUndoEdit E.curLine E.numLine).curKey (Edit.processBS E.conf)
    E.show_

/-! ## `Undo` -/

/-- `Undo`: the loop that looks for the other end of a group of records. -/
def undoEndLoop (U : UndoLog) (redo : Bool) : Nat → Nat → Int → Nat × Int
  | 0, uend, level => (uend, level)
  | fuel + 1, uend, level =>
      match U.deref uend with
      | none => (uend, level)
      | some u =>
          let l : Int := if u.type = .begin_ then -1 else if u.type = .end_ then 1 else 0
          let level := level + if redo then -l else l
          if level ≤ 0 then (uend, level)
          else undoEndLoop U redo fuel (if redo then U.iterNext uend else U.iterPrev uend) level

/-- `Undo`: `uend`. -/
def undoEnd (U : UndoLog) (redo : Bool) (ustart : Nat) : Nat :=
  let (uend, level) := undoEndLoop U redo (U.undoData.length + 1) ustart 0
  if level ≠ 0 then ustart else uend

/-- `ud->SetData(...)`. -/
def setRecord (E : Editor) (ud : Nat) (u : EditorUndoData) : Editor :=
  { E with undoData := E.undoData.set (ud - 1) u }

/-- `Undo`: the text and the line end of a record are put back. -/
def restoreLine (E : Editor) (u : EditorUndoData) : Editor :=
  match u.str with
  | some s => E.modifyCur fun e => (e.setString E.conf s).setEOL u.eol
  | none => E

/-- `Undo` of `UNDO_INSSTR`: the line goes into the record. -/
def undoInsStr (E : Editor) (ud : Nat) (u : EditorUndoData) : Editor :=
  let e := E.curEdit
  let E := E.setRecord ud { u with type := .delStr, str := some e.str, eol := e.getEOL }
  E.deleteString E.curLine E.numLine true (if E.numLine > 0 then E.numLine - 1 else E.numLine)

/-- `Undo` of `UNDO_DELSTR`: the line is made by an Enter at the end of the line above it, or at
the beginning of the line below it. -/
def undoDelStr (E : Editor) (ud : Nat) (u : EditorUndoData) : Editor :=
  let E := E.setRecord ud { u with type := .insStr }
  let E := E.whilePasting fun E =>
    if E.numLine < u.strNum then E.keyEnd.keyEnter else E.keyHome.keyEnter.keyUp
  E.restoreLine u

/-- `Undo` of `UNDO_EDIT`: line and record change places. -/
def undoEdit (E : Editor) (ud : Nat) (u : EditorUndoData) : Editor :=
  let e := E.curEdit
  let E := (E.restoreLine u).modifyCur fun e => e.setCurPos u.strPos.toNat
  E.setRecord ud { u with str := some e.str, eol := e.getEOL }

/-- `Undo`: one record. -/
def undoRecord (E : Editor) (ud : Nat) : Editor :=
  match E.toUndoLog.deref ud with
  | none => E
  | some u =>
      match u.type with
      | .begin_ => E
      | .end_ => E
      | .insStr => (E.goToLine u.strNum).undoInsStr ud u
      | .delStr => (E.goToLine u.strNum).undoDelStr ud u
      | .edit => (E.goToLine u.strNum).undoEdit ud u

/-- `Undo`: the loop from `ustart` to `uend`; with the record it ends at. -/
def undoLoop (redo : Bool) (uend : Nat) : Nat → Editor → Nat → Editor × Nat
  | 0, E, ud => (E, ud)
  | fuel + 1, E, ud =>
      let E := E.undoRecord ud
      if ud = uend then (E, ud)
      else undoLoop redo uend fuel E
        (if redo then E.toUndoLog.iterNext ud else E.toUndoLog.iterPrev ud)

/-- `Undo` after the loop, which has ended at the record `ud`. -/
def undoDone (E : Editor) (redo : Bool) (ud : Nat) : Editor :=
  let undoPos := if redo then ud else E.toUndoLog.iterPrev ud
  let saved : Bool := !E.undoSavePosLost ∧ undoPos = E.undoSavePos
  { E with
    undoPos := undoPos
    modified := if saved then false else E.modified
    disableUndo := false }

/-- `Undo`. -/
def undo (E : Editor) (redo : Bool) : Editor :=
  let ustart := if redo then E.toUndoLog.iterNext E.undoPos else E.undoPos
  if ustart = 0 then E
  else
    let E := { E.textChanged true with disableUndo := true }
    let uend := undoEnd E.toUndoLog redo ustart
    let E := E.unmarkBlock
    let (E, ud) := undoLoop redo uend (E.undoData.length + 1) E ustart
    E.undoDone redo ud

/-- `KEY_CTRLZ` and `KEY_CTRLSHIFTZ`. -/
def keyUndo (E : Editor) (redo : Bool) : Editor :=
  if E.lockMode then E else ((E.lock.undo redo).setNewUndo).unlock.show_

/-! ## `ProcessKey` -/

/-- The keys of the model. -/
inductive Key where
  | left
  | right
  | home
  | end_
  | up
  | down
  | ctrlUp
  | ctrlDown
  | shiftLeft
  | shiftRight
  | enter
  | ctrlY
  | ctrlD
  | del
  | bs
  | ctrlZ
  | ctrlShiftZ
deriving DecidableEq, Repr

/-- `IsShiftKey`. -/
def Key.isShiftKey : Key → Bool
  | .shiftLeft | .shiftRight => true
  | _ => false

/-- Is the key one of `UnmarkKeys`? -/
def Key.unmarks : Key → Bool
  | .left | .right | .home | .end_ | .up | .down | .ctrlUp | .ctrlDown => true
  | _ => false

/-- What `ProcessKey` does first: a key that does not mark ends the marking, and some keys take
away a block that is not persistent. -/
def beforeKey (E : Editor) (key : Key) : Editor :=
  if !key.isShiftKey ∧ E.pasting = 0 ∧ (E.blockStart ≠ none ∨ E.vBlockStart ≠ none) then
    let E := E.turnOffMarkingBlock
    if !E.edOpt.persistentBlocks ∧ key.unmarks then E.unmarkBlock else E
  else E

/-- `ProcessKey`. -/
def processKey (E : Editor) (key : Key) : Editor :=
  let curPos := E.curEdit.curPos
  let E := E.beforeKey key
  match key with
  | .left => E.keyLeft curPos
  | .right => E.keyRight
  | .home => E.keyHome
  | .end_ => E.keyEnd
  | .up => E.keyUp
  | .down => E.keyDown
  | .ctrlUp => E.keyCtrlUp
  | .ctrlDown => E.keyCtrlDown
  | .shiftLeft => E.keyShiftLeft curPos
  | .shiftRight => E.keyShiftRight curPos
  | .enter => E.keyEnter
  | .ctrlY => E.keyCtrlY
  | .ctrlD => E.keyCtrlD
  | .del => E.keyDel curPos
  | .bs => E.keyBS curPos
  | .ctrlZ => E.keyUndo false
  | .ctrlShiftZ => E.keyUndo true

end Editor

end Far2l
