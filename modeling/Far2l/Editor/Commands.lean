/-
Far2l.Editor.Commands — the commands of `far/src/editor.cpp` that insert, join
and delete lines: `InsertString`, `DeleteBlock`, and the keys of `ProcessKey`
that call them.
-/
import Far2l.Editor.Editor

namespace Far2l

namespace Editor

/-! ## `InsertString` (Enter) -/

/-- `InsertString`: the bookmarks below the cursor move down. -/
def bookmarksDown (E : Editor) (curPos : Nat) : Editor :=
  let moves (line : Int) : Prop := E.numLine < line ∨ (E.numLine = line ∧ curPos = 0)
  { E with
    savePosLine := E.savePosLine.map fun line =>
      if line ≠ POS_NONE ∧ moves line then line + 1 else line
    stackBookmarks := E.stackBookmarks.map fun line => if moves line then line + 1 else line }

/-- `InsertString`: the first line at or above `prevLine` that is not blank, and the place of
its first character other than a space. -/
def findIndent (S : LineList) : Nat → Option Ptr → Option (Option Ptr × Nat)
  | 0, _ => none
  | fuel + 1, prevLine =>
      if prevLine = none then none
      else
        match (S.edit prevLine).str.findIdx? fun c => !isSpace c with
        | some i => some (prevLine, i)
        | none => findIndent S fuel (S.prev prevLine)

/-- `RemoveTrailingSpaces` on a zero terminated copy. -/
def removeTrailingSpaces (s : WStr) : WStr :=
  ((s.takeWhile (· ≠ 0)).reverse.dropWhile fun c => isSpace c || isEol c).reverse

/-- `InsertString`: the cursor stands inside the line, whose text is `str` and whose line end
was `endSeq`; the text behind the cursor goes to `newString`. -/
def splitLine (E : Editor) (newString : Option Ptr) (str endSeq : WStr) (curPos : Nat) : Editor :=
  let E := E.modifyLine newString fun e => e.setBinaryString E.conf (str.drop curPos)
  let newLineEmpty := (str.drop curPos).all isSpace
  let E := (E.addUndoBegin).addUndoEdit E.curLine E.numLine
  let E := E.addUndoData
    { type := .insStr, eol := if E.endList = E.curLine then [] else E.globalEOL,
      strNum := E.numLine + 1, strPos := 0 }
  let E := E.addUndoEnd
  let newCurLineStr := str.take curPos
  let newCurLineStr :=
    if E.edOpt.autoIndent ∧ newLineEmpty then removeTrailingSpaces newCurLineStr
    else newCurLineStr
  E.modifyCur fun e => (e.setBinaryString E.conf newCurLineStr).setEOL endSeq

/-- `InsertString`: the vertical block moves down, or grows. -/
def growVBlock (E : Editor) : Editor :=
  let below : Bool := E.vBlockAhead ∧ E.numLine < E.vBlockY
  let inside : Bool := E.vBlockAhead ∧ ¬ E.numLine < E.vBlockY
  { E with
    vBlockY := if below then E.vBlockY + 1 else E.vBlockY
    blockStartLine := if below then E.blockStartLine + 1 else E.blockStartLine
    vBlockSizeY := if inside then E.vBlockSizeY + 1 else E.vBlockSizeY }

/-- `InsertString`: the stream block is divided between the two lines. -/
def splitSelection (E : Editor) (newString : Option Ptr) (selStart selEnd : Int) (curPos : Nat) :
    Editor :=
  let conf := E.conf
  let cur : Int := curPos
  let newEnd : Int := if selEnd = -1 then -1 else selEnd - cur
  if selStart ≠ -1 ∧ (selEnd = -1 ∨ cur < selEnd) then
    if cur ≥ selStart then
      (E.modifyCur fun e => e.select conf selStart (-1)).modifyLine newString fun e =>
        e.select conf 0 newEnd
    else
      let E := (E.modifyCur fun e => e.select conf (-1) 0).modifyLine newString fun e =>
        e.select conf (selStart - cur) newEnd
      E.setBlockStart newString (E.blockStartLine + 1)
  else if E.blockStart ≠ none ∧ E.numLine < E.blockStartLine then
    E.setBlockStart E.blockStart (E.blockStartLine + 1)
  else E

/-- `for (int I = 0; CurLine->GetCellCurPos() < IndentPos; I++)`: the indent is typed in, taking
over the blanks of the line it comes from. -/
def typeIndent (conf : EditConf) (indentPos : Nat) : Nat → WStr → Edit → Edit
  | 0, _, e => e
  | fuel + 1, prevStr, e =>
      if e.cellCurPos conf < indentPos then
        match prevStr with
        | c :: rest =>
            typeIndent conf indentPos fuel rest
              (e.processChar conf (if isSpace c then c else SPACE))
        | [] => typeIndent conf indentPos fuel [] (e.processChar conf SPACE)
      else e

/-- `while (CurLine->GetCellCurPos() > IndentPos) CurLine->ProcessKey(KEY_BS)`. -/
def trimIndent (conf : EditConf) (indentPos : Nat) : Nat → Edit → Edit
  | 0, e => e
  | fuel + 1, e =>
      if e.cellCurPos conf > indentPos then trimIndent conf indentPos fuel (e.processBS conf)
      else e

/-- `InsertString`: the columns the new line already starts with. -/
def leadingColumns (conf : EditConf) (e : Edit) (indentPos : Nat) : Nat :=
  (((e.str.take indentPos).takeWhile isSpace).zipIdx.map fun (c, i) =>
    if c = SPACE then 1
    else conf.tabSize - e.realPosToCell conf i % conf.tabSize).sum

/-- `InsertString`: the new line is indented like the line it comes from. -/
def indentLine (conf : EditConf) (cursorBeyondEOL spaceOnly : Bool) (orgIndentPos : Nat)
    (prevStr : WStr) (e : Edit) : Edit :=
  let indentPos := if spaceOnly then orgIndentPos - leadingColumns conf e orgIndentPos
    else orgIndentPos
  let e :=
    if indentPos > 0 then
      let e :=
        if e.length ≠ 0 ∨ !cursorBeyondEOL then
          let overtype := e.overtype
          let e := { e.processHome with overtype := false }
          let e := typeIndent conf indentPos (indentPos + prevStr.length + 1) prevStr e
          let e := trimIndent conf indentPos e.length e
          { e with overtype := overtype }
        else e
      e.setCellCurPos conf indentPos
    else e
  if spaceOnly then
    -- `NewPos` is the first character other than a space, or the last one
    let newPos := (e.str.findIdx? fun c => !isSpace c).getD (e.length - 1)
    let newPos := min newPos orgIndentPos
    if newPos > e.curPos then e.setCurPos newPos else e
  else e

/-- `Down`. -/
def down (E : Editor) : Editor := E.onLines fun S => S.down E.conf

/-- `Up`. -/
def up (E : Editor) : Editor := E.onLines fun S => S.up E.conf

/-- `InsertString`: where the indent comes from, with the side effect that the cursor of that
line stands behind it. -/
def takeIndent (E : Editor) : Editor × Option (Option Ptr × Nat) :=
  if E.edOpt.autoIndent ∧ E.pasting = 0 then
    match findIndent E.toLineList E.fresh E.curLine with
    | some (line, i) =>
        let E := E.modifyLine line fun e => e.setCurPos i
        (E, some (line, (E.edit line).cellCurPos E.conf))
    | none => (E, none)
  else (E, none)

/-- `InsertString`: the new line is linked in behind the line with the cursor, and text, line end
and selection are divided. The other answers are that line as it was, and where the indent comes
from. -/
def makeLine (E : Editor) : Editor × Edit × Option (Option Ptr × Nat) :=
  let newString := some E.fresh
  let E := E.insertStringAfter none E.curLine E.numLine
  let cur := E.curEdit
  let endSeq := cur.getEOL
  let E :=
    if endSeq = [] then
      E.modifyCur fun e => e.setEOL (if E.globalEOL ≠ [] then E.globalEOL else NATIVE_EOLW)
    else E
  let curPos := cur.curPos
  let (selStart, selEnd) := cur.getSelection
  let E := E.bookmarksDown curPos
  let (E, indent) := E.takeIndent
  let E :=
    if curPos < cur.length then E.splitLine newString cur.str endSeq curPos
    else
      (E.modifyLine newString fun e => e.setString E.conf []).addUndoData
        { type := .insStr, strNum := E.numLine + 1, strPos := 0 }
  let E := E.growVBlock
  let E := E.splitSelection newString selStart selEnd curPos
  let E := (E.modifyLine newString fun e => e.setEOL endSeq).modifyCur fun e => e.setCurPos 0
  (E, cur, indent)

/-- `InsertString`: the cursor goes to the new line, which is indented. -/
def enterLine (E : Editor) (newString : Option Ptr) (cur : Edit)
    (indent : Option (Option Ptr × Nat)) : Editor :=
  let E := { E with endList := if E.curLine = E.endList then newString else E.endList }
  let E := E.down
  let indentPos := (indent.map Prod.snd).getD 0
  if indentPos > 0 then
    let spaceOnly := !(decide (cur.curPos < cur.length)) || (cur.str.take cur.curPos).all isSpace
    let E := E.showEditor false
    let prevStr := (indent.map fun src => (E.edit src.1).str).getD []
    E.modifyCur (indentLine E.conf E.edOpt.cursorBeyondEOL spaceOnly indentPos prevStr)
  else E

/-- `InsertString()`. -/
def insertString (E : Editor) : Editor :=
  if E.lockMode then E
  else
    let newString := some E.fresh
    let (E, cur, indent) := E.makeLine
    (E.enterLine newString cur indent).textChanged true

/-! ## `DeleteBlock` -/

/-- `DeleteVBlock`: the cursor goes up to the first line of the block. -/
def vBlockCursor (conf : EditConf) (vBlockStart : Option Ptr) (vBlockX : Int) :
    Nat → Option Ptr → Option Ptr → LineList → LineList
  | 0, _, _, S => S
  | fuel + 1, curPtr, newTopScreen, S =>
      if curPtr = none then S
      else if curPtr = vBlockStart then
        { S with topScreen := newTopScreen, curLine := curPtr }.modify curPtr fun e =>
          e.setCellCurPos conf vBlockX
      else
        let newTopScreen :=
          if newTopScreen = curPtr ∧ S.prev curPtr ≠ none then S.prev curPtr else newTopScreen
        vBlockCursor conf vBlockStart vBlockX fuel (S.prev curPtr) newTopScreen
          { S with numLine := S.numLine - 1 }

/-- `DeleteVBlock`: the columns of the block are cut out of one line. -/
def cutColumns (conf : EditConf) (blockX blockSizeX : Nat) (e : Edit) : Edit :=
  let curPos :=
    if e.curPos > blockX then max (e.curPos - blockSizeX) blockX else e.curPos
  (e.setBinaryString conf
    (e.str.take blockX ++ e.str.drop (blockX + blockSizeX) ++ e.getEOL)).setCurPos curPos

/-- `DeleteVBlock`: the loop over the lines of the block. -/
def vBlockLoop (E : Editor) : Nat → Option Ptr → Int → Editor
  | 0, _, _ => E
  | lines + 1, curPtr, line =>
      if curPtr = none then E
      else
        let E := E.textChanged true
        let e := E.edit curPtr
        let blockX := e.cellPosToReal E.conf E.vBlockX
        let blockSizeX := e.cellPosToReal E.conf (E.vBlockX + E.vBlockSizeX) - blockX
        let E :=
          if blockX ≥ e.length then E
          else
            (E.addUndoEdit curPtr (E.blockStartLine + line)).modifyLine curPtr
              (cutColumns E.conf blockX blockSizeX)
        vBlockLoop E lines (E.next curPtr) (line + 1)

/-- `DeleteVBlock`. -/
def deleteVBlock (E : Editor) : Editor :=
  if E.lockMode ∨ E.vBlockSizeX ≤ 0 ∨ E.vBlockSizeY ≤ 0 then E
  else
    let E := E.addUndoBegin
    let E :=
      if E.edOpt.persistentBlocks then E
      else E.onLines fun S =>
        vBlockCursor E.conf E.vBlockStart E.vBlockX S.fresh S.curLine S.topScreen S
    let E := vBlockLoop E E.vBlockSizeY.toNat E.vBlockStart 0
    { E.addUndoEnd with vBlockStart := none }

/-- `DeleteBlock`: what is left of a partly marked line, and of the line joined to it. -/
structure JoinedText where
  text : WStr
  eol : WStr
  /-- `EndSel == -1`: the block goes on behind the text -/
  goesOn : Bool
  deleteNext : Bool

/-- `DeleteBlock`: `NextEndSel`, where the marked part of the next line ends. -/
def nextEndSel (S : LineList) (curPtr : Option Ptr) : Int :=
  let (startSel, endSel) := (S.edit (S.next curPtr)).getSelection
  if startSel = -1 then 0 else endSel

/-- `DeleteBlock`: the text `CurPtr` gets. `EndSeq` is that of `CurPtr` itself: the declaration
inside `if (DeleteNext)` hides it there. -/
def joinText (S : LineList) (curPtr : Option Ptr) (startSel endSel : Int) : JoinedText :=
  let e := S.edit curPtr
  let deleteNext : Bool := endSel = -1 ∧ S.next curPtr ≠ none
  let endSel := if endSel = -1 then e.length else endSel.toNat
  let next := (S.edit (S.next curPtr)).str
  { text := e.str.take startSel.toNat ++ e.str.drop endSel ++
      if deleteNext ∧ nextEndSel S curPtr ≠ -1 then next.drop (nextEndSel S curPtr).toNat else []
    eol := e.getEOL
    goesOn := deleteNext ∧ nextEndSel S curPtr = -1
    deleteNext := deleteNext }

/-- `DeleteBlock`: the cursor and the screen leave the line behind `curPtr`. -/
def leaveNext (E : Editor) (curPtr : Option Ptr) : Editor :=
  let next := E.next curPtr
  { E with
    curLine := if E.curLine = next then curPtr else E.curLine
    numLine := if E.curLine = next then E.numLine - 1 else E.numLine
    topScreen :=
      if (E.curLine = next ∨ E.curLine = curPtr) ∧ next ≠ none ∧ next = E.topScreen then curPtr
      else E.topScreen }

/-- `DeleteBlock`: `if (line < NumLine) NumLine--`. -/
def lineGone (E : Editor) (line : Int) : Editor :=
  { E with numLine := if line < E.numLine then E.numLine - 1 else E.numLine }

/-- `DeleteBlock`: the line behind `curPtr` is removed. -/
def joinNextLine (E : Editor) (curPtr : Option Ptr) (i : Int) : Editor :=
  let E := E.leaveNext curPtr
  let E := E.deleteString (E.next curPtr) i false (E.blockStartLine + 1)
  E.lineGone (E.blockStartLine + 1)

/-- `DeleteBlock`: a block that starts behind the text makes the line as long as that. -/
def padLine (E : Editor) (curPtr : Option Ptr) (startSel : Int) : Editor :=
  E.modifyLine curPtr fun e =>
    if startSel > e.length then (e.setCurPos startSel.toNat).insertBinaryString E.conf [] else e

/-- `DeleteBlock`: the line gets its new text; while the block goes on, its end stays marked. -/
def setJoined (E : Editor) (curPtr : Option Ptr) (startSel : Int) (joined : JoinedText) : Editor :=
  let E := E.modifyLine curPtr fun e =>
    (e.setBinaryString E.conf (joined.text ++ joined.eol)).setCurPos startSel.toNat
  E.modifyLine curPtr fun e =>
    if joined.goesOn then e.select E.conf e.length (-1) else e.select E.conf (-1) 0

/-- `DeleteBlock`: one turn of the loop on a partly marked line. The answer is where the loop
goes on. -/
def deletePartLine (E : Editor) (curPtr : Option Ptr) (startSel endSel i : Int) :
    Editor × Option Ptr :=
  let E :=
    if startSel ≠ 0 ∨ endSel ≠ 0 then E.addUndoEdit curPtr E.blockStartLine else E
  let E := E.padLine curPtr startSel
  let joined := joinText E.toLineList curPtr startSel endSel
  let E := if joined.deleteNext then E.joinNextLine curPtr i else E
  let E := E.setJoined curPtr startSel joined
  if joined.goesOn then (E, curPtr)
  else ({ E with blockStartLine := E.blockStartLine + 1 }, E.next curPtr)

/-- `DeleteBlock`: one turn of the loop on a wholly marked line. -/
def deleteWholeLine (E : Editor) (curPtr : Option Ptr) (i : Int) : Editor :=
  let E := E.deleteString curPtr i false E.blockStartLine
  E.lineGone E.blockStartLine

/-- The selection `DeleteBlock` works on: a block that ends behind the text takes in the line
end. -/
def blockSelection (e : Edit) : Int × Int :=
  let (startSel, endSel) := e.getRealSelection
  (startSel, if endSel ≠ -1 ∧ endSel > e.length then -1 else endSel)

/-- The loop of `DeleteBlock`. -/
def deleteBlockLoop : Nat → Editor → Option Ptr → Int → Editor
  | 0, E, _, _ => E
  | fuel + 1, E, curPtr, i =>
      if curPtr = none then E
      else
        let E := E.textChanged true
        let (startSel, endSel) := blockSelection (E.edit curPtr)
        if startSel = -1 then E
        else if startSel = 0 ∧ endSel = -1 then
          let nextLine := E.next curPtr
          let E := E.deleteWholeLine curPtr i
          if nextLine ≠ none then deleteBlockLoop fuel E nextLine (i + 1) else E
        else
          let (E, curPtr) := E.deletePartLine curPtr startSel endSel i
          deleteBlockLoop fuel E curPtr (i + 1)

/-- `DeleteBlock`. Every turn of the loop removes a line, goes on to the next one, or empties
the last one, so that two turns for each line are enough. -/
def deleteBlock (E : Editor) : Editor :=
  if E.lockMode then E
  else if E.vBlockStart ≠ none then E.deleteVBlock
  else
    let E := E.addUndoBegin
    let E := deleteBlockLoop (2 * E.fresh + 2) E E.blockStart E.blockStartLine
    { E.addUndoEnd with blockStart := none }

end Editor

end Far2l
