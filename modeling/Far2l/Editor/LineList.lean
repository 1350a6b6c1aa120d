/-
Far2l.Editor.LineList — the members of `Editor` that make up the list of lines,
and the functions of `far/src/editor.cpp` that move in it.

`Edit` objects live in a heap; a pointer is an address or null, `delete` leaves
the address empty. Reading through a null or dangling pointer yields null or an
empty line, writing through one does nothing: the theorems show that no such
access happens in the states the editor reaches.
-/
import Far2l.Editor.Edit

namespace Far2l

/-- The address of an `Edit`. -/
abbrev Ptr := Nat

/-- An `Edit` with the links the editor keeps in it. -/
structure Node where
  edit : Edit
  next : Option Ptr := none
  prev : Option Ptr := none

/-- The heap and the members of `Editor` that point into it. `fresh` is the next address
`new Edit` yields, `height` is `Y2 - Y1`. -/
structure LineList where
  mem : Ptr → Option Node := fun _ => none
  fresh : Ptr := 0
  topList : Option Ptr := none
  endList : Option Ptr := none
  topScreen : Option Ptr := none
  curLine : Option Ptr := none
  lastGetLine : Option Ptr := none
  numLine : Int := 0
  numLastLine : Int := 0
  lastGetLineNumber : Int := 0
  height : Nat := 24

namespace LineList

/-! ## Access through pointers -/

/-- `p->m_next`. -/
def next (S : LineList) (p : Option Ptr) : Option Ptr := (p.bind S.mem).bind Node.next

/-- `p->m_prev`. -/
def prev (S : LineList) (p : Option Ptr) : Option Ptr := (p.bind S.mem).bind Node.prev

/-- `*p`, apart from its links. -/
def edit (S : LineList) (p : Option Ptr) : Edit := ((p.bind S.mem).map Node.edit).getD {}

/-- An update of the object at `p`. -/
def update (S : LineList) (p : Option Ptr) (f : Node → Node) : LineList :=
  { S with mem := fun q => if some q = p then (S.mem q).map f else S.mem q }

/-- `p->m_next = v`. -/
def setNext (S : LineList) (p v : Option Ptr) : LineList :=
  S.update p fun n => { n with next := v }

/-- `p->m_prev = v`. -/
def setPrev (S : LineList) (p v : Option Ptr) : LineList :=
  S.update p fun n => { n with prev := v }

/-- A call of a member function of `*p` that leaves the links alone. -/
def modify (S : LineList) (p : Option Ptr) (f : Edit → Edit) : LineList :=
  S.update p fun n => { n with edit := f n.edit }

/-- `delete p`. -/
def free (S : LineList) (p : Option Ptr) : LineList :=
  { S with mem := fun q => if some q = p then none else S.mem q }

/-- The lines from `p` on, following `m_next`. -/
def followNext (S : LineList) : Nat → Option Ptr → List Ptr
  | 0, _ => []
  | _ + 1, none => []
  | fuel + 1, some a => a :: followNext S fuel (S.next (some a))

/-- `for (CurPtr = TopList; CurPtr; CurPtr = CurPtr->m_next)`. -/
def lines (S : LineList) : List Ptr := S.followNext S.fresh S.topList

/-! ## Inserting and removing lines -/

/-- `new Edit`, with `newEdit` in it; the object is the one at the old `fresh`. -/
def create (S : LineList) (newEdit : Edit) : LineList :=
  { S with
    mem := fun q => if q = S.fresh then some { edit := newEdit } else S.mem q
    fresh := S.fresh + 1 }

/-- `InsertString`: `pNewEdit` is linked in behind `pWork`. The last assignment is under
`if (pNext)` in the source; here a write through null does nothing. -/
def linkAfter (S : LineList) (pNewEdit pWork : Option Ptr) : LineList :=
  let pNext := S.next pWork
  (((S.setNext pNewEdit pNext).setPrev pNewEdit pWork).setNext pWork pNewEdit).setPrev pNext
    pNewEdit

/-- `InsertString`: the cached line of `GetStringByNumber`. -/
def shiftLastGetLine (S : LineList) (afterLineNumber : Int) : LineList :=
  { S with
    lastGetLineNumber := if afterLineNumber < S.lastGetLineNumber then S.lastGetLineNumber + 1
      else S.lastGetLineNumber }

/-- `InsertString`: the first line of a list. -/
def linkFirst (S : LineList) (pNewEdit : Option Ptr) : LineList :=
  { S with topList := pNewEdit, endList := pNewEdit, topScreen := pNewEdit, curLine := pNewEdit }

/-- `NumLastLine++`, and the cached line follows. -/
def countLine (S : LineList) (afterLineNumber : Int) : LineList :=
  { S with numLastLine := S.numLastLine + 1 }.shiftLastGetLine afterLineNumber

/-- `InsertString(lpwszStr, nLength, pAfter, AfterLineNumber)` once `CreateString` has made
`newEdit`. -/
def insertString (S : LineList) (newEdit : Edit) (pAfter : Option Ptr) (afterLineNumber : Int) :
    LineList :=
  let pNewEdit := some S.fresh
  if S.topList = none ∨ S.numLastLine = 0 then
    ((S.create newEdit).linkFirst pNewEdit).countLine afterLineNumber
  else if pAfter = none then
    let S1 := (S.create newEdit).linkAfter pNewEdit S.endList
    { S1 with endList := pNewEdit }.countLine (S.numLastLine - 1)
  else ((S.create newEdit).linkAfter pNewEdit pAfter).countLine afterLineNumber

/-- The cursor column is carried over to the line the cursor moves to. -/
def moveCursor (conf : EditConf) (S : LineList) (line : Option Ptr) (numLine : Int) : LineList :=
  let curPos := (S.edit S.curLine).cellCurPos conf
  { S with curLine := line, numLine := numLine }.modify line fun e => e.setCellCurPos conf curPos

/-- `DeleteString`: does the cached line of `GetStringByNumber` move? -/
def cacheMoves (S : LineList) (lineNumber : Int) : Bool :=
  S.lastGetLine ≠ none ∧ lineNumber ≤ S.lastGetLineNumber

/-- `DeleteString`: the cached line of `GetStringByNumber`. -/
def forgetLastGetLine (S : LineList) (lineNumber : Int) : LineList :=
  { S with
    lastGetLine := if S.cacheMoves lineNumber ∧ lineNumber = S.lastGetLineNumber then
      S.prev S.lastGetLine else S.lastGetLine
    lastGetLineNumber := if S.cacheMoves lineNumber then S.lastGetLineNumber - 1
      else S.lastGetLineNumber }

/-- `DeleteString`: `if (CurLine == DelPtr)`. -/
def leaveLine (conf : EditConf) (S : LineList) (delPtr : Option Ptr) : LineList :=
  if S.curLine = delPtr then
    if S.next delPtr ≠ none then S.moveCursor conf (S.next delPtr) S.numLine
    else S.moveCursor conf (S.prev delPtr) (S.numLine - 1)
  else S

/-- `DeleteString`: the neighbours of `DelPtr` are joined, `EndList` follows. -/
def joinNeighbours (S : LineList) (delPtr : Option Ptr) : LineList :=
  let S1 := S.setNext (S.prev delPtr) (S.next delPtr)
  { S1.setPrev (S1.next delPtr) (S1.prev delPtr) with
    endList := if S.prev delPtr ≠ none ∧ delPtr = S.endList then S1.prev S.endList
      else S.endList }

/-- `DeleteString`: `TopScreen` and `TopList` leave `DelPtr`. -/
def leaveTop (S : LineList) (delPtr : Option Ptr) : LineList :=
  { S with
    topScreen := if delPtr = S.topScreen then
        if S.next S.topScreen ≠ none then S.next S.topScreen else S.prev S.topScreen
      else S.topScreen
    topList := if delPtr = S.topList then S.next S.topList else S.topList }

/-- `DeleteString`, from `NumLastLine--` to the point where nothing but a block refers to
`DelPtr` any more. -/
def unlinkLine (conf : EditConf) (S : LineList) (delPtr : Option Ptr) (lineNumber : Int) :
    LineList :=
  let S := { S with numLastLine := S.numLastLine - 1 }
  let S := S.forgetLastGetLine lineNumber
  let S := S.leaveLine conf delPtr
  let S := S.joinNeighbours delPtr
  S.leaveTop delPtr

/-! ## Moving the cursor -/

/-- The loop of `CalcDistance`; `maxDist = none` is `-1`. -/
def calcDistanceLoop (S : LineList) (target : Option Ptr) :
    Nat → Option Nat → Option Ptr → Nat
  | 0, _, _ => 0
  | fuel + 1, maxDist, src =>
      if src ≠ target ∧ S.next src ≠ none ∧ maxDist ≠ some 0 then
        calcDistanceLoop S target fuel (maxDist.map (· - 1)) (S.next src) + 1
      else 0

/-- `CalcDistance`. -/
def calcDistance (S : LineList) (src target : Option Ptr) (maxDist : Option Nat) : Nat :=
  S.calcDistanceLoop target S.fresh maxDist src

/-- The loop at the head of `Down`: the number of lines from `TopScreen` to `CurLine`, or to
the end of the list. -/
def screenOffset (S : LineList) : Nat → Option Ptr → Nat
  | 0, _ => 0
  | _ + 1, none => 0
  | fuel + 1, some a =>
      if some a = S.curLine then 0 else screenOffset S fuel (S.next (some a)) + 1

/-- `Down`. -/
def down (conf : EditConf) (S : LineList) : LineList :=
  if S.next S.curLine = none then S
  else
    let y := S.screenOffset S.fresh S.topScreen
    let S := if y ≥ S.height then { S with topScreen := S.next S.topScreen } else S
    S.moveCursor conf (S.next S.curLine) (S.numLine + 1)

/-- `ScrollDown`. -/
def scrollDown (conf : EditConf) (allowEmptySpaceAfterEof : Bool) (S : LineList) : LineList :=
  if S.next S.curLine = none ∨ S.next S.topScreen = none then S
  else if !allowEmptySpaceAfterEof
      ∧ S.calcDistance S.topScreen S.endList (some S.height) < S.height then S.down conf
  else
    let S := { S with topScreen := S.next S.topScreen }
    S.moveCursor conf (S.next S.curLine) (S.numLine + 1)

/-- `Up`. -/
def up (conf : EditConf) (S : LineList) : LineList :=
  if S.prev S.curLine = none then S
  else
    let S :=
      if S.curLine = S.topScreen then { S with topScreen := S.prev S.topScreen } else S
    S.moveCursor conf (S.prev S.curLine) (S.numLine - 1)

/-- `ScrollUp`. -/
def scrollUp (conf : EditConf) (S : LineList) : LineList :=
  if S.prev S.curLine = none then S
  else if S.prev S.topScreen = none then S.up conf
  else
    let S := { S with topScreen := S.prev S.topScreen }
    S.moveCursor conf (S.prev S.curLine) (S.numLine - 1)

/-- `for (; NumLine > Line && CurLine->m_prev; NumLine--) CurLine = CurLine->m_prev`. -/
def walkBack (S : LineList) (line : Int) : Nat → Option Ptr × Int → Option Ptr × Int
  | 0, cur => cur
  | fuel + 1, (p, n) =>
      if n > line ∧ S.prev p ≠ none then walkBack S line fuel (S.prev p, n - 1) else (p, n)

/-- `for (; NumLine < Line && CurLine->m_next; NumLine++) CurLine = CurLine->m_next`. -/
def walkFwd (S : LineList) (line : Int) : Nat → Option Ptr × Int → Option Ptr × Int
  | 0, cur => cur
  | fuel + 1, (p, n) =>
      if n < line ∧ S.next p ≠ none then walkFwd S line fuel (S.next p, n + 1) else (p, n)

/-- Where `GoToLine` starts to walk, and whether it walks towards the top (`bReverse`). -/
def goToLineStart (S : LineList) (line : Int) : (Option Ptr × Int) × Bool :=
  if line < S.numLine then
    if line > S.numLine.tdiv 2 then ((S.curLine, S.numLine), true) else ((S.topList, 0), false)
  else if line > S.numLine + (S.numLastLine - S.numLine).tdiv 2 then
    ((S.endList, S.numLastLine - 1), true)
  else ((S.curLine, S.numLine), false)

/-- `GoToLine`, without the final `Show`. -/
def goToLine (conf : EditConf) (S : LineList) (line : Int) : LineList :=
  if line = S.numLine then S
  else
    let lastNumLine := S.numLine
    let curScrLine : Int := S.calcDistance S.topScreen S.curLine none
    let (start, bReverse) := S.goToLineStart line
    let (p, n) := if bReverse then S.walkBack line S.fresh start else S.walkFwd line S.fresh start
    let S := S.moveCursor conf p n
    let curScrLine := curScrLine + (n - lastNumLine)
    if curScrLine < 0 ∨ curScrLine > S.height then { S with topScreen := S.curLine } else S

/-! ## `GetStringByNumber` -/

/-- The loop of `GetStringByNumber`; `none` when it runs off the list. -/
def getStringLoop (S : LineList) (destLine : Int) (forward : Bool) :
    Nat → Option Ptr × Int → Option (Option Ptr)
  | 0, _ => none
  | fuel + 1, (curPtr, line) =>
      if line = destLine then some curPtr
      else
        let curPtr := if forward then S.next curPtr else S.prev curPtr
        if curPtr = none then none
        else getStringLoop S destLine forward fuel
          (curPtr, if forward then line + 1 else line - 1)

/-- Where `GetStringByNumber` starts to walk, and whether it walks towards the end. -/
def getStringStart (S : LineList) (destLine : Int) : (Option Ptr × Int) × Bool :=
  let (curPtr, startLine) :=
    if S.lastGetLine ≠ none then (S.lastGetLine, S.lastGetLineNumber) else (S.curLine, S.numLine)
  let forward :=
    (destLine > startLine ∧ destLine < startLine + (S.numLastLine - startLine).tdiv 2)
      ∨ destLine < startLine.tdiv 2
  if destLine > startLine then
    if ¬ forward then ((S.endList, S.numLastLine - 1), false) else ((curPtr, startLine), true)
  else if forward then ((S.topList, 0), true) else ((curPtr, startLine), false)

/-- `GetStringByNumber`. -/
def getStringByNumber (S : LineList) (destLine : Int) : LineList × Option Ptr :=
  if destLine = S.numLine ∨ destLine < 0 then
    ({ S with lastGetLine := S.curLine, lastGetLineNumber := S.numLine }, S.curLine)
  else if destLine > S.numLastLine then (S, none)
  else
    let (start, forward) := S.getStringStart destLine
    match S.getStringLoop destLine forward (S.fresh + 1) start with
    | some curPtr => ({ S with lastGetLine := curPtr, lastGetLineNumber := destLine }, curPtr)
    | none =>
        ({ S with
           lastGetLine := if forward then S.topList else S.endList
           lastGetLineNumber := if forward then 0 else S.numLastLine - 1 }, none)

/-! ## The screen -/

/-- `while (CalcDistance(TopScreen, nullptr, Y2 - Y1) < Y2 - Y1)` of `ShowEditor`. -/
def screenUp (S : LineList) : Nat → LineList
  | 0 => S
  | fuel + 1 =>
      if S.calcDistance S.topScreen none (some S.height) < S.height
          ∧ S.prev S.topScreen ≠ none then
        screenUp { S with topScreen := S.prev S.topScreen } fuel
      else S

/-- `while (CalcDistance(TopScreen, CurLine, -1) >= Y2 - Y1 + 1)` of `ShowEditor`. -/
def screenDown (S : LineList) : Nat → LineList
  | 0 => S
  | fuel + 1 =>
      if S.calcDistance S.topScreen S.curLine none ≥ S.height + 1 then
        screenDown { S with topScreen := S.next S.topScreen } fuel
      else S

/-- The lines on the screen take over the column of the cursor, which is `curPos`. -/
def alignScreen (conf : EditConf) (curPos : Nat) (S : LineList) : Nat → Option Ptr → LineList
  | 0, _ => S
  | _ + 1, none => S
  | rows + 1, some a =>
      alignScreen conf curPos (S.modify (some a) fun e => e.setCellCurPos conf curPos) rows
        (S.next (some a))

/-- `ShowEditor`, as far as it changes the lines and their cursors. -/
def showEditor (conf : EditConf) (allowEmptySpaceAfterEof cursorBeyondEOL curLineOnly : Bool)
    (S : LineList) : LineList :=
  if S.topList = none then S
  else
    let S := if allowEmptySpaceAfterEof then S else S.screenUp S.fresh
    let S := S.screenDown S.fresh
    let S :=
      if !cursorBeyondEOL ∧ (S.edit S.curLine).curPos > (S.edit S.curLine).length then
        S.modify S.curLine fun e => e.setCurPos e.length
      else S
    if curLineOnly then S
    else S.alignScreen conf ((S.edit S.curLine).cellCurPos conf) (S.height + 1) S.topScreen

end LineList

end Far2l
