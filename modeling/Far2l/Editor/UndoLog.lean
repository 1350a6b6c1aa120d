/-
Far2l.Editor.UndoLog — the undo list of `Editor` and `Editor::AddUndoData`
(`far/src/editor.cpp`).

`UndoPos` and `UndoSavePos` are iterators of a `std::list`. Here an iterator is
a number: `i` is the i-th record, `0` is `end()`. The list is circular, as the
source uses it: `end()` precedes the first record and follows the last one.
-/
import Far2l.Utils.Chars

namespace Far2l

/-- `UNDO_EDIT`, `UNDO_INSSTR`, `UNDO_DELSTR`, `UNDO_BEGIN`, `UNDO_END`. -/
inductive UndoType where
  | edit
  | insStr
  | delStr
  | begin_
  | end_
deriving DecidableEq, Repr

/-- `EditorUndoData`; `str = none` is the null `Str`. -/
structure EditorUndoData where
  type : UndoType
  str : Option WStr := none
  eol : WStr := []
  strNum : Int := 0
  strPos : Int := 0
deriving DecidableEq, Repr

/-- The members of `Editor` that make up the undo list, with `FEDITOR_NEWUNDO` and
`FEDITOR_UNDOSAVEPOSLOST`. -/
structure UndoLog where
  undoData : List EditorUndoData := []
  undoPos : Nat := 0
  undoSavePos : Nat := 0
  undoSkipLevel : Int := 0
  lastChangeStrPos : Int := 0
  newUndo : Bool := false
  undoSavePosLost : Bool := false
deriving DecidableEq, Repr

namespace UndoLog

/-- `++it`. -/
def iterNext (U : UndoLog) (it : Nat) : Nat := if it = U.undoData.length then 0 else it + 1

/-- `--it`. -/
def iterPrev (U : UndoLog) (it : Nat) : Nat := if it = 0 then U.undoData.length else it - 1

/-- `*it`. -/
def deref (U : UndoLog) (it : Nat) : Option EditorUndoData :=
  if it = 0 then none else U.undoData[it - 1]?

/-- `it->Type`, for an iterator other than `end()`. -/
def hasType (U : UndoLog) (it : Nat) (type : UndoType) : Bool :=
  (U.deref it).any fun u => u.type == type

/-- The loop that erases everything behind `UndoPos`. -/
def dropRedo (U : UndoLog) : UndoLog :=
  { U with
    undoData := U.undoData.take U.undoPos
    undoSavePos := if U.undoSavePos > U.undoPos then 0 else U.undoSavePos
    undoSavePosLost := U.undoSavePosLost || decide (U.undoSavePos > U.undoPos) }

/-- The record an `UNDO_END` without content would close: the last one or the last but one. -/
def emptyBegin (U : UndoLog) : Nat :=
  let prevUndo := U.undoData.length
  let prevUndo := if prevUndo ≠ 0 ∧ !U.hasType prevUndo .begin_ then U.iterPrev prevUndo
    else prevUndo
  if U.hasType prevUndo .begin_ then prevUndo else 0

/-- `UndoData.erase(PrevUndo)` and what follows it. -/
def eraseBegin (U : UndoLog) (prevUndo : Nat) : UndoLog :=
  { U with
    undoData := U.undoData.eraseIdx (prevUndo - 1)
    undoPos := U.undoData.length - 1
    undoSavePos :=
      if U.undoSavePos = prevUndo then U.undoData.length - 1
      else if U.undoSavePos > prevUndo then U.undoSavePos - 1
      else U.undoSavePos }

/-- Does an edit continue the last record: same line, within one column of the record or of
the last change? -/
def continuesEdit (U : UndoLog) (strNum strPos : Int) : Bool :=
  match U.deref U.undoData.length with
  | some u =>
      u.type == .edit && strNum == u.strNum
        && ((strPos - u.strPos).natAbs ≤ 1 || (strPos - U.lastChangeStrPos).natAbs ≤ 1)
  | none => false

/-- One turn of the loop that trims the oldest record. -/
def trimFront (U : UndoLog) (u : EditorUndoData) (rest : List EditorUndoData) : UndoLog :=
  let skip := if u.type = .begin_ then U.undoSkipLevel + 1 else U.undoSkipLevel
  { U with
    undoData := rest
    undoSkipLevel := if u.type = .end_ ∧ skip > 0 then skip - 1 else skip
    undoSavePosLost := U.undoSavePosLost || U.undoSavePos == 0
    undoSavePos := U.undoSavePos - 1 }

/-- The loop that keeps the list within `EdOpt.UndoSize`, never cutting a group in two. -/
def trimLoop (undoSize : Nat) : Nat → UndoLog → UndoLog
  | 0, U => U
  | fuel + 1, U =>
      match U.undoData with
      | [] => U
      | u :: rest =>
          if U.undoData.length > undoSize ∨ U.undoSkipLevel > 0 then
            trimLoop undoSize fuel (U.trimFront u rest)
          else U

/-- `UndoData.push_back`, and the trimming of the list. -/
def push (U : UndoLog) (undoSize : Nat) (u : EditorUndoData) : UndoLog :=
  let U := { U with newUndo := false, undoData := U.undoData ++ [u] }
  let U := if undoSize > 0 then trimLoop undoSize U.undoData.length U else U
  { U with undoPos := U.undoData.length }

/-- `AddUndoData`, for a line number other than `-1` and with `FEDITOR_DISABLEUNDO` clear. -/
def add (U : UndoLog) (undoSize : Nat) (u : EditorUndoData) : UndoLog :=
  let U := U.dropRedo
  if u.type = .end_ ∧ U.emptyBegin ≠ 0 then U.eraseBegin U.emptyBegin
  else if u.type = .edit ∧ !U.newUndo ∧ U.continuesEdit u.strNum u.strPos then
    { U with lastChangeStrPos := u.strPos }
  else U.push undoSize u

end UndoLog

end Far2l
