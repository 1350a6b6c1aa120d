/-
Far2l.Editor.EditorTheorems — what the functions every command uses do to the
list of lines, and which members of the editor they leave alone.
-/
import Far2l.Editor.Editor
import Far2l.Editor.Frame

namespace Far2l

namespace Editor

variable {E E' E'' : Editor}

/-! ## Members that stay -/

/-- The members of the editor that no edit changes. -/
structure Kept (E E' : Editor) : Prop where
  edOpt : E'.edOpt = E.edOpt
  fullWidth : E'.fullWidth = E.fullWidth
  xxxfix : E'.xxxfix = E.xxxfix
  lockMode : E'.lockMode = E.lockMode
  disableUndo : E'.disableUndo = E.disableUndo
  pasting : E'.pasting = E.pasting
  locked : E'.locked = E.locked
  globalEOL : E'.globalEOL = E.globalEOL

namespace Kept

theorem refl (E : Editor) : Kept E E := ⟨rfl, rfl, rfl, rfl, rfl, rfl, rfl, rfl⟩

theorem trans (h : Kept E E') (h' : Kept E' E'') : Kept E E'' :=
  ⟨h'.edOpt.trans h.edOpt, h'.fullWidth.trans h.fullWidth, h'.xxxfix.trans h.xxxfix,
    h'.lockMode.trans h.lockMode, h'.disableUndo.trans h.disableUndo,
    h'.pasting.trans h.pasting, h'.locked.trans h.locked, h'.globalEOL.trans h.globalEOL⟩

theorem conf (h : Kept E E') : E'.conf = E.conf := by
  simp only [Editor.conf, h.edOpt, h.fullWidth, h.xxxfix]

theorem onLines (E : Editor) (f : LineList → LineList) : Kept E (E.onLines f) :=
  ⟨rfl, rfl, rfl, rfl, rfl, rfl, rfl, rfl⟩

theorem textChanged (E : Editor) (state : Bool) : Kept E (E.textChanged state) :=
  ⟨rfl, rfl, rfl, rfl, rfl, rfl, rfl, rfl⟩

theorem modifyLine (E : Editor) (p : Option Ptr) (f : Edit → Edit) : Kept E (E.modifyLine p f) :=
  onLines E _

theorem addUndoData (E : Editor) (u : EditorUndoData) : Kept E (E.addUndoData u) :=
  ⟨rfl, rfl, rfl, rfl, rfl, rfl, rfl, rfl⟩

theorem addUndoEdit (E : Editor) (p : Option Ptr) (n : Int) : Kept E (E.addUndoEdit p n) :=
  addUndoData E _

theorem shrinkVBlock (E : Editor) : Kept E E.shrinkVBlock :=
  ⟨rfl, rfl, rfl, rfl, rfl, rfl, rfl, rfl⟩

theorem bookmarksUp (E : Editor) (n : Int) : Kept E (E.bookmarksUp n) :=
  ⟨rfl, rfl, rfl, rfl, rfl, rfl, rfl, rfl⟩

theorem leaveBlocks (E : Editor) (p : Option Ptr) : Kept E (E.leaveBlocks p) :=
  ⟨rfl, rfl, rfl, rfl, rfl, rfl, rfl, rfl⟩

theorem showEditor (E : Editor) (only : Bool) : Kept E (E.showEditor only) :=
  ⟨rfl, rfl, rfl, rfl, rfl, rfl, rfl, rfl⟩

theorem unmarkBlock (E : Editor) : Kept E E.unmarkBlock := by
  rw [Editor.unmarkBlock]
  split
  · exact refl E
  · exact ⟨rfl, rfl, rfl, rfl, rfl, rfl, rfl, rfl⟩

theorem unmarkEmptyBlock (E : Editor) : Kept E E.unmarkEmptyBlock := by
  simp only [Editor.unmarkEmptyBlock]
  split
  · exact refl E
  · generalize (if E.vBlockStart ≠ none then decide (E.vBlockSizeX ≠ 0 ∧ E.vBlockSizeY ≠ 0)
      else blockHasText E.toLineList E.fresh E.blockStart) = lines
    split
    · exact refl E
    · exact unmarkBlock E

end Kept

/-! ## The list of lines -/

@[simp] theorem toLineList_addUndoData (E : Editor) (u : EditorUndoData) :
    (E.addUndoData u).toLineList = E.toLineList := rfl

@[simp] theorem toLineList_setBlockStart (E : Editor) (p : Option Ptr) (n : Int) :
    (E.setBlockStart p n).toLineList = E.toLineList := rfl

@[simp] theorem toLineList_shrinkVBlock (E : Editor) :
    E.shrinkVBlock.toLineList = E.toLineList := rfl

/-- A call of a member function of a line changes the inside of that line. -/
theorem sameShape_modifyLine (E : Editor) (p : Option Ptr) (f : Edit → Edit) :
    E.toLineList.SameShape (E.modifyLine p f).toLineList := LineList.SameShape.modify _ p f

theorem edit_modifyLine_self {q : Ptr} (h : E.toLineList.Live q) (f : Edit → Edit) :
    (E.modifyLine (some q) f).edit (some q) = f (E.edit (some q)) := LineList.edit_modify_self h f

theorem edit_modifyLine_of_ne {q r : Ptr} (h : r ≠ q) (f : Edit → Edit) :
    (E.modifyLine (some q) f).edit (some r) = E.edit (some r) :=
  LineList.edit_modify_of_ne (by simpa using h) f

/-- Without a vertical block, `DeleteString` leaves the numbers of the block to its caller. -/
theorem shrinkVBlock_of_none (h : E.vBlockStart = none) : E.shrinkVBlock = E := by
  have hahead : E.vBlockAhead = false := by simp [vBlockAhead, h]
  simp [shrinkVBlock, hahead]

/-- The members of the editor once `DeleteString` has taken a line out of the list. -/
def dropLine (E : Editor) (delPtr : Option Ptr) (undoLine : Int) : Editor :=
  let E := E.leaveBlocks delPtr
  let e := E.edit delPtr
  if undoLine ≠ -1 then
    E.addUndoData
      { type := .delStr, str := some e.str, eol := e.getEOL, strNum := undoLine, strPos := 0 }
  else E

/-- The three ways through `DeleteString`. -/
theorem deleteString_eq (E : Editor) (delPtr : Option Ptr) (lineNumber : Int) (deleteLast : Bool)
    (undoLine : Int) :
    E.deleteString delPtr lineNumber deleteLast undoLine
      = if E.lockMode then E
        else
          let E1 := E.shrinkVBlock.textChanged true
          if E1.next delPtr = none ∧ (!deleteLast ∨ E1.prev delPtr = none) then
            (E1.addUndoEdit delPtr undoLine).modifyLine delPtr fun e => e.setString E1.conf []
          else
            (((E1.bookmarksUp undoLine).onLines fun S =>
              S.unlinkLine (E1.bookmarksUp undoLine).conf delPtr lineNumber).dropLine delPtr
                undoLine).onLines fun S => S.free delPtr := by
  simp only [deleteString, dropLine]

theorem Kept.dropLine (E : Editor) (p : Option Ptr) (n : Int) : Kept E (E.dropLine p n) := by
  simp only [Editor.dropLine]
  split
  · exact (Kept.leaveBlocks E p).trans (Kept.addUndoData _ _)
  · exact Kept.leaveBlocks E p

@[simp] theorem toLineList_dropLine (E : Editor) (p : Option Ptr) (n : Int) :
    (E.dropLine p n).toLineList = E.toLineList := by
  simp only [dropLine]
  split <;> rfl

theorem Kept.deleteString (E : Editor) (p : Option Ptr) (n : Int) (last : Bool) (u : Int) :
    Kept E (E.deleteString p n last u) := by
  rw [deleteString_eq]
  split
  · exact Kept.refl E
  · have h := (Kept.shrinkVBlock E).trans (Kept.textChanged _ true)
    dsimp only
    split
    · exact h.trans ((Kept.addUndoEdit _ _ _).trans (Kept.modifyLine _ _ _))
    · exact h.trans ((Kept.bookmarksUp _ _).trans ((Kept.onLines _ _).trans
        ((Kept.dropLine _ _ _).trans (Kept.onLines _ _))))

/-- **`DeleteString` acts on the list of lines as `deleteLine`.** -/
theorem toLineList_deleteString (hlock : E.lockMode = false) (p : Option Ptr) (n : Int)
    (last : Bool) (u : Int) :
    (E.deleteString p n last u).toLineList = E.toLineList.deleteLine E.conf p n last := by
  have h := (Kept.shrinkVBlock E).trans (Kept.textChanged _ true)
  have hlines : (E.shrinkVBlock.textChanged true).toLineList = E.toLineList :=
    toLineList_shrinkVBlock E
  have hconf : (E.shrinkVBlock.textChanged true).conf = E.conf := h.conf
  rw [deleteString_eq, hlock, if_neg (by simp), LineList.deleteLine]
  dsimp only
  rw [hlines]
  split
  · exact congrArg (fun conf => E.toLineList.modify p fun e => e.setString conf []) hconf
  · show (((E.shrinkVBlock.textChanged true).bookmarksUp u).onLines _ |>.dropLine p u).toLineList.free p
      = _
    rw [toLineList_dropLine]
    exact congrArg (fun conf => (E.toLineList.unlinkLine conf p n).free p) hconf

end Editor

end Far2l
