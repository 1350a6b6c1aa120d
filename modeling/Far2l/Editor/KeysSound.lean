/-
Far2l.Editor.KeysSound — the keys that change lines, and `Undo`, leave a sound
list of lines.
-/
import Far2l.Editor.BlockSound

namespace Far2l

namespace Editor

variable {E : Editor} {ps : List Ptr} {watched : Prop}

open LineList (Steady)

/-! ## When a block may be deleted -/

/-- The block, where there is one, can be deleted. -/
structure BlockOk (watched : Prop) (E : Editor) : Prop where
  anchored : Anchored E
  vAnchored : VAnchored E
  fits : watched → CacheFits E

theorem BlockOk.of_none (h : E.blockStart = none) (hv : E.vBlockStart = none) :
    BlockOk watched E :=
  ⟨fun _ hs => absurd h hs, fun hs => absurd hv hs, fun _ _ hs => absurd h hs⟩

theorem BlockOk.textChanged (h : BlockOk watched E) (state : Bool) :
    BlockOk watched (E.textChanged state) :=
  ⟨h.anchored, h.vAnchored, h.fits⟩

theorem BlockOk.turnOffMarkingBlock (h : BlockOk watched E) :
    BlockOk watched E.turnOffMarkingBlock :=
  ⟨h.anchored, h.vAnchored, h.fits⟩

theorem BlockOk.deleteBlock (h : BlockOk watched E) (hs : E.toLineList.Sound watched) :
    E.deleteBlock.toLineList.Sound watched :=
  sound_deleteBlock hs h.anchored h.vAnchored h.fits

/-- `UnmarkBlock` leaves no block. -/
theorem unmarkBlock_none (E : Editor) :
    E.unmarkBlock.blockStart = none ∧ E.unmarkBlock.vBlockStart = none := by
  rw [unmarkBlock]
  split
  · next h => exact h
  · exact ⟨rfl, rfl⟩

theorem BlockOk.unmarkEmptyBlock (h : BlockOk watched E) : BlockOk watched E.unmarkEmptyBlock := by
  simp only [Editor.unmarkEmptyBlock]
  split
  · exact h
  · generalize (if E.vBlockStart ≠ none then decide (E.vBlockSizeX ≠ 0 ∧ E.vBlockSizeY ≠ 0)
      else blockHasText E.toLineList E.fresh E.blockStart) = lines
    split
    · exact h
    · exact .of_none (unmarkBlock_none E).1 (unmarkBlock_none E).2

/-! ## `DeleteString` -/

theorem sound_deleteString {cur scr k : Nat} {a : Ptr} (h : E.toLineList.Wf ps cur scr)
    (hc : watched → E.toLineList.CacheOk ps) (hp : ps[k]? = some a) (hk : cur ≤ k) (last : Bool)
    (u : Int) : (E.deleteString (some a) k last u).toLineList.Sound watched := by
  by_cases hlock : E.lockMode = true
  · rw [deleteString, if_pos hlock]
    exact ⟨ps, cur, scr, h, hc⟩
  · rw [toLineList_deleteString (by simpa using hlock)]
    exact h.deleteLine_sound hc hp hk E.conf last

/-- The line with the cursor is removed. -/
theorem sound_deleteCur (h : E.toLineList.Sound watched) (last : Bool) (u : Int) :
    (E.deleteString E.curLine E.numLine last u).toLineList.Sound watched := by
  obtain ⟨ps, cur, scr, hwf, hcache⟩ := h
  obtain ⟨a, ha⟩ : ∃ a, ps[cur]? = some a := ⟨_, List.getElem?_eq_getElem hwf.cur_lt⟩
  rw [hwf.curLine, hwf.numLine, ha]
  exact sound_deleteString hwf hcache ha (Nat.le_refl _) last u

/-- The line behind it is removed. -/
theorem sound_deleteNext (h : E.toLineList.Sound watched) (hnext : E.next E.curLine ≠ none)
    (u : Int) :
    (E.deleteString (E.next E.curLine) (E.numLine + 1) true u).toLineList.Sound watched := by
  obtain ⟨ps, cur, scr, hwf, hcache⟩ := h
  rw [hwf.next_curLine] at hnext ⊢
  obtain ⟨a, ha⟩ := Option.ne_none_iff_exists'.mp hnext
  rw [ha, hwf.numLine]
  exact sound_deleteString hwf hcache ha (Nat.le_succ _) true u

/-! ## The keys -/

theorem steady_joinSelection (E : Editor) (length : Nat) (sel nextSel : Int × Int) :
    E.toLineList.Steady (E.joinSelection length sel nextSel).toLineList := by
  simp only [joinSelection]
  split
  · exact Steady.refl _
  · split
    · rw [toLineList_setBlockStart]
      exact steady_modifyCur _ _
    · exact steady_modifyCur _ _

theorem sound_joinWithNext (h : E.toLineList.Sound watched) (hnext : E.next E.curLine ≠ none)
    (curPos : Nat) : (E.joinWithNext curPos).toLineList.Sound watched := by
  simp only [joinWithNext]
  have h1 := h.steady (steady_modifyCur E fun e =>
    ((e.insertBinaryString E.conf (E.edit (E.next E.curLine)).str).setEOL
      (E.edit (E.next E.curLine)).getEOL).setCurPos curPos)
  have hshape := sameShape_modifyLine E E.curLine fun e =>
    ((e.insertBinaryString E.conf (E.edit (E.next E.curLine)).str).setEOL
      (E.edit (E.next E.curLine)).getEOL).setCurPos curPos
  refine (sound_deleteNext h1 ?_ _).steady ((steady_modifyCur _ _).trans
    (steady_joinSelection _ _ _ _))
  exact fun hn => hnext ((hshape.next E.curLine).symm.trans hn)

theorem sound_delChar (h : E.toLineList.Sound watched) (curPos : Nat) :
    (E.delChar curPos).toLineList.Sound watched := by
  rw [delChar]
  split
  · show (if _ then _ else _ : Editor).toLineList.Sound watched
    split
    · exact h.steady (steady_modifyCur E _)
    · next hnext =>
      exact sound_joinWithNext (E := E.addUndoBegin.addUndoEdit E.curLine E.numLine) h hnext curPos
  · exact h.steady (steady_curKey (E.addUndoEdit E.curLine E.numLine) _)

theorem sound_keyDel (h : E.toLineList.Sound watched)
    (hb : E.lockMode = false → E.pasting = 0 → E.edOpt.delRemovesBlocks = true → BlockOk watched E)
    (curPos : Nat) : (E.keyDel curPos).toLineList.Sound watched := by
  rw [keyDel]
  split
  · exact h
  · next hlock =>
    have hb := hb (by simpa using hlock)
    split
    · exact h
    · obtain ⟨E1, hE1⟩ : ∃ E1, (if E.pasting = 0 then E.unmarkEmptyBlock else E) = E1 := ⟨_, rfl⟩
      have h1 : E1.toLineList.Sound watched := by
        rw [← hE1]
        split
        · exact h.steady (steady_unmarkEmptyBlock E)
        · exact h
      have hb1 : E1.pasting = 0 → E1.edOpt.delRemovesBlocks = true → BlockOk watched E1 := by
        rw [← hE1]
        split
        · next hp =>
          rw [(Kept.unmarkEmptyBlock E).edOpt]
          exact fun _ hdel => (hb hp hdel).unmarkEmptyBlock
        · next hp => exact fun hp' => absurd hp' hp
      rw [hE1]
      refine LineList.Sound.steady ?_ (steady_show _)
      split
      · next hdel => exact (hb1 hdel.1 hdel.2.1).deleteBlock h1
      · exact sound_delChar h1 curPos

theorem Kept.showCur (E : Editor) : Kept E E.showCur := by
  rw [Editor.showCur]
  split
  · exact Kept.refl E
  · exact Kept.modifyLine _ _ _

theorem Kept.curKey (E : Editor) (f : Edit → Edit) : Kept E (E.curKey f) :=
  (Kept.showCur E).trans ((Kept.modifyLine _ _ _).trans (Kept.showCur _))

theorem sound_keyBS (h : E.toLineList.Sound watched)
    (hb : E.lockMode = false → E.bsDeletesBlock = true → BlockOk watched E) (curPos : Nat) : (E.keyBS curPos).toLineList.Sound watched := by
  rw [keyBS]
  split
  · exact h
  · next hlock =>
    split
    · exact h
    · refine LineList.Sound.steady ?_ (steady_show _)
      show (if _ then _ else _ : Editor).toLineList.Sound watched
      split
      · next hdel => exact ((hb (by simpa using hlock) hdel).textChanged true).deleteBlock h
      · split
        · rw [toLineList_whilePasting]
          refine sound_keyDel ?_ (fun _ hp => ?_) _
          · exact h.steady ((steady_up { E.textChanged true with pasting := E.pasting + 1 }).trans
              (steady_curKey _ _))
          · -- the block is left alone while `Pasting` is set
            rw [(Kept.curKey _ _).pasting] at hp
            exact absurd hp (Nat.succ_ne_zero _)
        · exact h.steady (steady_curKey ((E.textChanged true).addUndoEdit E.curLine E.numLine) _)

theorem sound_keyEnter (h : E.toLineList.Sound watched)
    (hb : E.lockMode = false → E.pasting = 0 → E.edOpt.persistentBlocks = false →
      BlockOk watched E) :
    E.keyEnter.toLineList.Sound watched := by
  rw [keyEnter]
  refine LineList.Sound.steady ?_ ((steady_modifyCur _ _).trans (steady_show _))
  refine sound_insertString ?_
  show (if _ then _ else _ : Editor).toLineList.Sound watched
  split
  · next hdel =>
    by_cases hlock : E.lockMode = true
    · rw [deleteBlock, if_pos hlock]
      exact h
    · exact (hb (by simpa using hlock) hdel.1 (by simpa using hdel.2.1)).deleteBlock h
  · exact h

theorem sound_keyCtrlY (h : E.toLineList.Sound watched) : E.keyCtrlY.toLineList.Sound watched :=
  (sound_deleteCur h false _).steady (steady_show _)

theorem sound_keyCtrlD (h : E.toLineList.Sound watched)
    (hb : E.lockMode = false → BlockOk watched E) : E.keyCtrlD.toLineList.Sound watched := by
  rw [keyCtrlD]
  split
  · exact h
  · next hlock => exact ((hb (by simpa using hlock)).turnOffMarkingBlock.deleteBlock h).steady (steady_show _)

/-! ## `Undo` -/

theorem steady_restoreLine (E : Editor) (u : EditorUndoData) :
    E.toLineList.Steady (E.restoreLine u).toLineList := by
  rw [restoreLine]
  split
  · exact steady_modifyCur _ _
  · exact Steady.refl _

theorem steady_undoEdit (E : Editor) (ud : Nat) (u : EditorUndoData) :
    E.toLineList.Steady (E.undoEdit ud u).toLineList :=
  (steady_restoreLine E u).trans
    (steady_modifyCur (E.restoreLine u) fun e => e.setCurPos u.strPos.toNat)

theorem Kept.keyHome (E : Editor) : Kept E E.keyHome := (Kept.curKey E _).trans (Kept.showEditor _ _)

theorem Kept.keyEnd (E : Editor) : Kept E E.keyEnd := (Kept.curKey E _).trans (Kept.showEditor _ _)

theorem sound_undoDelStr (h : E.toLineList.Sound watched) (ud : Nat) (u : EditorUndoData) :
    (E.undoDelStr ud u).toLineList.Sound watched := by
  simp only [undoDelStr]
  refine LineList.Sound.steady ?_ (steady_restoreLine _ u)
  rw [toLineList_whilePasting]
  generalize hE1 : ({ E.setRecord ud { u with type := .insStr } with
    pasting := (E.setRecord ud { u with type := .insStr }).pasting + 1 } : Editor) = E1
  have h1 : E1.toLineList.Sound watched := by
    rw [← hE1]
    exact h
  have hpasting : E1.pasting ≠ 0 := by
    rw [← hE1]
    exact Nat.succ_ne_zero _
  split
  · refine sound_keyEnter (h1.steady (steady_keyEnd E1)) fun _ hp => ?_
    exact absurd ((Kept.keyEnd E1).pasting.symm.trans hp) hpasting
  · refine (sound_keyEnter (h1.steady (steady_keyHome E1)) fun _ hp => ?_).steady (steady_keyUp _)
    exact absurd ((Kept.keyHome E1).pasting.symm.trans hp) hpasting

theorem sound_undoRecord (h : E.toLineList.Sound watched) (ud : Nat) :
    (E.undoRecord ud).toLineList.Sound watched := by
  rw [undoRecord]
  split
  · exact h
  · next u _ =>
    have hgo := h.steady (steady_goToLine E u.strNum)
    split
    · exact h
    · exact h
    · exact sound_deleteCur (E := (E.goToLine u.strNum).setRecord ud _) hgo true _
    · exact sound_undoDelStr hgo ud u
    · exact hgo.steady (steady_undoEdit _ ud u)

theorem sound_undoLoop (redo : Bool) (uend : Nat) : ∀ (fuel : Nat) {E : Editor} (ud : Nat),
    E.toLineList.Sound watched → (undoLoop redo uend fuel E ud).1.toLineList.Sound watched
  | 0, _, _, h => h
  | fuel + 1, E, ud, h => by
    rw [undoLoop]
    have h1 := sound_undoRecord h ud
    split
    · exact h1
    · exact sound_undoLoop redo uend fuel _ h1

/-- **`Undo` keeps the list sound**, whatever the records say. -/
theorem sound_undo (h : E.toLineList.Sound watched) (redo : Bool) :
    (E.undo redo).toLineList.Sound watched := by
  simp only [undo]
  generalize (if redo = true then E.toUndoLog.iterNext E.undoPos else E.undoPos) = ustart
  split
  · exact h
  · have h1 := h.steady (steady_unmarkBlock { E.textChanged true with disableUndo := true })
    exact sound_undoLoop redo _ _ ustart h1

theorem sound_keyUndo (h : E.toLineList.Sound watched) (redo : Bool) :
    (E.keyUndo redo).toLineList.Sound watched := by
  rw [keyUndo]
  split
  · exact h
  · exact (sound_undo (E := E.lock) h redo).steady (steady_show (E.lock.undo redo).setNewUndo.unlock)

end Editor

end Far2l
