/-
Far2l.Editor.DeleteBlockTheorems — the turns of the loop of `DeleteBlock`.

The loop stands on line `c` of the list. A wholly marked line is taken out, and
the loop stands on the next one at the same place; a partly marked line stays,
and while the block goes on the line behind it is taken out. The last line of
the list is never taken out, only emptied.
-/
import Far2l.Editor.Commands
import Far2l.Editor.EditorTheorems

namespace Far2l

namespace Editor

variable {E E' : Editor} {ps : List Ptr}

open LineList (afterErase)

theorem Kept.lineGone (E : Editor) (line : Int) : Kept E (E.lineGone line) :=
  ⟨rfl, rfl, rfl, rfl, rfl, rfl, rfl, rfl⟩

theorem Kept.leaveNext (E : Editor) (p : Option Ptr) : Kept E (E.leaveNext p) :=
  ⟨rfl, rfl, rfl, rfl, rfl, rfl, rfl, rfl⟩

/-- Without a vertical block `DeleteString` leaves the numbers of the blocks alone. -/
theorem deleteString_vBlock (h : E.vBlockStart = none) (a : Ptr) (n : Int) (last : Bool)
    (u : Int) :
    (E.deleteString (some a) n last u).vBlockStart = none
    ∧ (E.deleteString (some a) n last u).blockStartLine = E.blockStartLine := by
  rw [deleteString_eq, shrinkVBlock_of_none h]
  split
  · exact ⟨h, rfl⟩
  · dsimp only
    split
    · exact ⟨h, rfl⟩
    · rw [dropLine]
      split <;> exact ⟨(if_neg (by rw [bookmarksUp]; simp [onLines, textChanged, h])).trans h, rfl⟩

/-- The loop of `DeleteBlock` stands on line `c`, at `p`. -/
structure Stands (E : Editor) (ps : List Ptr) (cur scr c : Nat) (p : Ptr) : Prop where
  placed : E.toLineList.Placed ps cur scr
  line : ps[c]? = some p
  lock : E.lockMode = false
  vBlock : E.vBlockStart = none

/-- A turn has taken line `k`, at `a`, out of the list, under the number `i`. -/
structure Erased (E E' : Editor) (ps : List Ptr) (k : Nat) (a : Ptr) (i : Int) (cur scr : Nat)
    (num : Int) : Prop where
  placed : E'.toLineList.Placed (ps.eraseIdx k) (afterErase ps.length k cur) scr
  numLine : E'.numLine = num
  fresh : E'.fresh = E.fresh
  marks : ∀ q, q ≠ a → (E'.edit (some q)).marks = (E.edit (some q)).marks
  cache : E.toLineList.CacheFollows E'.toLineList ps (ps.eraseIdx k) k i
  kept : Kept E E'
  vBlock : E'.vBlockStart = none
  blockStartLine : E'.blockStartLine = E.blockStartLine

/-- A turn has emptied the line at `a`, which may not be taken out. -/
structure Emptied (E E' : Editor) (ps : List Ptr) (a : Ptr) (cur scr : Nat) (num : Int) :
    Prop where
  placed : E'.toLineList.Placed ps cur scr
  numLine : E'.numLine = num
  fresh : E'.fresh = E.fresh
  marks : ∀ q, q ≠ a → (E'.edit (some q)).marks = (E.edit (some q)).marks
  emptied : E'.edit (some a) = (E.edit (some a)).setString E.conf []
  cache : E.toLineList.CacheKept E'.toLineList ps ps
  kept : Kept E E'
  vBlock : E'.vBlockStart = none
  blockStartLine : E'.blockStartLine = E.blockStartLine

/-- The last line is emptied when `DeleteString` is not to remove it. -/
theorem deleteString_emptied {cur scr k : Nat} {a : Ptr} (h : Stands E ps cur scr k a)
    (hk : k + 1 = ps.length) (i u : Int) :
    Emptied E (E.deleteString (some a) i false u) ps a cur scr E.numLine := by
  obtain ⟨hv, hb⟩ := deleteString_vBlock h.vBlock a i false u
  have hlines := toLineList_deleteString h.lock (some a) i false u
  rw [LineList.deleteLine_kept h.placed E.conf h.line i hk (.inl rfl)] at hlines
  have hshape := LineList.SameShape.modify E.toLineList (some a) fun e => e.setString E.conf []
  rw [← hlines] at hshape
  refine ⟨hshape.placed h.placed, hshape.numLine, hshape.fresh, fun q hq => ?_, ?_,
    hshape.cacheKept ps, Kept.deleteString _ _ _ _ _, hv, hb⟩
  · rw [hlines, LineList.edit_modify_of_ne (by simpa using hq)]
  · rw [hlines, LineList.edit_modify_self (h.placed.live a (List.mem_of_getElem? h.line))]

theorem Emptied.lineGone {cur scr : Nat} {a : Ptr} {num : Int}
    (h : Emptied E E' ps a cur scr num) (line : Int) :
    Emptied E (E'.lineGone line) ps a cur scr (if line < num then num - 1 else num) := by
  refine ⟨h.placed.setNumLine _, ?_, h.fresh, h.marks, h.emptied, h.cache,
    h.kept.trans (Kept.lineGone _ _), h.vBlock, h.blockStartLine⟩
  show (if _ < _ then _ else _) = _
  rw [h.numLine]

theorem Erased.lineGone {k cur scr : Nat} {a : Ptr} {i num : Int}
    (h : Erased E E' ps k a i cur scr num) (line : Int) :
    Erased E (E'.lineGone line) ps k a i cur scr (if line < num then num - 1 else num) := by
  refine ⟨h.placed.setNumLine _, ?_, h.fresh, h.marks, h.cache,
    h.kept.trans (Kept.lineGone _ _), h.vBlock, h.blockStartLine⟩
  show (if _ < _ then _ else _) = _
  rw [h.numLine]

/-- Any other line is taken out. -/
theorem deleteString_erased {cur scr k : Nat} {a : Ptr} (h : Stands E ps cur scr k a)
    (hk : k + 1 < ps.length) (i u : Int) :
    Erased E (E.deleteString (some a) i false u) ps k a i cur (afterErase ps.length k scr)
      E.numLine := by
  obtain ⟨hv, hb⟩ := deleteString_vBlock h.vBlock a i false u
  have hrem := LineList.deleteLine_removed h.placed E.conf h.line i false (.inl hk)
  rw [← toLineList_deleteString h.lock (some a) i false u] at hrem
  have hnum := hrem.numLine
  rw [if_neg (by omega)] at hnum
  exact ⟨hrem.placed, hnum, hrem.fresh, hrem.marks, hrem.cache, Kept.deleteString _ _ _ _ _, hv,
    hb⟩

/-! ## Wholly marked lines -/

/-- A wholly marked line that is not the last one is taken out. -/
theorem deleteWholeLine_erased {cur scr c : Nat} {p : Ptr} (h : Stands E ps cur scr c p)
    (hc : c + 1 < ps.length) (i : Int) :
    Erased E (E.deleteWholeLine (some p) i) ps c p i cur (afterErase ps.length c scr)
      (if E.blockStartLine < E.numLine then E.numLine - 1 else E.numLine) := by
  have herased := deleteString_erased h hc i E.blockStartLine
  rw [← herased.blockStartLine]
  exact herased.lineGone _

/-- The last line of the list is emptied. -/
theorem deleteWholeLine_emptied {cur scr c : Nat} {p : Ptr} (h : Stands E ps cur scr c p)
    (hc : c + 1 = ps.length) (i : Int) :
    Emptied E (E.deleteWholeLine (some p) i) ps p cur scr
      (if E.blockStartLine < E.numLine then E.numLine - 1 else E.numLine) := by
  have hemptied := deleteString_emptied h hc i E.blockStartLine
  rw [← hemptied.blockStartLine]
  exact hemptied.lineGone _

/-! ## Partly marked lines -/

/-- The cursor and the screen leave the next line for the one the loop stands on. -/
theorem leaveNext_placed {cur scr c : Nat} {p : Ptr} (h : Stands E ps cur scr c p)
    (hc : c + 1 < ps.length) :
    (∃ scr', (E.leaveNext (some p)).toLineList.Placed ps (if cur = c + 1 then c else cur) scr')
    ∧ (E.leaveNext (some p)).numLine = if cur = c + 1 then E.numLine - 1 else E.numLine := by
  have hpl := h.placed
  have hcl := hpl.cur_lt
  have hsl := hpl.scr_le
  have hnext : E.next (some p) = ps[c + 1]? := hpl.next_get h.line
  have hcur : E.curLine = E.next (some p) ↔ cur = c + 1 := by
    rw [hnext, hpl.curLine]
    exact ⟨fun heq => hpl.place_inj hcl heq, fun heq => by rw [heq]⟩
  have hcur0 : E.curLine = some p ↔ cur = c := by
    rw [hpl.curLine, ← h.line]
    exact ⟨fun heq => hpl.place_inj hcl heq, fun heq => by rw [heq]⟩
  have hscr : E.next (some p) = E.topScreen ↔ scr = c + 1 := by
    rw [hnext, hpl.screen]
    exact ⟨fun heq => (hpl.place_inj hc heq).symm, fun heq => by rw [heq]⟩
  refine ⟨⟨if cur = c + 1 ∧ scr = c + 1 then c else scr,
    ⟨⟨hpl.toThreaded.congr rfl rfl, hpl.top, hpl.num⟩, hpl.bottom, ?_, ?_, ?_, ?_⟩⟩, ?_⟩
  · show (if E.curLine = E.next (some p) then some p else E.curLine) = _
    simp only [hcur]
    split
    · exact h.line.symm
    · exact hpl.curLine
  · split <;> omega
  · show (if (E.curLine = E.next (some p) ∨ E.curLine = some p) ∧ E.next (some p) ≠ none
      ∧ E.next (some p) = E.topScreen then some p else E.topScreen) = _
    simp only [hcur, hcur0, hscr]
    by_cases hs : scr = c + 1
    · have hcc : cur = c + 1 ∨ cur = c ↔ cur = c + 1 := by omega
      have hne : E.next (some p) ≠ none := by
        rw [hnext]
        exact LineList.get_ne_none hc
      simp only [hs, hcc, hne, ne_eq, not_false_eq_true, and_true]
      split
      · exact h.line.symm
      · rw [← hs]
        exact hpl.screen
    · simp only [hs, and_false, if_false]
      exact hpl.screen
  · split <;> split <;> omega
  · show (if E.curLine = E.next (some p) then E.numLine - 1 else E.numLine) = _
    simp only [hcur]

/-- Once the cursor and the screen have left it, the loop of `DeleteString` stands on the next
line. -/
theorem Stands.leaveNext {cur scr c : Nat} {p q : Ptr} (h : Stands E ps cur scr c p)
    (hq : ps[c + 1]? = some q) :
    ∃ scr', Stands (E.leaveNext (some p)) ps (if cur = c + 1 then c else cur) scr' (c + 1) q
      ∧ (E.leaveNext (some p)).numLine = if cur = c + 1 then E.numLine - 1 else E.numLine := by
  obtain ⟨hc, -⟩ := List.getElem?_eq_some_iff.mp hq
  obtain ⟨⟨scr', hplaced⟩, hnum⟩ := leaveNext_placed h hc
  exact ⟨scr', ⟨hplaced, hq, h.lock, h.vBlock⟩, hnum⟩

theorem joinNextLine_eq {cur scr c : Nat} {p q : Ptr} (h : Stands E ps cur scr c p)
    (hq : ps[c + 1]? = some q) (i : Int) :
    E.joinNextLine (some p) i
      = ((E.leaveNext (some p)).deleteString (some q) i false (E.blockStartLine + 1)).lineGone
          (E.blockStartLine + 1) := by
  have hnext : (E.leaveNext (some p)).next (some p) = some q := (h.placed.next_get h.line).trans hq
  simp only [joinNextLine, hnext]
  congr 1
  exact congrArg (· + 1) (deleteString_vBlock (E := E.leaveNext (some p)) h.vBlock q i false _).2

/-- The number of the cursor's line once the line behind the current one is gone. -/
def joinedNumLine (E : Editor) (cur c : Nat) : Int :=
  let num := if cur = c + 1 then E.numLine - 1 else E.numLine
  if E.blockStartLine + 1 < num then num - 1 else num

/-- The line behind the current one is taken out, unless it is the last one. -/
theorem joinNextLine_erased {cur scr c : Nat} {p q : Ptr} (h : Stands E ps cur scr c p)
    (hq : ps[c + 1]? = some q) (hc : c + 2 < ps.length) (i : Int) :
    ∃ scr', Erased E (E.joinNextLine (some p) i) ps (c + 1) q i
      (if cur = c + 1 then c else cur) scr' (E.joinedNumLine cur c) := by
  obtain ⟨scr', hstands, hnum⟩ := h.leaveNext hq
  have herased := (deleteString_erased hstands hc i (E.blockStartLine + 1)).lineGone
    (E.blockStartLine + 1)
  rw [← joinNextLine_eq h hq, hnum] at herased
  exact ⟨_, herased.placed, herased.numLine, herased.fresh, herased.marks, herased.cache,
    (Kept.leaveNext E (some p)).trans herased.kept, herased.vBlock, herased.blockStartLine⟩

/-- The last line is emptied instead. -/
theorem joinNextLine_emptied {cur scr c : Nat} {p q : Ptr} (h : Stands E ps cur scr c p)
    (hq : ps[c + 1]? = some q) (hc : c + 2 = ps.length) (i : Int) :
    ∃ scr', Emptied E (E.joinNextLine (some p) i) ps q
      (if cur = c + 1 then c else cur) scr' (E.joinedNumLine cur c) := by
  obtain ⟨scr', hstands, hnum⟩ := h.leaveNext hq
  have hemptied := (deleteString_emptied hstands hc i (E.blockStartLine + 1)).lineGone
    (E.blockStartLine + 1)
  rw [← joinNextLine_eq h hq, hnum] at hemptied
  exact ⟨_, hemptied.placed, hemptied.numLine, hemptied.fresh, hemptied.marks, hemptied.emptied,
    hemptied.cache, (Kept.leaveNext E (some p)).trans hemptied.kept, hemptied.vBlock,
    hemptied.blockStartLine⟩

/-- What `DeleteBlock` makes of a partly marked line. -/
def joinedEdit (conf : EditConf) (startSel : Int) (joined : JoinedText) (e : Edit) : Edit :=
  let e := (e.setBinaryString conf (joined.text ++ joined.eol)).setCurPos startSel.toNat
  if joined.goesOn then e.select conf e.length (-1) else e.select conf (-1) 0

/-- Text, line end and selection of such a line. -/
def joinedMarks (conf : EditConf) (eol : EolType) (joined : JoinedText) : DocLine × Int × Int :=
  let l := Edit.setContent conf eol (joined.text ++ joined.eol)
  if joined.goesOn then (l, l.1.length, -1) else (l, -1, 0)

theorem marks_joinedEdit (conf : EditConf) (s : Int) (joined : JoinedText) (e : Edit) :
    (joinedEdit conf s joined e).marks = joinedMarks conf e.endType joined := by
  have hcontent := Edit.content_setBinaryString conf e (joined.text ++ joined.eol)
  rw [joinedEdit, joinedMarks, ← hcontent]
  split
  · rw [Edit.marks_select, Edit.sanitizeRange_open conf _ (Int.natCast_nonneg _)]
    rfl
  · exact Edit.marks_unselect conf _

/-- `setJoined` only changes the line it is called for. -/
theorem setJoined_shape (E : Editor) (p : Ptr) (startSel : Int) (joined : JoinedText) :
    E.toLineList.SameShape (E.setJoined (some p) startSel joined).toLineList
    ∧ (∀ r, r ≠ p →
        (E.setJoined (some p) startSel joined).edit (some r) = E.edit (some r))
    ∧ (E.toLineList.Live p → (E.setJoined (some p) startSel joined).edit (some p)
        = joinedEdit E.conf startSel joined (E.edit (some p))) := by
  refine ⟨(sameShape_modifyLine _ _ _).trans (sameShape_modifyLine _ _ _), ?_, ?_⟩
  · intro r hr
    exact (edit_modifyLine_of_ne hr _).trans (edit_modifyLine_of_ne hr _)
  · intro hlive
    have hlive1 := (sameShape_modifyLine E (some p) fun e =>
      (e.setBinaryString E.conf (joined.text ++ joined.eol)).setCurPos startSel.toNat).live p
    rw [setJoined, edit_modifyLine_self (hlive1.mpr hlive), edit_modifyLine_self hlive]
    rfl

theorem Kept.setJoined (E : Editor) (p : Option Ptr) (s : Int) (j : JoinedText) :
    Kept E (E.setJoined p s j) :=
  ⟨rfl, rfl, rfl, rfl, rfl, rfl, rfl, rfl⟩

/-- A partly marked line before its text is put together. -/
def markPartLine (E : Editor) (curPtr : Option Ptr) (startSel endSel : Int) : Editor :=
  (if startSel ≠ 0 ∨ endSel ≠ 0 then E.addUndoEdit curPtr E.blockStartLine else E).padLine curPtr
    startSel

theorem markPartLine_shape (E : Editor) (p : Ptr) (s t : Int) :
    E.toLineList.SameShape (E.markPartLine (some p) s t).toLineList
    ∧ (∀ r, r ≠ p → (E.markPartLine (some p) s t).edit (some r) = E.edit (some r))
    ∧ ((E.markPartLine (some p) s t).vBlockStart = E.vBlockStart
        ∧ (E.markPartLine (some p) s t).blockStartLine = E.blockStartLine)
    ∧ Kept E (E.markPartLine (some p) s t) := by
  have hlines : (if s ≠ 0 ∨ t ≠ 0 then E.addUndoEdit (some p) E.blockStartLine
      else E).toLineList = E.toLineList := by
    split <;> rfl
  refine ⟨?_, fun r hr => ?_, ⟨?_, ?_⟩, ?_⟩
  · rw [← hlines]
    exact sameShape_modifyLine _ _ _
  · rw [← hlines]
    exact edit_modifyLine_of_ne hr _
  · rw [markPartLine]
    split <;> rfl
  · rw [markPartLine]
    split <;> rfl
  · rw [markPartLine]
    split
    · exact (Kept.addUndoEdit _ _ _).trans (Kept.modifyLine _ _ _)
    · exact Kept.modifyLine _ _ _

/-- A line that is as long as the block wants it is left alone. -/
theorem markPartLine_edit {p : Ptr} {s : Int} (hs : s ≤ (E.edit (some p)).length) (t : Int) :
    (E.markPartLine (some p) s t).edit (some p) = E.edit (some p) := by
  have hlines : (if s ≠ 0 ∨ t ≠ 0 then E.addUndoEdit (some p) E.blockStartLine
      else E).toLineList = E.toLineList := by
    split <;> rfl
  show (LineList.modify _ _ _).edit (some p) = _
  rw [hlines]
  by_cases hlive : E.toLineList.Live p
  · rw [LineList.edit_modify_self hlive, if_neg (by omega)]
  · have hnone : E.mem p = none := Option.not_isSome_iff_eq_none.mp hlive
    rw [LineList.edit_some, LineList.edit_some, LineList.mem_modify_eq_none _ _ hnone, hnone]

theorem Stands.markPartLine {cur scr c : Nat} {p : Ptr} (h : Stands E ps cur scr c p)
    (s t : Int) : Stands (E.markPartLine (some p) s t) ps cur scr c p := by
  obtain ⟨hshape, -, ⟨hv, -⟩, hkept⟩ := markPartLine_shape E p s t
  exact ⟨hshape.placed h.placed, h.line, hkept.lockMode.trans h.lock, hv.trans h.vBlock⟩

/-- The end of a turn on a partly marked line. -/
def finishPartLine (E : Editor) (p : Option Ptr) (s : Int) (joined : JoinedText) :
    Editor × Option Ptr :=
  let E := E.setJoined p s joined
  if joined.goesOn then (E, p)
  else ({ E with blockStartLine := E.blockStartLine + 1 }, E.next p)

theorem deletePartLine_eq (E : Editor) (p : Option Ptr) (s t i : Int) :
    E.deletePartLine p s t i
      = let E := E.markPartLine p s t
        let joined := joinText E.toLineList p s t
        (if joined.deleteNext then E.joinNextLine p i else E).finishPartLine p s joined := rfl

/-- Where the loop goes on behind a turn on line `c`. -/
def JoinedText.advance (joined : JoinedText) : Nat := if joined.goesOn then 0 else 1

/-- The end of a turn only changes the line the loop stands on. -/
structure Finished (E : Editor) (r : Editor × Option Ptr) (ps : List Ptr) (p : Ptr)
    (c cur scr : Nat) (s : Int) (joined : JoinedText) : Prop where
  placed : r.1.toLineList.Placed ps cur scr
  numLine : r.1.numLine = E.numLine
  fresh : r.1.fresh = E.fresh
  others : ∀ q, q ≠ p → r.1.edit (some q) = E.edit (some q)
  edit : r.1.edit (some p) = joinedEdit E.conf s joined (E.edit (some p))
  cache : E.toLineList.CacheKept r.1.toLineList ps ps
  kept : Kept E r.1
  vBlock : r.1.vBlockStart = E.vBlockStart
  blockStartLine : r.1.blockStartLine = E.blockStartLine + joined.advance
  ptr : r.2 = ps[c + joined.advance]?

theorem finishPartLine_spec {cur scr c : Nat} {p : Ptr} (h : E.toLineList.Placed ps cur scr)
    (hp : ps[c]? = some p) (s : Int) (joined : JoinedText) :
    Finished E (E.finishPartLine (some p) s joined) ps p c cur scr s joined := by
  obtain ⟨hshape, hothers, hedit⟩ := setJoined_shape E p s joined
  have hedit := hedit (h.live p (List.mem_of_getElem? hp))
  have hkept := Kept.setJoined E (some p) s joined
  rw [finishPartLine]
  by_cases hgoes : joined.goesOn = true
  · have hadv : joined.advance = 0 := if_pos hgoes
    rw [if_pos hgoes]
    exact ⟨hshape.placed h, hshape.numLine, hshape.fresh, hothers, hedit, hshape.cacheKept ps, hkept,
      rfl, by rw [hadv]; exact (Int.add_zero _).symm, by rw [hadv]; exact hp.symm⟩
  · have hadv : joined.advance = 1 := if_neg hgoes
    rw [if_neg hgoes]
    refine ⟨hshape.placed h, hshape.numLine, hshape.fresh, hothers, hedit, hshape.cacheKept ps,
      ⟨rfl, rfl, rfl, rfl, rfl, rfl, rfl, rfl⟩, rfl, by rw [hadv]; rfl, ?_⟩
    rw [hadv]
    exact (hshape.next (some p)).trans (h.next_get hp)

theorem joinText_deleteNext (S : LineList) (p : Option Ptr) (s t : Int) :
    (joinText S p s t).deleteNext = decide (t = -1 ∧ LineList.next S p ≠ none) := rfl

/-! ## The turns on a partly marked line -/

/-- What the three turns on a partly marked line have in common. -/
structure PartTurn (E : Editor) (r : Editor × Option Ptr) (ps : List Ptr) (p : Ptr)
    (c cur : Nat) (num s t : Int) : Prop where
  placed : ∃ scr, r.1.toLineList.Placed ps cur scr
  numLine : r.1.numLine = num
  fresh : r.1.fresh = E.fresh
  marks : (r.1.edit (some p)).marks
    = joinedMarks E.conf ((E.markPartLine (some p) s t).edit (some p)).endType
        (joinText (E.markPartLine (some p) s t).toLineList (some p) s t)
  kept : Kept E r.1
  vBlock : r.1.vBlockStart = none
  blockStartLine : r.1.blockStartLine = E.blockStartLine
    + (joinText (E.markPartLine (some p) s t).toLineList (some p) s t).advance
  ptr : r.2 = ps[c + (joinText (E.markPartLine (some p) s t).toLineList (some p) s t).advance]?

/-- The marked part ends on the line, or the line is the last one. -/
theorem deletePartLine_stays {cur scr c : Nat} {p : Ptr} (h : Stands E ps cur scr c p)
    {s t : Int} (ht : t ≠ -1 ∨ c + 1 = ps.length) (i : Int) :
    PartTurn E (E.deletePartLine (some p) s t i) ps p c cur E.numLine s t
    ∧ (∀ q, q ≠ p → (E.deletePartLine (some p) s t i).1.edit (some q) = E.edit (some q))
    ∧ E.toLineList.CacheKept (E.deletePartLine (some p) s t i).1.toLineList ps ps := by
  obtain ⟨hshape, hothers, ⟨hv, hb⟩, hkept⟩ := markPartLine_shape E p s t
  have hstands := h.markPartLine s t
  have hno : (joinText (E.markPartLine (some p) s t).toLineList (some p) s t).deleteNext = false := by
    rw [joinText_deleteNext, decide_eq_false_iff_not, hstands.placed.next_get h.line]
    rintro ⟨h1, h2⟩
    rw [ne_eq, List.getElem?_eq_none_iff] at h2
    rcases ht with ht | ht
    · exact ht h1
    · omega
  have hfin := finishPartLine_spec hstands.placed h.line s
    (joinText (E.markPartLine (some p) s t).toLineList (some p) s t)
  rw [deletePartLine_eq]
  simp only [hno, Bool.false_eq_true, if_false]
  refine ⟨⟨⟨_, hfin.placed⟩, hfin.numLine.trans hshape.numLine, hfin.fresh.trans hshape.fresh,
    ?_, hkept.trans hfin.kept, hfin.vBlock.trans (hv.trans h.vBlock), ?_, hfin.ptr⟩,
    fun q hq => (hfin.others q hq).trans (hothers q hq),
    (hshape.cacheKept ps).trans hfin.cache⟩
  · rw [hfin.edit, marks_joinedEdit, hkept.conf]
  · rw [hfin.blockStartLine, hb]

/-- The block goes on, and the next line is taken out. -/
theorem deletePartLine_erased {cur scr c : Nat} {p q : Ptr} (h : Stands E ps cur scr c p)
    (hq : ps[c + 1]? = some q) (hc : c + 2 < ps.length) (s i : Int) :
    PartTurn E (E.deletePartLine (some p) s (-1) i) (ps.eraseIdx (c + 1)) p c
      (afterErase ps.length (c + 1) (if cur = c + 1 then c else cur)) (E.joinedNumLine cur c)
      s (-1)
    ∧ (∀ r, r ≠ p → r ≠ q → ((E.deletePartLine (some p) s (-1) i).1.edit (some r)).marks
        = (E.edit (some r)).marks)
    ∧ E.toLineList.CacheFollows (E.deletePartLine (some p) s (-1) i).1.toLineList ps
        (ps.eraseIdx (c + 1)) (c + 1) i := by
  obtain ⟨hshape, hothers, ⟨hv, hb⟩, hkept⟩ := markPartLine_shape E p s (-1)
  have hstands := h.markPartLine s (-1)
  have hyes : (joinText (E.markPartLine (some p) s (-1)).toLineList (some p) s (-1)).deleteNext
      = true := by
    rw [joinText_deleteNext, decide_eq_true_iff, hstands.placed.next_get h.line, hq]
    exact ⟨rfl, by simp⟩
  obtain ⟨scr', her⟩ := joinNextLine_erased hstands hq hc i
  have hp' : (ps.eraseIdx (c + 1))[c]? = some p := by
    rw [List.getElem?_eraseIdx, if_pos (by omega)]
    exact h.line
  have hpq : p ≠ q := by
    rintro rfl
    have := h.placed.linked.index_inj h.line hq
    omega
  have hfin := finishPartLine_spec her.placed hp' s
    (joinText (E.markPartLine (some p) s (-1)).toLineList (some p) s (-1))
  have hpmarks := her.marks p hpq
  rw [deletePartLine_eq]
  simp only [hyes, if_true]
  refine ⟨⟨⟨_, hfin.placed⟩, ?_, hfin.fresh.trans (her.fresh.trans hshape.fresh), ?_,
    hkept.trans (her.kept.trans hfin.kept), hfin.vBlock.trans her.vBlock, ?_, hfin.ptr⟩, ?_, ?_⟩
  · rw [hfin.numLine, her.numLine]
    simp only [joinedNumLine, hshape.numLine, hb]
  · rw [hfin.edit, marks_joinedEdit, her.kept.conf, hkept.conf]
    exact congrArg (fun m => joinedMarks E.conf m.1.2 _) hpmarks
  · rw [hfin.blockStartLine, her.blockStartLine, hb]
  · intro r hrp hrq
    rw [hfin.others r hrp, her.marks r hrq, hothers r hrp]
  · exact (hshape.cacheKept ps).follows (her.cache.kept hfin.cache)

/-- The block goes on, and the next line, the last one, is emptied. -/
theorem deletePartLine_emptied {cur scr c : Nat} {p q : Ptr} (h : Stands E ps cur scr c p)
    (hq : ps[c + 1]? = some q) (hc : c + 2 = ps.length) (s i : Int) :
    PartTurn E (E.deletePartLine (some p) s (-1) i) ps p c
      (if cur = c + 1 then c else cur) (E.joinedNumLine cur c) s (-1)
    ∧ (∀ r, r ≠ p → r ≠ q → ((E.deletePartLine (some p) s (-1) i).1.edit (some r)).marks
        = (E.edit (some r)).marks)
    ∧ (E.deletePartLine (some p) s (-1) i).1.edit (some q)
        = (E.edit (some q)).setString E.conf []
    ∧ E.toLineList.CacheKept (E.deletePartLine (some p) s (-1) i).1.toLineList ps ps := by
  obtain ⟨hshape, hothers, ⟨hv, hb⟩, hkept⟩ := markPartLine_shape E p s (-1)
  have hstands := h.markPartLine s (-1)
  have hyes : (joinText (E.markPartLine (some p) s (-1)).toLineList (some p) s (-1)).deleteNext
      = true := by
    rw [joinText_deleteNext, decide_eq_true_iff, hstands.placed.next_get h.line, hq]
    exact ⟨rfl, by simp⟩
  obtain ⟨scr', hem⟩ := joinNextLine_emptied hstands hq hc i
  have hpq : p ≠ q := by
    rintro rfl
    have := h.placed.linked.index_inj h.line hq
    omega
  have hfin := finishPartLine_spec hem.placed h.line s
    (joinText (E.markPartLine (some p) s (-1)).toLineList (some p) s (-1))
  have hpmarks := hem.marks p hpq
  rw [deletePartLine_eq]
  simp only [hyes, if_true]
  refine ⟨⟨⟨_, hfin.placed⟩, ?_, hfin.fresh.trans (hem.fresh.trans hshape.fresh), ?_,
    hkept.trans (hem.kept.trans hfin.kept), hfin.vBlock.trans hem.vBlock, ?_, hfin.ptr⟩, ?_, ?_,
    (hshape.cacheKept ps).trans (hem.cache.trans hfin.cache)⟩
  · rw [hfin.numLine, hem.numLine]
    simp only [joinedNumLine, hshape.numLine, hb]
  · rw [hfin.edit, marks_joinedEdit, hem.kept.conf, hkept.conf]
    exact congrArg (fun m => joinedMarks E.conf m.1.2 _) hpmarks
  · rw [hfin.blockStartLine, hem.blockStartLine, hb]
  · intro r hrp hrq
    rw [hfin.others r hrp, hem.marks r hrq, hothers r hrp]
  · rw [hfin.others q (Ne.symm hpq), hem.emptied, hothers q (Ne.symm hpq), hkept.conf]

end Editor

end Far2l
