/-
Far2l.Editor.Sound — calls after which the list of lines is as sound as before.

A list is sound when its links, its ends, its length, the cursor and the screen
fit together; where the cached line of `GetStringByNumber` is watched, that fits
as well. A call is steady when it keeps the lines themselves.
-/
import Far2l.Editor.EditorTheorems
import Far2l.Editor.Keys

namespace Far2l

namespace LineList

variable {S S' S'' : LineList} {ps : List Ptr} {watched : Prop}

/-! ## Soundness -/

/-- The lines form one list in both directions, `NumLastLine` is its length, `CurLine` its
`NumLine`-th element and `TopScreen` at or above it; and where the cache is watched,
`LastGetLine` is null or the line `LastGetLineNumber`. -/
def Sound (watched : Prop) (S : LineList) : Prop :=
  ∃ ps cur scr, S.Wf ps cur scr ∧ (watched → S.CacheOk ps)

/-- The lines stay, the cursor and the screen are on lines, and the cached line is in order. -/
def Steady (S S' : LineList) : Prop :=
  ∀ ps cur scr, S.Wf ps cur scr →
    (∃ cur' scr', S'.Wf ps cur' scr') ∧ (S.CacheOk ps → S'.CacheOk ps)

theorem Sound.steady (h : S.Sound watched) (hs : S.Steady S') : S'.Sound watched := by
  obtain ⟨ps, cur, scr, hwf, hcache⟩ := h
  obtain ⟨⟨cur', scr', hwf'⟩, hcache'⟩ := hs ps cur scr hwf
  exact ⟨ps, cur', scr', hwf', fun hw => hcache' (hcache hw)⟩

namespace Steady

theorem refl (S : LineList) : S.Steady S := fun _ cur scr h => ⟨⟨cur, scr, h⟩, id⟩

theorem trans (h : S.Steady S') (h' : S'.Steady S'') : S.Steady S'' := by
  intro ps cur scr hwf
  obtain ⟨⟨cur1, scr1, hwf1⟩, hcache1⟩ := h ps cur scr hwf
  obtain ⟨hwf2, hcache2⟩ := h' ps cur1 scr1 hwf1
  exact ⟨hwf2, hcache2 ∘ hcache1⟩

theorem of_eq (h : S' = S) : S.Steady S' := h ▸ refl S

theorem of_moves (hmoves : S.Moves S')
    (hwf : ∀ ps cur scr, S.Wf ps cur scr → ∃ cur' scr', S'.Wf ps cur' scr') : S.Steady S' :=
  fun ps cur scr h => ⟨hwf ps cur scr h, fun hc => hmoves.cached hc⟩

theorem of_sameShape (h : S.SameShape S') : S.Steady S' :=
  fun _ cur scr hwf => ⟨⟨cur, scr, h.wf hwf⟩, fun hc => h.cached hc⟩

theorem modify (S : LineList) (p : Option Ptr) (f : Edit → Edit) : S.Steady (S.modify p f) :=
  of_sameShape (SameShape.modify S p f)

theorem down (conf : EditConf) (S : LineList) : S.Steady (S.down conf) :=
  of_moves (Moves.down conf S) fun _ _ _ h => ⟨_, h.down conf⟩

theorem up (conf : EditConf) (S : LineList) : S.Steady (S.up conf) :=
  of_moves (Moves.up conf S) fun _ _ _ h => ⟨_, h.up conf⟩

theorem scrollDown (conf : EditConf) (allow : Bool) (S : LineList) :
    S.Steady (S.scrollDown conf allow) :=
  of_moves (Moves.scrollDown conf allow S) fun _ _ _ h => h.scrollDown conf allow

theorem scrollUp (conf : EditConf) (S : LineList) : S.Steady (S.scrollUp conf) :=
  of_moves (Moves.scrollUp conf S) fun _ _ _ h => h.scrollUp conf

theorem goToLine (conf : EditConf) (line : Int) (S : LineList) : S.Steady (S.goToLine conf line) :=
  of_moves (Moves.goToLine conf line S) fun _ _ _ h => ⟨_, h.goToLine conf line⟩

theorem showEditor (conf : EditConf) (allow beyond only : Bool) (S : LineList) :
    S.Steady (S.showEditor conf allow beyond only) :=
  of_moves (Moves.showEditor conf allow beyond only S) fun _ _ _ h =>
    ⟨_, h.showEditor conf allow beyond only⟩

end Steady

/-! ## `GetStringByNumber` -/

/-- The walk towards the end of the list arrives at the line asked for. -/
theorem getStringLoop_fwd (h : S.Threaded ps) {dest : Nat} (hdest : dest < ps.length) :
    ∀ (fuel c : Nat), c ≤ dest → dest < c + fuel →
      S.getStringLoop dest true fuel (ps[c]?, c) = some ps[dest]?
  | 0, c, hle, hfuel => absurd hfuel (by omega)
  | fuel + 1, c, hle, hfuel => by
    rw [getStringLoop]
    by_cases heq : c = dest
    · rw [if_pos (by rw [heq]), heq]
    · rw [if_neg (by omega), h.next_index]
      simp only [if_true, if_neg (get_ne_none (show c + 1 < ps.length by omega))]
      exact getStringLoop_fwd h hdest fuel (c + 1) (by omega) (by omega)

/-- The walk towards the beginning of the list arrives there as well. -/
theorem getStringLoop_back (h : S.Threaded ps) {dest : Nat} :
    ∀ (fuel c : Nat), c < ps.length → dest ≤ c → c < dest + fuel →
      S.getStringLoop dest false fuel (ps[c]?, c) = some ps[dest]?
  | 0, c, hc, hle, hfuel => absurd hfuel (by omega)
  | fuel + 1, c, hc, hle, hfuel => by
    rw [getStringLoop]
    by_cases heq : c = dest
    · rw [if_pos (by rw [heq]), heq]
    · have hprev : S.prev ps[c]? = ps[c - 1]? := by
        rw [h.prev_index hc, if_neg (by omega)]
      rw [if_neg (by omega), hprev]
      simp only [Bool.false_eq_true, if_false,
        if_neg (get_ne_none (show c - 1 < ps.length by omega))]
      rw [show (c : Int) - 1 = ((c - 1 : Nat) : Int) by omega]
      exact getStringLoop_back h fuel (c - 1) (by omega) (by omega) (by omega)

/-- From the last line there is no way down to a line behind it. -/
theorem getStringLoop_none (h : S.Threaded ps) {dest : Int} :
    ∀ (fuel c : Nat), c < ps.length → (c : Int) < dest →
      S.getStringLoop dest false fuel (ps[c]?, c) = none
  | 0, _, _, _ => rfl
  | fuel + 1, c, hc, hlt => by
    rw [getStringLoop, if_neg (by omega), h.prev_index hc]
    by_cases h0 : c = 0
    · simp [h0]
    · simp only [Bool.false_eq_true, if_false, h0,
        if_neg (get_ne_none (show c - 1 < ps.length by omega))]
      rw [show (c : Int) - 1 = ((c - 1 : Nat) : Int) by omega]
      exact getStringLoop_none h fuel (c - 1) (by omega) (by omega)

/-- Where `GetStringByNumber` starts to walk: at a line from which its direction leads to the
line asked for, if there is such a line. -/
theorem Wf.getStringStart {cur scr : Nat} (h : S.Wf ps cur scr) (hc : S.CacheOk ps) {dest : Int}
    (h0 : 0 ≤ dest) :
    ∃ c, c < ps.length ∧
      (S.getStringStart dest = ((ps[c]?, (c : Int)), true) ∧ (c : Int) ≤ dest ∧ dest < ps.length
        ∨ S.getStringStart dest = ((ps[c]?, (c : Int)), false)
          ∧ (dest ≤ c ∨ (ps.length : Int) ≤ dest)) := by
  have hlt := h.cur_lt
  obtain ⟨st, hst, hstart⟩ : ∃ st, st < ps.length ∧
      (if S.lastGetLine ≠ none then (S.lastGetLine, S.lastGetLineNumber)
        else (S.curLine, S.numLine)) = (ps[st]?, (st : Int)) := by
    rcases hc with hnone | ⟨j, -, hj, hline, hnum⟩
    · refine ⟨cur, hlt, ?_⟩
      rw [if_neg (by simp [hnone]), h.curLine, h.numLine]
    · refine ⟨j, hj, ?_⟩
      rw [if_pos (by rw [hline]; exact get_ne_none hj), hline, hnum]
  have hdiv : (ps.length - st : Int).tdiv 2 ≤ ps.length - st := by
    rw [Int.tdiv_eq_ediv_of_nonneg (by omega)]
    omega
  have hdiv' : (st : Int).tdiv 2 ≤ st := by
    rw [Int.tdiv_eq_ediv_of_nonneg (by omega)]
    omega
  rw [LineList.getStringStart, hstart]
  have hlast : (ps.length : Int) - 1 = ((ps.length - 1 : Nat) : Int) := by omega
  simp only [h.num, hlast, h.bottom, h.top]
  by_cases hgt : dest > (st : Int)
  · rw [if_pos hgt]
    split
    · exact ⟨ps.length - 1, by omega, .inr ⟨rfl, by omega⟩⟩
    · next hf =>
      have hf := Decidable.not_not.mp hf
      exact ⟨st, hst, .inl ⟨rfl, by omega, by omega⟩⟩
  · rw [if_neg hgt]
    split
    · exact ⟨0, by omega, .inl ⟨rfl, h0, by omega⟩⟩
    · exact ⟨st, hst, .inr ⟨rfl, by omega⟩⟩

/-- `GetStringByNumber` only changes the cached line. -/
theorem getStringByNumber_members (S : LineList) (dest : Int) :
    ∃ line num, (S.getStringByNumber dest).1
      = { S with lastGetLine := line, lastGetLineNumber := num } := by
  rw [getStringByNumber]
  split
  · exact ⟨_, _, rfl⟩
  · split
    · exact ⟨_, _, rfl⟩
    · generalize S.getStringStart dest = st
      obtain ⟨start, forward⟩ := st
      dsimp only
      split
      · exact ⟨_, _, rfl⟩
      · exact ⟨_, _, rfl⟩

theorem Wf.getStringByNumber {cur scr : Nat} (h : S.Wf ps cur scr) (dest : Int) :
    (S.getStringByNumber dest).1.Wf ps cur scr := by
  obtain ⟨line, num, heq⟩ := getStringByNumber_members S dest
  rw [heq]
  exact ⟨⟨⟨h.toThreaded.congr rfl rfl, h.top, h.num⟩, h.bottom, h.curLine, h.cur_lt, h.screen,
    h.scr_le⟩, h.numLine⟩

/-- **`GetStringByNumber`** returns the line asked for, null behind the last one, and the line
with the cursor for a negative number; the cached line stays in order. -/
theorem Wf.getStringByNumber_spec {cur scr : Nat} (h : S.Wf ps cur scr) (hc : S.CacheOk ps)
    (dest : Int) :
    (S.getStringByNumber dest).2 = (if dest < 0 then S.curLine else ps[dest.toNat]?)
    ∧ (S.getStringByNumber dest).1.CacheOk ps := by
  have hlt := h.cur_lt
  have hfresh := h.toThreaded.length_le_fresh
  rw [LineList.getStringByNumber]
  split
  · next hcur =>
    refine ⟨?_, .inr ⟨cur, trivial, hlt, h.curLine, h.numLine⟩⟩
    split
    · rfl
    · rw [show dest = (cur : Int) by have := h.numLine; omega]
      exact h.curLine
  · next hcur =>
    have h0 : 0 ≤ dest := by omega
    have hneg : ¬ dest < 0 := by omega
    simp only [hneg, if_false]
    split
    · next hbig =>
      rw [h.num] at hbig
      exact ⟨(List.getElem?_eq_none_iff.mpr (by omega)).symm, hc⟩
    · obtain ⟨c, hcl, ⟨hst, hle, hin⟩ | ⟨hst, hback⟩⟩ := h.getStringStart hc h0
      · obtain ⟨n, rfl⟩ := Int.eq_ofNat_of_zero_le h0
        have hn : n < ps.length := by omega
        rw [hst]
        dsimp only
        rw [getStringLoop_fwd h.toThreaded hn _ c (by omega) (by omega)]
        exact ⟨rfl, .inr ⟨n, trivial, hn, rfl, rfl⟩⟩
      · rw [hst]
        dsimp only
        by_cases hin : dest < ps.length
        · obtain ⟨n, rfl⟩ := Int.eq_ofNat_of_zero_le h0
          rw [getStringLoop_back h.toThreaded _ c hcl (by omega) (by omega)]
          exact ⟨rfl, .inr ⟨n, trivial, by omega, rfl, rfl⟩⟩
        · rw [getStringLoop_none h.toThreaded _ c hcl (by omega)]
          refine ⟨(List.getElem?_eq_none_iff.mpr (by omega)).symm,
            .inr ⟨ps.length - 1, trivial, by omega, h.bottom, ?_⟩⟩
          show S.numLastLine - 1 = _
          rw [h.num]
          omega

theorem Steady.getStringByNumber (S : LineList) (dest : Int) :
    S.Steady (S.getStringByNumber dest).1 :=
  fun _ cur scr h =>
    ⟨⟨cur, scr, h.getStringByNumber dest⟩, fun hc => (h.getStringByNumber_spec hc dest).2⟩

/-! ## Removing and inserting a line -/

/-- `DeleteString` of a line that is not above the cursor, under its own number. -/
theorem Wf.deleteLine_sound {cur scr k : Nat} {a : Ptr} (h : S.Wf ps cur scr)
    (hc : watched → S.CacheOk ps) (hp : ps[k]? = some a) (hk : cur ≤ k) (conf : EditConf)
    (last : Bool) : (S.deleteLine conf (some a) k last).Sound watched := by
  have hkl := (List.getElem?_eq_some_iff.mp hp).1
  have hnum := h.numLine
  by_cases hr : k + 1 < ps.length ∨ (last = true ∧ 0 < k)
  · have hrem := deleteLine_removed h.toPlaced conf hp k _ hr
    refine ⟨_, _, _, ⟨hrem.placed, ?_⟩, fun hw => (hrem.cache _ (hc hw) fun j _ => ?_).ok⟩
    · rw [hrem.numLine, hnum, afterErase]
      split <;> split <;> omega
    · rw [SuitsCache]
      omega
  · rw [deleteLine_kept h.toPlaced conf hp k (by omega) (by
      cases last with
      | false => exact .inl rfl
      | true => exact .inr (by simp at hr; omega))]
    have hsteady := Steady.modify S (some a) fun e => e.setString conf []
    exact Sound.steady ⟨ps, cur, scr, h, hc⟩ hsteady

/-- A line is inserted behind the line with the cursor, the insides of the lines change, and
`EndList` follows. -/
theorem Wf.insertBelow {cur scr : Nat} (h : S.Wf ps cur scr) (e : Edit)
    (hs : (S.insertString e S.curLine S.numLine).SameShape S') :
    ({ S' with endList := if S'.curLine = S'.endList then some S.fresh else S'.endList } :
        LineList).Wf (ps.insertIdx (cur + 1) S.fresh) cur scr
    ∧ (S.CacheOk ps → S'.CacheOk (ps.insertIdx (cur + 1) S.fresh)) := by
  have hlt := h.cur_lt
  have hle := h.scr_le
  obtain ⟨a, ha⟩ : ∃ a, ps[cur]? = some a := ⟨_, List.getElem?_eq_getElem hlt⟩
  have hcur : S.curLine = some a := h.curLine.trans ha
  rw [hcur, h.numLine] at hs
  have hchained := hs.chained (insertString_chained h.toChained ha e cur)
  have heq := insertString_eq h.toChained ha e cur
  have hlen : (ps.insertIdx (cur + 1) S.fresh).length = ps.length + 1 :=
    List.length_insertIdx_of_le_length (by omega) _
  have hkeep : ∀ i, i ≤ cur → (ps.insertIdx (cur + 1) S.fresh)[i]? = ps[i]? :=
    fun i hi => List.getElem?_insertIdx_of_lt (by omega)
  have hend : S'.endList = ps[ps.length - 1]? := by
    rw [hs.endList, heq]
    exact h.bottom
  have hcur' : S'.curLine = ps[cur]? := by
    rw [hs.curLine, heq]
    exact h.curLine
  refine ⟨⟨⟨⟨hchained.toThreaded.congr rfl rfl, hchained.top, hchained.num⟩, ?_, ?_, by omega, ?_,
    hle⟩, ?_⟩, fun hc => ?_⟩
  · show (if S'.curLine = S'.endList then some S.fresh else S'.endList) = _
    rw [hlen, hcur', hend]
    by_cases hlast : cur + 1 = ps.length
    · rw [if_pos (by congr 1; omega), show ps.length + 1 - 1 = cur + 1 by omega,
        List.getElem?_insertIdx_self, if_pos (by omega)]
    · rw [if_neg fun heq => hlast (by have := h.place_inj hlt heq; omega),
        List.getElem?_insertIdx_of_gt (by omega)]
      congr 1
  · rw [hkeep cur (Nat.le_refl _)]
    exact hcur'
  · rw [hkeep scr hle]
    exact (hs.topScreen.trans (by rw [heq]; rfl)).trans h.screen
  · exact (hs.numLine.trans (by rw [heq]; rfl)).trans h.numLine
  · refine hs.cached ?_
    rw [heq]
    exact hc.countLine hlt _

end LineList

namespace Editor

variable {E : Editor} {watched : Prop}

open LineList (SameShape Steady)

/-! ## `InsertString` -/

theorem shape_takeIndent (E : Editor) : E.toLineList.SameShape E.takeIndent.1.toLineList := by
  rw [takeIndent]
  split
  · split
    · exact sameShape_modifyLine _ _ _
    · exact SameShape.refl _
  · exact SameShape.refl _

theorem shape_splitLine (E : Editor) (newString : Option Ptr) (str endSeq : WStr) (curPos : Nat) :
    E.toLineList.SameShape (E.splitLine newString str endSeq curPos).toLineList := by
  simp only [splitLine]
  refine (sameShape_modifyLine E newString fun e => e.setBinaryString E.conf (str.drop curPos)).trans ?_
  exact sameShape_modifyLine _ _ _

theorem shape_splitSelection (E : Editor) (newString : Option Ptr) (s t : Int) (curPos : Nat) :
    E.toLineList.SameShape (E.splitSelection newString s t curPos).toLineList := by
  simp only [splitSelection]
  split
  · split
    · exact (sameShape_modifyLine E E.curLine _).trans (sameShape_modifyLine _ _ _)
    · rw [toLineList_setBlockStart]
      exact (sameShape_modifyLine E E.curLine _).trans (sameShape_modifyLine _ _ _)
  · split
    · exact SameShape.refl _
    · exact SameShape.refl _

/-- Apart from the new line, only the insides of the lines have changed. -/
theorem shape_makeLine (E : Editor) :
    (E.toLineList.insertString (E.createString none) E.curLine E.numLine).SameShape
      E.makeLine.1.toLineList := by
  simp only [makeLine]
  generalize hE1 : E.insertStringAfter none E.curLine E.numLine = E1
  have h1 : E.toLineList.insertString (E.createString none) E.curLine E.numLine = E1.toLineList := by
    rw [← hE1]
    rfl
  rw [h1]
  generalize hE2 : (if E1.curEdit.getEOL = [] then
    E1.modifyCur fun e => e.setEOL (if E1.globalEOL ≠ [] then E1.globalEOL else NATIVE_EOLW)
    else E1) = E2
  have h2 : E1.toLineList.SameShape E2.toLineList := by
    rw [← hE2]
    split
    · exact sameShape_modifyLine _ _ _
    · exact SameShape.refl _
  have h3 := h2.trans (shape_takeIndent (E2.bookmarksDown E1.curEdit.curPos))
  generalize (E2.bookmarksDown E1.curEdit.curPos).takeIndent = r at h3 ⊢
  obtain ⟨E3, indent⟩ := r
  dsimp only at h3 ⊢
  refine h3.trans ?_
  refine SameShape.trans ?_ ((sameShape_modifyLine _ _ _).trans (sameShape_modifyLine _ _ _))
  refine SameShape.trans ?_ (shape_splitSelection _ _ _ _ _)
  show SameShape _ (if _ then _ else _ : Editor).toLineList
  split
  · exact shape_splitLine _ _ _ _ _
  · rw [toLineList_addUndoData]
    exact sameShape_modifyLine _ _ _

/-! ## Calls that keep the lines -/

theorem steady_modifyLine (E : Editor) (p : Option Ptr) (f : Edit → Edit) :
    E.toLineList.Steady (E.modifyLine p f).toLineList := Steady.modify _ p f

theorem steady_modifyCur (E : Editor) (f : Edit → Edit) :
    E.toLineList.Steady (E.modifyCur f).toLineList := steady_modifyLine E E.curLine f

theorem steady_up (E : Editor) : E.toLineList.Steady E.up.toLineList := Steady.up _ _

theorem steady_down (E : Editor) : E.toLineList.Steady E.down.toLineList := Steady.down _ _

theorem steady_showEditor (E : Editor) (only : Bool) :
    E.toLineList.Steady (E.showEditor only).toLineList := by
  show Steady E.toLineList (if E.hidden then E.toLineList else E.showLines only)
  split
  · exact Steady.refl _
  · rw [showLines]
    exact Steady.trans (Steady.showEditor _ _ _ _ _) (Steady.modify _ _ _)

theorem steady_show (E : Editor) : E.toLineList.Steady E.show_.toLineList := steady_showEditor E false

theorem steady_goToLine (E : Editor) (line : Int) :
    E.toLineList.Steady (E.goToLine line).toLineList := by
  refine Steady.trans ?_ (steady_show (E.onLines fun S => S.goToLine E.conf line))
  exact Steady.goToLine E.conf line E.toLineList

theorem steady_unmarkLoop (conf : EditConf) : ∀ (fuel : Nat) (S : LineList) (p : Option Ptr),
    S.Steady (unmarkLoop conf fuel S p)
  | 0, S, _ => Steady.refl S
  | fuel + 1, S, p => by
    rw [unmarkLoop]
    split
    · exact Steady.refl S
    · split
      · exact Steady.refl S
      · exact (Steady.modify S p _).trans (steady_unmarkLoop conf fuel _ _)

theorem steady_unmarkBlock (E : Editor) : E.toLineList.Steady E.unmarkBlock.toLineList := by
  rw [unmarkBlock]
  split
  · exact Steady.refl _
  · dsimp only
    refine Steady.trans ?_ (steady_show _)
    exact steady_unmarkLoop _ _ E.toLineList E.blockStart

theorem steady_unmarkEmptyBlock (E : Editor) :
    E.toLineList.Steady E.unmarkEmptyBlock.toLineList := by
  simp only [unmarkEmptyBlock]
  split
  · exact Steady.refl _
  · generalize (if E.vBlockStart ≠ none then decide (E.vBlockSizeX ≠ 0 ∧ E.vBlockSizeY ≠ 0)
      else blockHasText E.toLineList E.fresh E.blockStart) = lines
    split
    · exact Steady.refl _
    · exact steady_unmarkBlock E

theorem steady_showCur (E : Editor) : E.toLineList.Steady E.showCur.toLineList := by
  rw [showCur]
  split
  · exact Steady.refl _
  · exact steady_modifyCur _ _

theorem steady_curKey (E : Editor) (f : Edit → Edit) :
    E.toLineList.Steady (E.curKey f).toLineList :=
  (steady_showCur E).trans ((steady_modifyCur _ f).trans (steady_showCur _))

theorem toLineList_whilePasting (E : Editor) (f : Editor → Editor) :
    (E.whilePasting f).toLineList = (f { E with pasting := E.pasting + 1 }).toLineList := rfl

theorem steady_keyHome (E : Editor) : E.toLineList.Steady E.keyHome.toLineList :=
  (steady_curKey E _).trans (steady_showEditor _ _)

theorem steady_keyEnd (E : Editor) : E.toLineList.Steady E.keyEnd.toLineList :=
  (steady_curKey E _).trans (steady_showEditor _ _)

theorem steady_keepMaxPos (E : Editor) (n : Nat) (p : Option Ptr) :
    E.toLineList.Steady (E.keepMaxPos n p).toLineList := by
  rw [keepMaxPos]
  refine (steady_showEditor E (E.topScreen = p)).trans ?_
  generalize E.showEditor (E.topScreen = p) = E1
  split
  · exact (steady_modifyCur E1 _).trans (steady_show _)
  · exact Steady.refl _

theorem steady_keyUp (E : Editor) : E.toLineList.Steady E.keyUp.toLineList :=
  (steady_up E.setNewUndo).trans (steady_keepMaxPos _ _ _)

theorem steady_keyDown (E : Editor) : E.toLineList.Steady E.keyDown.toLineList :=
  (steady_down E.setNewUndo).trans (steady_keepMaxPos _ _ _)

theorem steady_keyCtrlUp (E : Editor) : E.toLineList.Steady E.keyCtrlUp.toLineList := by
  refine Steady.trans ?_ (steady_show _)
  exact Steady.scrollUp E.conf E.toLineList

theorem steady_keyCtrlDown (E : Editor) : E.toLineList.Steady E.keyCtrlDown.toLineList := by
  refine Steady.trans ?_ (steady_show _)
  exact Steady.scrollDown E.conf _ E.toLineList

theorem steady_keyLeft (E : Editor) (curPos : Nat) :
    E.toLineList.Steady (E.keyLeft curPos).toLineList := by
  simp only [keyLeft]
  split
  · exact (steady_up E.setNewUndo).trans ((steady_show _).trans
      ((steady_curKey _ _).trans (steady_show _)))
  · exact (steady_curKey E.setNewUndo _).trans (steady_showEditor _ _)

theorem steady_keyRight (E : Editor) : E.toLineList.Steady E.keyRight.toLineList := by
  rw [keyRight]
  split
  · refine Steady.trans ?_ (steady_show _)
    rw [toLineList_whilePasting]
    exact (steady_keyHome { E with pasting := E.pasting + 1 }).trans (steady_keyDown _)
  · exact (steady_curKey E _).trans (steady_showEditor _ _)

theorem toLineList_checkPluginPos (E : Editor) (n s t : Int) :
    (E.checkPluginPos n s t).toLineList = E.toLineList := by
  rw [checkPluginPos]
  split
  · dsimp only
    split <;> rfl
  · rfl

theorem steady_startMarking (E : Editor) (curPos : Nat) :
    E.toLineList.Steady (E.startMarking curPos).1.toLineList := by
  simp only [startMarking]
  refine (steady_unmarkEmptyBlock E).trans ?_
  generalize E.unmarkEmptyBlock = E1
  obtain ⟨E2, hE2⟩ : ∃ E2, E1.checkPluginPos curPos E1.curEdit.getRealSelection.1
    E1.curEdit.getRealSelection.2 = E2 := ⟨_, rfl⟩
  have h2 := toLineList_checkPluginPos E1 curPos E1.curEdit.getRealSelection.1
    E1.curEdit.getRealSelection.2
  rw [hE2] at h2 ⊢
  refine (Steady.of_eq h2).trans ?_
  split
  · rw [toLineList_setBlockStart]
    exact steady_unmarkBlock E2
  · exact Steady.refl _

theorem steady_markLeft (E : Editor) (curPos : Nat) (sel : ShiftSel) :
    E.toLineList.Steady (E.markLeft curPos sel).toLineList := by
  simp only [markLeft]
  split
  · split
    · rw [toLineList_setBlockStart]
      exact steady_modifyLine _ _ _
    · exact (steady_modifyCur E _).trans (steady_modifyLine _ _ _)
  · split
    · exact steady_modifyCur _ _
    · exact steady_modifyCur _ _

theorem steady_keyShiftLeft (E : Editor) (curPos : Nat) :
    E.toLineList.Steady (E.keyShiftLeft curPos).toLineList := by
  simp only [keyShiftLeft]
  have h1 := steady_startMarking E curPos
  generalize E.startMarking curPos = r at h1 ⊢
  obtain ⟨E1, sel⟩ := r
  dsimp only at h1 ⊢
  refine Steady.trans ?_ (steady_unmarkEmptyBlock _)
  split
  · exact h1
  · refine h1.trans ((steady_markLeft E1 curPos sel).trans ?_)
    generalize E1.markLeft curPos sel = E2
    have h3 : E2.toLineList.Steady
        (E2.whilePasting fun E => E.keyLeft E.curEdit.curPos).toLineList :=
      steady_keyLeft { E2 with pasting := E2.pasting + 1 } _
    refine h3.trans ?_
    generalize (E2.whilePasting fun E => E.keyLeft E.curEdit.curPos) = E3
    split
    · exact steady_showEditor (E3.setBlockStart E3.blockStart E3.numLine) _
    · exact steady_showEditor E3 _

theorem steady_markLeftLine (E : Editor) (oldCur : Option Ptr) (sel : ShiftSel) :
    E.toLineList.Steady (E.markLeftLine oldCur sel).toLineList := by
  simp only [markLeftLine]
  split
  · exact Steady.refl _
  · split
    · rw [toLineList_setBlockStart]
      exact steady_modifyLine _ _ _
    · exact steady_modifyLine _ _ _

theorem steady_keyShiftRight (E : Editor) (curPos : Nat) :
    E.toLineList.Steady (E.keyShiftRight curPos).toLineList := by
  simp only [keyShiftRight]
  have h1 := steady_startMarking E curPos
  generalize E.startMarking curPos = r at h1 ⊢
  obtain ⟨E1, sel⟩ := r
  dsimp only at h1 ⊢
  refine Steady.trans ?_ (steady_unmarkEmptyBlock _)
  split
  · exact h1
  · have h2 : E1.toLineList.Steady (E1.markRight sel).toLineList := steady_modifyCur E1 _
    generalize E1.markRight sel = E2 at h2 ⊢
    have h3 : E2.toLineList.Steady (E2.whilePasting keyRight).toLineList :=
      steady_keyRight { E2 with pasting := E2.pasting + 1 }
    exact (h1.trans h2).trans (h3.trans ((steady_markLeftLine _ _ _).trans (steady_showEditor _ _)))

theorem steady_beforeKey (E : Editor) (key : Key) :
    E.toLineList.Steady (E.beforeKey key).toLineList := by
  simp only [beforeKey]
  split
  · split
    · exact steady_unmarkBlock E.turnOffMarkingBlock
    · exact Steady.refl _
  · exact Steady.refl _

/-! ## Inserting -/

/-- `InsertString` keeps the list sound. -/
theorem sound_insertString (h : E.toLineList.Sound watched) :
    E.insertString.toLineList.Sound watched := by
  rw [insertString]
  split
  · exact h
  · obtain ⟨ps, cur, scr, hwf, hcache⟩ := h
    obtain ⟨hwf', hcache'⟩ := hwf.insertBelow (E.createString none) (shape_makeLine E)
    generalize E.makeLine = r at hwf' hcache' ⊢
    obtain ⟨E1, e, indent⟩ := r
    dsimp only at hwf' hcache' ⊢
    have hsound : ({ E1 with endList := if E1.curLine = E1.endList then some E.fresh
        else E1.endList } : Editor).toLineList.Sound watched :=
      ⟨_, cur, scr, hwf', fun hw => hcache' (hcache hw)⟩
    have hdown := hsound.steady (steady_down _)
    show (E1.enterLine (some E.fresh) e indent).toLineList.Sound watched
    simp only [enterLine]
    split
    · exact hdown.steady ((steady_showEditor _ false).trans (steady_modifyCur _ _))
    · exact hdown

end Editor

end Far2l
