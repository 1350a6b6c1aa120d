/-
Far2l.Editor.BlockSound — `DeleteBlock` leaves a sound list of lines, when
`BlockStart` is the line `BlockStartLine`, and keeps the cached line of
`GetStringByNumber` in order, when that is not too close behind the beginning
of the block: the loop announces its lines under numbers that run ahead.
-/
import Far2l.Editor.BlockText
import Far2l.Editor.Sound

namespace Far2l

namespace Editor

variable {E : Editor} {ps : List Ptr} {watched : Prop}

open LineList (afterErase)

/-! ## The numbers of the lines -/

/-- A wholly marked line that goes takes the number of the cursor with it. -/
theorem Erased.wf_whole {E' : Editor} {c cur scr : Nat} {a : Ptr} {i : Int}
    (h : Erased E E' ps c a i cur scr
      (if E.blockStartLine < E.numLine then E.numLine - 1 else E.numLine))
    (hc : c + 1 < ps.length) (hstart : E.blockStartLine = c) (hnum : E.numLine = cur) :
    E'.toLineList.Wf (ps.eraseIdx c) (afterErase ps.length c cur) scr := by
  refine ⟨h.placed, ?_⟩
  rw [h.numLine, hstart, hnum, afterErase]
  split <;> split <;> omega

/-- So does the line behind a partly marked one. -/
theorem joinedNumLine_eq {c cur : Nat} (hc : c + 2 < ps.length) (hstart : E.blockStartLine = c)
    (hnum : E.numLine = cur) :
    E.joinedNumLine cur c
      = (afterErase ps.length (c + 1) (if cur = c + 1 then c else cur) : Nat) := by
  simp only [joinedNumLine, afterErase, hstart, hnum]
  by_cases h1 : cur = c + 1
  · simp only [h1, if_true]
    split <;> split <;> omega
  · simp only [h1, if_false]
    split <;> split <;> omega

/-- A last line that is only emptied does not change the number. -/
theorem joinedNumLine_last {c cur : Nat} (hc : c + 2 = ps.length) (hcur : cur < ps.length)
    (hstart : E.blockStartLine = c) (hnum : E.numLine = cur) :
    E.joinedNumLine cur c = ((if cur = c + 1 then c else cur : Nat) : Int) := by
  simp only [joinedNumLine, hstart, hnum]
  by_cases h1 : cur = c + 1
  · simp only [h1, if_true]
    split <;> omega
  · simp only [h1, if_false]
    split <;> omega

/-! ## The loop -/

/-- The loop of `DeleteBlock` stands on the line `BlockStartLine`. -/
structure OnLine (E : Editor) (ps : List Ptr) (cur scr c : Nat) : Prop where
  wf : E.toLineList.Wf ps cur scr
  lock : E.lockMode = false
  vBlock : E.vBlockStart = none
  start : E.blockStartLine = c

/-- A turn on a partly marked line ends on the line `BlockStartLine`. -/
theorem PartTurn.onLine {r : Editor × Option Ptr} {p : Ptr} {c cur : Nat} {num s t : Int}
    (h : PartTurn E r ps p c cur num s t) (hnum : num = cur) (hlock : E.lockMode = false)
    (hstart : E.blockStartLine = c) :
    ∃ scr c', OnLine r.1 ps cur scr c' ∧ r.2 = ps[c']? := by
  obtain ⟨scr, hplaced⟩ := h.placed
  refine ⟨scr, _, ⟨⟨hplaced, h.numLine.trans hnum⟩, h.kept.lockMode.trans hlock, h.vBlock, ?_⟩,
    h.ptr⟩
  rw [h.blockStartLine, hstart]
  omega

/-- A turn of the loop on a partly marked line. -/
theorem OnLine.part {cur scr c : Nat} {p : Ptr} (h : OnLine E ps cur scr c) (hp : ps[c]? = some p)
    (s t i : Int) :
    ∃ ps' cur' scr' c', OnLine (E.deletePartLine (some p) s t i).1 ps' cur' scr' c'
      ∧ (E.deletePartLine (some p) s t i).2 = ps'[c']? := by
  have hstands : Stands E ps cur scr c p := ⟨h.wf.toPlaced, hp, h.lock, h.vBlock⟩
  have hc := (List.getElem?_eq_some_iff.mp hp).1
  by_cases ht : t ≠ -1 ∨ c + 1 = ps.length
  · obtain ⟨hturn, -⟩ := deletePartLine_stays hstands (s := s) ht i
    exact ⟨ps, _, hturn.onLine h.wf.numLine h.lock h.start⟩
  · obtain rfl : t = -1 := by omega
    obtain ⟨q, hq⟩ : ∃ q, ps[c + 1]? = some q := ⟨_, List.getElem?_eq_getElem (by omega)⟩
    by_cases hc2 : c + 2 < ps.length
    · obtain ⟨hturn, -⟩ := deletePartLine_erased hstands hq hc2 s i
      exact ⟨_, _, hturn.onLine (joinedNumLine_eq hc2 h.start h.wf.numLine) h.lock h.start⟩
    · obtain ⟨hturn, -⟩ := deletePartLine_emptied hstands hq (by omega) s i
      exact ⟨_, _, hturn.onLine
        (joinedNumLine_last (by omega) h.wf.cur_lt h.start h.wf.numLine) h.lock h.start⟩

/-- **The loop of `DeleteBlock` leaves a sound list**, whatever is marked. -/
theorem deleteBlockLoop_wf : ∀ (fuel : Nat) {E : Editor} {ps : List Ptr} {cur scr c : Nat}
    (_ : OnLine E ps cur scr c) (i : Int),
    ∃ ps' cur' scr', (deleteBlockLoop fuel E ps[c]? i).toLineList.Wf ps' cur' scr'
  | 0, E, ps, cur, scr, c, h, i => ⟨ps, cur, scr, h.wf⟩
  | fuel + 1, E, ps, cur, scr, c, h, i => by
    rw [deleteBlockLoop]
    cases hp : ps[c]? with
    | none => exact ⟨ps, cur, scr, h.wf⟩
    | some p =>
      have hc := (List.getElem?_eq_some_iff.mp hp).1
      have h1 : OnLine (E.textChanged true) ps cur scr c := ⟨h.wf, h.lock, h.vBlock, h.start⟩
      have hstands : Stands (E.textChanged true) ps cur scr c p :=
        ⟨h1.wf.toPlaced, hp, h1.lock, h1.vBlock⟩
      rw [if_neg (by simp)]
      generalize E.textChanged true = E1 at h1 hstands ⊢
      dsimp only
      generalize blockSelection (E1.edit (some p)) = sel
      obtain ⟨s, t⟩ := sel
      dsimp only
      split
      · exact ⟨ps, cur, scr, h1.wf⟩
      · split
        · -- the line goes, or it is the last one
          have hnext : E1.next (some p) = ps[c + 1]? := h1.wf.next_get hp
          rw [hnext]
          by_cases hlast : c + 1 < ps.length
          · have her := deleteWholeLine_erased hstands hlast i
            have hwf := her.wf_whole hlast h1.start h1.wf.numLine
            rw [if_pos (LineList.get_ne_none hlast),
              show ps[c + 1]? = (ps.eraseIdx c)[c]? by
                rw [List.getElem?_eraseIdx, if_neg (Nat.lt_irrefl c)]]
            exact deleteBlockLoop_wf fuel ⟨hwf, her.kept.lockMode.trans h1.lock, her.vBlock,
              her.blockStartLine.trans h1.start⟩ (i + 1)
          · have hem := deleteWholeLine_emptied hstands (by omega) i
            rw [if_neg (by rw [List.getElem?_eq_none (by omega)]; simp)]
            refine ⟨ps, cur, scr, hem.placed, ?_⟩
            have hcur := h1.wf.cur_lt
            rw [hem.numLine, h1.start, h1.wf.numLine]
            exact if_neg (by omega)
        · obtain ⟨ps', cur', scr', c', hon, hptr⟩ := h1.part hp s t i
          rw [hptr]
          exact deleteBlockLoop_wf fuel hon (i + 1)

/-! ## Column blocks -/

/-- `DeleteVBlock` takes the cursor up to the first line of the block. -/
theorem vBlockCursor_wf (conf : EditConf) (x : Int) {v : Nat} :
    ∀ (fuel : Nat) {S : LineList} {cur scr c t : Nat} (_ : S.Placed ps cur scr)
      (_ : S.numLine = c) (_ : c < ps.length) (_ : t ≤ c) (_ : v ≤ c) (_ : c - v < fuel),
      ∃ scr', (vBlockCursor conf ps[v]? x fuel ps[c]? ps[t]? S).Wf ps v scr'
        ∧ (S.CacheOk ps → (vBlockCursor conf ps[v]? x fuel ps[c]? ps[t]? S).CacheOk ps)
  | 0, _, _, _, _, _, _, _, _, _, _, hfuel => absurd hfuel (by omega)
  | fuel + 1, S, cur, scr, c, t, h, hnum, hc, ht, hv, hfuel => by
    rw [vBlockCursor, if_neg (LineList.get_ne_none hc)]
    by_cases heq : c = v
    · subst heq
      rw [if_pos rfl]
      have hwf : ({ S with topScreen := ps[t]?, curLine := ps[c]? } : LineList).Wf ps c t :=
        ⟨⟨⟨h.toThreaded.congr rfl rfl, h.top, h.num⟩, h.bottom, rfl, hc, rfl, ht⟩, hnum⟩
      exact ⟨t, hwf.modify _ _, fun hcache => hcache.congr rfl rfl⟩
    · have hne : ps[c]? ≠ ps[v]? := fun hp => heq (h.place_inj hc hp)
      have hprev : S.prev ps[c]? = ps[c - 1]? := by
        rw [h.prev_index hc, if_neg (by omega)]
      have htop : (if ps[t]? = ps[c]? ∧ ps[c - 1]? ≠ none then ps[c - 1]? else ps[t]?)
          = ps[if t = c then c - 1 else t]? := by
        by_cases htc : t = c
        · rw [if_pos ⟨by rw [htc], LineList.get_ne_none (by omega)⟩, if_pos htc]
        · rw [if_neg fun hp => htc (h.place_inj (by omega) hp.1), if_neg htc]
      rw [if_neg hne]
      simp only [hprev, htop]
      have h' : ({ S with numLine := S.numLine - 1 } : LineList).Placed ps cur scr :=
        h.setNumLine _
      obtain ⟨scr', hwf, hcache⟩ := vBlockCursor_wf conf x fuel (t := if t = c then c - 1 else t)
        h' (c := c - 1) (v := v) (by show S.numLine - 1 = _; omega) (by omega) (by split <;> omega)
        (by omega) (by omega)
      exact ⟨scr', hwf, fun hc => hcache (hc.congr rfl rfl)⟩

theorem steady_vBlockLoop : ∀ (lines : Nat) (E : Editor) (p : Option Ptr) (line : Int),
    E.toLineList.Steady (vBlockLoop E lines p line).toLineList
  | 0, E, _, _ => LineList.Steady.refl _
  | lines + 1, E, p, line => by
    rw [vBlockLoop]
    split
    · exact LineList.Steady.refl _
    · refine LineList.Steady.trans ?_ (steady_vBlockLoop lines _ _ _)
      show LineList.Steady _ (if _ then _ else _ : Editor).toLineList
      split
      · exact LineList.Steady.refl _
      · exact steady_modifyLine _ _ _

/-- The column block, where there is one, is persistent or begins at or above the cursor. -/
def VAnchored (E : Editor) : Prop :=
  E.vBlockStart ≠ none → E.edOpt.persistentBlocks = true
    ∨ ∃ v : Nat, (v : Int) ≤ E.numLine ∧ E.vBlockStart = E.lines[v]?

theorem sound_deleteVBlock (h : E.toLineList.Sound watched) (hv : VAnchored E)
    (hblock : E.vBlockStart ≠ none) : E.deleteVBlock.toLineList.Sound watched := by
  rw [deleteVBlock]
  split
  · exact h
  · have hcursor : (if E.edOpt.persistentBlocks then E.addUndoBegin
        else E.addUndoBegin.onLines fun S => vBlockCursor E.conf E.vBlockStart E.vBlockX S.fresh
          S.curLine S.topScreen S).toLineList.Sound watched := by
      split
      · exact h
      · next hpers =>
        obtain ⟨v, hle, hstart⟩ := (hv hblock).resolve_left hpers
        obtain ⟨ps, cur, scr, hwf, hcache⟩ := h
        have hfresh := hwf.toThreaded.length_le_fresh
        have hlt := hwf.cur_lt
        have hnum := hwf.numLine
        obtain ⟨scr', hwf', hcache'⟩ := @vBlockCursor_wf ps E.conf E.vBlockX v E.fresh
          _ _ _ _ _ hwf.toPlaced hwf.numLine hwf.cur_lt hwf.scr_le (by omega) (by omega)
        rw [hwf.toChained.lines_eq] at hstart
        rw [← hstart, ← hwf.curLine, ← hwf.screen] at hwf' hcache'
        exact ⟨ps, v, scr', hwf', fun hw => hcache' (hcache hw)⟩
    exact hcursor.steady (steady_vBlockLoop _ _ _ _)

/-! ## `DeleteBlock` -/

/-- The stream block, where there is one, begins on the line `BlockStartLine`. -/
def Anchored (E : Editor) : Prop :=
  E.vBlockStart = none → E.blockStart ≠ none →
    ∃ a : Nat, E.blockStart = E.lines[a]? ∧ E.blockStartLine = a

/-- What the lines hold, and how they are marked. -/
def marksOf (E : Editor) : List Mark := E.lines.map fun p => (E.edit (some p)).marks

/-- The stream block, where there is one, is marked from line `BlockStartLine` on, and the cached
line is not too close behind its beginning. -/
def CacheFits (E : Editor) : Prop :=
  E.vBlockStart = none → E.blockStart ≠ none →
    ∃ a i b j l, E.blockStart = E.lines[a]? ∧ E.blockStartLine = (a : Nat)
      ∧ StreamBlock E.marksOf a i b j ∧ E.marksOf[a]? = some l
      ∧ ∀ n : Nat, E.lastGetLine ≠ none → E.lastGetLineNumber = n →
          BlockSafe E.conf E.marksOf.length a i b l.1 n

theorem deleteBlock_stream (h : E.vBlockStart = none) (hlock : E.lockMode = false) :
    E.deleteBlock = { (deleteBlockLoop (2 * E.fresh + 2) E.addUndoBegin E.blockStart
      E.blockStartLine).addUndoEnd with blockStart := none } := by
  rw [deleteBlock, hlock, h]
  rfl

/-- **`DeleteBlock` keeps the list sound.** -/
theorem sound_deleteBlock (h : E.toLineList.Sound watched) (ha : Anchored E) (hv : VAnchored E)
    (hfits : watched → CacheFits E) : E.deleteBlock.toLineList.Sound watched := by
  by_cases hlock : E.lockMode = true
  · rw [deleteBlock, if_pos hlock]
    exact h
  rw [Bool.not_eq_true] at hlock
  by_cases hblock : E.vBlockStart = none
  · by_cases hstart : E.blockStart = none
    · rw [deleteBlock_stream hblock hlock, hstart]
      exact h
    obtain ⟨ps, cur, scr, hwf, hcache⟩ := h
    obtain ⟨a, haddr, hline⟩ := ha hblock hstart
    rw [hwf.toChained.lines_eq] at haddr
    obtain ⟨ps', cur', scr', hwf'⟩ := deleteBlockLoop_wf (E := E.addUndoBegin)
      (2 * E.fresh + 2) (c := a) ⟨hwf, hlock, hblock, hline⟩ E.blockStartLine
    have hwf'' : E.deleteBlock.toLineList.Wf ps' cur' scr' := by
      rw [deleteBlock_stream hblock hlock, haddr]
      exact hwf'
    refine ⟨ps', cur', scr', hwf'', fun hw => ?_⟩
    obtain ⟨a', i, b, j, l, haddr', hline', hb, hl, hsafe⟩ := hfits hw hblock hstart
    rw [hwf.toChained.lines_eq] at haddr'
    have hshows : Shows E ps E.marksOf :=
      ⟨⟨cur, scr, hwf.toPlaced⟩, hlock, hblock, by rw [marksOf, hwf.toChained.lines_eq]⟩
    obtain ⟨z, hz, -⟩ := hb.last
    obtain ⟨ps2, m, rest, hshows', -, hcache2⟩ := deleteBlock_outcome hshows haddr' hb hl hz
    have hps : ps2 = ps' := by
      obtain ⟨_, _, hplaced⟩ := hshows'.placed
      rw [← hplaced.toChained.lines_eq, hwf''.toChained.lines_eq]
    rw [← hps]
    refine hcache2 hline' (fun n => E.lastGetLine ≠ none ∧ E.lastGetLineNumber = n) ?_
      fun n hn => hsafe n hn.1 hn.2
    rcases hcache hw with hnone | ⟨n, -, hn, hptr, hnum⟩
    · exact .inl hnone
    · exact .inr ⟨n, ⟨by rw [hptr]; exact LineList.get_ne_none hn, hnum⟩, hn, hptr, hnum⟩
  · rw [deleteBlock, if_neg (by simp [hlock]), if_pos hblock]
    exact sound_deleteVBlock h hv hblock

end Editor

end Far2l
