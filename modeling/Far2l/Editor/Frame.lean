/-
Far2l.Editor.Frame — what the functions on the list of lines leave alone.

`Moves` says that only the cursor, the screen and the positions inside the lines
have changed, `SameShape` that only the insides of the lines have; the invariants
of the list carry over along both. The cached line of `GetStringByNumber` has an
invariant of its own, `CacheOk`, which insertion keeps when it is told the number
of the line, and removal when it is told a number that suits the cached one.
-/
import Far2l.Editor.Document

namespace Far2l

namespace LineList

variable {S S' S'' : LineList} {ps : List Ptr}

/-- A projection of the lines that a call does not change. -/
theorem proj_modify {β : Type} (g : Edit → β) {f : Edit → Edit} (hf : ∀ e, g (f e) = g e)
    (p : Option Ptr) (q : Ptr) : g ((S.modify p f).edit (some q)) = g (S.edit (some q)) := by
  by_cases hq : some q = p
  · subst hq
    by_cases hlive : S.Live q
    · rw [edit_modify_self hlive, hf]
    · have hnone : S.mem q = none := Option.not_isSome_iff_eq_none.mp hlive
      rw [edit_some, edit_some, hnone, mem_modify_eq_none _ f hnone]
  · rw [edit_modify_of_ne hq]

/-! ## Movements -/

/-- Only the cursor, the screen and the positions in the lines have changed. -/
structure Moves (S S' : LineList) : Prop where
  lastGetLine : S'.lastGetLine = S.lastGetLine
  lastGetLineNumber : S'.lastGetLineNumber = S.lastGetLineNumber
  fresh : S'.fresh = S.fresh
  marks : ∀ p, (S'.edit (some p)).marks = (S.edit (some p)).marks

namespace Moves

theorem refl (S : LineList) : S.Moves S := ⟨rfl, rfl, rfl, fun _ => rfl⟩

theorem trans (h : S.Moves S') (h' : S'.Moves S'') : S.Moves S'' :=
  ⟨h'.lastGetLine.trans h.lastGetLine, h'.lastGetLineNumber.trans h.lastGetLineNumber,
    h'.fresh.trans h.fresh, fun p => (h'.marks p).trans (h.marks p)⟩

/-- A change of the members that point into the list. -/
theorem of_mem (hmem : S'.mem = S.mem) (hfresh : S'.fresh = S.fresh)
    (hline : S'.lastGetLine = S.lastGetLine)
    (hnum : S'.lastGetLineNumber = S.lastGetLineNumber) : S.Moves S' :=
  ⟨hline, hnum, hfresh, fun p => by rw [edit_some, edit_some, hmem]⟩

theorem modify {f : Edit → Edit} (hf : ∀ e, (f e).marks = e.marks) (S : LineList)
    (p : Option Ptr) : S.Moves (S.modify p f) :=
  ⟨rfl, rfl, rfl, proj_modify Edit.marks hf p⟩

theorem moveCursor (conf : EditConf) (S : LineList) (line : Option Ptr) (n : Int) :
    S.Moves (S.moveCursor conf line n) :=
  (of_mem rfl rfl rfl rfl : S.Moves { S with curLine := line, numLine := n }).trans
    (modify (f := fun e => e.setCellCurPos conf _) (fun _ => rfl) _ line)

theorem down (conf : EditConf) (S : LineList) : S.Moves (S.down conf) := by
  simp only [LineList.down]
  split
  · exact refl S
  · split
    · exact (of_mem rfl rfl rfl rfl : S.Moves { S with topScreen := S.next S.topScreen }).trans
        (moveCursor _ _ _ _)
    · exact moveCursor _ _ _ _

theorem up (conf : EditConf) (S : LineList) : S.Moves (S.up conf) := by
  simp only [LineList.up]
  split
  · exact refl S
  · split
    · exact (of_mem rfl rfl rfl rfl : S.Moves { S with topScreen := S.prev S.topScreen }).trans
        (moveCursor _ _ _ _)
    · exact moveCursor _ _ _ _

theorem scrollDown (conf : EditConf) (allow : Bool) (S : LineList) :
    S.Moves (S.scrollDown conf allow) := by
  simp only [LineList.scrollDown]
  split
  · exact refl S
  · split
    · exact down conf S
    · exact (of_mem rfl rfl rfl rfl : S.Moves { S with topScreen := S.next S.topScreen }).trans
        (moveCursor _ _ _ _)

theorem scrollUp (conf : EditConf) (S : LineList) : S.Moves (S.scrollUp conf) := by
  simp only [LineList.scrollUp]
  split
  · exact refl S
  · split
    · exact up conf S
    · exact (of_mem rfl rfl rfl rfl : S.Moves { S with topScreen := S.prev S.topScreen }).trans
        (moveCursor _ _ _ _)

theorem goToLine (conf : EditConf) (line : Int) (S : LineList) :
    S.Moves (S.goToLine conf line) := by
  rw [LineList.goToLine]
  split
  · exact refl S
  · generalize S.goToLineStart line = st
    obtain ⟨start, bReverse⟩ := st
    dsimp only
    generalize (if bReverse = true then S.walkBack line S.fresh start
      else S.walkFwd line S.fresh start) = walk
    obtain ⟨p, n⟩ := walk
    dsimp only
    split
    · exact (moveCursor _ _ _ _).trans (of_mem rfl rfl rfl rfl)
    · exact moveCursor _ _ _ _

theorem screenUp : ∀ (fuel : Nat) (S : LineList), S.Moves (S.screenUp fuel)
  | 0, S => refl S
  | fuel + 1, S => by
    rw [LineList.screenUp]
    split
    · exact (of_mem rfl rfl rfl rfl : S.Moves { S with topScreen := S.prev S.topScreen }).trans
        (screenUp fuel _)
    · exact refl S

theorem screenDown : ∀ (fuel : Nat) (S : LineList), S.Moves (S.screenDown fuel)
  | 0, S => refl S
  | fuel + 1, S => by
    rw [LineList.screenDown]
    split
    · exact (of_mem rfl rfl rfl rfl : S.Moves { S with topScreen := S.next S.topScreen }).trans
        (screenDown fuel _)
    · exact refl S

theorem alignScreen (conf : EditConf) (curPos : Nat) :
    ∀ (rows : Nat) (S : LineList) (p : Option Ptr), S.Moves (S.alignScreen conf curPos rows p)
  | 0, S, _ => refl S
  | _ + 1, S, none => refl S
  | rows + 1, S, some a =>
    (modify (f := fun e => e.setCellCurPos conf curPos) (fun _ => rfl) S (some a)).trans
      (alignScreen conf curPos rows _ _)

theorem showEditor (conf : EditConf) (allow beyond only : Bool) (S : LineList) :
    S.Moves (S.showEditor conf allow beyond only) := by
  rw [LineList.showEditor]
  split
  · exact refl S
  · have h1 : S.Moves (if allow = true then S else S.screenUp S.fresh) := by
      split
      · exact refl S
      · exact screenUp _ S
    generalize (if allow = true then S else S.screenUp S.fresh) = S1 at h1 ⊢
    refine h1.trans ((screenDown S1.fresh S1).trans ?_)
    simp only
    generalize S1.screenDown S1.fresh = S2
    split
    · split
      · exact modify (f := fun e => e.setCurPos e.length) (fun _ => rfl) _ _
      · exact refl S2
    · split
      · exact (modify (f := fun e => e.setCurPos e.length) (fun _ => rfl) _ _).trans
          (alignScreen _ _ _ _ _)
      · exact alignScreen _ _ _ _ _

end Moves

/-! ## Changes inside the lines -/

/-- The two links of a node. -/
def Node.links (n : Node) : Option Ptr × Option Ptr := (n.next, n.prev)

/-- Only the insides of the lines have changed. -/
structure SameShape (S S' : LineList) : Prop where
  links : ∀ q, (S'.mem q).map Node.links = (S.mem q).map Node.links
  members : S' = { S with mem := S'.mem }

namespace SameShape

theorem refl (S : LineList) : S.SameShape S := ⟨fun _ => rfl, rfl⟩

theorem trans (h : S.SameShape S') (h' : S'.SameShape S'') : S.SameShape S'' where
  links q := (h'.links q).trans (h.links q)
  members := by
    rw [h'.members, h.members]

theorem modify (S : LineList) (p : Option Ptr) (f : Edit → Edit) : S.SameShape (S.modify p f) where
  links q := by
    rw [LineList.modify, mem_update]
    split
    · cases S.mem q <;> rfl
    · rfl
  members := rfl

theorem next (h : S.SameShape S') (p : Option Ptr) : S'.next p = S.next p := by
  cases p with
  | none => rfl
  | some a =>
    have hl := congrArg (Option.map Prod.fst) (h.links a)
    rw [next_some, next_some]
    cases hm : S.mem a <;> cases hm' : S'.mem a <;> simp_all [Node.links]

theorem prev (h : S.SameShape S') (p : Option Ptr) : S'.prev p = S.prev p := by
  cases p with
  | none => rfl
  | some a =>
    have hl := congrArg (Option.map Prod.snd) (h.links a)
    rw [prev_some, prev_some]
    cases hm : S.mem a <;> cases hm' : S'.mem a <;> simp_all [Node.links]

theorem live (h : S.SameShape S') (q : Ptr) : S'.Live q ↔ S.Live q := by
  have hl := congrArg Option.isSome (h.links q)
  rw [Option.isSome_map, Option.isSome_map] at hl
  rw [Live, Live, hl]

theorem fresh (h : S.SameShape S') : S'.fresh = S.fresh := by rw [h.members]
theorem topList (h : S.SameShape S') : S'.topList = S.topList := by rw [h.members]
theorem endList (h : S.SameShape S') : S'.endList = S.endList := by rw [h.members]
theorem topScreen (h : S.SameShape S') : S'.topScreen = S.topScreen := by rw [h.members]
theorem curLine (h : S.SameShape S') : S'.curLine = S.curLine := by rw [h.members]
theorem numLine (h : S.SameShape S') : S'.numLine = S.numLine := by rw [h.members]
theorem numLastLine (h : S.SameShape S') : S'.numLastLine = S.numLastLine := by rw [h.members]
theorem lastGetLine (h : S.SameShape S') : S'.lastGetLine = S.lastGetLine := by rw [h.members]
theorem lastGetLineNumber (h : S.SameShape S') :
    S'.lastGetLineNumber = S.lastGetLineNumber := by rw [h.members]

theorem threaded (h : S.SameShape S') (hp : S.Threaded ps) : S'.Threaded ps where
  linked := hp.linked.congr (fun p _ => h.next (some p)) (fun p _ => h.prev (some p))
  live p hmem := (h.live p).mpr (hp.live p hmem)
  bound p hle := by
    have hnone := hp.bound p (h.fresh ▸ hle)
    have hnot : ¬ S'.Live p := by
      rw [h.live, Live, hnone]
      simp
    exact Option.not_isSome_iff_eq_none.mp hnot

theorem chained (h : S.SameShape S') (hp : S.Chained ps) : S'.Chained ps :=
  ⟨h.threaded hp.toThreaded, h.topList.trans hp.top, h.numLastLine.trans hp.num⟩

theorem placed {cur scr : Nat} (h : S.SameShape S') (hp : S.Placed ps cur scr) :
    S'.Placed ps cur scr :=
  ⟨h.chained hp.toChained, h.endList.trans hp.bottom, h.curLine.trans hp.curLine, hp.cur_lt,
    h.topScreen.trans hp.screen, hp.scr_le⟩

theorem wf {cur scr : Nat} (h : S.SameShape S') (hp : S.Wf ps cur scr) : S'.Wf ps cur scr :=
  ⟨h.placed hp.toPlaced, h.numLine.trans hp.numLine⟩

end SameShape

/-! ## The cached line -/

/-- `LastGetLine` is null, or the line whose number is `LastGetLineNumber`, and `safe` holds of
that number. -/
def Cached (S : LineList) (ps : List Ptr) (safe : Nat → Prop) : Prop :=
  S.lastGetLine = none ∨
    ∃ j, safe j ∧ j < ps.length ∧ S.lastGetLine = ps[j]? ∧ S.lastGetLineNumber = j

/-- `LastGetLine` is null, or the line whose number is `LastGetLineNumber`. -/
def CacheOk (S : LineList) (ps : List Ptr) : Prop := S.Cached ps fun _ => True

theorem Cached.imp {safe safe' : Nat → Prop} (h : S.Cached ps safe)
    (himp : ∀ j, j < ps.length → safe j → safe' j) : S.Cached ps safe' := by
  rcases h with hnone | ⟨j, hsafe, hj, hline, hnum⟩
  · exact .inl hnone
  · exact .inr ⟨j, himp j hj hsafe, hj, hline, hnum⟩

theorem Cached.ok {safe : Nat → Prop} (h : S.Cached ps safe) : S.CacheOk ps :=
  h.imp fun _ _ _ => trivial

theorem Cached.congr {safe : Nat → Prop} (h : S.Cached ps safe)
    (hline : S'.lastGetLine = S.lastGetLine)
    (hnum : S'.lastGetLineNumber = S.lastGetLineNumber) : S'.Cached ps safe := by
  rw [Cached, hline, hnum]
  exact h

theorem Moves.cached {safe : Nat → Prop} (h : S.Moves S') (hc : S.Cached ps safe) :
    S'.Cached ps safe := hc.congr h.lastGetLine h.lastGetLineNumber

theorem SameShape.cached {safe : Nat → Prop} (h : S.SameShape S') (hc : S.Cached ps safe) :
    S'.Cached ps safe := hc.congr h.lastGetLine h.lastGetLineNumber

/-- A line that is inserted behind line `k` and announced as such keeps the cache. -/
theorem CacheOk.countLine (h : S.CacheOk ps) {k : Nat} (hk : k < ps.length) (q : Ptr) :
    (S.countLine k).CacheOk (ps.insertIdx (k + 1) q) := by
  rcases h with hnone | ⟨j, -, hj, hline, hnum⟩
  · exact .inl hnone
  · have hnum' : (S.countLine k).lastGetLineNumber = if k < j then (j + 1 : Int) else j := by
      show (if (k : Int) < S.lastGetLineNumber then S.lastGetLineNumber + 1
        else S.lastGetLineNumber) = _
      rw [hnum]
      simp only [Int.ofNat_lt]
    refine .inr ⟨if k < j then j + 1 else j, trivial, ?_, ?_, ?_⟩
    · rw [List.length_insertIdx_of_le_length (by omega)]
      split <;> omega
    · show S.lastGetLine = _
      rw [hline]
      split
      · rw [List.getElem?_insertIdx_of_gt (by omega)]
        congr 1
      · rw [List.getElem?_insertIdx_of_lt (by omega)]
    · rw [hnum']
      split <;> rfl

/-- When the removal of line `k`, announced under the number `n`, suits the cache at line
`j`. -/
def SuitsCache (k : Nat) (n : Int) (j : Nat) : Prop :=
  (j < k ∧ (j : Int) ≤ n) ∨ (j = k ∧ n = k) ∨ (k < j ∧ n < j)

/-- What holds of the cached number once a line has been taken out under the number `n`. -/
def AfterForget (n : Int) (safe : Nat → Prop) (j' : Nat) : Prop :=
  ∃ j : Nat, safe j ∧ (j' : Int) = if n ≤ j then (j : Int) - 1 else j

/-- A call that neither moves nor renumbers the cached line. -/
def CacheKept (S S' : LineList) (ps ps' : List Ptr) : Prop :=
  ∀ safe, S.Cached ps safe → S'.Cached ps' safe

/-- A call that takes out line `k` under the number `n`. -/
def CacheFollows (S S' : LineList) (ps ps' : List Ptr) (k : Nat) (n : Int) : Prop :=
  ∀ safe, S.Cached ps safe → (∀ j, safe j → SuitsCache k n j) → S'.Cached ps' (AfterForget n safe)

theorem CacheKept.trans {ps' ps'' : List Ptr} (h : S.CacheKept S' ps ps')
    (h' : S'.CacheKept S'' ps' ps'') : S.CacheKept S'' ps ps'' :=
  fun safe hc => h' safe (h safe hc)

theorem CacheKept.follows {ps' ps'' : List Ptr} {k : Nat} {n : Int} (h : S.CacheKept S' ps ps')
    (h' : S'.CacheFollows S'' ps' ps'' k n) : S.CacheFollows S'' ps ps'' k n :=
  fun safe hc => h' safe (h safe hc)

theorem CacheFollows.kept {ps' ps'' : List Ptr} {k : Nat} {n : Int}
    (h : S.CacheFollows S' ps ps' k n) (h' : S'.CacheKept S'' ps' ps'') :
    S.CacheFollows S'' ps ps'' k n :=
  fun safe hc hs => h' _ (h safe hc hs)

theorem SameShape.cacheKept (h : S.SameShape S') (ps : List Ptr) : S.CacheKept S' ps ps :=
  fun _ => h.cached

theorem Cached.forget {safe : Nat → Prop} (h : S.Cached ps safe) (hthr : S.Threaded ps) {k : Nat}
    (hk : k < ps.length) {n : Int} (hsuits : ∀ j, safe j → SuitsCache k n j) :
    (S.forgetLastGetLine n).Cached (ps.eraseIdx k) (AfterForget n safe) := by
  rcases h with hnone | ⟨j, hsafe, hj, hline, hnum⟩
  · refine .inl ?_
    show (if S.cacheMoves n = true ∧ n = S.lastGetLineNumber then S.prev S.lastGetLine
      else S.lastGetLine) = none
    rw [hnone]
    simp
  · have hsome : S.lastGetLine ≠ none := by rw [hline]; exact get_ne_none hj
    have hmoves : S.cacheMoves n = decide (n ≤ j) := by
      simp [cacheMoves, hsome, hnum]
    have hprev : S.prev S.lastGetLine = if j = 0 then none else ps[j - 1]? := by
      rw [hline, hthr.prev_index hj]
    have hlineF : (S.forgetLastGetLine n).lastGetLine
        = if n = j then (if j = 0 then none else ps[j - 1]?) else ps[j]? := by
      show (if S.cacheMoves n = true ∧ n = S.lastGetLineNumber then S.prev S.lastGetLine
        else S.lastGetLine) = _
      rw [hmoves, hnum, hprev, hline]
      by_cases hn : n = j
      · rw [if_pos hn, if_pos ⟨by simp [hn], hn⟩]
      · rw [if_neg hn, if_neg (fun hc => hn hc.2)]
    have hnumF : (S.forgetLastGetLine n).lastGetLineNumber
        = if n ≤ j then (j : Int) - 1 else j := by
      show (if S.cacheMoves n = true then S.lastGetLineNumber - 1 else S.lastGetLineNumber) = _
      rw [hmoves, hnum]
      simp
    have hlen : (ps.eraseIdx k).length = ps.length - 1 := List.length_eraseIdx_of_lt hk
    have hafter : ∀ j' : Nat, (S.forgetLastGetLine n).lastGetLineNumber = j' →
        AfterForget n safe j' := fun j' heq => ⟨j, hsafe, by rw [← heq, hnumF]⟩
    rcases hsuits j hsafe with ⟨hjk, hjn⟩ | ⟨rfl, rfl⟩ | ⟨hkj, hnj⟩
    · by_cases hn : n = j
      · by_cases hj0 : j = 0
        · exact .inl (by rw [hlineF, if_pos hn, if_pos hj0])
        · have hnum' : (S.forgetLastGetLine n).lastGetLineNumber = ((j - 1 : Nat) : Int) := by
            rw [hnumF, if_pos (by omega)]
            omega
          refine .inr ⟨j - 1, hafter _ hnum', by omega, ?_, hnum'⟩
          rw [hlineF, if_pos hn, if_neg hj0, List.getElem?_eraseIdx, if_pos (by omega)]
      · have hnum' : (S.forgetLastGetLine n).lastGetLineNumber = (j : Int) := by
          rw [hnumF, if_neg (by omega)]
        refine .inr ⟨j, hafter _ hnum', by omega, ?_, hnum'⟩
        rw [hlineF, if_neg hn, List.getElem?_eraseIdx, if_pos hjk]
    · by_cases hj0 : j = 0
      · exact .inl (by rw [hlineF, if_pos rfl, if_pos hj0])
      · have hnum' : (S.forgetLastGetLine (j : Int)).lastGetLineNumber = ((j - 1 : Nat) : Int) := by
          rw [hnumF, if_pos (by omega)]
          omega
        refine .inr ⟨j - 1, hafter _ hnum', by omega, ?_, hnum'⟩
        rw [hlineF, if_pos rfl, if_neg hj0, List.getElem?_eraseIdx, if_pos (by omega)]
    · have hnum' : (S.forgetLastGetLine n).lastGetLineNumber = ((j - 1 : Nat) : Int) := by
        rw [hnumF, if_pos (by omega)]
        omega
      refine .inr ⟨j - 1, hafter _ hnum', by omega, ?_, hnum'⟩
      rw [hlineF, if_neg (by omega), List.getElem?_eraseIdx, if_neg (by omega)]
      congr 1
      omega

/-! ## `delete` -/

theorem next_free {a p : Ptr} (h : p ≠ a) : (S.free (some a)).next (some p) = S.next (some p) := by
  rw [next_some, next_some, free]
  simp [h]

theorem prev_free {a p : Ptr} (h : p ≠ a) : (S.free (some a)).prev (some p) = S.prev (some p) := by
  rw [prev_some, prev_some, free]
  simp [h]

theorem edit_free {a p : Ptr} (h : p ≠ a) : (S.free (some a)).edit (some p) = S.edit (some p) := by
  rw [edit_some, edit_some, free]
  simp [h]

/-- A line that has been taken out can be deleted. -/
theorem Threaded.free (h : S.Threaded ps) {a : Ptr} (ha : a ∉ ps) :
    (S.free (some a)).Threaded ps where
  linked := h.linked.congr (fun p hp => next_free fun heq => ha (heq ▸ hp))
    (fun p hp => prev_free fun heq => ha (heq ▸ hp))
  live p hp := by
    have hne : p ≠ a := fun heq => ha (heq ▸ hp)
    have := h.live p hp
    rw [Live] at this ⊢
    simpa [LineList.free, hne] using this
  bound p hp := by
    show (if some p = some a then none else S.mem p) = none
    rw [h.bound p hp]
    split <;> rfl

theorem Placed.free {cur scr : Nat} (h : S.Placed ps cur scr) {a : Ptr} (ha : a ∉ ps) :
    (S.free (some a)).Placed ps cur scr :=
  ⟨⟨h.toThreaded.free ha, h.top, h.num⟩, h.bottom, h.curLine, h.cur_lt, h.screen, h.scr_le⟩

/-- `Placed` does not look at `NumLine`. -/
theorem Placed.setNumLine {cur scr : Nat} (h : S.Placed ps cur scr) (n : Int) :
    ({ S with numLine := n } : LineList).Placed ps cur scr :=
  ⟨⟨h.toThreaded.congr rfl rfl, h.top, h.num⟩, h.bottom, h.curLine, h.cur_lt, h.screen, h.scr_le⟩

/-! ## `DeleteString` on the list of lines -/

/-- `DeleteString` as an action on the list of lines. -/
def deleteLine (conf : EditConf) (S : LineList) (delPtr : Option Ptr) (lineNumber : Int)
    (deleteLast : Bool) : LineList :=
  if S.next delPtr = none ∧ (!deleteLast ∨ S.prev delPtr = none) then
    S.modify delPtr fun e => e.setString conf []
  else (S.unlinkLine conf delPtr lineNumber).free delPtr

theorem Moves.leaveLine (conf : EditConf) (S : LineList) (p : Option Ptr) :
    S.Moves (S.leaveLine conf p) := by
  rw [LineList.leaveLine]
  split
  · split
    · exact moveCursor _ _ _ _
    · exact moveCursor _ _ _ _
  · exact refl S

/-- Taking a line out of the links changes no line, apart from the position of the cursor. -/
theorem unlinkLine_marks (conf : EditConf) (S : LineList) (p : Option Ptr) (n : Int) :
    (S.unlinkLine conf p n).fresh = S.fresh
    ∧ (∀ q, ((S.unlinkLine conf p n).edit (some q)).marks = (S.edit (some q)).marks)
    ∧ (S.unlinkLine conf p n).lastGetLine = (S.forgetLastGetLine n).lastGetLine
    ∧ (S.unlinkLine conf p n).lastGetLineNumber = (S.forgetLastGetLine n).lastGetLineNumber := by
  have hmv := Moves.leaveLine conf
    (({ S with numLastLine := S.numLastLine - 1 } : LineList).forgetLastGetLine n) p
  refine ⟨hmv.fresh, fun q => ?_, hmv.lastGetLine, hmv.lastGetLineNumber⟩
  refine Eq.trans ?_ (hmv.marks q)
  refine congrArg Edit.marks ?_
  show ((LineList.setNext _ _ _).setPrev _ _).edit (some q) = _
  rw [edit_setPrev, edit_setNext]

/-- What `DeleteString` has done once line `k`, at `a`, is gone. -/
structure Removed (S S' : LineList) (ps : List Ptr) (k : Nat) (a : Ptr) (n : Int)
    (cur scr : Nat) : Prop where
  placed : S'.Placed (ps.eraseIdx k) (afterErase ps.length k cur) (afterErase ps.length k scr)
  numLine : S'.numLine = if cur = k ∧ k + 1 = ps.length then S.numLine - 1 else S.numLine
  fresh : S'.fresh = S.fresh
  marks : ∀ q, q ≠ a → (S'.edit (some q)).marks = (S.edit (some q)).marks
  cache : S.CacheFollows S' ps (ps.eraseIdx k) k n

/-- **`DeleteString` removes the line**, unless it is the last one and may not be, or the only
one. -/
theorem deleteLine_removed {cur scr : Nat} (h : S.Placed ps cur scr) (conf : EditConf) {k : Nat}
    {a : Ptr} (ha : ps[k]? = some a) (n : Int) (last : Bool)
    (hr : k + 1 < ps.length ∨ (last = true ∧ 0 < k)) :
    Removed S (S.deleteLine conf (some a) n last) ps k a n cur scr := by
  have hk : k < ps.length := (List.getElem?_eq_some_iff.mp ha).1
  have hnot : ¬ (S.next (some a) = none ∧ (!last ∨ S.prev (some a) = none)) := by
    rw [h.next_get ha, h.prev_get ha, List.getElem?_eq_none_iff]
    rcases hr with hr | ⟨rfl, hk0⟩
    · omega
    · rw [if_neg (by omega)]
      rintro ⟨-, hc | hc⟩
      · simp at hc
      · rw [List.getElem?_eq_none_iff] at hc
        omega
  obtain ⟨hplaced, hnum⟩ := unlinkLine_placed h conf ha (by omega) n
  obtain ⟨hfresh, hmarks, hline, hlnum⟩ := unlinkLine_marks conf S (some a) n
  have hnmem : a ∉ ps.eraseIdx k := by
    intro hmem
    obtain ⟨i, hik, hi⟩ := List.mem_eraseIdx_iff_getElem?.mp hmem
    exact hik (h.linked.index_inj hi ha)
  rw [deleteLine, if_neg hnot]
  refine ⟨hplaced.free hnmem, hnum, hfresh, fun q hq => ?_, fun safe hc hsuits => ?_⟩
  · rw [edit_free hq, hmarks]
  · exact (hc.forget h.toThreaded hk hsuits).congr hline hlnum

/-- The last line is only emptied when it may not be removed, and so is the only one. -/
theorem deleteLine_kept {cur scr : Nat} (h : S.Placed ps cur scr) (conf : EditConf) {k : Nat}
    {a : Ptr} (ha : ps[k]? = some a) (n : Int) {last : Bool} (hk : k + 1 = ps.length)
    (hl : last = false ∨ k = 0) :
    S.deleteLine conf (some a) n last = S.modify (some a) fun e => e.setString conf [] := by
  have hyes : S.next (some a) = none ∧ (!last ∨ S.prev (some a) = none) := by
    rw [h.next_get ha, h.prev_get ha, List.getElem?_eq_none_iff]
    refine ⟨by omega, ?_⟩
    rcases hl with rfl | rfl
    · exact .inl rfl
    · exact .inr (if_pos rfl)
  rw [deleteLine, if_pos hyes]

end LineList

end Far2l
