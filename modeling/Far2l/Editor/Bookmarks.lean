/-
Far2l.Editor.Bookmarks — the lines that bookmarks stand for: `SavePos.Line` and
the stack bookmarks of `far/src/editor.cpp`, over commands that insert and delete
whole lines.

A bookmark is a number. `Marks` holds the line objects the numbers are to name:
an Enter in the first column leaves the text of a line to a new object.
-/
import Far2l.Editor.Run
import Mathlib.Data.List.Forall2

namespace Far2l

/-- The number is that of the line at `p`. -/
def Names (ps : List Ptr) (line : Int) (p : Ptr) : Prop := ∃ i : Nat, line = i ∧ ps[i]? = some p

/-- The lines that `SavePos.Line` and the stack bookmarks are to name; a position that is not set
names none. -/
structure Marks where
  saved : List (Option Ptr)
  stacked : List Ptr
  deriving DecidableEq, Repr

namespace Marks

/-- The lines that go on with their texts. -/
def map (m : Marks) (f : Ptr → Ptr) : Marks := ⟨m.saved.map (Option.map f), m.stacked.map f⟩

/-- There is a bookmark in the line. -/
def Has (m : Marks) (p : Ptr) : Prop := some p ∈ m.saved ∨ p ∈ m.stacked

instance (m : Marks) (p : Ptr) : Decidable (m.Has p) := inferInstanceAs (Decidable (_ ∨ _))

end Marks

namespace Editor

variable (E : Editor)

/-- The numbers of the bookmarks. -/
def bookmarks : List Int × List Int := (E.savePosLine, E.stackBookmarks)

/-- **The bookmarks name their lines**, and none of them has gone. -/
structure Marked (ps : List Ptr) (m : Marks) : Prop where
  saved : List.Forall₂ (fun line o => o.elim (line = POS_NONE) (Names ps line)) E.savePosLine m.saved
  stacked : List.Forall₂ (Names ps) E.stackBookmarks m.stacked

/-! ## Where a text goes -/

/-- Enter in the first column: the text goes to the new line. -/
def enterHeir (p : Ptr) : Ptr :=
  if E.lockMode = false ∧ E.curLine = some p ∧ E.curEdit.curPos = 0 then E.fresh else p

/-- The lines behind an operation. -/
def follow (m : Marks) : Op → Marks
  | .key .enter => m.map E.enterHeir
  | .insertString _ => m.map E.enterHeir
  | _ => m

/-- The line of the cursor has no bookmark, or is not taken away. -/
def Unmarked (m : Marks) : Prop :=
  E.lockMode = false → E.next E.curLine ≠ none → ∀ p ∈ E.curLine, ¬m.Has p

/-- The operations that insert a line, take away one without a bookmark, or leave the lines where
they are. An Enter is one where it does not delete a block. -/
def Follows (m : Marks) : Op → Prop
  | .key .enter => E.pasting = 0 → E.edOpt.persistentBlocks = false → E.blockStart = none
  | .key .ctrlY | .deleteString => E.Unmarked m
  | .key .shiftLeft | .key .shiftRight | .key .ctrlD | .key .del | .key .bs => False
  | .key .ctrlZ | .key .ctrlShiftZ | .undo _ | .deleteBlock | .appendString _ => False
  | _ => True

/-- `SetBookmark` -/
def setBookmark (pos : Nat) : Editor :=
  if pos < 10 then { E with savePosLine := E.savePosLine.set pos E.numLine } else E

/-- What a run of the editor is made of. -/
inductive MarkedOp where
  | other (op : Op)
  | setBookmark (pos : Nat)

/-- The editor with the lines its bookmarks are to name. -/
def performMarked (st : Editor × Marks) : MarkedOp → Editor × Marks
  | .other op => (st.1.perform op, st.1.follow st.2 op)
  | .setBookmark pos => (st.1.setBookmark pos,
      if pos < 10 then { st.2 with saved := st.2.saved.set pos st.1.curLine } else st.2)

/-- `Follows`, in such a run. -/
def FollowsMarked (st : Editor × Marks) (op : MarkedOp) : Prop :=
  ∀ op', op = .other op' → st.1.Follows st.2 op'

end Editor

end Far2l

/-! # Bookmarks follow their lines.

A line that is inserted or taken out moves the numbers behind it by one. Each
caller passes `DeleteString` a number of its own; what it does to the bookmarks
is compared here with what it does to the list. -/

namespace Far2l

/-! ## Numbers of lines -/

section Names

variable {ps : List Ptr} {line : Int} {p q : Ptr} {k : Nat}

theorem Names.nonneg (h : Names ps line p) : 0 ≤ line := by
  obtain ⟨i, rfl, -⟩ := h
  exact Int.natCast_nonneg i

/-- A line is inserted behind the line `k`; the text of that line may go to the new one. -/
theorem Names.insert (hinj : ∀ i, ps[i]? = ps[k]? → i = k) (hk : k < ps.length) (first : Prop)
    [Decidable first] (h : Names ps line p) :
    Names (ps.insertIdx (k + 1) q)
      (if (k : Int) < line ∨ (k : Int) = line ∧ first then line + 1 else line)
      (if ps[k]? = some p ∧ first then q else p) := by
  obtain ⟨i, rfl, hi⟩ := h
  have hsame : ps[k]? = some p ↔ i = k := ⟨fun h => hinj i (hi.trans h.symm), fun h => h ▸ hi⟩
  simp only [hsame, Int.ofNat_lt, Int.ofNat_inj]
  by_cases hmoved : k < i ∨ k = i ∧ first
  · rw [if_pos hmoved]
    refine ⟨i + 1, rfl, ?_⟩
    rcases hmoved with hlt | ⟨rfl, hfirst⟩
    · rw [if_neg fun h => absurd h.1 (by omega), List.getElem?_insertIdx_of_gt (by omega)]
      exact hi
    · rw [if_pos ⟨rfl, hfirst⟩, List.getElem?_insertIdx_self, if_pos (by omega)]
  · rw [if_neg hmoved, if_neg fun h => hmoved (.inr ⟨h.1.symm, h.2⟩)]
    refine ⟨i, rfl, ?_⟩
    rw [List.getElem?_insertIdx_of_lt (by omega)]
    exact hi

/-- A line without a bookmark is taken out. -/
theorem Names.erase (h : Names ps line p) (hp : ps[k]? ≠ some p) :
    Names (ps.eraseIdx k) (if (k : Int) < line then line - 1 else line) p := by
  obtain ⟨i, rfl, hi⟩ := h
  have hik : i ≠ k := fun heq => hp (heq ▸ hi)
  by_cases hlt : k < i
  · rw [if_pos (by omega)]
    refine ⟨i - 1, by omega, ?_⟩
    rw [List.getElem?_eraseIdx_of_ge (by omega), Nat.sub_add_cancel (by omega)]
    exact hi
  · rw [if_neg (by omega)]
    refine ⟨i, rfl, ?_⟩
    rw [List.getElem?_eraseIdx_of_lt (by omega)]
    exact hi

theorem forall₂_set {α β : Type} {R : α → β → Prop} {a : α} {b : β} (hab : R a b) {as : List α}
    {bs : List β} (h : List.Forall₂ R as bs) (i : Nat) : List.Forall₂ R (as.set i a) (bs.set i b) := by
  induction h generalizing i with
  | nil => exact .nil
  | cons hfirst hrest ih =>
    cases i with
    | zero => exact .cons hab hrest
    | succ i => exact .cons hfirst (ih i)

theorem forall₂_moves {α β : Type} {R R' : α → β → Prop} {f : α → α} {g : β → β} {as : List α}
    {bs : List β} (h : List.Forall₂ R as bs)
    (himp : ∀ a b, a ∈ as → b ∈ bs → R a b → R' (f a) (g b)) :
    List.Forall₂ R' (as.map f) (bs.map g) := by
  induction h with
  | nil => exact .nil
  | cons hab _ ih =>
    refine .cons (himp _ _ List.mem_cons_self List.mem_cons_self hab) (ih fun a b ha hb => ?_)
    exact himp a b (List.mem_cons_of_mem _ ha) (List.mem_cons_of_mem _ hb)

end Names

namespace Editor

variable {E E' E'' : Editor} {ps : List Ptr} {m : Marks}

open LineList (Steady)

/-! ## Bookmarks that stay -/

theorem Marked.same (hm : E.Marked ps m) (hb : E'.bookmarks = E.bookmarks) : E'.Marked ps m := by
  obtain ⟨hsaved, hstacked⟩ := Prod.mk.inj hb
  exact ⟨hsaved ▸ hm.saved, hstacked ▸ hm.stacked⟩

/-- Bookmarks whose numbers move, and whose texts go to other lines. -/
theorem Marked.moves (hm : E.Marked ps m) {ps' : List Ptr} {f : Int → Int} {g : Ptr → Ptr}
    (hb : E'.bookmarks = (E.savePosLine.map fun line => if line ≠ POS_NONE then f line else line,
      E.stackBookmarks.map f))
    (hmove : ∀ line p, m.Has p → Names ps line p → Names ps' (f line) (g p)) :
    E'.Marked ps' (m.map g) := by
  obtain ⟨hsaved, hstacked⟩ := Prod.mk.inj hb
  constructor
  · rw [hsaved]
    refine forall₂_moves hm.saved fun line o _ hmem h => ?_
    cases o with
    | none =>
      have hline : line = POS_NONE := h
      rw [if_neg (not_not.mpr hline)]
      exact hline
    | some p =>
      have hnames : Names ps line p := h
      rw [if_pos (fun hnone => by
        have h0 := hnames.nonneg
        rw [hnone] at h0
        exact absurd h0 (by decide))]
      exact hmove line p (.inl hmem) hnames
  · rw [hstacked]
    exact forall₂_moves hm.stacked fun line p _ hmem h => hmove line p (.inr hmem) h

theorem Marks.map_id (m : Marks) {f : Ptr → Ptr} (hf : ∀ p, f p = p) : m.map f = m := by
  have hf' : f = id := funext hf
  rw [Marks.map, hf', Option.map_id, List.map_id, List.map_id]

/-- A list of lines with its bookmarks. -/
def Held (E : Editor) (m : Marks) : Prop :=
  ∃ ps cur scr, E.toLineList.Wf ps cur scr ∧ E.Marked ps m

/-- A call that keeps the lines and the bookmarks. -/
theorem Held.steady (h : E.Held m) (hs : E.toLineList.Steady E'.toLineList)
    (hb : E'.bookmarks = E.bookmarks) : E'.Held m := by
  obtain ⟨ps, cur, scr, hwf, hm⟩ := h
  obtain ⟨⟨cur', scr', hwf'⟩, -⟩ := hs ps cur scr hwf
  exact ⟨ps, cur', scr', hwf', hm.same hb⟩

/-! ## A line is taken out -/

/-- No stack bookmark is dropped where none is in the line. -/
theorem dropStackBookmarks_eq {k : Nat} {lines : List Int} {stacked : List Ptr}
    (h : List.Forall₂ (Names ps) lines stacked) (hk : ∀ p ∈ stacked, ps[k]? ≠ some p)
    (i stackPos : Nat) : (dropStackBookmarks k lines i stackPos).1
      = lines.map fun line => if (k : Int) < line then line - 1 else line := by
  induction h generalizing i stackPos with
  | nil => rfl
  | @cons line p _ _ hline _ ih =>
    have hne : line ≠ k := by
      rintro rfl
      obtain ⟨j, hj, hp⟩ := hline
      exact hk p List.mem_cons_self (Int.ofNat_inj.mp hj ▸ hp)
    have hrest := ih (fun q hq => hk q (List.mem_cons_of_mem _ hq)) (i + 1) stackPos
    rw [dropStackBookmarks, if_neg hne, List.map_cons, ← hrest]

/-- `DeleteString` of a line with one behind it does to the bookmarks what `bookmarksUp` does. -/
theorem bookmarks_deleteString (hlock : E.lockMode = false) {p : Option Ptr}
    (hnext : E.next p ≠ none) (n u : Int) :
    (E.deleteString p n false u).bookmarks = (E.bookmarksUp u).bookmarks := by
  rw [deleteString_eq, hlock, if_neg Bool.false_ne_true]
  dsimp only
  rw [if_neg fun hnone => hnext hnone.1, dropLine]
  split <;> rfl

/-- `DeleteString` of the line with the cursor. -/
theorem Held.deleteCur (h : E.Held m) (hfree : E.Unmarked m) :
    (E.deleteString E.curLine E.numLine false E.numLine).Held m := by
  cases hlock : E.lockMode with
  | true =>
    rw [deleteString, hlock]
    exact h
  | false =>
    by_cases hnext : E.next E.curLine = none
    · rw [deleteString_eq, hlock, if_neg Bool.false_ne_true]
      dsimp only
      rw [if_pos ⟨hnext, .inl rfl⟩]
      exact h.steady (steady_modifyLine ((E.shrinkVBlock.textChanged true).addUndoEdit _ _) _ _) rfl
    obtain ⟨ps, cur, scr, hwf, hm⟩ := h
    have hlt : cur + 1 < ps.length := by
      rw [hwf.next_curLine, List.getElem?_eq_none_iff] at hnext
      omega
    obtain ⟨a, ha⟩ : ∃ a, ps[cur]? = some a := ⟨_, List.getElem?_eq_getElem hwf.cur_lt⟩
    have hcur : E.curLine = some a := hwf.curLine.trans ha
    have hunmarked : ¬m.Has a := hfree hlock hnext a hcur
    have hremoved := LineList.deleteLine_removed hwf.toPlaced E.conf ha cur false (.inl hlt)
    have hbook := bookmarks_deleteString hlock hnext cur cur
    rw [hwf.numLine]
    rw [hcur] at hbook ⊢
    refine ⟨ps.eraseIdx cur, LineList.afterErase ps.length cur cur,
      LineList.afterErase ps.length cur scr, ⟨?_, ?_⟩, ?_⟩
    · rw [toLineList_deleteString hlock]
      exact hremoved.placed
    · rw [toLineList_deleteString hlock, hremoved.numLine, hwf.numLine, LineList.afterErase]
      split <;> split <;> omega
    · rw [← Marks.map_id m (f := id) fun _ => rfl]
      refine hm.moves (f := fun line => if (cur : Int) < line then line - 1 else line) ?_
        fun line p hp hnames => ?_
      · rw [hbook, bookmarks, bookmarksUp]
        refine Prod.ext (List.map_congr_left fun line _ => ?_) ?_
        · by_cases hline : line = POS_NONE <;> simp [hline]
        · refine dropStackBookmarks_eq hm.stacked (fun p hp heq => hunmarked (.inr ?_)) 0 E.stackPos
          exact Option.some.inj (heq.symm.trans ha) ▸ hp
      · refine hnames.erase fun heq => hunmarked ?_
        exact Option.some.inj (heq.symm.trans ha) ▸ hp

/-! ## A line is inserted -/

theorem bookmarks_takeIndent (E : Editor) : E.takeIndent.1.bookmarks = E.bookmarks := by
  rw [takeIndent]
  split <;> try split
  all_goals rfl

theorem bookmarks_splitSelection (E : Editor) (newString : Option Ptr) (s t : Int) (curPos : Nat) :
    (E.splitSelection newString s t curPos).bookmarks = E.bookmarks := by
  simp only [splitSelection]
  split <;> split
  all_goals rfl

/-- Of what makes the new line only `bookmarksDown` changes the bookmarks. -/
theorem bookmarks_makeLine {E1 : Editor} (h : E.insertStringAfter none E.curLine E.numLine = E1) :
    E.makeLine.1.bookmarks = (E1.bookmarksDown E1.curEdit.curPos).bookmarks := by
  simp only [makeLine, h]
  generalize hE2 : (if E1.curEdit.getEOL = [] then
    E1.modifyCur fun e => e.setEOL (if E1.globalEOL ≠ [] then E1.globalEOL else NATIVE_EOLW)
    else E1) = E2
  have h2 : (E2.bookmarksDown E1.curEdit.curPos).bookmarks
      = (E1.bookmarksDown E1.curEdit.curPos).bookmarks := by
    rw [← hE2]
    split <;> rfl
  have h3 := (bookmarks_takeIndent (E2.bookmarksDown E1.curEdit.curPos)).trans h2
  generalize (E2.bookmarksDown E1.curEdit.curPos).takeIndent = r at h3 ⊢
  obtain ⟨E3, indent⟩ := r
  dsimp only at h3 ⊢
  refine Eq.trans ?_ h3
  refine (bookmarks_splitSelection _ _ _ _ _).trans ?_
  show (if _ then _ else _ : Editor).bookmarks = E3.bookmarks
  split <;> rfl

theorem map_enterHeir (hlock : E.lockMode = true) (m : Marks) : m.map E.enterHeir = m :=
  Marks.map_id m fun p => if_neg fun hp => by simp [hlock] at hp

/-- `InsertString`. -/
theorem Held.insertString (h : E.Held m) : E.insertString.Held (m.map E.enterHeir) := by
  rw [Editor.insertString]
  cases hlock : E.lockMode with
  | true =>
    rw [map_enterHeir hlock]
    exact h
  | false =>
    obtain ⟨ps, cur, scr, hwf, hm⟩ := h
    obtain ⟨a, ha⟩ : ∃ a, ps[cur]? = some a := ⟨_, List.getElem?_eq_getElem hwf.cur_lt⟩
    have hcur : E.curLine = some a := hwf.curLine.trans ha
    obtain ⟨hwf', -⟩ := hwf.insertBelow (E.createString none) (shape_makeLine E)
    obtain ⟨E1, hE1⟩ : ∃ E1, E.insertStringAfter none E.curLine E.numLine = E1 := ⟨_, rfl⟩
    have hbook := bookmarks_makeLine hE1
    have hline : E1.curLine = some a ∧ E1.numLine = cur := by
      rw [← hE1, insertStringAfter, onLines, hcur, LineList.insertString_eq hwf.toChained ha]
      exact ⟨hcur, hwf.numLine⟩
    have hpos : E1.curEdit.curPos = E.curEdit.curPos := by
      rw [curEdit, curEdit, hline.1, hcur, ← hE1, insertStringAfter, onLines, hcur]
      dsimp only
      rw [LineList.edit_insertString hwf.toChained ha, if_neg (hwf.ne_fresh (List.mem_of_getElem? ha))]
    have hmarked : E.makeLine.1.Marked (ps.insertIdx (cur + 1) E.fresh) (m.map E.enterHeir) := by
      refine hm.moves (f := fun line =>
        if (cur : Int) < line ∨ (cur : Int) = line ∧ E.curEdit.curPos = 0 then line + 1 else line)
        ?_ fun line p _ hnames => ?_
      · rw [hbook, bookmarks, bookmarksDown, hline.2, hpos, ← hE1]
        refine Prod.ext (List.map_congr_left fun line _ => ?_) rfl
        by_cases hnone : line = POS_NONE <;> simp [hnone]
      · have hinsert := hnames.insert (q := E.fresh) (fun i hi => hwf.linked.index_inj (hi.trans ha) ha)
          hwf.cur_lt (E.curEdit.curPos = 0)
        rw [enterHeir, hlock, hwf.curLine]
        simpa using hinsert
    rw [if_neg Bool.false_ne_true]
    generalize E.makeLine = r at hwf' hmarked ⊢
    obtain ⟨E2, e, indent⟩ := r
    dsimp only at hwf' hmarked ⊢
    have hheld : Held ({ E2 with endList := if E2.curLine = E2.endList then some E.fresh
        else E2.endList } : Editor) (m.map E.enterHeir) :=
      ⟨_, cur, scr, hwf', hmarked.same rfl⟩
    have hdown := hheld.steady (steady_down _) rfl
    refine Held.steady ?_ (Steady.refl _) (E := E2.enterLine (some E.fresh) e indent) rfl
    simp only [enterLine]
    split
    · exact hdown.steady ((steady_showEditor _ false).trans (steady_modifyCur _ _)) rfl
    · exact hdown

/-! ## Runs -/

theorem bookmarks_showCur (E : Editor) : E.showCur.bookmarks = E.bookmarks := by
  rw [showCur]
  split <;> rfl

theorem bookmarks_curKey (E : Editor) (f : Edit → Edit) : (E.curKey f).bookmarks = E.bookmarks :=
  (bookmarks_showCur (E.showCur.modifyCur f)).trans (bookmarks_showCur E)

theorem bookmarks_keepMaxPos (E : Editor) (n : Nat) (p : Option Ptr) :
    (E.keepMaxPos n p).bookmarks = E.bookmarks := by
  simp only [keepMaxPos]
  split <;> rfl

theorem bookmarks_beforeKey (E : Editor) (key : Key) : (E.beforeKey key).bookmarks = E.bookmarks := by
  simp only [beforeKey, unmarkBlock]
  repeat' split
  all_goals rfl

theorem bookmarks_keyLeft (E : Editor) (curPos : Nat) : (E.keyLeft curPos).bookmarks = E.bookmarks := by
  simp only [keyLeft]
  split
  · exact bookmarks_curKey E.setNewUndo.up.show_ _
  · exact bookmarks_curKey E.setNewUndo _

theorem bookmarks_keyRight (E : Editor) : E.keyRight.bookmarks = E.bookmarks := by
  rw [keyRight]
  split
  · exact (bookmarks_keepMaxPos _ _ _).trans (bookmarks_curKey { E with pasting := E.pasting + 1 } _)
  · exact bookmarks_curKey E _

theorem Held.keyEnter (h : E.Held m) (hkey : E.Follows m (.key .enter)) :
    E.keyEnter.Held (m.map E.enterHeir) := by
  rw [Editor.keyEnter, if_neg fun hdel => hdel.2.2 (hkey hdel.1 (by simpa using hdel.2.1))]
  have hnew := Held.insertString (E := E.setNewUndo) (h.steady (Steady.refl _) rfl)
  exact hnew.steady ((steady_modifyCur _ _).trans (steady_show _)) rfl

theorem Held.processKey (h : E.Held m) {key : Key} (hkey : E.Follows m (.key key)) :
    (E.processKey key).Held (E.follow m (.key key)) := by
  have h1 := h.steady (steady_beforeKey E key) (bookmarks_beforeKey E key)
  cases key with
  | left => exact h1.steady (steady_keyLeft _ _) (bookmarks_keyLeft _ _)
  | right => exact h1.steady (steady_keyRight _) (bookmarks_keyRight _)
  | home => exact h1.steady (steady_keyHome _) (bookmarks_curKey _ _)
  | end_ => exact h1.steady (steady_keyEnd _) (bookmarks_curKey _ _)
  | up => exact h1.steady (steady_keyUp _) (bookmarks_keepMaxPos (E.beforeKey .up).setNewUndo.up _ _)
  | down => exact h1.steady (steady_keyDown _) (bookmarks_keepMaxPos (E.beforeKey .down).setNewUndo.down _ _)
  | ctrlUp => exact h1.steady (steady_keyCtrlUp _) rfl
  | ctrlDown => exact h1.steady (steady_keyCtrlDown _) rfl
  | enter =>
    show (E.beforeKey .enter).keyEnter.Held (m.map E.enterHeir)
    rcases @beforeKey_keeps E .enter rfl with heq | heq
    · rw [heq]
      exact h.keyEnter hkey
    · rw [heq] at h1 ⊢
      exact h1.keyEnter hkey
  | ctrlY =>
    refine Held.steady ?_ (steady_show _) rfl
    rcases @beforeKey_keeps E .ctrlY rfl with heq | heq
    · rw [heq]
      exact h.deleteCur hkey
    · rw [heq] at h1 ⊢
      exact h1.deleteCur hkey
  | shiftLeft | shiftRight | ctrlD | del | bs | ctrlZ | ctrlShiftZ => exact hkey.elim

theorem Held.perform (h : E.Held m) {op : Op} (hop : E.Follows m op) :
    (E.perform op).Held (E.follow m op) := by
  cases op with
  | key key => exact h.processKey hop
  | insertString indent =>
    simp only [Editor.perform]
    split
    · next hlock =>
      show E.Held (m.map E.enterHeir)
      rw [map_enterHeir hlock]
      exact h
    · split
      · exact Held.insertString (E := E.setNewUndo) (h.steady (Steady.refl _) rfl)
      · have hnew := Held.insertString (E := { E with pasting := E.pasting + 1 }.setNewUndo)
          (h.steady (Steady.refl _) rfl)
        exact hnew.steady (Steady.refl _) rfl
  | appendString s => exact hop.elim
  | deleteString =>
    simp only [Editor.perform]
    split
    · exact h
    · exact Held.deleteCur (E := E.turnOffMarkingBlock) (h.steady (Steady.refl _) rfl) hop
  | deleteBlock => exact hop.elim
  | goToLine line => exact h.steady (steady_goToLine E line) rfl
  | up => exact h.steady (steady_up E) rfl
  | down => exact h.steady (steady_down E) rfl
  | scrollUp => exact h.steady (Steady.scrollUp _ _) rfl
  | scrollDown => exact h.steady (Steady.scrollDown _ _ _) rfl
  | getStringByNumber n => exact h.steady (Steady.getStringByNumber _ n) rfl
  | undo redo => exact hop.elim
  | mark marking => exact h.steady (LineList.steady_selectAll _ marking.selection) rfl
  | edit f => exact h.steady (steady_modifyCur (E.addUndoEdit E.curLine E.numLine) f) rfl
  | window height leftPosKept =>
    obtain ⟨ps, cur, scr, hwf, hm⟩ := h
    exact ⟨ps, cur, scr, ⟨⟨⟨hwf.toThreaded.congr rfl rfl, hwf.top, hwf.num⟩, hwf.bottom,
      hwf.curLine, hwf.cur_lt, hwf.screen, hwf.scr_le⟩, hwf.numLine⟩, hm.same rfl⟩

theorem Held.setBookmark (h : E.Held m) (pos : Nat) :
    (E.setBookmark pos).Held
      (if pos < 10 then { m with saved := m.saved.set pos E.curLine } else m) := by
  obtain ⟨ps, cur, scr, hwf, hm⟩ := h
  rw [Editor.setBookmark]
  split
  · refine ⟨ps, cur, scr, hwf, forall₂_set ?_ hm.saved pos, hm.stacked⟩
    rw [hwf.curLine, hwf.numLine, List.getElem?_eq_getElem hwf.cur_lt]
    exact ⟨cur, rfl, List.getElem?_eq_getElem hwf.cur_lt⟩
  · exact ⟨ps, cur, scr, hwf, hm⟩

/-- `GoToLine` with the number of a bookmark puts the cursor into its line. -/
theorem Marked.goToLine {cur scr : Nat} (hm : E.Marked ps m) (hwf : E.toLineList.Wf ps cur scr)
    {pos : Nat} {line : Int} {p : Ptr} (hline : E.savePosLine[pos]? = some line)
    (hp : m.saved[pos]? = some (some p)) : (E.toLineList.goToLine E.conf line).curLine = some p := by
  obtain ⟨hl, rfl⟩ := List.getElem?_eq_some_iff.mp hline
  obtain ⟨hs, hsome⟩ := List.getElem?_eq_some_iff.mp hp
  have hnames := hm.saved.get hl hs
  simp only [List.get_eq_getElem, hsome] at hnames
  obtain ⟨i, hi', hi⟩ : Names ps _ p := hnames
  rw [hi']
  have hlt := (List.getElem?_eq_some_iff.mp hi).1
  obtain ⟨scr', hgo⟩ := hwf.goToLine E.conf i
  rw [hgo.curLine, LineList.clampLine, Int.toNat_natCast, Nat.min_eq_left (by omega)]
  exact hi

/-- **Bookmarks follow their lines** over a run that sets bookmarks, makes Enters, takes out lines
without a bookmark and does what leaves the lines where they are: each is the number of the line
that the text it was set in has gone to, and leads there. -/
theorem reach_bookmarks {E0 : Editor} {m0 : Marks} (h0 : E0.Held m0)
    (h : Reach performMarked FollowsMarked (E0, m0) (E, m)) :
    E.Held m ∧ ∀ (pos : Nat) line p, E.savePosLine[pos]? = some line →
      m.saved[pos]? = some (some p) → (E.toLineList.goToLine E.conf line).curLine = some p := by
  have hheld : E.Held m := by
    refine h.invariant (I := fun st => st.1.Held st.2) h0 fun st op hs hok => ?_
    cases op with
    | other op => exact hs.perform (hok op rfl)
    | setBookmark pos => exact hs.setBookmark pos
  obtain ⟨ps, cur, scr, hwf, hm⟩ := id hheld
  exact ⟨hheld, fun _ _ _ hline hp => hm.goToLine hwf hline hp⟩

/-- An editor with three lines and no bookmarks. -/
def unmarkedLines : Editor := { loadedLineEnds 2 with savePosLine := [POS_NONE, POS_NONE] }

theorem unmarkedLines_held : unmarkedLines.Held ⟨[none, none], []⟩ := by
  obtain ⟨ps, cur, scr, hwf, -⟩ := sound_loadFile
    (File.vacant_empty { cursorBeyondEOL := false } (fun _ => false) fun _ => false)
    (fun hw : False => hw.elim) (lineEnds 2)
  have hnone : unmarkedLines.stackBookmarks = [] := by decide +kernel
  exact ⟨ps, cur, scr, hwf, .cons rfl (.cons rfl .nil), hnone ▸ .nil⟩

/-- The first line gets a bookmark, and an Enter moves its text one line down. -/
theorem reach_bookmarks_enter :
    let st := [.setBookmark 1, .other (.key .enter)].foldl performMarked
      (unmarkedLines, ⟨[none, none], []⟩)
    st.1.Held st.2 ∧ ∀ (pos : Nat) line p, st.1.savePosLine[pos]? = some line →
      st.2.saved[pos]? = some (some p) →
      (st.1.toLineList.goToLine st.1.conf line).curLine = some p := by
  have hblock : (unmarkedLines.setBookmark 1).blockStart = none := by decide +kernel
  have hstart : Reach performMarked FollowsMarked (unmarkedLines, ⟨[none, none], []⟩)
      (unmarkedLines, ⟨[none, none], []⟩) := .start
  have h1 := Reach.step (MarkedOp.setBookmark 1) hstart fun op' hop => by cases hop
  have h2 := Reach.step (MarkedOp.other (.key .enter)) h1 fun op' hop => by
    cases hop
    exact fun _ _ => hblock
  exact reach_bookmarks unmarkedLines_held h2

end Editor

end Far2l
