/-
Far2l.Editor.Run — what an editor is asked to do: keys, the calls of the editor
API, and commands that only mark text or change one line.

The commands of the last two kinds are not modelled one by one. `mark` and `edit`
stand for any of them, and a run may contain more than the program can do there.
-/
import Far2l.Editor.KeysSound
import Far2l.File.LoadSave
import Far2l.Lib.Reach

namespace Far2l

/-- The selections of the lines and the block members of `Editor`, as a command that marks text
leaves them. -/
structure Marking where
  selection : Ptr → Int × Int
  blockStart : Option Ptr
  blockStartLine : Int
  vBlockStart : Option Ptr
  vBlockX : Int
  vBlockSizeX : Int
  vBlockY : Int
  vBlockSizeY : Int
  markingBlock : Bool
  markingVBlock : Bool

namespace LineList

/-- The lines take over the selections `sel`. -/
def selectAll (S : LineList) (sel : Ptr → Int × Int) : LineList :=
  { S with
    mem := fun q => (S.mem q).map fun n =>
      { n with edit := { n.edit with selStart := (sel q).1, selEnd := (sel q).2 } } }

end LineList

namespace Editor

/-- A command that marks text. -/
def mark (E : Editor) (m : Marking) : Editor :=
  { E with
    toLineList := E.toLineList.selectAll m.selection
    blockStart := m.blockStart
    blockStartLine := m.blockStartLine
    vBlockStart := m.vBlockStart
    vBlockX := m.vBlockX
    vBlockSizeX := m.vBlockSizeX
    vBlockY := m.vBlockY
    vBlockSizeY := m.vBlockSizeY
    markingBlock := m.markingBlock
    markingVBlock := m.markingVBlock }

/-- What an editor is asked to do. -/
inductive Op where
  | key (key : Key)
  /-- `ECTL_INSERTSTRING` -/
  | insertString (indent : Bool)
  /-- `InsertString(lpwszStr, nLength)` -/
  | appendString (lpwszStr : Option WStr)
  /-- `ECTL_DELETESTRING` -/
  | deleteString
  /-- `ECTL_DELETEBLOCK` -/
  | deleteBlock
  | goToLine (line : Int)
  | up
  | down
  | scrollUp
  | scrollDown
  | getStringByNumber (destLine : Int)
  | undo (redo : Bool)
  /-- any command that marks text -/
  | mark (m : Marking)
  /-- any change of the line with the cursor, with its undo record -/
  | edit (f : Edit → Edit)
  /-- the window gets another size, or the text is scrolled sideways -/
  | window (height : Nat) (leftPosKept : Bool)

/-- The editor does what it is asked to do. -/
def perform (E : Editor) : Op → Editor
  | .key key => E.processKey key
  | .insertString indent =>
      if E.lockMode then E
      else if indent then E.setNewUndo.insertString
      else E.whilePasting fun E => E.setNewUndo.insertString
  | .appendString s => E.appendString s
  | .deleteString =>
      if E.lockMode then E else E.turnOffMarkingBlock.deleteString E.curLine E.numLine false E.numLine
  | .deleteBlock =>
      if E.lockMode ∨ (E.vBlockStart = none ∧ E.blockStart = none) then E
      else E.turnOffMarkingBlock.deleteBlock.show_
  | .goToLine line => E.goToLine line
  | .up => E.up
  | .down => E.down
  | .scrollUp => E.onLines fun S => S.scrollUp E.conf
  | .scrollDown => E.onLines fun S => S.scrollDown E.conf E.edOpt.allowEmptySpaceAfterEof
  | .getStringByNumber n => (E.getStringByNumber n).1
  | .undo redo => E.undo redo
  | .mark m => E.mark m
  | .edit f => ((E.addUndoEdit E.curLine E.numLine).modifyCur f).textChanged true
  | .window height leftPosKept => { E.onLines (fun S => { S with height := height }) with
      leftPosKept := leftPosKept }

/-- Does the editor call `DeleteBlock`, if there is a block? -/
def deletesBlock (E : Editor) : Op → Prop
  | .deleteBlock => E.lockMode = false
  | .key .ctrlD => E.lockMode = false
  | .key .del => E.lockMode = false ∧ E.pasting = 0 ∧ E.edOpt.delRemovesBlocks = true
  | .key .bs => E.lockMode = false ∧ E.bsDeletesBlock = true
  | .key .enter => E.lockMode = false ∧ E.pasting = 0 ∧ E.edOpt.persistentBlocks = false
  | _ => False

end Editor

end Far2l

/-! # The list of lines and the cached line of

`GetStringByNumber` over whole runs of the editor.

`DeleteBlock` takes the number of its first line from `BlockStartLine`. Where
that is not the number of `BlockStart` the cursor gets a wrong number; and the
numbers it gives its lines run ahead of the lines it removes, so that the cached
line may be one of those. -/

namespace Far2l

namespace LineList

variable {S : LineList} {ps : List Ptr} {watched : Prop}

open File (Vacant)

theorem steady_selectAll (S : LineList) (sel : Ptr → Int × Int) :
    S.Steady (S.selectAll sel) := by
  refine Steady.of_sameShape ⟨fun q => ?_, rfl⟩
  show ((S.mem q).map _).map Node.links = _
  rw [Option.map_map]
  rfl

/-- A line is appended to a sound list, or is the first one. -/
theorem sound_append (h : (Vacant S ∧ (watched → S.lastGetLine = none)) ∨ S.Sound watched)
    (e : Edit) (n : Int) : (S.insertString e none n).Sound watched := by
  rcases h with ⟨hv, hnone⟩ | ⟨ps, cur, scr, hwf, hcache⟩
  · refine ⟨_, 0, 0, (insertString_first hv.mem hv.topList hv.numLastLine hv.numLine e n).1,
      fun hw => .inl ?_⟩
    rw [LineList.insertString, if_pos (.inl hv.topList)]
    exact hnone hw
  · refine ⟨_, cur, scr, (insertString_append hwf e n).1, fun hw => ?_⟩
    have hlt := hwf.cur_lt
    have hne : ¬ (S.topList = none ∨ S.numLastLine = 0) := by
      rw [hwf.top, hwf.num, List.getElem?_eq_none_iff]
      omega
    have hcount := (hcache hw).countLine (k := ps.length - 1) (by omega) S.fresh
    rw [Nat.sub_add_cancel (by omega), List.insertIdx_length_self,
      show ((ps.length - 1 : Nat) : Int) = S.numLastLine - 1 by rw [hwf.num]; omega] at hcount
    rw [LineList.insertString, if_neg hne, if_pos rfl]
    exact hcount.congr rfl rfl

end LineList

namespace Editor

variable {E : Editor} {watched : Prop}

open LineList (Steady sound_append)
open File (SrcFile Vacant loadFile loadLine)

/-! ## Loading -/

theorem sound_loadLines : ∀ (lines : List WStr) (E : Editor) (lastLineCR : Bool),
    (Vacant E.toLineList ∧ (watched → E.lastGetLine = none)) ∨ E.toLineList.Sound watched →
    let r := lines.foldl (fun st str => loadLine st.1 str) (E, lastLineCR)
    (Vacant r.1.toLineList ∧ (watched → r.1.lastGetLine = none)) ∨ r.1.toLineList.Sound watched
  | [], _, _, h => h
  | str :: lines, E, _, h => by
    refine sound_loadLines lines (loadLine E str).1 (loadLine E str).2 (.inr ?_)
    rw [loadLine]
    split
    · exact sound_append h _ _
    · exact sound_append h _ _

/-- **`LoadFile`** makes a sound list of lines, whatever the options. -/
theorem sound_loadFile (hE : Vacant E.toLineList) (hnone : watched → E.lastGetLine = none)
    (file : SrcFile) : (loadFile E file).toLineList.Sound watched := by
  have h := @sound_loadLines watched
    ((FileStr.fileLines File.crByte File.lfByte file.reads).map WideMB.mb2Wide)
    { E with globalEOL := NATIVE_EOLW } false (.inl ⟨⟨hE.1, hE.2, hE.3, hE.4⟩, hnone⟩)
  rw [loadFile]
  generalize ((FileStr.fileLines File.crByte File.lfByte file.reads).map WideMB.mb2Wide).foldl
    (fun st str => loadLine st.1 str) ({ E with globalEOL := NATIVE_EOLW }, false) = r at h ⊢
  obtain ⟨E1, lastLineCR⟩ := r
  dsimp only at h ⊢
  split
  · exact sound_append h _ _
  · next hlast =>
    -- without a line the extra one would have been appended
    rcases h with ⟨hv, -⟩ | h
    · exact absurd (.inr hv.numLastLine) hlast
    · exact h

/-! ## One operation -/

/-- A key that does not take the block away at most ends the marking. -/
theorem beforeKey_keeps (E : Editor) {key : Key} (hkey : key.unmarks = false) :
    E.beforeKey key = E ∨ E.beforeKey key = E.turnOffMarkingBlock := by
  simp only [Editor.beforeKey, hkey]
  split
  · exact .inr (if_neg fun h => Bool.false_ne_true h.2)
  · exact .inl rfl

theorem BlockOk.beforeKey (h : BlockOk watched E) {key : Key} (hkey : key.unmarks = false) :
    BlockOk watched (E.beforeKey key) := by
  rcases beforeKey_keeps E hkey with heq | heq
  · rw [heq]
    exact h
  · rw [heq]
    exact h.turnOffMarkingBlock

theorem Kept.turnOffMarkingBlock (E : Editor) : Kept E E.turnOffMarkingBlock :=
  ⟨rfl, rfl, rfl, rfl, rfl, rfl, rfl, rfl⟩

theorem Kept.beforeKey (E : Editor) (key : Key) : Kept E (E.beforeKey key) := by
  simp only [Editor.beforeKey]
  split
  · split
    · exact (Kept.turnOffMarkingBlock E).trans (Kept.unmarkBlock _)
    · exact Kept.turnOffMarkingBlock E
  · exact Kept.refl E

/-- A key that leaves the block alone does not change whether Backspace deletes it. -/
theorem bsDeletesBlock_beforeKey (E : Editor) :
    (E.beforeKey .bs).bsDeletesBlock = E.bsDeletesBlock := by
  rcases @beforeKey_keeps E .bs rfl with heq | heq
  · rw [heq]
  · rw [heq]
    rfl

theorem sound_processKey (h : E.toLineList.Sound watched) (key : Key)
    (hb : E.deletesBlock (.key key) → BlockOk watched E) :
    (E.processKey key).toLineList.Sound watched := by
  have h1 := h.steady (steady_beforeKey E key)
  have hkept := Kept.beforeKey E key
  cases key with
  | left => exact h1.steady (steady_keyLeft _ _)
  | right => exact h1.steady (steady_keyRight _)
  | home => exact h1.steady (steady_keyHome _)
  | end_ => exact h1.steady (steady_keyEnd _)
  | up => exact h1.steady (steady_keyUp _)
  | down => exact h1.steady (steady_keyDown _)
  | ctrlUp => exact h1.steady (steady_keyCtrlUp _)
  | ctrlDown => exact h1.steady (steady_keyCtrlDown _)
  | shiftLeft => exact h1.steady (steady_keyShiftLeft _ _)
  | shiftRight => exact h1.steady (steady_keyShiftRight _ _)
  | enter =>
    refine sound_keyEnter h1 fun hlock hpast hpers => ?_
    rw [hkept.lockMode] at hlock
    rw [hkept.pasting] at hpast
    rw [hkept.edOpt] at hpers
    exact (hb ⟨hlock, hpast, hpers⟩).beforeKey rfl
  | ctrlY => exact sound_keyCtrlY h1
  | ctrlD =>
    refine sound_keyCtrlD h1 fun hlock => ?_
    rw [hkept.lockMode] at hlock
    exact (hb hlock).beforeKey rfl
  | del =>
    refine sound_keyDel h1 (fun hlock hpast hdel => ?_) _
    rw [hkept.lockMode] at hlock
    rw [hkept.pasting] at hpast
    rw [hkept.edOpt] at hdel
    exact (hb ⟨hlock, hpast, hdel⟩).beforeKey rfl
  | bs =>
    refine sound_keyBS h1 (fun hlock hdel => ?_) _
    rw [hkept.lockMode] at hlock
    rw [bsDeletesBlock_beforeKey] at hdel
    exact (hb ⟨hlock, hdel⟩).beforeKey rfl
  | ctrlZ => exact sound_keyUndo h1 false
  | ctrlShiftZ => exact sound_keyUndo h1 true

/-- **Every operation keeps the list sound**, when the block it deletes, if any, can be deleted. -/
theorem sound_perform (h : E.toLineList.Sound watched) (op : Op)
    (hb : E.deletesBlock op → BlockOk watched E) : (E.perform op).toLineList.Sound watched := by
  cases op with
  | key key => exact sound_processKey h key hb
  | insertString indent =>
    simp only [perform]
    split
    · exact h
    · split
      · exact sound_insertString (E := E.setNewUndo) h
      · exact sound_insertString (E := { E with pasting := E.pasting + 1 }.setNewUndo) h
  | appendString s => exact sound_append (.inr h) _ _
  | deleteString =>
    simp only [perform]
    split
    · exact h
    · exact sound_deleteCur (E := E.turnOffMarkingBlock) h false _
  | deleteBlock =>
    simp only [perform]
    split
    · exact h
    · next hlock =>
      refine ((hb ?_).turnOffMarkingBlock.deleteBlock h).steady (steady_show _)
      exact Bool.eq_false_iff.mpr fun hl => hlock (.inl hl)
  | goToLine line => exact h.steady (steady_goToLine E line)
  | up => exact h.steady (steady_up E)
  | down => exact h.steady (steady_down E)
  | scrollUp => exact h.steady (Steady.scrollUp _ _)
  | scrollDown => exact h.steady (Steady.scrollDown _ _ _)
  | getStringByNumber n => exact h.steady (Steady.getStringByNumber _ n)
  | undo redo => exact sound_undo h redo
  | mark m => exact h.steady (LineList.steady_selectAll _ m.selection)
  | edit f => exact h.steady (steady_modifyCur (E.addUndoEdit E.curLine E.numLine) f)
  | window height leftPosKept =>
    obtain ⟨ps, cur, scr, hwf, hcache⟩ := h
    exact ⟨ps, cur, scr, ⟨⟨⟨hwf.toThreaded.congr rfl rfl, hwf.top, hwf.num⟩, hwf.bottom,
      hwf.curLine, hwf.cur_lt, hwf.screen, hwf.scr_le⟩, hwf.numLine⟩,
      fun hw => (hcache hw).congr rfl rfl⟩

/-! ## Runs -/

/-- **The list of lines over a run.** The lines form one list, linked both ways from `TopList` to
`EndList`; `NumLastLine` is its length, `CurLine` its `NumLine`-th element and `TopScreen` not below
it: in every state reached from a loaded file, when `BlockStart` is the line `BlockStartLine`
wherever a stream block is deleted, and a column block that is deleted begins at or above the
cursor. -/
theorem reach_wf {E0 E : Editor} (hE0 : Vacant E0.toLineList) (file : SrcFile)
    (h : Reach perform (fun E op => E.deletesBlock op → Anchored E ∧ VAnchored E)
      (loadFile E0 file) E) :
    ∃ ps cur scr, E.toLineList.Wf ps cur scr := by
  have hsound : E.toLineList.Sound False :=
    h.invariant (sound_loadFile hE0 (fun hw => hw.elim) file) fun s op hs hok =>
      sound_perform hs op fun hdel => ⟨(hok hdel).1, (hok hdel).2, fun hw => hw.elim⟩
  obtain ⟨ps, cur, scr, hwf, -⟩ := hsound
  exact ⟨ps, cur, scr, hwf⟩

/-- **The cached line over a run.** `LastGetLine` is null or the line `LastGetLineNumber`, and
`GetStringByNumber` returns the line asked for, and null behind the last one: in every state
reached from a loaded file, when wherever a stream block is deleted it is marked from line
`BlockStartLine` on and the cached line is not too close behind its beginning. -/
theorem reach_cache {E0 E : Editor} (hE0 : Vacant E0.toLineList) (hnone : E0.lastGetLine = none)
    (file : SrcFile)
    (h : Reach perform (fun E op => E.deletesBlock op → Anchored E ∧ VAnchored E ∧ CacheFits E)
      (loadFile E0 file) E) :
    ∃ ps cur scr, E.toLineList.Wf ps cur scr ∧ E.toLineList.CacheOk ps
      ∧ ∀ n : Nat, (E.getStringByNumber n).2 = ps[n]? := by
  have hsound : E.toLineList.Sound True :=
    h.invariant (sound_loadFile hE0 (fun _ => hnone) file) fun s op hs hok =>
      sound_perform hs op fun hdel => ⟨(hok hdel).1, (hok hdel).2.1, fun _ => (hok hdel).2.2⟩
  obtain ⟨ps, cur, scr, hwf, hcache⟩ := hsound
  refine ⟨ps, cur, scr, hwf, hcache trivial, fun n => ?_⟩
  exact (hwf.getStringByNumber_spec (hcache trivial) n).1

/-! ## Files of empty lines -/

/-- `n` line ends, a read for each. -/
def lineEnds (n : Nat) : SrcFile where
  reads := List.replicate n [File.lfByte]
  delivers chunk h := by
    rw [List.eq_of_mem_replicate h]
    exact List.cons_ne_nil _ _

/-- The file with `n` line ends, in an editor whose cursor stays in the text. -/
def loadedLineEnds (n : Nat) : Editor :=
  loadFile (empty { cursorBeyondEOL := false } (fun _ => false) fun _ => false) (lineEnds n)

/-- The first of `n + 1` lines is cached, and marked. -/
def markedLine (n : Nat) : Editor :=
  ((loadedLineEnds n).perform (.getStringByNumber 0)).perform (.key .shiftRight)

theorem reach_markedLine (n : Nat) {ok : Editor → Op → Prop}
    (hok : ∀ E op, ¬ E.deletesBlock op → ok E op) :
    Reach perform ok (loadedLineEnds n) (markedLine n) := by
  have hstart : Reach perform ok (loadedLineEnds n) (loadedLineEnds n) := .start
  have h1 := Reach.step (.getStringByNumber 0) hstart (hok _ _ id)
  exact .step (.key .shiftRight) h1 (hok _ _ id)

/-- Its block is a stream block from line 0 on. -/
theorem markedLine_state :
    (markedLine 2).blockStart = (markedLine 2).lines[0]? ∧ (markedLine 2).blockStartLine = 0
    ∧ (markedLine 2).vBlockStart = none ∧ (markedLine 2).lastGetLineNumber = 0
    ∧ marksOf (markedLine 2) = [(([], .lf), 0, -1), (([], .lf), -1, 0), (([], .none), -1, 0)] := by
  decide +kernel

/-- It is deleted. -/
theorem reach_wf_del :
    ∃ ps cur scr, ((markedLine 2).perform (.key .del)).toLineList.Wf ps cur scr := by
  refine reach_wf (File.vacant_empty _ _ _) (lineEnds 2) (Reach.step (.key .del)
    (reach_markedLine 2 fun _ _ h hdel => absurd hdel h) fun _ => ⟨?_, ?_⟩)
  · exact fun _ _ => ⟨0, markedLine_state.1, markedLine_state.2.1⟩
  · exact fun h => absurd markedLine_state.2.2.1 h

/-- Two lines are marked, the mark is taken back by a line, and the one line still marked is
deleted. -/
def staleBlock : Editor :=
  [.key .shiftRight, .key .shiftRight, .key .shiftLeft, .key .del].foldl perform (loadedLineEnds 2)

/-- `KEY_SHIFTLEFT` has made the line of the cursor the `BlockStartLine` of a block that begins
above it, and `DeleteBlock` has left the cursor its number. -/
theorem staleBlock_not_wf :
    Reach perform (fun _ _ => True) (loadedLineEnds 2) staleBlock
    ∧ ¬ ∃ ps cur scr, staleBlock.toLineList.Wf ps cur scr := by
  refine ⟨.foldl _ .start, ?_⟩
  rintro ⟨ps, cur, scr, h⟩
  obtain ⟨hcur, hnum⟩ : staleBlock.curLine = staleBlock.topList ∧ staleBlock.numLine = 1 := by
    decide +kernel
  have hlt := h.cur_lt
  rw [h.curLine, h.top] at hcur
  rw [h.numLine] at hnum
  have := h.place_inj hlt hcur
  omega

theorem markedLine_block :
    marksOf (markedLine 2) = [(([], .lf), 0, -1), (([], .lf), -1, 0), (([], .none), -1, 0)]
    ∧ StreamBlock (marksOf (markedLine 2)) 0 0 1 0 := by
  obtain ⟨-, -, -, -, hmarks⟩ := markedLine_state
  refine ⟨hmarks, ?_⟩
  rw [hmarks]
  exact
    { le := by decide
      first := ⟨_, rfl, by decide⟩
      middle := fun k h0 h1 => absurd h1 (by omega)
      last := ⟨_, rfl, by decide, fun _ => .inr (by decide)⟩
      behind := by
        rintro m ⟨rfl⟩
        rfl }

/-- The cached line is deleted as the first one of the block. -/
theorem reach_cache_del :
    ∃ ps cur scr, ((markedLine 2).perform (.key .del)).toLineList.Wf ps cur scr
      ∧ ((markedLine 2).perform (.key .del)).toLineList.CacheOk ps
      ∧ ∀ n : Nat, (((markedLine 2).perform (.key .del)).getStringByNumber n).2 = ps[n]? := by
  refine reach_cache (File.vacant_empty _ _ _) rfl (lineEnds 2) (Reach.step (.key .del)
    (reach_markedLine 2 fun _ _ h hdel => absurd hdel h) fun _ => ⟨?_, ?_, ?_⟩)
  · exact fun _ _ => ⟨0, markedLine_state.1, markedLine_state.2.1⟩
  · exact fun h => absurd markedLine_state.2.2.1 h
  · intro _ _
    refine ⟨0, 0, 1, 0, (([], .lf), 0, -1), markedLine_state.1, markedLine_state.2.1,
      markedLine_block.2, by rw [markedLine_block.1]; rfl, fun n _ hn => ?_⟩
    have h0 := markedLine_state.2.2.2.1
    obtain rfl : n = 0 := by omega
    exact .inr (.inl ⟨rfl, .inr (.inr (.inl ⟨rfl, rfl⟩))⟩)

/-- A line is cached, and the block above it deleted that it ends. -/
def danglingLine : Editor :=
  [.key .shiftRight, .key .shiftRight, .getStringByNumber 1, .key .ctrlD].foldl perform
    (loadedLineEnds 5)

/-- Asked for a line that exists, `GetStringByNumber` starts from the removed one. -/
theorem danglingLine_not_cache :
    Reach perform (fun _ _ => True) (loadedLineEnds 5) danglingLine
    ∧ danglingLine.numLastLine = 4
    ∧ (danglingLine.getStringByNumber 1).2 = none
    ∧ ¬ ∃ ps cur scr, danglingLine.toLineList.Wf ps cur scr ∧ danglingLine.toLineList.CacheOk ps
      ∧ ∀ n : Nat, (danglingLine.getStringByNumber n).2 = ps[n]? := by
  obtain ⟨hnum, hget⟩ : danglingLine.numLastLine = 4
      ∧ (danglingLine.getStringByNumber (1 : Nat)).2 = none := by decide +kernel
  refine ⟨.foldl _ .start, hnum, hget, ?_⟩
  rintro ⟨ps, cur, scr, h, -, hspec⟩
  rw [hspec, List.getElem?_eq_none_iff] at hget
  rw [h.num] at hnum
  omega

end Editor

end Far2l
