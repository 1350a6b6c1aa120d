/-
Far2l.Editor.ApplyColor — the colours of a line: `Edit::ApplyColor` of
`far/src/edit.cpp`, and the four-argument `RealPosToCell` that it continues from one
item to the next.

Positions and columns are integers, as `StartPos` is one. A read in front of the line
makes the whole computation fail.
-/
import Far2l.Editor.CellTheorems

namespace Far2l

namespace Edit

variable (conf : EditConf)

/-! ## `RealPosToCell` from a position on -/

/-- What `RealPosToCell` leaves behind: the column and `*CorrectPos`. -/
abbrev Column : Type := Int × Bool

/-- The loop over what is left of the line, from `index` on. `bCorrectPos` and
`*CorrectPos` are the two flags. -/
def columnLoop (strSize : Int) : WStr → Int → Int → Int → Bool → Bool → Column
  | [], index, pos, tabPos, _, correctPos => (if pos ≥ strSize then tabPos + (pos - index) else tabPos, correctPos)
  | c :: rest, index, pos, tabPos, bCorrectPos, correctPos =>
      if index < pos then
        if c = TAB ∧ conf.tabExpandMode ≠ .allTabs then
          let tabPos' := tabPos + (conf.tabSize - tabPos % conf.tabSize)
          if bCorrectPos then columnLoop strSize rest (index + 1) (pos + 1) tabPos' false true
          else columnLoop strSize rest (index + 1) pos tabPos' false correctPos
        else if conf.fullWidth c then columnLoop strSize rest (index + 1) pos (tabPos + 2) bCorrectPos correctPos
        else if !conf.xxxfix c then columnLoop strSize rest (index + 1) pos (tabPos + 1) bCorrectPos correctPos
        else columnLoop strSize rest (index + 1) pos tabPos bCorrectPos correctPos
      else (if pos ≥ strSize then tabPos + (pos - index) else tabPos, correctPos)

/-- `RealPosToCell(PrevLength, PrevPos, Pos, CorrectPos)`; without a `CorrectPos` the
flag is false. -/
def realPosToCellFrom (e : Edit) (prevLength prevPos pos : Int) (correctPos : Bool) : Option Column :=
  if prevPos ≥ e.length then some (prevLength + (pos - prevPos), false)
  else if prevPos < 0 ∧ prevPos < pos then none
  else some (columnLoop conf e.length (e.str.drop prevPos.toNat) prevPos pos prevLength correctPos false)

/-! ## `ApplyColor` -/

/-- `ECF_TAB1` -/
def ECF_TAB1 : UInt64 := 0x10000

structure ColorItem where
  startPos : Int
  endPos : Int
  color : UInt64
  deriving DecidableEq, Repr

/-- `INT_MIN` -/
def INT_MIN : Int := -2 ^ 31

/-- The part of the screen that a line is shown in, and its first visible column. -/
structure Window where
  x1 : Int
  x2 : Int
  leftPos : Int

/-- Where an item begins: `RealStart` and `Start`. -/
structure ItemStart where
  item : ColorItem
  realStart : Int
  start : Int
  deriving DecidableEq, Repr

/-- A call of `ScrBuf.ApplyColor`. -/
structure Painted where
  left : Int
  right : Int
  attr : UInt64
  deriving DecidableEq, Repr

/-- `Pos`, `TabPos` and `TabEditorPos`, and what has been done so far. -/
structure ColorState where
  pos : Int := INT_MIN
  tabPos : Int := INT_MIN
  tabEditorPos : Int := INT_MIN
  starts : List ItemStart := []
  painted : List Painted := []
  deriving DecidableEq, Repr

/-- The items that are left out at once. -/
def Window.skips (w : Window) (item : ColorItem) : Bool :=
  decide (item.startPos > item.endPos) ||
    decide (item.startPos - w.leftPos > w.x2 ∧ item.endPos - w.leftPos < w.x1)

/-- `RealStart` and `Start` of an item. -/
def startColumn (e : Edit) (w : Window) (st : ColorState) (item : ColorItem) : Option (Int × Int) :=
  if st.pos = item.startPos then some (st.tabPos, st.tabEditorPos)
  else if st.pos = INT_MIN ∨ item.startPos < st.pos then
    (e.realPosToCellFrom conf 0 0 item.startPos false).map fun c => (c.1, c.1 - w.leftPos)
  else (e.realPosToCellFrom conf st.tabPos st.pos item.startPos false).map fun c => (c.1, c.1 - w.leftPos)

/-- The new `Pos`, `RealEnd`, `End` and `CorrectPos` of an item that begins at `st.pos`. -/
def endColumn (e : Edit) (w : Window) (st : ColorState) (item : ColorItem) (correctPos : Bool) :
    Option (Int × Int × Int × Bool) :=
  if st.pos = item.endPos then
    if correctPos ∧ item.endPos < e.length ∧ item.endPos < 0 then none
    else if correctPos ∧ item.endPos < e.length ∧ e.str[item.endPos.toNat]? = some TAB then
      (e.realPosToCellFrom conf st.tabPos st.pos (item.endPos + 1) false).map fun c =>
        (item.endPos + 1, c.1, c.1 - w.leftPos, correctPos)
    else some (item.endPos, st.tabPos, st.tabEditorPos, false)
  else
    let column :=
      if item.endPos < st.pos then e.realPosToCellFrom conf 0 0 item.endPos correctPos
      else e.realPosToCellFrom conf st.tabPos st.pos item.endPos correctPos
    column.map fun c => (if c.2 then item.endPos + 1 else item.endPos, c.1, c.1 - w.leftPos, c.2)

/-- What is painted from `start` to `stop`. -/
def paint (w : Window) (start stop : Int) (correctPos : Bool) (attr : UInt64) : List Painted :=
  let start := if start < w.x1 then w.x1 else start
  let stop := if stop > w.x2 then w.x2 else stop
  let length := stop - start + 1
  let length := if length < w.x2 ∧ correctPos then length - 1 else length
  if length > 0 then [⟨start, start + length - 1, attr⟩] else []

/-- The body of the loop. -/
def applyItem (e : Edit) (w : Window) (st : ColorState) (item : ColorItem) : Option ColorState :=
  if w.skips item then some st
  else
    (startColumn conf e w st item).bind fun (realStart, start) =>
      let st := { st with
        pos := item.startPos, tabPos := realStart, tabEditorPos := start,
        starts := st.starts ++ [⟨item, realStart, start⟩] }
      if start > w.x2 then some st
      else
        let correctPos := item.color &&& ECF_TAB1 == 0
        let attr := item.color &&& ~~~ECF_TAB1
        (endColumn conf e w st item correctPos).map fun (endPos, realEnd, stop, correctPos) =>
          let st := { st with pos := endPos, tabPos := realEnd, tabEditorPos := stop }
          if stop < w.x1 then st
          else { st with painted := st.painted ++ paint w start stop correctPos attr }

/-- `ApplyColor` -/
def applyColor (e : Edit) (w : Window) (colorList : List ColorItem) : Option ColorState :=
  colorList.foldlM (applyItem conf e w) {}

end Edit

end Far2l

/-! # The start columns that `ApplyColor` carries from

one item to the next.

What is carried is a position with its column, also when the end of an item has been
moved on by the correction for tabs. From such a pair `RealPosToCell` finds the same
column as from the beginning of the line. -/

namespace Far2l

namespace Edit

variable {conf : EditConf}

/-! ## Continuing from a position -/

/-- The column of a position, continued from an earlier one. -/
theorem cellFrom_add (s : WStr) : ∀ (col : Nat) {a b : Nat}, a ≤ b →
    cellFrom conf s col b = cellFrom conf (s.drop a) (cellFrom conf s col a) (b - a) := by
  induction s with
  | nil =>
    intro col a b h
    rw [List.drop_nil, cellFrom_nil, cellFrom_nil, cellFrom_nil]
    omega
  | cons c s ih =>
    intro col a b h
    cases a with
    | zero => rw [List.drop_zero, cellFrom_zero, Nat.sub_zero]
    | succ a =>
      obtain ⟨b, rfl⟩ := Nat.exists_eq_add_one_of_ne_zero (show b ≠ 0 by omega)
      rw [cellFrom_succ, cellFrom_succ, List.drop_succ_cons, Nat.add_sub_add_right]
      exact ih _ (Nat.le_of_succ_le_succ h)

/-- The tab stop, in integers. -/
theorem tabStop_cast (htab : 0 < conf.tabSize) (col : Nat) :
    ((col + (conf.tabSize - col % conf.tabSize) : Nat) : Int) = col + ((conf.tabSize : Int) - (col : Int) % conf.tabSize) := by
  have hmod := Nat.mod_lt col htab
  rw [Int.natCast_add, Int.natCast_sub (Nat.le_of_lt hmod), Int.natCast_emod]

/-- One turn of the loop in front of `pos`, without a tab to correct. -/
theorem columnLoop_cons (htab : 0 < conf.tabSize) (strSize : Int) (c : WChar) (rest : WStr) (index pos : Int)
    (col : Nat) (b corrected : Bool) (h : index < pos) (hb : isKeptTab conf c = true → b = false) :
    columnLoop conf strSize (c :: rest) index pos col b corrected =
      columnLoop conf strSize rest (index + 1) pos (cellAfter conf col c : Nat) b corrected := by
  rw [columnLoop, if_pos h, cellAfter]
  by_cases hkept : c = TAB ∧ conf.tabExpandMode ≠ .allTabs
  · have hkept' := isKeptTab_iff.mpr hkept
    rw [if_pos hkept, if_pos hkept', hb hkept', tabStop_cast htab]
    rfl
  · rw [if_neg hkept, if_neg (mt isKeptTab_iff.mp hkept)]
    split
    · rfl
    · split
      · rfl
      · rfl

/-- The loop without a correction. -/
theorem columnLoop_plain (htab : 0 < conf.tabSize) (strSize pos : Nat) : ∀ (rest : WStr) (index col : Nat) (corrected : Bool),
    index + rest.length = strSize → index ≤ pos →
      columnLoop conf strSize rest index pos col false corrected = (((cellFrom conf rest col (pos - index) : Nat) : Int), corrected)
  | [], index, col, corrected, hlen, hpos => by
    rw [List.length_nil] at hlen
    rw [columnLoop, if_pos (by omega), cellFrom_nil]
    congr 1
    omega
  | c :: rest, index, col, corrected, hlen, hpos => by
    rw [List.length_cons] at hlen
    rcases Nat.eq_or_lt_of_le hpos with rfl | hlt
    · rw [columnLoop, if_neg (Int.lt_irrefl _), if_neg (by omega), Nat.sub_self, cellFrom_zero]
    · have ih := columnLoop_plain htab strSize pos rest (index + 1) (cellAfter conf col c) corrected (by omega) hlt
      have hstep : pos - index = pos - (index + 1) + 1 := by omega
      rw [columnLoop_cons htab _ _ _ _ _ _ _ _ (by omega) (fun _ => rfl), hstep, cellFrom_succ, ← ih]
      rfl

/-- With a correction the position has moved on by one exactly when `*CorrectPos` is set. -/
theorem columnLoop_corrected (htab : 0 < conf.tabSize) (strSize pos : Nat) : ∀ (rest : WStr) (index col : Nat),
    index + rest.length = strSize → index ≤ pos →
      ∃ moved : Bool, columnLoop conf strSize rest index pos col true false =
        (((cellFrom conf rest col (pos + moved.toNat - index) : Nat) : Int), moved)
  | [], index, col, hlen, hpos => by
    refine ⟨false, ?_⟩
    rw [List.length_nil] at hlen
    rw [columnLoop, if_pos (by omega), cellFrom_nil, Bool.toNat_false]
    congr 1
    omega
  | c :: rest, index, col, hlen, hpos => by
    rw [List.length_cons] at hlen
    rcases Nat.eq_or_lt_of_le hpos with rfl | hlt
    · refine ⟨false, ?_⟩
      rw [columnLoop, if_neg (Int.lt_irrefl _), if_neg (by omega), Bool.toNat_false, Nat.add_zero, Nat.sub_self, cellFrom_zero]
    · cases hkept : isKeptTab conf c with
      | true =>
        refine ⟨true, ?_⟩
        have hplain := columnLoop_plain htab strSize (pos + 1) rest (index + 1) (cellAfter conf col c) true (by omega) (by omega)
        have hstep : pos + Bool.toNat true - index = pos + 1 - (index + 1) + 1 := by
          rw [Bool.toNat_true]
          omega
        rw [columnLoop, if_pos (by omega), if_pos (isKeptTab_iff.mp hkept), if_pos rfl, hstep, cellFrom_succ, ← hplain,
          cellAfter, if_pos hkept, tabStop_cast htab]
        rfl
      | false =>
        obtain ⟨moved, ih⟩ := columnLoop_corrected htab strSize pos rest (index + 1) (cellAfter conf col c) (by omega) hlt
        refine ⟨moved, ?_⟩
        have hstep : pos + moved.toNat - index = pos + moved.toNat - (index + 1) + 1 := by omega
        rw [columnLoop_cons htab _ _ _ _ _ _ _ _ (by omega) (fun h => absurd (h.symm.trans hkept) (by decide)), hstep, cellFrom_succ, ← ih]
        rfl

variable (conf)

/-- The column of a position, from the beginning of the line. -/
def columnOf (e : Edit) (pos : Int) : Int := (e.realPosToCell conf pos.toNat : Nat)

variable {conf}

/-- **Continued from a position with its column, `RealPosToCell` agrees with the
computation from the beginning; with a correction, at the corrected position.** -/
theorem realPosToCellFrom_spec (htab : 0 < conf.tabSize) (e : Edit) {a b : Int} (ha : 0 ≤ a) (hab : a ≤ b) (correctPos : Bool) :
    ∃ moved : Bool, e.realPosToCellFrom conf (e.columnOf conf a) a b correctPos = some (e.columnOf conf (b + moved.toNat), moved) ∧
      (correctPos = false → moved = false) := by
  obtain ⟨a, rfl⟩ := Int.eq_ofNat_of_zero_le ha
  obtain ⟨b, rfl⟩ := Int.eq_ofNat_of_zero_le (Int.le_trans ha hab)
  have hab' : a ≤ b := Int.ofNat_le.mp hab
  have hcol : ∀ n : Nat, a ≤ n → e.columnOf conf (n : Int) =
      (cellFrom conf (e.str.drop a) (cellFrom conf e.str 0 a) (n - a) : Nat) := fun n hn => by
    rw [columnOf, Int.toNat_natCast, realPosToCell_eq, cellFrom_add e.str 0 hn]
  have ha' : e.columnOf conf (a : Int) = (cellFrom conf e.str 0 a : Nat) := rfl
  rw [realPosToCellFrom]
  by_cases hbehind : (a : Int) ≥ e.length
  · refine ⟨false, ?_, fun _ => rfl⟩
    have hdrop : e.str.drop a = [] := List.drop_eq_nil_of_le (Int.ofNat_le.mp hbehind)
    rw [if_pos hbehind, ha', Bool.toNat_false, Int.natCast_zero, Int.add_zero, hcol b hab', hdrop, cellFrom_nil]
    congr 2
    omega
  · have hlen : a + (e.str.drop a).length = e.length := by
      rw [List.length_drop]
      have : ¬ e.length ≤ a := fun h => hbehind (Int.ofNat_le.mpr h)
      have : e.length = e.str.length := rfl
      omega
    rw [if_neg hbehind, if_neg (by omega), Int.toNat_natCast, ha']
    cases correctPos with
    | false =>
      refine ⟨false, ?_, fun _ => rfl⟩
      rw [columnLoop_plain htab _ _ _ _ _ _ hlen hab', Bool.toNat_false, Int.natCast_zero, Int.add_zero, hcol b hab']
    | true =>
      obtain ⟨moved, hloop⟩ := columnLoop_corrected htab e.length b (e.str.drop a) a (cellFrom conf e.str 0 a) hlen hab'
      refine ⟨moved, ?_, fun h => absurd h.symm (by decide)⟩
      rw [hloop, ← Int.natCast_add, hcol _ (by omega)]

/-! ## The loop of `ApplyColor` -/

/-- What is carried is a position with its column. -/
structure Carried (conf : EditConf) (e : Edit) (w : Window) (st : ColorState) : Prop where
  column : st.pos ≠ INT_MIN → 0 ≤ st.pos ∧ st.tabPos = e.columnOf conf st.pos
  screen : st.pos ≠ INT_MIN → st.tabEditorPos = st.tabPos - w.leftPos

theorem columnOf_zero (e : Edit) : e.columnOf conf 0 = 0 := by
  show ((cellFrom conf e.str 0 0 : Nat) : Int) = 0
  rw [cellFrom_zero]
  rfl

theorem realPosToCellFrom_plain (htab : 0 < conf.tabSize) (e : Edit) {a b : Int} (ha : 0 ≤ a) (hab : a ≤ b) :
    e.realPosToCellFrom conf (e.columnOf conf a) a b false = some (e.columnOf conf b, false) := by
  obtain ⟨moved, hcol, hmoved⟩ := realPosToCellFrom_spec htab e ha hab false
  rw [hcol, hmoved rfl, Bool.toNat_false, Int.natCast_zero, Int.add_zero]

/-- The computation from the beginning of the line. -/
theorem realPosToCellFrom_beginning (htab : 0 < conf.tabSize) (e : Edit) {b : Int} (hb : 0 ≤ b) :
    e.realPosToCellFrom conf 0 0 b false = some (e.columnOf conf b, false) := by
  have h := realPosToCellFrom_plain htab e (Int.le_refl 0) hb
  rwa [columnOf_zero] at h

/-- Where an item begins, computed from the beginning of the line. -/
def startOf (conf : EditConf) (e : Edit) (w : Window) (item : ColorItem) : ItemStart :=
  ⟨item, e.columnOf conf item.startPos, e.columnOf conf item.startPos - w.leftPos⟩

theorem startColumn_carried (htab : 0 < conf.tabSize) {e : Edit} {w : Window} {st : ColorState} {item : ColorItem}
    (h : Carried conf e w st) (hitem : 0 ≤ item.startPos) :
    startColumn conf e w st item = some ((startOf conf e w item).realStart, (startOf conf e w item).start) := by
  have hmin : item.startPos ≠ INT_MIN := by
    unfold INT_MIN
    omega
  rw [startColumn]
  by_cases hsame : st.pos = item.startPos
  · rw [if_pos hsame, h.screen (hsame ▸ hmin), (h.column (hsame ▸ hmin)).2, hsame]
    rfl
  · rw [if_neg hsame]
    by_cases hfirst : st.pos = INT_MIN ∨ item.startPos < st.pos
    · rw [if_pos hfirst, realPosToCellFrom_beginning htab e hitem]
      rfl
    · rw [not_or] at hfirst
      obtain ⟨hpos, htabPos⟩ := h.column hfirst.1
      rw [if_neg (not_or.mpr hfirst), htabPos, realPosToCellFrom_plain htab e hpos (Int.not_lt.mp hfirst.2)]
      rfl

/-- Behind the end of an item, corrected or not, a position with its column is carried. -/
theorem endColumn_carried (htab : 0 < conf.tabSize) {e : Edit} {w : Window} {st : ColorState} {item : ColorItem}
    (correctPos : Bool) (hpos : st.pos = item.startPos) (hitem : 0 ≤ item.startPos) (hle : item.startPos ≤ item.endPos)
    (htabPos : st.tabPos = e.columnOf conf st.pos) (hscreen : st.tabEditorPos = st.tabPos - w.leftPos) :
    ∃ (p : Int) (corrected : Bool), 0 ≤ p ∧
      endColumn conf e w st item correctPos =
        some (p, e.columnOf conf p, e.columnOf conf p - w.leftPos, corrected) := by
  have hend : 0 ≤ item.endPos := Int.le_trans hitem hle
  rw [endColumn, hscreen, htabPos, hpos]
  by_cases hone : item.startPos = item.endPos
  · rw [if_pos hone, if_neg (by omega)]
    split
    · refine ⟨item.endPos + 1, correctPos, by omega, ?_⟩
      rw [realPosToCellFrom_plain htab e hitem (by omega)]
      rfl
    · exact ⟨item.endPos, false, hend, by rw [hone]⟩
  · obtain ⟨moved, hcol, -⟩ := realPosToCellFrom_spec htab e hitem hle correctPos
    refine ⟨item.endPos + moved.toNat, moved, by omega, ?_⟩
    rw [if_neg hone, if_neg (by omega), hcol]
    cases moved with
    | false =>
      rw [Bool.toNat_false, Int.natCast_zero, Int.add_zero]
      rfl
    | true => rfl

/-- One item: the loop goes on with a position and its column, and the item begins
where it would from the beginning of the line. -/
theorem applyItem_carried (htab : 0 < conf.tabSize) {e : Edit} {w : Window} {st : ColorState} {item : ColorItem}
    (h : Carried conf e w st) (hitem : 0 ≤ item.startPos) :
    ∃ st', applyItem conf e w st item = some st' ∧ Carried conf e w st' ∧
      st'.starts = st.starts ++ if w.skips item then [] else [startOf conf e w item] := by
  by_cases hskips : w.skips item = true
  · refine ⟨st, by rw [applyItem, if_pos hskips], h, ?_⟩
    rw [if_pos hskips, List.append_nil]
  · have hle : item.startPos ≤ item.endPos := by
      rw [Window.skips, Bool.or_eq_true, not_or, decide_eq_true_iff] at hskips
      exact Int.not_lt.mp hskips.1
    rw [applyItem, if_neg hskips, startColumn_carried htab h hitem, Option.bind_some, if_neg hskips]
    dsimp only
    split
    · refine ⟨_, rfl, ⟨fun _ => ⟨hitem, rfl⟩, fun _ => rfl⟩, rfl⟩
    · obtain ⟨p, corrected, hp, hend⟩ := @endColumn_carried conf htab e w
        ⟨item.startPos, (startOf conf e w item).realStart, (startOf conf e w item).start,
          st.starts ++ [⟨item, (startOf conf e w item).realStart, (startOf conf e w item).start⟩], st.painted⟩
        item (item.color &&& ECF_TAB1 == 0) rfl hitem hle rfl rfl
      refine ⟨_, by rw [hend]; rfl, ?_, ?_⟩
      · dsimp only
        split
        · exact ⟨fun _ => ⟨hp, rfl⟩, fun _ => rfl⟩
        · exact ⟨fun _ => ⟨hp, rfl⟩, fun _ => rfl⟩
      · dsimp only
        split
        · rfl
        · rfl

theorem foldlM_applyItem (htab : 0 < conf.tabSize) (e : Edit) (w : Window) : ∀ (colors : List ColorItem) (st : ColorState),
    Carried conf e w st → (∀ item ∈ colors, 0 ≤ item.startPos) →
      ∃ st', colors.foldlM (applyItem conf e w) st = some st' ∧
        st'.starts = st.starts ++ (colors.filter fun item => !w.skips item).map (startOf conf e w)
  | [], st, _, _ => ⟨st, rfl, (List.append_nil _).symm⟩
  | item :: colors, st, h, hitems => by
    obtain ⟨hitem, hrest⟩ := List.forall_mem_cons.mp hitems
    obtain ⟨st₁, hstep, h₁, hstarts₁⟩ := applyItem_carried htab h hitem
    obtain ⟨st', hrun, hstarts'⟩ := foldlM_applyItem htab e w colors st₁ h₁ hrest
    refine ⟨st', ?_, ?_⟩
    · rw [List.foldlM_cons, hstep]
      exact hrun
    · rw [hstarts', hstarts₁, List.append_assoc]
      congr 1
      cases hskips : w.skips item with
      | true => rw [if_pos rfl, List.nil_append, List.filter_cons_of_neg (by rw [hskips]; decide)]
      | false => rw [if_neg Bool.false_ne_true, List.filter_cons_of_pos (by rw [hskips]; decide)]; rfl

/-- **Columns that are carried.** From a position with its column `RealPosToCell` finds
the same column as from the beginning of the line; so `ApplyColor` finds for every item
the start column that is found from the beginning, in whatever order the items come. -/
theorem columns_carried (e : Edit) (htab : 0 < conf.tabSize) :
    (∀ a b : Int, 0 ≤ a → a ≤ b →
      e.realPosToCellFrom conf (e.columnOf conf a) a b false = some (e.columnOf conf b, false) ∧
        e.realPosToCellFrom conf 0 0 b false = some (e.columnOf conf b, false)) ∧
    ∀ (w : Window) (colors : List ColorItem), (∀ item ∈ colors, 0 ≤ item.startPos) →
      ∃ st, e.applyColor conf w colors = some st ∧
        st.starts = (colors.filter fun item => !w.skips item).map (startOf conf e w) := by
  refine ⟨fun a b ha hab => ⟨realPosToCellFrom_plain htab e ha hab,
    realPosToCellFrom_beginning htab e (Int.le_trans ha hab)⟩, fun w colors hcolors => ?_⟩
  have hinit : Carried conf e w {} := ⟨fun h => absurd rfl h, fun h => absurd rfl h⟩
  obtain ⟨st, hrun, hstarts⟩ := foldlM_applyItem htab e w colors {} hinit hcolors
  exact ⟨st, hrun, hstarts.trans (List.nil_append _)⟩

/-- Two items of the line `a`, tab, `b`: the first ends at the tab and moves on by one. -/
theorem columns_carried_tab :
    ∃ st, applyColor accents { str := [0x61, TAB, 0x62] } ⟨0, 79, 0⟩ [⟨0, 1, 1⟩, ⟨2, 2, 2⟩] = some st ∧
      st.starts = [⟨⟨0, 1, 1⟩, 0, 0⟩, ⟨⟨2, 2, 2⟩, 8, 8⟩] :=
  (@columns_carried accents { str := [0x61, TAB, 0x62] } (by decide)).2 ⟨0, 79, 0⟩
    [⟨0, 1, 1⟩, ⟨2, 2, 2⟩] (by decide)

end Edit

end Far2l
