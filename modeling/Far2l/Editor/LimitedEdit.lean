/-
Far2l.Editor.LimitedEdit — an `Edit` with a length limit, as the dialogs and the
command line use it (`far/src/edit.cpp`), without an input mask.

Inside the limit `Edit` is the line of the editor; what stands here is what the
functions check around that. A key is the character it stands for.
-/
import Far2l.Editor.TabTheorems

namespace Far2l

/-- An `Edit` with the members the limit concerns. -/
structure LimitedEdit extends Edit where
  maxLength : Int := -1
  /-- `FEDITLINE_READONLY` -/
  readOnly : Bool := false
  /-- `FEDITLINE_DROPDOWNBOX` -/
  dropDownBox : Bool := false
  /-- `FEDITLINE_PARENT_SINGLELINE` -/
  singleLine : Bool := false
deriving DecidableEq, Repr

namespace LimitedEdit

variable (conf : EditConf)

/-- `InsertKey`. -/
def insertKey (e : LimitedEdit) (key : WChar) : LimitedEdit :=
  if e.readOnly ∨ e.dropDownBox then e
  else if key = TAB ∧ e.overtype then { e with toEdit := e.toEdit.insertKey conf key }
  else if e.maxLength = -1 ∨ (e.length : Int) < e.maxLength then
    { e with toEdit := e.toEdit.insertKey conf key }
  else if e.overtype ∧ e.curPos < e.length then
    { e with str := e.str.set e.curPos key, curPos := e.curPos + 1 }
  else e

/-- What `InsertBinaryString` takes of its argument. -/
def taken (e : LimitedEdit) (s : WStr) : WStr :=
  if e.maxLength ≠ -1 ∧ (e.length + s.length : Int) > e.maxLength ∧ (e.length : Int) < e.maxLength then
    s.take (e.maxLength - e.length).toNat
  else s

/-- `InsertBinaryString`. -/
def insertBinaryString (e : LimitedEdit) (s : WStr) : LimitedEdit :=
  if e.readOnly ∨ e.dropDownBox then e
  else if e.maxLength = -1 ∨ (e.length + (e.taken s).length : Int) ≤ e.maxLength then
    { e with toEdit := e.toEdit.insertBinaryString conf (e.taken s) }
  else e

/-- What `SetBinaryString` takes of its argument: the text, and the line end it finds. -/
def kept (e : LimitedEdit) (s : WStr) : WStr × Option EolType :=
  let s := if e.maxLength ≠ -1 ∧ (s.length : Int) > e.maxLength then s.take e.maxLength.toNat else s
  if e.singleLine then (s, none) else splitEol s

/-- `SetBinaryString`. -/
def setBinaryString (e : LimitedEdit) (s : WStr) : LimitedEdit :=
  if e.readOnly then e
  else
    let line : Edit :=
      { e.toEdit with endType := (e.kept s).2.getD e.endType, curPos := 0, str := (e.kept s).1 }
    let line := if conf.tabExpandMode = .allTabs then line.expandTabs conf else line
    { e with toEdit := { line with curPos := line.length } }

/-- `InsertTab`. Where the cursor is behind the text, `wmemmove` gets a negative size. -/
def insertTab (e : LimitedEdit) : LimitedEdit :=
  if e.readOnly then e else { e with toEdit := e.toEdit.insertTab conf }

/-- `ExpandTabs`. -/
def expandTabs (e : LimitedEdit) : LimitedEdit :=
  if e.readOnly then e else { e with toEdit := e.toEdit.expandTabs conf }

/-- What is done to the line. -/
inductive Op where
  | insertKey (key : WChar)
  | insertBinaryString (s : WStr)
  | setBinaryString (s : WStr)
  | insertTab
  | expandTabs
  | setCurPos (newPos : Nat)
  | setOvertypeMode (mode : Bool)
deriving DecidableEq, Repr

def perform (e : LimitedEdit) : Op → LimitedEdit
  | .insertKey key => e.insertKey conf key
  | .insertBinaryString s => e.insertBinaryString conf s
  | .setBinaryString s => e.setBinaryString conf s
  | .insertTab => e.insertTab conf
  | .expandTabs => e.expandTabs conf
  | .setCurPos newPos => { e with curPos := newPos }
  | .setOvertypeMode mode => { e with overtype := mode }

/-- One call after another, each under the tab settings of its time. -/
def run : List (EditConf × Op) → LimitedEdit → LimitedEdit
  | [], e => e
  | (conf, op) :: steps, e => run steps (e.perform conf op)

end LimitedEdit

end Far2l

/-! # The length limit of an `Edit`.

The limit is compared with the old size and what is inserted. The spaces that fill the
gap up to a cursor behind the text, and those a tab becomes, are added without asking. -/

namespace Far2l

namespace Edit

variable (conf : EditConf)

/-! ## Lengths -/

theorem length_padTo (s : WStr) (n : Nat) : (padTo s n).length = max s.length n := by
  simp only [padTo, List.length_append, List.length_replicate]
  omega

/-- How many spaces a tab at the cursor becomes. -/
def tabWidth (e : Edit) : Nat := conf.tabSize - e.curPos % conf.tabSize

/-- The length of a text, once the tabs are expanded where they all are. -/
def settledLength (text : WStr) : Nat :=
  if conf.tabExpandMode = .allTabs then (expansion conf 0 text).length else text.length

/-- The text with an insertion at the cursor. -/
def spliced (e : Edit) (s : WStr) : WStr :=
  (padTo e.str e.curPos).take e.curPos ++ s ++ (padTo e.str e.curPos).drop e.curPos

theorem length_expandTabs (e : Edit) : (e.expandTabs conf).length = (expansion conf 0 e.str).length :=
  congrArg List.length (str_expandTabs conf e)

theorem length_insertTab (e : Edit) : (e.insertTab conf).length = e.length + tabWidth conf e := by
  have hwhole := congrArg List.length (List.take_append_drop e.curPos e.str)
  simp only [List.length_append] at hwhole
  simp only [length, insertTab, tabWidth, List.length_append, List.length_replicate]
  omega

theorem length_insertBinaryString (e : Edit) (s : WStr) :
    (e.insertBinaryString conf s).length = settledLength conf (spliced e s) := by
  rw [insertBinaryString, settledLength]
  split
  · exact length_expandTabs conf _
  · rfl

/-- What `InsertKey` makes of the length, but for a tab that only moves the cursor. -/
theorem length_insertKey (e : Edit) (key : WChar) (hmove : ¬ (key = TAB ∧ e.overtype)) :
    (e.insertKey conf key).length =
      if key = TAB ∧ conf.tabExpandMode ≠ .noTabs then max e.length e.curPos + tabWidth conf e
      else if e.overtype then max e.length (e.curPos + 1)
      else max e.length e.curPos + 1 := by
  rw [insertKey, if_neg hmove]
  split
  · rw [length_insertTab]
    simp only [length, length_padTo, tabWidth]
  split
  · simp only [length, List.length_set, length_padTo]
  · have hwhole := congrArg List.length (List.take_append_drop e.curPos (padTo e.str e.curPos))
    rw [List.length_append, length_padTo] at hwhole
    simp only [length, List.length_append, List.length_cons]
    omega

end Edit

namespace LimitedEdit

open Edit

variable (conf : EditConf)

/-! ## One call -/

/-- When a call keeps a line within `n` characters, its limit. -/
def Fits (n : Nat) (e : LimitedEdit) : Op → Prop
  | .insertKey key =>
      e.readOnly ∨ e.dropDownBox ∨ (key = TAB ∧ e.overtype) ∨ e.length = n ∨
        if key = TAB ∧ conf.tabExpandMode ≠ .noTabs then max e.length e.curPos + tabWidth conf e.toEdit ≤ n
        else e.curPos < n
  | .insertBinaryString s =>
      e.readOnly ∨ e.dropDownBox ∨ (e.length = n ∧ s ≠ []) ∨
        settledLength conf (spliced e.toEdit (s.take (n - e.length))) ≤ n
  | .setBinaryString s => e.readOnly ∨ settledLength conf (e.kept s).1 ≤ n
  | .insertTab => e.readOnly ∨ e.length + tabWidth conf e.toEdit ≤ n
  | .expandTabs => e.readOnly ∨ (expansion conf 0 e.str).length ≤ n
  | .setCurPos _ => True
  | .setOvertypeMode _ => True

theorem maxLength_perform (e : LimitedEdit) (op : Op) : (e.perform conf op).maxLength = e.maxLength := by
  cases op with
  | insertKey key =>
    simp only [perform, insertKey]
    split
    · rfl
    split
    · rfl
    split
    · rfl
    split <;> rfl
  | insertBinaryString s =>
    simp only [perform, insertBinaryString]
    split
    · rfl
    split <;> rfl
  | setBinaryString s =>
    simp only [perform, setBinaryString]
    split <;> rfl
  | insertTab =>
    simp only [perform, insertTab]
    split <;> rfl
  | expandTabs =>
    simp only [perform, expandTabs]
    split <;> rfl
  | setCurPos newPos => rfl
  | setOvertypeMode mode => rfl

section Step

variable {conf} {n : Nat} {e : LimitedEdit} (hmax : e.maxLength = n) (h : e.length ≤ n)
include hmax h

theorem insertKey_iff (key : WChar) : (e.insertKey conf key).length ≤ n ↔ Fits conf n e (.insertKey key) := by
  rw [insertKey, Fits]
  by_cases hblocked : e.readOnly ∨ e.dropDownBox
  · rw [if_pos hblocked]
    exact ⟨fun _ => hblocked.elim .inl fun hd => .inr (.inl hd), fun _ => h⟩
  rw [if_neg hblocked]
  rw [not_or] at hblocked
  simp only [hblocked.1, hblocked.2, Bool.false_eq_true, false_or]
  by_cases hmove : key = TAB ∧ e.overtype
  · rw [if_pos hmove]
    refine ⟨fun _ => .inl hmove, fun _ => ?_⟩
    rw [Edit.insertKey, if_pos hmove]
    exact h
  rw [if_neg hmove]
  by_cases hfull : e.length = n
  · have hroom : ¬ (e.maxLength = -1 ∨ (e.length : Int) < e.maxLength) := by omega
    rw [if_neg hroom]
    refine ⟨fun _ => .inr (.inl hfull), fun _ => ?_⟩
    split
    · simpa [Edit.length] using h
    · exact h
  · have hroom : e.maxLength = -1 ∨ (e.length : Int) < e.maxLength := .inr (by omega)
    rw [if_pos hroom]
    show (e.toEdit.insertKey conf key).length ≤ n ↔ _
    rw [length_insertKey conf _ _ hmove]
    simp only [hmove, hfull, false_or]
    split
    · rfl
    · split <;> omega

theorem insertBinaryString_iff (s : WStr) :
    (e.insertBinaryString conf s).length ≤ n ↔ Fits conf n e (.insertBinaryString s) := by
  rw [insertBinaryString, Fits]
  by_cases hblocked : e.readOnly ∨ e.dropDownBox
  · rw [if_pos hblocked]
    exact ⟨fun _ => hblocked.elim .inl fun hd => .inr (.inl hd), fun _ => h⟩
  rw [if_neg hblocked]
  rw [not_or] at hblocked
  simp only [hblocked.1, hblocked.2, Bool.false_eq_true, false_or]
  -- what is taken never exceeds the limit, but where the line is full and nothing is cut
  by_cases hfull : e.length = n ∧ s ≠ []
  · have hs : 0 < s.length := List.length_pos_iff.mpr hfull.2
    have htaken : e.taken s = s := by
      rw [taken, if_neg (by omega)]
    rw [htaken, if_neg (by omega)]
    exact ⟨fun _ => .inl hfull, fun _ => h⟩
  have htaken : e.taken s = s.take (n - e.length) := by
    rw [taken]
    split
    · rw [show (e.maxLength - e.length).toNat = n - e.length by omega]
    · rename_i hcut
      refine (List.take_of_length_le ?_).symm
      by_cases hempty : s = []
      · simp [hempty]
      · have hlt : e.length ≠ n := fun heq => hfull ⟨heq, hempty⟩
        omega
  have hlen : (s.take (n - e.length)).length ≤ n - e.length := by
    rw [List.length_take]
    omega
  rw [htaken, if_pos (.inr (by omega))]
  show (e.toEdit.insertBinaryString conf _).length ≤ n ↔ _
  rw [length_insertBinaryString]
  exact ⟨.inr, fun hor => hor.resolve_left hfull⟩

omit hmax in
theorem setBinaryString_iff (s : WStr) :
    (e.setBinaryString conf s).length ≤ n ↔ Fits conf n e (.setBinaryString s) := by
  rw [setBinaryString, Fits]
  by_cases hread : e.readOnly
  · rw [if_pos hread]
    exact ⟨fun _ => .inl hread, fun _ => h⟩
  rw [if_neg hread]
  simp only [hread, Bool.false_eq_true, false_or, settledLength]
  by_cases hall : conf.tabExpandMode = .allTabs
  · simp only [hall, if_true]
    exact iff_of_eq (congrArg (· ≤ n) (length_expandTabs conf _))
  · simp only [hall, if_false]
    rfl

/-- A call keeps the line within its limit exactly when it fits. -/
theorem perform_iff (op : Op) : (e.perform conf op).length ≤ n ↔ Fits conf n e op := by
  cases op with
  | insertKey key => exact insertKey_iff hmax h key
  | insertBinaryString s => exact insertBinaryString_iff hmax h s
  | setBinaryString s => exact setBinaryString_iff h s
  | insertTab =>
    simp only [perform, insertTab, Fits]
    by_cases hread : e.readOnly
    · simpa [hread] using h
    · simp only [hread, Bool.false_eq_true, if_false, false_or]
      exact iff_of_eq (congrArg (· ≤ n) (length_insertTab conf _))
  | expandTabs =>
    simp only [perform, expandTabs, Fits]
    by_cases hread : e.readOnly
    · simpa [hread] using h
    · simp only [hread, Bool.false_eq_true, if_false, false_or]
      exact iff_of_eq (congrArg (· ≤ n) (length_expandTabs conf _))
  | setCurPos newPos => exact iff_of_true h trivial
  | setOvertypeMode mode => exact iff_of_true h trivial

end Step

/-! ## Any number of calls -/

/-- Every call of a run fits the line it meets. -/
def AllFit (n : Nat) : List (EditConf × Op) → LimitedEdit → Prop
  | [], _ => True
  | (conf, op) :: steps, e => Fits conf n e op ∧ AllFit n steps (e.perform conf op)

/-- **The limit over a run.** The line is within its limit after every call exactly when every call
fits. -/
theorem run_limit_iff (n : Nat) : ∀ (steps : List (EditConf × Op)) {e : LimitedEdit},
    e.maxLength = n → e.length ≤ n →
      ((∀ k, (run (steps.take k) e).length ≤ n) ↔ AllFit n steps e)
  | [], e, _, h => by simp [run, AllFit, h]
  | (conf, op) :: steps, e, hmax, h => by
    have hstep : (e.perform conf op).length ≤ n ↔ Fits conf n e op := perform_iff hmax h op
    have hrest := run_limit_iff n steps (e := e.perform conf op) ((maxLength_perform conf e op).trans hmax)
    constructor
    · intro hall
      have hfirst : (e.perform conf op).length ≤ n := by simpa [run] using hall 1
      exact ⟨hstep.mp hfirst, (hrest hfirst).mp fun k => hall (k + 1)⟩
    · intro hfit k
      cases k with
      | zero => exact h
      | succ k => exact (hrest (hstep.mpr hfit.1)).mpr hfit.2 k

/-- A tab in a line of three characters, which may have four. -/
theorem run_limit_iff_tab :
    (∀ k, (run ([(⟨8, .allTabs, false, fun _ => false, fun _ => false⟩, .insertKey 0x78)].take k)
        { str := [0x61, 0x62, 0x63], curPos := 3, maxLength := 4 }).length ≤ 4) ↔
      AllFit 4 [(⟨8, .allTabs, false, fun _ => false, fun _ => false⟩, .insertKey 0x78)]
        { str := [0x61, 0x62, 0x63], curPos := 3, maxLength := 4 } :=
  run_limit_iff 4 _ rfl (by decide)

/-- A line of three characters, which may have four, has eight after a tab. -/
theorem tab_exceeds :
    ¬ ∀ (n : Nat) (e : LimitedEdit) (steps : List (EditConf × Op)), e.maxLength = n → e.length ≤ n →
      (run steps e).length ≤ n := fun h =>
  absurd (h 4 { str := [0x61, 0x62, 0x63], curPos := 3, maxLength := 4 }
    [(⟨8, .allTabs, false, fun _ => false, fun _ => false⟩, .insertKey TAB)] rfl (by decide)) (by decide)

end LimitedEdit

end Far2l
