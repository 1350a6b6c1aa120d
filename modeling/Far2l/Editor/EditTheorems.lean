/-
Far2l.Editor.EditTheorems — text, line end and selection of a line after the
calls that set them. `content` only depends on `content`, whatever the cursor
and the old selection are.
-/
import Far2l.Editor.Edit
import Mathlib.Data.List.Basic

namespace Far2l

/-- What is saved of a line: its text and its line end. -/
abbrev DocLine := WStr × EolType

namespace Edit

variable (conf : EditConf)

/-- The text and the line end of a line. -/
def content (e : Edit) : DocLine := (e.str, e.endType)

/-- An `Edit` apart from its cursor: text, line end and selection. -/
def marks (e : Edit) : DocLine × Int × Int := (e.content, e.selStart, e.selEnd)

theorem marks_select (e : Edit) (a b : Int) :
    (e.select conf a b).marks = (e.content, sanitizeRange conf e.str a b) := rfl

/-- `Select(-1, 0)` takes the selection away. -/
theorem marks_unselect (e : Edit) : (e.select conf (-1) 0).marks = (e.content, -1, 0) := by
  rw [marks_select, sanitizeRange]
  simp

/-- A selection that goes on behind the text is taken as it is. -/
theorem sanitizeRange_open (str : WStr) {start : Int} (h : 0 ≤ start) :
    sanitizeRange conf str start (-1) = (start, -1) := by
  have h1 : ¬ (-1 ≥ start ∧ start ≥ 0) := by omega
  have h2 : start ≠ -1 := by omega
  simp [sanitizeRange, h1, h2]

/-! ## Tabs -/

/-- The text `ExpandTabs` makes, behind `pre`. -/
def expandedText (pre : WStr) : WStr → WStr
  | [] => pre
  | c :: rest =>
      if c = TAB then
        expandedText (pre ++ List.replicate (conf.tabSize - pre.length % conf.tabSize) SPACE) rest
      else expandedText (pre ++ [c]) rest

theorem content_expandTabsLoop : ∀ (s pre : WStr) (e : Edit),
    (expandTabsLoop conf e pre s).content = (expandedText conf pre s, e.endType)
  | [], _, _ => rfl
  | c :: rest, pre, e => by
    rw [expandTabsLoop, expandedText]
    split
    · exact content_expandTabsLoop rest _ _
    · exact content_expandTabsLoop rest _ _

theorem content_expandTabs (e : Edit) :
    (e.expandTabs conf).content = (expandedText conf [] e.str, e.endType) :=
  content_expandTabsLoop conf e.str [] e

/-- The text a line gets when it is set to `s`. -/
def shownText (s : WStr) : WStr :=
  if conf.tabExpandMode = .allTabs then expandedText conf [] s else s

/-- The content of a line with line end `eol` once `SetBinaryString(s)` has been called. -/
def setContent (eol : EolType) (s : WStr) : DocLine :=
  (shownText conf (splitEol s).1, (splitEol s).2.getD eol)

theorem content_setBinaryString (e : Edit) (s : WStr) :
    (e.setBinaryString conf s).content = setContent conf e.endType s := by
  simp only [setBinaryString, setContent, shownText]
  split
  · exact content_expandTabs conf _
  · rfl

/-- A line that is emptied keeps its line end, and loses its selection. -/
theorem marks_setString_nil (e : Edit) : (e.setString conf []).marks = (([], e.endType), -1, 0) := by
  have hsel : sanitizeRange conf e.str (-1) 0 = (-1, 0) := congrArg Prod.snd (marks_unselect conf e)
  have hs : (e.select conf (-1) 0).selStart = -1 := congrArg Prod.fst hsel
  have ht : (e.select conf (-1) 0).selEnd = 0 := congrArg Prod.snd hsel
  simp only [setString, setBinaryString, splitEol, List.getLast?_nil, expandTabs, expandTabsLoop]
  split <;> simp only [marks, content, hs, ht, Option.getD_none] <;> rfl

/-! ## Line ends -/

/-- The line end is cut off, and can be put back. -/
theorem splitEol_append (s : WStr) :
    (splitEol s).1 ++ ((splitEol s).2.getD .none).chars = s := by
  simp only [splitEol]
  cases hlast : s.getLast? with
  | none => exact List.append_nil s
  | some c =>
    have hs := (List.dropLast_append_getLast? _ hlast).symm
    by_cases hcr : c = CR
    · rw [hcr] at hs
      simp only [hcr, if_true]
      exact hs.symm
    by_cases hlf : c = LF
    · rw [hlf] at hs
      simp only [hlf, show LF ≠ CR by decide, if_false, if_true]
      by_cases h1 : s.dropLast.getLast? = some CR
      · have hs1 := (List.dropLast_append_getLast? _ h1).symm
        by_cases h2 : s.dropLast.dropLast.getLast? = some CR
        · have hs2 := (List.dropLast_append_getLast? _ h2).symm
          simp only [h1, h2, if_true]
          show s.dropLast.dropLast.dropLast ++ ([CR] ++ [CR] ++ [LF]) = s
          rw [← List.append_assoc, ← List.append_assoc, ← hs2, ← hs1, ← hs]
        · simp only [h1, h2, if_true, if_false]
          show s.dropLast.dropLast ++ ([CR] ++ [LF]) = s
          rw [← List.append_assoc, ← hs1, ← hs]
      · simp only [h1, if_false]
        exact hs.symm
    · simp only [hcr, hlf, if_false]
      exact List.append_nil s

/-- The line end cut off is at least the one that was put on. -/
theorem length_splitEol_append (text : WStr) (eol : EolType) :
    (splitEol (text ++ eol.chars)).1.length ≤ text.length := by
  have hle : ∀ s : WStr, (splitEol s).1.length ≤ s.length := by
    intro s
    have := congrArg List.length (splitEol_append s)
    rw [List.length_append] at this
    omega
  cases eol with
  | none =>
    rw [EolType.chars, List.append_nil]
    exact hle text
  | cr => simp [EolType.chars, splitEol]
  | lf =>
    simp only [EolType.chars, splitEol, List.getLast?_concat, show LF ≠ CR by decide, if_false,
      if_true, List.dropLast_concat]
    split
    · split <;> simp only [List.length_dropLast] <;> omega
    · exact Nat.le_refl _
  | crlf =>
    rw [EolType.chars, show text ++ [CR, LF] = (text ++ [CR]) ++ [LF] by simp]
    simp only [splitEol, List.getLast?_concat, show LF ≠ CR by decide, if_false, if_true,
      List.dropLast_concat]
    split
    · simp only [List.length_dropLast]
      omega
    · exact Nat.le_refl _
  | crcrlf =>
    rw [EolType.chars, show text ++ [CR, CR, LF] = ((text ++ [CR]) ++ [CR]) ++ [LF] by simp]
    simp only [splitEol, List.getLast?_concat, show LF ≠ CR by decide, if_false, if_true,
      List.dropLast_concat]
    exact Nat.le_refl _

/-- The characters at the end of a text that, in front of a line end, are taken for a part of
it. -/
def eolEaten (text : WStr) (eol : EolType) : WStr :=
  text.drop (splitEol (text ++ eol.chars)).1.length

/-- How `SetBinaryString` divides a text with its line end. -/
theorem splitEol_eaten (text : WStr) (eol : EolType) :
    text = (splitEol (text ++ eol.chars)).1 ++ eolEaten text eol
    ∧ ((splitEol (text ++ eol.chars)).2.getD .none).chars = eolEaten text eol ++ eol.chars := by
  have happ := splitEol_append (text ++ eol.chars)
  have hlen := length_splitEol_append text eol
  rw [eolEaten]
  generalize splitEol (text ++ eol.chars) = r at happ hlen
  have htake : r.1 = text.take r.1.length := by
    have := congrArg (List.take r.1.length) happ
    rwa [List.take_left, List.take_append_of_le_length hlen] at this
  have htext : text = r.1 ++ text.drop r.1.length := by
    conv => lhs; rw [← List.take_append_drop r.1.length text, ← htake]
  refine ⟨htext, ?_⟩
  have := congrArg (List.drop r.1.length) happ
  rwa [List.drop_left, List.drop_append_of_le_length hlen] at this

theorem chars_injective {eol eol' : EolType} (h : eol.chars = eol'.chars) : eol = eol' := by
  rw [← EolType.ofChars_chars eol, h, EolType.ofChars_chars]

/-! ## Text that is set and saved -/

/-- A text without tabs is shown as it is. -/
theorem expandedText_of_not_mem : ∀ (s pre : WStr), TAB ∉ s → expandedText conf pre s = pre ++ s
  | [], pre, _ => (List.append_nil pre).symm
  | c :: rest, pre, h => by
    rw [List.mem_cons, not_or] at h
    rw [expandedText, if_neg (Ne.symm h.1), expandedText_of_not_mem rest _ h.2, List.append_assoc,
      List.singleton_append]

theorem not_mem_expandedText : ∀ (s pre : WStr), TAB ∉ pre → TAB ∉ expandedText conf pre s
  | [], _, h => h
  | c :: rest, pre, h => by
    rw [expandedText]
    split
    · refine not_mem_expandedText rest _ ?_
      rw [List.mem_append, not_or]
      refine ⟨h, fun hmem => absurd (List.eq_of_mem_replicate hmem) (by decide)⟩
    · next hc =>
      refine not_mem_expandedText rest _ ?_
      rw [List.mem_append, not_or, List.mem_singleton]
      exact ⟨h, Ne.symm hc⟩

/-- What is saved of a line that has been set to a text without tabs. -/
theorem saved_setContent (eol : EolType) {s : WStr}
    (htab : conf.tabExpandMode = .allTabs → TAB ∉ s) (hnil : s = [] → eol = .none) :
    (setContent conf eol s).1 = (splitEol s).1
    ∧ (setContent conf eol s).2 = (splitEol s).2.getD .none
    ∧ (setContent conf eol s).1 ++ (setContent conf eol s).2.chars = s := by
  have h1 : (setContent conf eol s).1 = (splitEol s).1 := by
    simp only [setContent, shownText]
    split
    · next hall =>
      refine expandedText_of_not_mem conf _ [] fun hmem => htab hall ?_
      rw [← splitEol_append s]
      exact List.mem_append_left _ hmem
    · rfl
  have h2 : (setContent conf eol s).2 = (splitEol s).2.getD .none := by
    cases hlast : s.getLast? with
    | none =>
      obtain rfl := List.getLast?_eq_none_iff.mp hlast
      exact hnil rfl
    | some c =>
      simp only [setContent, splitEol, hlast]
      split
      · rfl
      · split
        · split
          · split <;> rfl
          · rfl
        · rfl
  refine ⟨h1, h2, ?_⟩
  rw [h1, h2, splitEol_append]

/-- Where tabs are expanded no tab is left. -/
theorem not_mem_setContent (hall : conf.tabExpandMode = .allTabs) (eol : EolType) (s : WStr) :
    TAB ∉ (setContent conf eol s).1 := by
  simp only [setContent, shownText, hall, if_true]
  exact not_mem_expandedText conf _ [] List.not_mem_nil

theorem not_mem_chars (eol : EolType) : TAB ∉ eol.chars := by
  cases eol <;> decide

end Edit

end Far2l
