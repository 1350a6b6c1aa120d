/-
Far2l.Editor.Document — the document an editor holds: the text and the line end
of each of its lines, and which operations leave them alone.
-/
import Far2l.Editor.EditTheorems
import Far2l.Editor.LineListTheorems

namespace Far2l

namespace LineList

variable {S : LineList} {ps : List Ptr}

/-- The line at `p`. -/
def lineAt (S : LineList) (p : Ptr) : DocLine := (S.edit (some p)).content

/-- The lines from `TopList` on. -/
def document (S : LineList) : List DocLine := S.lines.map S.lineAt

theorem followNext_eq (h : S.Threaded ps) : ∀ (fuel i : Nat), ps.length ≤ i + fuel →
    S.followNext fuel ps[i]? = ps.drop i
  | 0, i, hfuel => by
    rw [List.drop_eq_nil_of_le (by omega)]
    rfl
  | fuel + 1, i, hfuel => by
    cases hp : ps[i]? with
    | none =>
      rw [List.getElem?_eq_none_iff] at hp
      rw [List.drop_eq_nil_of_le hp]
      rfl
    | some p =>
      rw [followNext, h.next_get hp, followNext_eq h fuel (i + 1) (by omega)]
      obtain ⟨hi, rfl⟩ := List.getElem?_eq_some_iff.mp hp
      exact (List.drop_eq_getElem_cons hi).symm

/-- The lines of the list are those it threads. -/
theorem Chained.lines_eq (h : S.Chained ps) : S.lines = ps := by
  rw [lines, h.top, followNext_eq h.toThreaded S.fresh 0 (by
    have := h.toThreaded.length_le_fresh
    omega), List.drop_zero]

theorem Chained.document_eq (h : S.Chained ps) : S.document = ps.map S.lineAt := by
  rw [document, h.lines_eq]

/-- The line that was inserted and those that were there. -/
theorem lineAt_of_edit {S' : LineList} {q : Ptr} {e : Edit}
    (h : ∀ p, S'.edit (some p) = if p = q then e else S.edit (some p)) :
    S'.lineAt q = e.content ∧ ∀ p, p ≠ q → S'.lineAt p = S.lineAt p := by
  constructor
  · rw [lineAt, h, if_pos rfl]
  · intro p hp
    rw [lineAt, h, if_neg hp, lineAt]

/-- An appended line is the last one of the document. -/
theorem Wf.document_append {cur scr : Nat} (h : S.Wf ps cur scr) (e : Edit) (n : Int) :
    (S.insertString e none n).document = S.document ++ [e.content] := by
  obtain ⟨hwf, hedit⟩ := insertString_append h e n
  obtain ⟨hnew, hold⟩ := lineAt_of_edit hedit
  rw [hwf.toChained.document_eq, h.toChained.document_eq, List.map_append, List.map_singleton,
    hnew]
  congr 1
  exact List.map_congr_left fun p hp => hold p (h.ne_fresh hp)

end LineList

end Far2l
