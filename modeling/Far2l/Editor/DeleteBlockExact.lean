/-
Far2l.Editor.DeleteBlockExact — what `DeleteBlock` leaves of the text of a stream
block, and when that is the text in front of the block followed by the text
behind it.

The loop is followed on the list of `marks` of the lines: the text, the line end
and the selection of each.
-/
import Mathlib.Data.List.InsertIdx
import Far2l.Editor.DeleteBlockTheorems

namespace Far2l

/-- Text, line end and selection of a line. -/
abbrev Mark := DocLine × Int × Int

namespace Editor

variable {E E' : Editor} {ps : List Ptr}

/-- The loop works on the lines `ps`, whose marks are `L`. -/
structure Shows (E : Editor) (ps : List Ptr) (L : List Mark) : Prop where
  placed : ∃ cur scr, E.toLineList.Placed ps cur scr
  lock : E.lockMode = false
  vBlock : E.vBlockStart = none
  marks : ps.map (fun p => (E.edit (some p)).marks) = L

namespace Shows

variable {L : List Mark}

theorem length (h : Shows E ps L) : ps.length = L.length := by
  rw [← h.marks, List.length_map]

/-- The line behind a mark. -/
theorem line (h : Shows E ps L) {c : Nat} {m : Mark} (hm : L[c]? = some m) :
    ∃ p, ps[c]? = some p ∧ (E.edit (some p)).marks = m := by
  rw [← h.marks, List.getElem?_map, Option.map_eq_some_iff] at hm
  exact hm

theorem stands (h : Shows E ps L) {c : Nat} {p : Ptr} (hp : ps[c]? = some p) :
    ∃ cur scr, Stands E ps cur scr c p := by
  obtain ⟨cur, scr, hplaced⟩ := h.placed
  exact ⟨cur, scr, hplaced, hp, h.lock, h.vBlock⟩

/-- The document the lines make up. -/
theorem document (h : Shows E ps L) : E.document = L.map Prod.fst := by
  obtain ⟨cur, scr, hplaced⟩ := h.placed
  rw [hplaced.toChained.document_eq, ← h.marks, List.map_map]
  rfl

theorem textChanged (h : Shows E ps L) (b : Bool) : Shows (E.textChanged b) ps L :=
  ⟨h.placed, h.lock, h.vBlock, h.marks⟩

end Shows

/-- `DeleteBlock` reads the selection of a line off its mark. -/
theorem blockSelection_marks {e : Edit} {l : DocLine} {s t : Int} (h : e.marks = (l, s, t)) :
    blockSelection e = (s, if t ≠ -1 ∧ t > l.1.length then -1 else t) := by
  obtain ⟨⟨rfl, rfl⟩, rfl, rfl⟩ := by
    simpa only [Edit.marks, Edit.content, Prod.mk.injEq] using h
  rfl

theorem map_eraseIdx_marks {k : Nat} {p : Ptr} (hnodup : ps.Nodup) (hp : ps[k]? = some p)
    {f f' : Ptr → Mark} (hmarks : ∀ q, q ≠ p → f' q = f q) :
    (ps.eraseIdx k).map f' = (ps.map f).eraseIdx k := by
  rw [List.eraseIdx_map]
  refine List.map_congr_left fun q hq => hmarks q ?_
  rintro rfl
  obtain ⟨j, hjk, hj⟩ := List.mem_eraseIdx_iff_getElem?.mp hq
  have hlt := (List.getElem?_eq_some_iff.mp hj).1
  exact hjk ((List.getElem?_inj hlt hnodup).mp (hj.trans hp.symm))

/-- One line has changed its mark. -/
theorem map_set_marks {k : Nat} {p : Ptr} (hnodup : ps.Nodup) (hp : ps[k]? = some p)
    {f f' : Ptr → Mark} (hmarks : ∀ q ∈ ps, q ≠ p → f' q = f q) :
    ps.map f' = (ps.map f).set k (f' p) := by
  apply List.ext_getElem?
  intro n
  rw [List.getElem?_set, List.getElem?_map, List.getElem?_map, List.length_map]
  have hk := (List.getElem?_eq_some_iff.mp hp).1
  by_cases hn : k = n
  · subst hn
    rw [if_pos rfl, if_pos hk, hp]
    rfl
  · rw [if_neg hn]
    cases hq : ps[n]? with
    | none => rfl
    | some q =>
      have hne : q ≠ p := by
        rintro rfl
        have hlt := (List.getElem?_eq_some_iff.mp hq).1
        exact hn ((List.getElem?_inj hlt hnodup).mp (hq.trans hp.symm)).symm
      rw [Option.map_some, Option.map_some, hmarks q (List.mem_of_getElem? hq) hne]

/-! ## One turn -/

variable {L : List Mark}

/-- The loop stops behind the block, or at the end of the list. -/
theorem loop_stop (h : Shows E ps L) {c : Nat}
    (hstop : ∀ m, L[c]? = some m → m.2.1 = -1) (i : Int) :
    ∃ E', (∀ fuel, deleteBlockLoop (fuel + 1) E ps[c]? i = E') ∧ Shows E' ps L
      ∧ E.toLineList.CacheKept E'.toLineList ps ps := by
  cases hp : ps[c]? with
  | none => exact ⟨E, fun _ => rfl, h, fun _ hc => hc⟩
  | some p =>
    refine ⟨E.textChanged true, fun fuel => ?_, h.textChanged true, fun _ hc => hc⟩
    have hm : L[c]? = some (E.edit (some p)).marks := by
      rw [← h.marks, List.getElem?_map, hp]
      rfl
    have hsel : (blockSelection ((E.textChanged true).edit (some p))).1 = -1 := hstop _ hm
    rw [deleteBlockLoop, if_neg (by simp)]
    simp only [hsel, if_true]

/-- A wholly marked line that is not the last one goes. -/
theorem loop_whole (h : Shows E ps L) {c : Nat} {l : DocLine} (hm : L[c]? = some (l, 0, -1))
    (hc : c + 1 < L.length) (i : Int) :
    ∃ E' ps', (∀ fuel, deleteBlockLoop (fuel + 1) E ps[c]? i
        = deleteBlockLoop fuel E' ps'[c]? (i + 1))
      ∧ Shows E' ps' (L.eraseIdx c) ∧ Kept E E'
      ∧ E.toLineList.CacheFollows E'.toLineList ps ps' c i := by
  obtain ⟨p, hp, hmp⟩ := h.line hm
  obtain ⟨cur, scr, hstands⟩ := (h.textChanged true).stands hp
  have hlen := h.length
  have her := deleteWholeLine_erased hstands (by omega) i
  have hsel : blockSelection ((E.textChanged true).edit (some p)) = (0, -1) := by
    exact (blockSelection_marks (e := E.edit (some p)) hmp).trans rfl
  refine ⟨(E.textChanged true).deleteWholeLine (some p) i, ps.eraseIdx c, fun fuel => ?_,
    ⟨⟨_, _, her.placed⟩, her.kept.lockMode.trans h.lock, her.vBlock, ?_⟩,
    (Kept.textChanged E true).trans her.kept, her.cache⟩
  · have hnext : (E.textChanged true).next (some p) = ps[c + 1]? := hstands.placed.next_get hp
    rw [hp, deleteBlockLoop, if_neg (by simp)]
    simp only [hsel, hnext]
    rw [List.getElem?_eraseIdx, if_neg (Nat.lt_irrefl c)]
    simp only [LineList.get_ne_none (show c + 1 < ps.length by omega), and_self, if_true, ne_eq,
      not_false_eq_true]
    rfl
  · rw [map_eraseIdx_marks hstands.placed.linked.nodup hp her.marks]
    exact congrArg (List.eraseIdx · c) h.marks

/-- The line `l` with another text, as `SetBinaryString` sets it in front of the old line end. -/
def resetLine (conf : EditConf) (l : DocLine) (text : WStr) : DocLine :=
  Edit.setContent conf l.2 (text ++ l.2.chars)

/-- The loop on a partly marked line. -/
theorem deleteBlockLoop_part {p : Ptr} {l : DocLine} {s t : Int}
    (hmp : (E.edit (some p)).marks = (l, s, t)) (ht : t ≤ l.1.length) (hs : s ≠ -1)
    (hst : ¬ (s = 0 ∧ t = -1)) (fuel : Nat) (i : Int) :
    deleteBlockLoop (fuel + 1) E (some p) i
      = let r := (E.textChanged true).deletePartLine (some p) s t i
        deleteBlockLoop fuel r.1 r.2 (i + 1) := by
  have hsel : blockSelection ((E.textChanged true).edit (some p)) = (s, t) := by
    refine (blockSelection_marks (e := E.edit (some p)) hmp).trans ?_
    rw [if_neg (by omega)]
  rw [deleteBlockLoop, if_neg (by simp)]
  simp only [hsel, if_neg hs, if_neg hst]

/-- The block ends on the line. -/
theorem loop_part (h : Shows E ps L) {c s t : Nat} {l : DocLine} (hm : L[c]? = some (l, (s : Int), (t : Int)))
    (hs : s ≤ l.1.length) (ht : t ≤ l.1.length) (i : Int) :
    ∃ E', (∀ fuel, deleteBlockLoop (fuel + 1) E ps[c]? i
        = deleteBlockLoop fuel E' ps[c + 1]? (i + 1))
      ∧ Shows E' ps (L.set c (resetLine E.conf l (l.1.take s ++ l.1.drop t), -1, 0)) ∧ Kept E E'
      ∧ E.toLineList.CacheKept E'.toLineList ps ps := by
  obtain ⟨p, hp, hmp⟩ := h.line hm
  obtain ⟨cur, scr, hstands⟩ := (h.textChanged true).stands hp
  have hstr : (E.edit (some p)).str = l.1 := congrArg (fun m => m.1.1) hmp
  have heol : (E.edit (some p)).endType = l.2 := congrArg (fun m => m.1.2) hmp
  have hedit := markPartLine_edit (E := E.textChanged true) (p := p) (s := (s : Int))
    (by show (s : Int) ≤ (E.edit (some p)).str.length; rw [hstr]; omega) t
  obtain ⟨hturn, hothers, hcache⟩ := deletePartLine_stays hstands (s := (s : Int)) (t := (t : Int))
    (.inl (by omega)) i
  have hjoin : joinText ((E.textChanged true).markPartLine (some p) (s : Int) t).toLineList
      (some p) s t = { text := l.1.take s ++ l.1.drop t, eol := l.2.chars, goesOn := false,
                       deleteNext := false } := by
    have htn : (t : Int) ≠ -1 := by omega
    simp [joinText, hedit, htn, Edit.getEOL]
    exact ⟨by rw [← hstr]; rfl, by rw [← heol]; rfl⟩
  have hmarks := hturn.marks
  have hptr := hturn.ptr
  rw [hjoin] at hmarks hptr
  obtain ⟨scr', hplaced⟩ := hturn.placed
  refine ⟨_, fun fuel => ?_, ⟨⟨cur, scr', hplaced⟩, hturn.kept.lockMode.trans h.lock, hturn.vBlock,
    ?_⟩, (Kept.textChanged E true).trans hturn.kept, hcache⟩
  · rw [hp, deleteBlockLoop_part hmp (by omega) (by omega) (by omega)]
    exact congrArg (fun ptr => deleteBlockLoop fuel _ ptr (i + 1)) hptr
  · rw [map_set_marks hstands.placed.linked.nodup hp
      (f := fun q => (E.edit (some q)).marks) (fun q _ hq => congrArg Edit.marks (hothers q hq)),
      h.marks, hmarks, hedit]
    show L.set c (joinedMarks E.conf (E.edit (some p)).endType _) = _
    rw [heol]
    rfl

/-- Where the marked part of a line behind another marked one ends: in column `t`, behind the
text, or, when the line is not marked, in column 0. -/
def EndsAt (m : Mark) (t : Int) : Prop := m.2 = (0, t) ∨ (m.2.1 = -1 ∧ t = 0)

/-- `NextEndSel` is where the marked part of the next line ends. -/
theorem nextEndSel_eq {S : LineList} {p q : Ptr} (hn : S.next (some p) = some q) {m : Mark}
    (hmq : (S.edit (some q)).marks = m) {t : Int} (hm : EndsAt m t) (ht : t ≤ m.1.1.length) :
    nextEndSel S (some p) = t := by
  have hqstr : (S.edit (some q)).str = m.1.1 := congrArg (fun m => m.1.1) hmq
  have hqs : (S.edit (some q)).selStart = m.2.1 := congrArg (fun m => m.2.1) hmq
  have hqt : (S.edit (some q)).selEnd = m.2.2 := congrArg (fun m => m.2.2) hmq
  rcases hm with hm | ⟨hm, rfl⟩
  · have hs0 : m.2.1 = 0 := congrArg Prod.fst hm
    have ht0 : m.2.2 = t := congrArg Prod.snd hm
    have h0 : ¬ (m.1.1.length : Int) < 0 := by omega
    have h1 : ¬ (m.1.1.length : Int) < t := by omega
    simp [nextEndSel, hn, Edit.getSelection, Edit.length, hqs, hqt, hqstr, hs0, ht0, h0, h1]
  · have h0 : ¬ (m.1.1.length : Int) < -1 := by omega
    simp [nextEndSel, hn, Edit.getSelection, Edit.length, hqs, hqstr, hm, h0]

/-- What is put together on a line, from column `s` of which the block goes on to column `t` of
the next one, or behind it. -/
theorem joinText_next {p q : Ptr} {l : DocLine} {m : Mark} {s : Nat} {t : Int}
    (hmp : (E.edit (some p)).marks = (l, (s : Int), -1)) (hmq : (E.edit (some q)).marks = m)
    (hm : EndsAt m t) (hnext : E.next (some p) = some q)
    (hpq : q ≠ p) (hs : s ≤ l.1.length) (ht : t ≤ m.1.1.length) :
    joinText (E.markPartLine (some p) s (-1)).toLineList (some p) s (-1)
      = { text := l.1.take s ++ (if t = -1 then [] else m.1.1.drop t.toNat), eol := l.2.chars,
          goesOn := t = -1, deleteNext := true } := by
  obtain ⟨hshape, hothers, -, -⟩ := markPartLine_shape E p s (-1)
  have hstr : (E.edit (some p)).str = l.1 := congrArg (fun m => m.1.1) hmp
  have heol : (E.edit (some p)).endType = l.2 := congrArg (fun m => m.1.2) hmp
  have hqstr : (E.edit (some q)).str = m.1.1 := congrArg (fun m => m.1.1) hmq
  have hedit := markPartLine_edit (E := E) (p := p) (s := (s : Int))
    (by rw [Edit.length, hstr]; omega) (-1)
  have hn : (E.markPartLine (some p) (s : Int) (-1)).next (some p) = some q :=
    (hshape.next (some p)).trans hnext
  have hsel := nextEndSel_eq hn ((congrArg Edit.marks (hothers q hpq)).trans hmq) hm ht
  simp only [joinText, hn, hsel, hedit, hothers q hpq, hqstr, Edit.getEOL, heol, Edit.length,
    hstr, if_true, List.drop_length, List.append_nil, Int.toNat_natCast, ne_eq, reduceCtorEq,
    not_false_eq_true, and_self, decide_true, true_and]
  by_cases ht1 : t = -1 <;> simp [ht1]

/-- The loop stands on line `c`, which is marked from column `s` on, and the next line is marked
up to column `t`, or wholly. -/
structure Joins (E : Editor) (ps : List Ptr) (c : Nat) (p q : Ptr) (l z : DocLine) (s : Nat)
    (t : Int) : Prop where
  line : ps[c]? = some p
  next : ps[c + 1]? = some q
  ne : q ≠ p
  nodup : ps.Nodup
  notErased : p ∈ ps.eraseIdx (c + 1) ∧ q ∉ ps.eraseIdx (c + 1)
  endType : (((E.textChanged true).markPartLine (some p) s (-1)).edit (some p)).endType = l.2
  text : joinText ((E.textChanged true).markPartLine (some p) s (-1)).toLineList (some p) s (-1)
    = { text := l.1.take s ++ (if t = -1 then [] else z.1.drop t.toNat), eol := l.2.chars,
        goesOn := t = -1, deleteNext := true }
  stands : ∃ cur scr, Stands (E.textChanged true) ps cur scr c p
  turn : ∀ (fuel : Nat) (i : Int), deleteBlockLoop (fuel + 1) E ps[c]? i
    = let r := (E.textChanged true).deletePartLine (some p) s (-1) i
      deleteBlockLoop fuel r.1 r.2 (i + 1)

theorem Shows.joins (h : Shows E ps L) {c s : Nat} {t : Int} {l : DocLine} {m : Mark}
    (hm : L[c]? = some (l, (s : Int), -1)) (hz : L[c + 1]? = some m) (hend : EndsAt m t)
    (hs0 : 0 < s) (hs : s ≤ l.1.length) (ht : t ≤ m.1.1.length) :
    ∃ p q, Joins E ps c p q l m.1 s t := by
  obtain ⟨p, hp, hmp⟩ := h.line hm
  obtain ⟨q, hq, hmq⟩ := h.line hz
  obtain ⟨cur, scr, hstands⟩ := (h.textChanged true).stands hp
  have hnodup := hstands.placed.linked.nodup
  have hinj {i j : Nat} {r : Ptr} (hi : ps[i]? = some r) (hj : ps[j]? = some r) : i = j :=
    hstands.placed.linked.index_inj hi hj
  have hpq : q ≠ p := by
    rintro rfl
    have := hinj hp hq
    omega
  refine ⟨p, q, hp, hq, hpq, hnodup, ⟨?_, ?_⟩, ?_, ?_, ⟨cur, scr, hstands⟩, fun fuel i => ?_⟩
  · exact List.mem_eraseIdx_iff_getElem?.mpr ⟨c, by omega, hp⟩
  · intro hmem
    obtain ⟨n, hn, hr⟩ := List.mem_eraseIdx_iff_getElem?.mp hmem
    exact hn (hinj hr hq)
  · rw [markPartLine_edit (by
      show (s : Int) ≤ (E.edit (some p)).str.length
      rw [show (E.edit (some p)).str = l.1 from congrArg (fun m => m.1.1) hmp]
      omega)]
    exact congrArg (fun m => m.1.2) hmp
  · exact joinText_next (E := E.textChanged true) hmp hmq hend
      ((hstands.placed.next_get hp).trans hq) hpq hs ht
  · rw [hp, deleteBlockLoop_part hmp (by omega) (by omega) (by omega)]

theorem set_eq_append {α : Type} {L : List α} {c : Nat} (hc : c < L.length) (m : α) :
    L.set c m = L.take c ++ m :: L.drop (c + 1) :=
  List.set_eq_take_append_cons_drop.trans (if_pos hc)

/-- One line is replaced, and the line behind it is gone. -/
theorem set_eraseIdx_eq_append {α : Type} {L : List α} {c : Nat} (hc : c + 1 < L.length) (m : α) :
    (L.eraseIdx (c + 1)).set c m = L.take c ++ m :: L.drop (c + 2) := by
  have hlen : (L.take (c + 1)).length = c + 1 := by
    rw [List.length_take]
    omega
  rw [set_eq_append (by rw [List.length_eraseIdx_of_lt hc]; omega), List.eraseIdx_eq_take_drop_succ,
    List.take_append_of_le_length (by omega), List.take_take, Nat.min_eq_left (by omega),
    List.drop_append, hlen, List.drop_of_length_le (by omega), Nat.sub_self, List.nil_append]
  rfl

/-- One line is replaced, and the one behind it, the last one, as well. -/
theorem set_set_eq_append {α : Type} {L : List α} {c : Nat} (hc : c + 2 = L.length) (m m' : α) :
    (L.set (c + 1) m').set c m = L.take c ++ [m, m'] := by
  have h1 : (L.set (c + 1) m').drop (c + 1) = [m'] := by
    rw [set_eq_append (by omega) m', List.drop_append,
      List.drop_of_length_le (by rw [List.length_take]; omega), List.length_take,
      Nat.min_eq_left (by omega), Nat.sub_self, List.nil_append, List.drop_zero,
      List.drop_of_length_le (by omega)]
  rw [set_eq_append (by rw [List.length_set]; omega), h1, List.take_set_of_le (Nat.le_succ c)]

/-- The block goes on to the next line, which is wholly marked and not the last one. -/
theorem loop_join_on (h : Shows E ps L) {c s : Nat} {l z : DocLine}
    (hm : L[c]? = some (l, (s : Int), -1)) (hz : L[c + 1]? = some (z, 0, -1))
    (hc : c + 2 < L.length) (hs0 : 0 < s) (hs : s ≤ l.1.length) (i : Int) :
    ∃ E' ps', (∀ fuel, deleteBlockLoop (fuel + 1) E ps[c]? i
        = deleteBlockLoop fuel E' ps'[c]? (i + 1))
      ∧ Shows E' ps' (L.take c ++ (resetLine E.conf l (l.1.take s),
          ((resetLine E.conf l (l.1.take s)).1.length : Int), -1) :: L.drop (c + 2))
      ∧ Kept E E' ∧ E.toLineList.CacheFollows E'.toLineList ps ps' (c + 1) i := by
  obtain ⟨p, q, hj⟩ := h.joins hm hz (.inl rfl) hs0 hs (by omega)
  obtain ⟨cur, scr, hstands⟩ := hj.stands
  obtain ⟨hturn, hothers, hcache⟩ := deletePartLine_erased hstands hj.next
    (by rw [h.length]; exact hc) (s : Int) i
  have hmarks := hturn.marks
  have hptr := hturn.ptr
  rw [hj.text] at hmarks hptr
  rw [hj.endType] at hmarks
  obtain ⟨scr', hplaced⟩ := hturn.placed
  have hp' : (ps.eraseIdx (c + 1))[c]? = some p := by
    rw [List.getElem?_eraseIdx, if_pos (Nat.lt_succ_self c)]
    exact hj.line
  refine ⟨_, ps.eraseIdx (c + 1), fun fuel => ?_, ⟨⟨_, scr', hplaced⟩,
    hturn.kept.lockMode.trans h.lock, hturn.vBlock, ?_⟩, (Kept.textChanged E true).trans hturn.kept,
    hcache⟩
  · exact (hj.turn fuel i).trans (congrArg (fun ptr => deleteBlockLoop fuel _ ptr (i + 1)) hptr)
  · rw [map_set_marks (hj.nodup.eraseIdx _) hp' (f := fun q => (E.edit (some q)).marks)
      (fun r hr hrp => hothers r hrp fun hrq => hj.notErased.2 (hrq ▸ hr)), ← List.eraseIdx_map,
      h.marks, hmarks, ← set_eraseIdx_eq_append (by omega)]
    simp only [joinedMarks, if_true, List.append_nil, decide_true]
    rfl

/-- The block ends on the next line, whose rest is taken over. -/
theorem loop_join_end (h : Shows E ps L) {c s t : Nat} {l : DocLine} {m : Mark}
    (hm : L[c]? = some (l, (s : Int), -1)) (hz : L[c + 1]? = some m) (hend : EndsAt m (t : Int))
    (hs0 : 0 < s) (hs : s ≤ l.1.length) (ht : t ≤ m.1.1.length) (i : Int) :
    ∃ E' ps', (∀ fuel, deleteBlockLoop (fuel + 1) E ps[c]? i
        = deleteBlockLoop fuel E' ps'[c + 1]? (i + 1))
      ∧ Shows E' ps' (L.take c ++ (resetLine E.conf l (l.1.take s ++ m.1.1.drop t), -1, 0)
          :: if c + 2 < L.length then L.drop (c + 2) else [(([], m.1.2), -1, 0)])
      ∧ Kept E E'
      ∧ (if c + 2 < L.length then E.toLineList.CacheFollows E'.toLineList ps ps' (c + 1) i
          else E.toLineList.CacheKept E'.toLineList ps ps') := by
  obtain ⟨p, q, hj⟩ := h.joins hm hz hend hs0 hs (by omega)
  obtain ⟨cur, scr, hstands⟩ := hj.stands
  have htn : (t : Int) ≠ -1 := by omega
  by_cases hc : c + 2 < L.length
  · obtain ⟨hturn, hothers, hcache⟩ := deletePartLine_erased hstands hj.next
      (by rw [h.length]; exact hc) (s : Int) i
    have hmarks := hturn.marks
    have hptr := hturn.ptr
    rw [hj.text] at hmarks hptr
    rw [hj.endType] at hmarks
    obtain ⟨scr', hplaced⟩ := hturn.placed
    have hp' : (ps.eraseIdx (c + 1))[c]? = some p := by
      rw [List.getElem?_eraseIdx, if_pos (Nat.lt_succ_self c)]
      exact hj.line
    refine ⟨_, ps.eraseIdx (c + 1), fun fuel => ?_, ⟨⟨_, scr', hplaced⟩,
      hturn.kept.lockMode.trans h.lock, hturn.vBlock, ?_⟩,
      (Kept.textChanged E true).trans hturn.kept, ?_⟩
    · refine (hj.turn fuel i).trans (congrArg (fun ptr => deleteBlockLoop fuel _ ptr (i + 1)) ?_)
      simpa [JoinedText.advance, htn] using hptr
    · rw [map_set_marks (hj.nodup.eraseIdx _) hp' (f := fun q => (E.edit (some q)).marks)
        (fun r hr hrp => hothers r hrp fun hrq => hj.notErased.2 (hrq ▸ hr)), ← List.eraseIdx_map,
        h.marks, hmarks, if_pos hc, ← set_eraseIdx_eq_append (by omega)]
      simp only [joinedMarks, htn, if_false, Int.toNat_natCast, decide_false, Bool.false_eq_true]
      rfl
    · rw [if_pos hc]
      exact hcache
  · have hlast : c + 2 = ps.length := by
      have hlt := (List.getElem?_eq_some_iff.mp hj.next).1
      have := h.length
      omega
    obtain ⟨hturn, hothers, hq, hcache⟩ := deletePartLine_emptied hstands hj.next hlast (s : Int) i
    have hmarks := hturn.marks
    have hptr := hturn.ptr
    rw [hj.text] at hmarks hptr
    rw [hj.endType] at hmarks
    obtain ⟨scr', hplaced⟩ := hturn.placed
    refine ⟨_, ps, fun fuel => ?_, ⟨⟨_, scr', hplaced⟩,
      hturn.kept.lockMode.trans h.lock, hturn.vBlock, ?_⟩,
      (Kept.textChanged E true).trans hturn.kept, ?_⟩
    · refine (hj.turn fuel i).trans (congrArg (fun ptr => deleteBlockLoop fuel _ ptr (i + 1)) ?_)
      simpa [JoinedText.advance, htn] using hptr
    · have hempty : ps.map (fun r => if r = q then (([], m.1.2), -1, 0) else (E.edit (some r)).marks)
          = L.set (c + 1) (([], m.1.2), -1, 0) := by
        rw [map_set_marks hj.nodup hj.next (f := fun q => (E.edit (some q)).marks)
          (fun r _ hr => if_neg hr), h.marks, if_pos rfl]
      have hqmark : (E.edit (some q)).endType = m.1.2 := by
        obtain ⟨q', hq', hmq⟩ := h.line hz
        obtain rfl : q = q' := Option.some.inj (hj.next.symm.trans hq')
        exact congrArg (fun m => m.1.2) hmq
      rw [map_set_marks hj.nodup hj.line
        (f := fun r => if r = q then (([], m.1.2), -1, 0) else (E.edit (some r)).marks)
        (fun r _ hrp => ?_), hempty, hmarks, if_neg hc,
        ← set_set_eq_append (hlast.trans h.length)]
      · simp only [joinedMarks, htn, if_false, Int.toNat_natCast, decide_false,
          Bool.false_eq_true]
        rfl
      · by_cases hrq : r = q
        · subst hrq
          rw [if_pos rfl, hq, Edit.marks_setString_nil, ← hqmark]
          rfl
        · rw [if_neg hrq]
          exact hothers r hrp hrq
    · rw [if_neg hc]
      exact hcache

/-! ## The cached line -/

/-- When the cached line has number `j`, it is kept in step while `d` lines are taken out one
after the other at place `c`, under the numbers from `i` on. -/
def WholesSafe (d c : Nat) (i : Int) (j : Nat) : Prop :=
  d = 0 ∨ j < c ∨ (j = c ∧ i = c) ∨ (c < j ∧ i + 2 * ((d : Int) - 1) < j)

theorem WholesSafe.suits {d c j : Nat} {i : Int} (h : WholesSafe (d + 1) c i j) (hi : (c : Int) ≤ i) :
    LineList.SuitsCache c i j := by
  rw [WholesSafe] at h
  rw [LineList.SuitsCache]
  omega

theorem WholesSafe.next {d c j j' : Nat} {i : Int} (h : WholesSafe (d + 1) c i j)
    (hi : (c : Int) ≤ i) (hj : (j' : Int) = if i ≤ j then (j : Int) - 1 else j) :
    WholesSafe d c (i + 1) j' := by
  rw [WholesSafe] at h ⊢
  split at hj <;> omega

/-- The same for `r` lines that are taken out behind line `c`. `joined` says that line `c` stays
to the end; otherwise it goes like the others, once it has run empty. -/
def JoinsSafe (r c : Nat) (i : Int) (joined : Prop) (j : Nat) : Prop :=
  r = 0 ∨ j < c ∨ (j = c ∧ (i = c ∨ joined)) ∨ (c + 1 < j ∧ i + 2 * ((r : Int) - 1) < j)
    ∨ (joined ∧ ((i = c ∧ j = c + 2) ∨ (i = c + 1 ∧ j = c + 1)))

theorem JoinsSafe.suits {r c j : Nat} {i : Int} {joined : Prop}
    (h : JoinsSafe (r + 1) c i joined j) (hi : (c : Int) ≤ i) :
    LineList.SuitsCache (c + 1) i j := by
  rw [JoinsSafe] at h
  rw [LineList.SuitsCache]
  omega

theorem JoinsSafe.next {r c j j' : Nat} {i : Int} {joined : Prop}
    (h : JoinsSafe (r + 1) c i joined j) (hi : (c : Int) ≤ i)
    (hj : (j' : Int) = if i ≤ j then (j : Int) - 1 else j) : JoinsSafe r c (i + 1) joined j' := by
  rw [JoinsSafe] at h ⊢
  by_cases hjoined : joined
  · simp only [hjoined, or_true, true_and, and_true] at h ⊢
    split at hj <;> omega
  · simp only [hjoined, or_false, false_and] at h ⊢
    split at hj <;> omega

theorem JoinsSafe.wholes {d c j j' : Nat} {i : Int} (h : JoinsSafe (d + 1) c i False j)
    (hi : (c : Int) ≤ i) (hj : (j' : Int) = if i ≤ j then (j : Int) - 1 else j) :
    WholesSafe d c (i + 1) j' := by
  rw [JoinsSafe] at h
  rw [WholesSafe]
  simp only [or_false, false_and] at h
  split at hj <;> omega

/-! ## The whole loop -/

/-- Wholly marked lines, none of them the last one, go one after the other. -/
theorem loop_wholes : ∀ (d : Nat) {E : Editor} {ps : List Ptr} {L : List Mark} {c : Nat}
    (_ : Shows E ps L) (_ : ∀ k, k < d → ∃ l, L[c + k]? = some (l, 0, -1))
    (_ : c + d < L.length) (i : Int),
    ∃ E' ps', (∀ fuel, deleteBlockLoop (fuel + d) E ps[c]? i
        = deleteBlockLoop fuel E' ps'[c]? (i + d))
      ∧ Shows E' ps' (L.take c ++ L.drop (c + d)) ∧ Kept E E'
      ∧ ((c : Int) ≤ i → ∀ safe, E.Cached ps safe → (∀ j, safe j → WholesSafe d c i j) →
          E'.CacheOk ps')
  | 0, E, ps, L, c, h, _, _, i =>
    ⟨E, ps, fun fuel => by simp, by rw [Nat.add_zero, List.take_append_drop]; exact h,
      Kept.refl E, fun _ _ hc _ => hc.ok⟩
  | d + 1, E, ps, L, c, h, hwhole, hlen, i => by
    obtain ⟨l, hl⟩ := hwhole 0 (Nat.succ_pos d)
    rw [Nat.add_zero] at hl
    obtain ⟨E1, ps1, hturn, h1, hkept1, hcache1⟩ := loop_whole h hl (by omega) i
    have hlen1 : (L.eraseIdx c).length = L.length - 1 := List.length_eraseIdx_of_lt (by omega)
    obtain ⟨E2, ps2, hrun, h2, hkept2, hcache2⟩ := loop_wholes d h1 (c := c)
      (fun k hk => by
        obtain ⟨l', hl'⟩ := hwhole (k + 1) (by omega)
        refine ⟨l', ?_⟩
        rw [List.getElem?_eraseIdx, if_neg (by omega)]
        exact hl')
      (by omega) (i + 1)
    refine ⟨E2, ps2, fun fuel => ?_, ?_, hkept1.trans hkept2, fun hi safe hc hsafe => ?_⟩
    · rw [← Nat.add_assoc, hturn, hrun]
      congr 1
      omega
    · have heq : (L.eraseIdx c).take c ++ (L.eraseIdx c).drop (c + d)
          = L.take c ++ L.drop (c + (d + 1)) := by
        rw [List.eraseIdx_eq_take_drop_succ, List.take_append_of_le_length (by rw [List.length_take]; omega),
          List.take_take, Nat.min_self, List.drop_append, List.length_take,
          List.drop_of_length_le (by rw [List.length_take]; omega), List.nil_append, List.drop_drop]
        congr 2
        omega
      rw [← heq]
      exact h2
    · refine hcache2 (by omega) _ (hcache1 safe hc fun j hj => (hsafe j hj).suits hi) ?_
      rintro j' ⟨j, hj, hj'⟩
      exact (hsafe j hj).next hi hj'

/-- The block ends on line `c`, and the line behind it is not marked. -/
theorem loop_last (h : Shows E ps L) {c s t : Nat} {l : DocLine}
    (hm : L[c]? = some (l, (s : Int), (t : Int))) (hs : s ≤ l.1.length) (ht : t ≤ l.1.length)
    (hstop : ∀ m, L[c + 1]? = some m → m.2.1 = -1) (i : Int) :
    ∃ E', (∀ fuel, deleteBlockLoop (fuel + 2) E ps[c]? i = E')
      ∧ Shows E' ps (L.take c
          ++ (resetLine E.conf l (l.1.take s ++ l.1.drop t), -1, 0) :: L.drop (c + 1))
      ∧ E.toLineList.CacheKept E'.toLineList ps ps := by
  have hc := (List.getElem?_eq_some_iff.mp hm).1
  obtain ⟨E1, hturn, h1, -, hcache1⟩ := loop_part h hm hs ht i
  obtain ⟨E2, hend, h2, hcache2⟩ := loop_stop h1 (c := c + 1)
    (fun m hm' => hstop m (by rwa [List.getElem?_set_ne (by omega)] at hm')) (i + 1)
  refine ⟨E2, fun fuel => (hturn (fuel + 1)).trans (hend fuel), ?_, hcache1.trans hcache2⟩
  rw [← set_eq_append hc]
  exact h2

/-- What is left of the last line of a block that is reached by itself, when the block ends in
column `t`: an unmarked line is not touched. -/
def lastLine (conf : EditConf) (m : Mark) (t : Nat) : DocLine :=
  if m.2.1 = -1 then m.1 else resetLine conf m.1 (m.1.1.drop t)

/-- The loop arrives on the last line of the block. -/
theorem loop_end (h : Shows E ps L) {c t : Nat} {m : Mark} (hm : L[c]? = some m)
    (hend : EndsAt m (t : Int)) (ht : t ≤ m.1.1.length)
    (hstop : ∀ m, L[c + 1]? = some m → m.2.1 = -1) (i : Int) :
    ∃ E' m', (∀ fuel, deleteBlockLoop (fuel + 2) E ps[c]? i = E')
      ∧ Shows E' ps (L.take c ++ m' :: L.drop (c + 1)) ∧ m'.1 = lastLine E.conf m t
      ∧ E.toLineList.CacheKept E'.toLineList ps ps := by
  obtain ⟨l, s', t'⟩ := m
  rcases hend with hend | ⟨hend, -⟩
  · obtain ⟨rfl, rfl⟩ := Prod.mk.inj hend
    obtain ⟨E1, hrun, h1, hcache⟩ := loop_last h (s := 0) hm (Nat.zero_le _) ht hstop i
    exact ⟨E1, _, hrun, h1, (if_neg (by simp)).symm, hcache⟩
  · obtain ⟨E1, hrun, h1, hcache⟩ := loop_stop h (c := c) (fun m' hm' => by
      obtain rfl := Option.some.inj (hm.symm.trans hm')
      exact hend) i
    obtain ⟨hc, hget⟩ := List.getElem?_eq_some_iff.mp hm
    refine ⟨E1, (l, s', t'), fun fuel => hrun (fuel + 1), ?_, (if_pos hend).symm, hcache⟩
    rw [← hget, ← List.drop_eq_getElem_cons hc, List.take_append_drop]
    exact h1

/-- What becomes of line `l`, marked from column `s` on, when `d` wholly marked lines follow and
the block ends in column `t` of the line of `z`. -/
def joinsTo (conf : EditConf) (z : Mark) (t : Nat) : Nat → DocLine → Nat → DocLine
  | 0, l, s => resetLine conf l (l.1.take s ++ z.1.1.drop t)
  | d + 1, l, s =>
      let l' := resetLine conf l (l.1.take s)
      if l'.1 = [] then lastLine conf z t else joinsTo conf z t d l' l'.1.length

/-- Does the line run empty before the last join? What is left of its text may be taken for line
end. -/
def runsEmpty (conf : EditConf) : Nat → DocLine → Nat → Bool
  | 0, _, _ => false
  | d + 1, l, s =>
      let l' := resetLine conf l (l.1.take s)
      l'.1 = [] || runsEmpty conf d l' l'.1.length

/-- The lines behind a joined line: those behind the block, or the last line, which cannot be
removed. -/
def JoinRest (conf : EditConf) (L : List Mark) (n : Nat) (z : Mark) (t : Nat) (l' : DocLine)
    (rest : List Mark) : Prop :=
  (n < L.length → rest = L.drop n)
  ∧ (n = L.length → rest = [(([], z.1.2), -1, 0)] ∨ (rest = [] ∧ l' = lastLine conf z t))

/-- How many lines are taken out: the last line of the file is only emptied when it is joined. -/
def joinRemovals (d : Nat) (last empty : Bool) : Nat := if last ∧ !empty then d else d + 1

theorem getElem?_append_cons_drop {α : Type} {L : List α} {c n : Nat} (hc : c < L.length) (m : α)
    (k : Nat) : (L.take c ++ m :: L.drop n)[c + 1 + k]? = L[n + k]? := by
  rw [List.getElem?_append_right (by rw [List.length_take]; omega), List.length_take,
    Nat.min_eq_left (by omega), show c + 1 + k - c = k + 1 by omega, List.getElem?_cons_succ,
    List.getElem?_drop]

theorem getElem?_append_cons_self {α : Type} {L : List α} {c : Nat} (hc : c < L.length) (m : α)
    (rest : List α) : (L.take c ++ m :: rest)[c]? = some m := by
  rw [List.getElem?_append_right (by rw [List.length_take]; omega), List.length_take,
    Nat.min_eq_left (by omega), Nat.sub_self, List.getElem?_cons_zero]

theorem drop_append_cons_drop {α : Type} {L : List α} {c n : Nat} (hc : c < L.length) (m : α)
    (k : Nat) : (L.take c ++ m :: L.drop n).drop (c + 1 + k) = L.drop (n + k) := by
  rw [List.drop_append, List.drop_of_length_le (by rw [List.length_take]; omega), List.length_take,
    Nat.min_eq_left (by omega), show c + 1 + k - c = k + 1 by omega, List.nil_append,
    List.drop_succ_cons, List.drop_drop]

theorem take_append_cons {α : Type} {L : List α} {c : Nat} (hc : c < L.length) (rest : List α) :
    (L.take c ++ rest).take c = L.take c := by
  rw [List.take_append_of_le_length (by rw [List.length_take]; omega), List.take_take,
    Nat.min_self]

/-- **The loop on a block that begins inside a line and ends in another one.** -/
theorem loop_joins : ∀ (d : Nat) {E : Editor} {ps : List Ptr} {L : List Mark} {c s t : Nat}
    {l : DocLine} {z : Mark} (_ : Shows E ps L) (_ : L[c]? = some (l, (s : Int), -1))
    (_ : 0 < s) (_ : s ≤ l.1.length)
    (_ : ∀ k, k < d → ∃ x, L[c + 1 + k]? = some (x, 0, -1))
    (_ : L[c + 1 + d]? = some z) (_ : EndsAt z (t : Int)) (_ : t ≤ z.1.1.length)
    (_ : ∀ m, L[c + 2 + d]? = some m → m.2.1 = -1) (i : Int),
    ∃ E' ps' m rest, (∀ fuel, deleteBlockLoop (fuel + (d + 3)) E ps[c]? i = E')
      ∧ Shows E' ps' (L.take c ++ m :: rest) ∧ m.1 = joinsTo E.conf z t d l s
      ∧ JoinRest E.conf L (c + 2 + d) z t (joinsTo E.conf z t d l s) rest
      ∧ ((c : Int) ≤ i → ∀ safe, E.Cached ps safe →
          (∀ j, safe j → JoinsSafe
            (joinRemovals d (c + 2 + d = L.length) (runsEmpty E.conf d l s)) c i
            (runsEmpty E.conf d l s = false) j) → E'.CacheOk ps')
  | 0, E, ps, L, c, s, t, l, z, h, hm, hs0, hs, _, hz, hend, ht, hstop, i => by
    obtain ⟨E1, ps1, hturn, h1, -, hcache1⟩ := loop_join_end h hm hz hend hs0 hs ht i
    have hlt := (List.getElem?_eq_some_iff.mp hz).1
    obtain ⟨E2, hend, h2, hcache2⟩ := loop_stop h1 (c := c + 1) (fun m hm' => by
      split at hm'
      · rw [← Nat.add_zero (c + 1), getElem?_append_cons_drop (by omega)] at hm'
        exact hstop m hm'
      · rw [List.getElem?_append_right (by rw [List.length_take]; omega), List.length_take,
          Nat.min_eq_left (by omega), show c + 1 - c = 1 by omega] at hm'
        simp only [List.getElem?_cons_succ, List.getElem?_cons_zero, Option.some.injEq] at hm'
        rw [← hm']) (i + 1)
    refine ⟨E2, ps1, _, _, fun fuel => (hturn (fuel + 2)).trans (hend (fuel + 1)), h2, rfl,
      ⟨fun hlt' => if_pos hlt', fun heq => .inl (if_neg (by omega))⟩, fun hi safe hc hsafe => ?_⟩
    by_cases hlast : c + 2 < L.length
    · rw [if_pos hlast] at hcache1
      have hr : joinRemovals 0 (c + 2 + 0 = L.length) (runsEmpty E.conf 0 l s) = 0 + 1 := by
        simp [joinRemovals, show ¬ c + 2 = L.length by omega]
      rw [hr] at hsafe
      exact (hcache2 _ (hcache1 safe hc fun j hj => (hsafe j hj).suits hi)).ok
    · rw [if_neg hlast] at hcache1
      exact (hcache2 _ (hcache1 safe hc)).ok
  | d + 1, E, ps, L, c, s, t, l, z, h, hm, hs0, hs, hwhole, hz, hend, ht, hstop, i => by
    obtain ⟨x, hx⟩ := hwhole 0 (Nat.succ_pos d)
    have hlt := (List.getElem?_eq_some_iff.mp hz).1
    obtain ⟨E1, ps1, hturn, h1, hkept1, hcache1⟩ := loop_join_on h hm hx (by omega) hs0 hs i
    rw [joinsTo, runsEmpty, ← hkept1.conf]
    rw [← hkept1.conf] at h1
    generalize hl1 : resetLine E1.conf l (l.1.take s) = l1 at h1 ⊢
    -- the list without line `c + 1`
    have hself := getElem?_append_cons_self (L := L) (c := c) (by omega)
      ((l1, (l1.1.length : Int), -1) : Mark) (L.drop (c + 2))
    have hbehind := fun k => getElem?_append_cons_drop (L := L) (c := c) (n := c + 2) (by omega)
      ((l1, (l1.1.length : Int), -1) : Mark) k
    have hdrop := fun k => drop_append_cons_drop (L := L) (c := c) (n := c + 2) (by omega)
      ((l1, (l1.1.length : Int), -1) : Mark) k
    have htake := take_append_cons (L := L) (c := c) (by omega)
      (((l1, (l1.1.length : Int), -1) : Mark) :: L.drop (c + 2))
    have hlen : (L.take c ++ ((l1, (l1.1.length : Int), -1) : Mark) :: L.drop (c + 2)).length
        = L.length - 1 := by
      rw [List.length_append, List.length_take, List.length_cons, List.length_drop]
      omega
    generalize L.take c ++ ((l1, (l1.1.length : Int), -1) : Mark) :: L.drop (c + 2) = L1
      at h1 hself hbehind hdrop htake hlen
    by_cases hnil : l1.1 = []
    · -- the line has been eaten up: it goes like the others, and the rest of `z` stays
      rw [hnil] at hself
      obtain ⟨E2, ps2, hrun, h2, hkept2, hcache2⟩ := loop_wholes (d + 1) h1 (c := c)
        (fun k hk => by
          cases k with
          | zero => exact ⟨l1, hself⟩
          | succ k =>
            obtain ⟨x', hx'⟩ := hwhole (k + 1) (by omega)
            refine ⟨x', ?_⟩
            rw [show c + (k + 1) = c + 1 + k by omega, hbehind,
              show c + 2 + k = c + 1 + (k + 1) by omega]
            exact hx') (by omega) (i + 1)
      have hL2 : L1.take c ++ L1.drop (c + (d + 1)) = L.take c ++ L.drop (c + 2 + d) := by
        rw [htake, show c + (d + 1) = c + 1 + d by omega, hdrop]
      rw [hL2] at h2
      have hz2 : (L.take c ++ L.drop (c + 2 + d))[c]? = some z := by
        rw [List.getElem?_append_right (by rw [List.length_take]; omega), List.length_take,
          Nat.min_eq_left (by omega), Nat.sub_self, List.getElem?_drop, Nat.add_zero,
          show c + 2 + d = c + 1 + (d + 1) by omega]
        exact hz
      have hdrop2 : (L.take c ++ L.drop (c + 2 + d)).drop (c + 1) = L.drop (c + 2 + (d + 1)) := by
        rw [List.drop_append, List.drop_of_length_le (by rw [List.length_take]; omega),
          List.length_take, Nat.min_eq_left (by omega), List.nil_append, List.drop_drop]
        congr 1
        omega
      obtain ⟨E3, m', hstay, h3, hm', hcache3⟩ := loop_end h2 hz2 hend ht (fun m hm' => by
        refine hstop m ?_
        rw [← hm', ← Nat.add_zero (c + 2 + (d + 1)), ← List.getElem?_drop, ← hdrop2,
          List.getElem?_drop, Nat.add_zero]) (i + 1 + (d + 1 : Nat))
      rw [hdrop2, take_append_cons (by omega)] at h3
      rw [hkept2.conf] at hm'
      simp only [hnil, if_true, decide_true, Bool.true_or]
      refine ⟨E3, ps2, m', _, fun fuel => ?_, h3, hm',
        ⟨fun _ => rfl, fun heq => .inr ⟨List.drop_of_length_le (by omega), rfl⟩⟩,
        fun hi safe hc hsafe => ?_⟩
      · rw [show fuel + (d + 1 + 3) = (fuel + 2 + (d + 1)) + 1 by omega, hturn, hrun, hstay]
      · have hr : joinRemovals (d + 1) (c + 2 + (d + 1) = L.length) true = d + 1 + 1 := by
          simp [joinRemovals]
        rw [hr] at hsafe
        simp only [Bool.true_eq_false] at hsafe
        refine (hcache3 _ (hcache2 (by omega) _
          (hcache1 safe hc fun j hj => (hsafe j hj).suits hi) ?_)).ok
        rintro j' ⟨j, hj, hj'⟩
        exact (hsafe j hj).wholes hi hj'
    · have hpos : 0 < l1.1.length := List.length_pos_iff.mpr hnil
      obtain ⟨E2, ps2, m', rest, hrun, h2, hm', hrest, hcache2⟩ := loop_joins d h1 hself hpos
        (Nat.le_refl _)
        (fun k hk => by
          obtain ⟨x', hx'⟩ := hwhole (k + 1) (by omega)
          refine ⟨x', ?_⟩
          rw [hbehind, show c + 2 + k = c + 1 + (k + 1) by omega]
          exact hx')
        (by rw [hbehind, show c + 2 + d = c + 1 + (d + 1) by omega]; exact hz) hend ht
        (fun m hm' => by
          refine hstop m ?_
          rw [← hm', show c + 2 + d = c + 1 + (d + 1) by omega, hbehind]) (i + 1)
      rw [htake] at h2
      simp only [hnil, if_false, decide_false, Bool.false_or]
      refine ⟨E2, ps2, m', rest, fun fuel => ?_, h2, hm', ⟨fun hlt' => ?_, fun heq => hrest.2 (by omega)⟩,
        fun hi safe hc hsafe => ?_⟩
      · rw [show fuel + (d + 1 + 3) = (fuel + (d + 3)) + 1 by omega, hturn, hrun]
      · rw [hrest.1 (by omega), show c + 2 + d = c + 1 + (d + 1) by omega, hdrop]
      · have hlast : decide (c + 2 + (d + 1) = L.length) = decide (c + 2 + d = L1.length) := by
          congr 1
          simp only [eq_iff_iff]
          omega
        have hr : ∀ empty, joinRemovals (d + 1) (c + 2 + d = L1.length) empty
            = joinRemovals d (c + 2 + d = L1.length) empty + 1 := by
          intro empty
          rw [joinRemovals, joinRemovals]
          split <;> rfl
        rw [hlast, hr] at hsafe
        refine hcache2 (by omega) _ (hcache1 safe hc fun j hj => (hsafe j hj).suits hi) ?_
        rintro j' ⟨j, hj, hj'⟩
        exact (hsafe j hj).next hi hj'

end Editor

end Far2l
