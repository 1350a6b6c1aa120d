/-
Far2l.Editor.TabTheorems — the selection of a line when tabs become spaces:
`ExpandTabs` and `InsertTab` of `far/src/edit.cpp`.

Both move the end of the selection with the text behind it. The beginning is moved
by one correction that belongs to the other function: `ExpandTabs` moves it behind
the tabs that it stands in front of, and `InsertTab` by one character too few.
-/
import Far2l.Editor.EditTheorems

namespace Far2l

namespace Edit

variable (conf : EditConf)

/-! ## What the operations are for -/

/-- What a character becomes at a column. -/
def tabImage (col : Nat) (c : WChar) : WStr :=
  if c = TAB then List.replicate (conf.tabSize - col % conf.tabSize) SPACE else [c]

/-- A text with its tabs expanded, from a column on. -/
def expansion (col : Nat) : WStr → WStr
  | [] => []
  | c :: rest => tabImage conf col c ++ expansion (col + (tabImage conf col c).length) rest

/-- The text between two positions. -/
def between (s : WStr) (a b : Nat) : WStr := (s.take b).drop a

/-- The selected text. -/
def selected (e : Edit) : WStr := between e.str e.selStart.toNat e.selEnd.toNat

/-- What the text between two positions becomes in the expanded line. -/
def imageOf (s : WStr) (a b : Nat) : WStr :=
  expansion conf (expansion conf 0 (s.take a)).length (between s a b)

theorem expansion_append (col : Nat) (a b : WStr) :
    expansion conf col (a ++ b) = expansion conf col a ++ expansion conf (col + (expansion conf col a).length) b := by
  induction a generalizing col with
  | nil => rfl
  | cons c a ih =>
    rw [List.cons_append, expansion, ih, expansion, List.append_assoc, List.length_append, Nat.add_assoc]

theorem expandedText_expansion : ∀ (s pre : WStr), expandedText conf pre s = pre ++ expansion conf pre.length s
  | [], pre => (List.append_nil pre).symm
  | c :: rest, pre => by
    rw [expandedText, expansion, tabImage]
    split
    · rw [expandedText_expansion rest, List.length_append, List.append_assoc]
    · rw [expandedText_expansion rest, List.length_append, List.append_assoc]

/-- What the whole line becomes. -/
theorem str_expandTabs (e : Edit) : (e.expandTabs conf).str = expansion conf 0 e.str := by
  have h := congrArg Prod.fst (content_expandTabs conf e)
  rw [expandedText_expansion] at h
  exact h

theorem between_nil (s : WStr) {i j : Nat} (h : j ≤ i) : between s i j = [] :=
  List.drop_of_length_le (Nat.le_trans (List.length_take_le j s) h)

/-- The text up to a position, cut at an earlier one. -/
theorem take_between (s : WStr) {a b : Nat} (h : a ≤ b) : s.take b = s.take a ++ between s a b := by
  have hfront : (s.take b).take a = s.take a := by rw [List.take_take, Nat.min_eq_left h]
  rw [between, ← hfront, List.take_append_drop]

/-- The image of a part is cut out of the expanded line. -/
theorem imageOf_eq {s : WStr} {a b : Nat} (h : a ≤ b) :
    imageOf conf s a b =
      between (expansion conf 0 s) (expansion conf 0 (s.take a)).length (expansion conf 0 (s.take b)).length := by
  have hwhole : expansion conf 0 s =
      expansion conf 0 (s.take b) ++ expansion conf (0 + (expansion conf 0 (s.take b)).length) (s.drop b) := by
    rw [← expansion_append, List.take_append_drop]
  have hpart : expansion conf 0 (s.take b) = expansion conf 0 (s.take a) ++ imageOf conf s a b := by
    rw [imageOf, ← Nat.zero_add (expansion conf 0 (s.take a)).length, ← expansion_append, ← take_between s h]
  rw [between, hwhole, List.take_left', hpart, List.drop_left']
  · rfl
  · rfl

/-! ## Where the selection goes in `ExpandTabs` -/

theorem tabImage_pos (htab : 0 < conf.tabSize) (col : Nat) (c : WChar) : 0 < (tabImage conf col c).length := by
  rw [tabImage]
  split
  · have := Nat.mod_lt col htab
    rw [List.length_replicate]
    omega
  · exact Nat.one_pos

/-- One turn of the loop puts the image of a character behind the text in front. -/
theorem expandTabsLoop_cons (e : Edit) (pre : WStr) (c : WChar) (rest : WStr) :
    ∃ e' : Edit, expandTabsLoop conf e pre (c :: rest) = expandTabsLoop conf e' (pre ++ tabImage conf pre.length c) rest ∧
      (e'.selStart = if c = TAB ∧ e.selStart ≠ -1 ∧ (pre.length : Int) ≤ e.selStart then
        e.selStart + (tabImage conf pre.length c).length - (if (pre.length : Int) = e.selStart then 0 else 1)
        else e.selStart) ∧
      (e'.selEnd = if c = TAB ∧ e.selStart ≠ -1 ∧ e.selEnd ≠ -1 ∧ (pre.length : Int) < e.selEnd then
        e.selEnd + (tabImage conf pre.length c).length - 1 else e.selEnd) := by
  by_cases hc : c = TAB
  · refine ⟨_, by rw [expandTabsLoop, if_pos hc, tabImage, if_pos hc], ?_, ?_⟩
    · simp [hc, tabImage]
    · simp [hc, tabImage]
  · refine ⟨e, by rw [expandTabsLoop, if_neg hc, tabImage, if_neg hc], ?_, ?_⟩
    · rw [if_neg fun h => hc h.1]
    · rw [if_neg fun h => hc h.1]

/-- The selection stays where it is once the loop is behind it. -/
theorem expandTabsLoop_behind : ∀ (rest pre : WStr) (e : Edit),
    (e.selStart < pre.length → (expandTabsLoop conf e pre rest).selStart = e.selStart) ∧
      (e.selEnd ≤ pre.length → (expandTabsLoop conf e pre rest).selEnd = e.selEnd)
  | [], _, _ => ⟨fun _ => rfl, fun _ => rfl⟩
  | c :: rest, pre, e => by
    obtain ⟨e', hloop, hstart, hend⟩ := expandTabsLoop_cons conf e pre c rest
    obtain ⟨ihstart, ihend⟩ := expandTabsLoop_behind rest (pre ++ tabImage conf pre.length c) e'
    rw [List.length_append] at ihstart ihend
    rw [hloop]
    constructor
    · intro h
      rw [if_neg (by omega)] at hstart
      rw [← hstart]
      exact ihstart (by omega)
    · intro h
      rw [if_neg (by omega)] at hend
      rw [← hend]
      exact ihend (by omega)

/-- The end of the selection moves with the text behind it. -/
theorem selEnd_expandTabsLoop (htab : 0 < conf.tabSize) : ∀ (rest pre : WStr) (e : Edit) (j : Nat),
    0 ≤ e.selStart → e.selEnd = pre.length + j → j ≤ rest.length →
      (expandTabsLoop conf e pre rest).selEnd = pre.length + (expansion conf pre.length (rest.take j)).length
  | rest, pre, e, 0, _, hj, _ => by
    rw [(expandTabsLoop_behind conf rest pre e).2 (by omega), hj]
    rfl
  | [], _, _, j + 1, _, _, hlen => absurd hlen (Nat.not_succ_le_zero j)
  | c :: rest, pre, e, j + 1, hs, hj, hlen => by
    obtain ⟨e', hloop, hstart, hend⟩ := expandTabsLoop_cons conf e pre c rest
    have hpos := tabImage_pos conf htab pre.length c
    have hs' : 0 ≤ e'.selStart := by
      rw [hstart]
      split
      · split
        · omega
        · omega
      · exact hs
    have hj' : e'.selEnd = (pre ++ tabImage conf pre.length c).length + j := by
      rw [hend, List.length_append]
      split
      · omega
      · next h =>
        have hc : c ≠ TAB := fun hc => h ⟨hc, by omega, by omega, by omega⟩
        rw [tabImage, if_neg hc, List.length_singleton]
        omega
    rw [hloop, selEnd_expandTabsLoop htab rest _ e' j hs' hj' (Nat.le_of_succ_le_succ hlen), List.take_succ_cons,
      expansion, List.length_append, List.length_append]
    omega

/-- The number of tabs at a position. -/
def tabsAt (s : WStr) (i : Nat) : Nat := ((s.drop i).takeWhile (· = TAB)).length

theorem tabsAt_succ (c : WChar) (s : WStr) (i : Nat) : tabsAt (c :: s) (i + 1) = tabsAt s i := rfl

theorem tabsAt_tab (s : WStr) : tabsAt (TAB :: s) 0 = tabsAt s 0 + 1 := rfl

theorem tabsAt_zero {c : WChar} (h : c ≠ TAB) (s : WStr) : tabsAt (c :: s) 0 = 0 := by
  rw [tabsAt, List.drop_zero, List.takeWhile_cons_of_neg (by rwa [decide_eq_true_iff])]
  rfl

/-- The beginning of the selection goes behind the tabs that it stands in front of. -/
theorem selStart_expandTabsLoop (htab : 0 < conf.tabSize) : ∀ (rest pre : WStr) (e : Edit) (i : Nat),
    e.selStart = pre.length + i → i ≤ rest.length →
      (expandTabsLoop conf e pre rest).selStart =
        pre.length + (expansion conf pre.length (rest.take (i + tabsAt rest i))).length
  | [], pre, e, i, hi, hlen => by
    obtain rfl : i = 0 := Nat.le_zero.mp hlen
    exact hi
  | c :: rest, pre, e, 0, hi, _ => by
    obtain ⟨e', hloop, hstart, -⟩ := expandTabsLoop_cons conf e pre c rest
    rw [hloop]
    by_cases hc : c = TAB
    · have hi' : e'.selStart = (pre ++ tabImage conf pre.length c).length + (0 : Nat) := by
        rw [hstart, if_pos ⟨hc, by omega, by omega⟩, if_pos (by omega), List.length_append]
        omega
      rw [selStart_expandTabsLoop htab rest _ e' 0 hi' (Nat.zero_le _), hc, tabsAt_tab, Nat.zero_add, Nat.zero_add,
        List.take_succ_cons, expansion, List.length_append, List.length_append]
      omega
    · have hi' : e'.selStart = pre.length := by
        rw [hstart, if_neg fun h => hc h.1, hi]
        exact Int.add_zero _
      rw [(expandTabsLoop_behind conf rest _ e').1, hi', tabsAt_zero hc]
      · rfl
      · have := tabImage_pos conf htab pre.length c
        rw [hi', List.length_append]
        omega
  | c :: rest, pre, e, i + 1, hi, hlen => by
    obtain ⟨e', hloop, hstart, -⟩ := expandTabsLoop_cons conf e pre c rest
    have hi' : e'.selStart = (pre ++ tabImage conf pre.length c).length + i := by
      rw [hstart, List.length_append]
      split
      · rw [if_neg (by omega)]
        omega
      · next h =>
        have hc : c ≠ TAB := fun hc => h ⟨hc, by omega, by omega⟩
        rw [tabImage, if_neg hc, List.length_singleton]
        omega
    rw [hloop, selStart_expandTabsLoop htab rest _ e' i hi' (Nat.le_of_succ_le_succ hlen), tabsAt_succ,
      Nat.add_right_comm i 1, List.take_succ_cons, expansion, List.length_append, List.length_append]
    omega

/-! ## What is selected afterwards -/

/-- A selection of `n` characters at most, from a position on. -/
theorem length_between (s : WStr) {a b : Nat} (h : b ≤ s.length) : (between s a b).length = b - a := by
  rw [between, List.length_drop, List.length_take, Nat.min_eq_left h]

/-- Two parts with the same end are the same when they begin together or are both empty. -/
theorem between_eq_iff (s : WStr) {a a' b : Nat} (h : b ≤ s.length) :
    between s a b = between s a' b ↔ a = a' ∨ (b ≤ a ∧ b ≤ a') := by
  constructor
  · intro heq
    have hlen := congrArg List.length heq
    rw [length_between s h, length_between s h] at hlen
    omega
  · rintro (rfl | ⟨ha, ha'⟩)
    · rfl
    · rw [between_nil s ha, between_nil s ha']

/-- The expansion of more text is longer. -/
theorem expansion_lt (htab : 0 < conf.tabSize) {s : WStr} {a b : Nat} (hab : a < b) (hb : b ≤ s.length) :
    (expansion conf 0 (s.take a)).length < (expansion conf 0 (s.take b)).length := by
  have hne : 0 < (between s a b).length := by
    rw [length_between s hb]
    omega
  obtain ⟨c, rest, hcons⟩ := List.exists_cons_of_length_pos hne
  have hpos := tabImage_pos conf htab (0 + (expansion conf 0 (s.take a)).length) c
  rw [take_between s (Nat.le_of_lt hab), expansion_append, hcons, expansion, List.length_append, List.length_append]
  omega

theorem tabsAt_le {s : WStr} {i : Nat} (h : i ≤ s.length) : i + tabsAt s i ≤ s.length := by
  have hle : tabsAt s i ≤ (s.drop i).length := (List.takeWhile_prefix _).length_le
  rw [List.length_drop] at hle
  omega

theorem tabsAt_eq_zero {s : WStr} {i : Nat} : tabsAt s i = 0 ↔ s[i]? ≠ some TAB := by
  rw [← List.head?_drop, tabsAt]
  cases s.drop i with
  | nil => exact iff_of_true rfl (fun h => absurd h (Option.some_ne_none _).symm)
  | cons c rest =>
    by_cases hc : c = TAB
    · rw [List.takeWhile_cons_of_pos (by rwa [decide_eq_true_iff])]
      exact iff_of_false (Nat.succ_ne_zero _) (fun h => h (congrArg some hc))
    · rw [List.takeWhile_cons_of_neg (by rwa [decide_eq_true_iff])]
      exact iff_of_true rfl (fun h => hc (Option.some.inj h))

/-- `ExpandTabs` keeps the selection on its text. -/
theorem selected_expandTabs_iff (e : Edit) (htab : 0 < conf.tabSize) (hstart : 0 ≤ e.selStart)
    (hle : e.selStart ≤ e.selEnd) (hend : e.selEnd ≤ e.length) :
    (e.expandTabs conf).selected = imageOf conf e.str e.selStart.toNat e.selEnd.toNat ↔
      e.selStart = e.selEnd ∨ e.str[e.selStart.toNat]? ≠ some TAB := by
  obtain ⟨i, hi⟩ := Int.eq_ofNat_of_zero_le hstart
  obtain ⟨j, hj⟩ := Int.eq_ofNat_of_zero_le (Int.le_trans hstart hle)
  have hlen : j ≤ e.str.length := by
    rw [hj] at hend
    exact Int.ofNat_le.mp hend
  have hij : i ≤ j := by omega
  have hstart' : (e.expandTabs conf).selStart = (expansion conf 0 (e.str.take (i + tabsAt e.str i))).length := by
    have h := selStart_expandTabsLoop conf htab e.str [] e i (hi.trans (Int.zero_add _).symm) (by omega)
    exact h.trans (Int.zero_add _)
  have hend' : (e.expandTabs conf).selEnd = (expansion conf 0 (e.str.take j)).length := by
    have h := selEnd_expandTabsLoop conf htab e.str [] e j hstart (hj.trans (Int.zero_add _).symm) hlen
    exact h.trans (Int.zero_add _)
  have hcut : (expansion conf 0 (e.str.take j)).length ≤ (expansion conf 0 e.str).length := by
    have h := expansion_append conf 0 (e.str.take j) (e.str.drop j)
    rw [List.take_append_drop] at h
    rw [h, List.length_append]
    exact Nat.le_add_right _ _
  rw [selected, str_expandTabs, hstart', hend', hi, hj, Int.toNat_natCast, Int.toNat_natCast, Int.toNat_natCast,
    Int.toNat_natCast, imageOf_eq conf hij, between_eq_iff _ hcut, ← tabsAt_eq_zero]
  have htabs := tabsAt_le (s := e.str) (i := i) (by omega)
  constructor
  · rintro (h | ⟨-, h⟩)
    · refine .inr (Classical.byContradiction fun hne => ?_)
      have := expansion_lt conf htab (show i < i + tabsAt e.str i by omega) htabs
      omega
    · refine .inl (Classical.byContradiction fun hne => ?_)
      have := expansion_lt conf htab (show i < j by omega) hlen
      omega
  · rintro (h | h)
    · obtain rfl : i = j := by omega
      rcases Nat.eq_zero_or_pos (tabsAt e.str i) with hzero | hpos
      · rw [hzero]
        exact .inl rfl
      · have := expansion_lt conf htab (show i < i + tabsAt e.str i by omega) htabs
        exact .inr ⟨Nat.le_of_lt this, Nat.le_refl _⟩
    · rw [h]
      exact .inl rfl

/-! ## `InsertTab` -/

/-- In front of an insertion the text stays. -/
theorem between_insert_front (a r b : WStr) {i j : Nat} (h : j ≤ a.length) :
    between (a ++ r ++ b) i j = between (a ++ b) i j := by
  rw [between, between, List.append_assoc, List.take_append_of_le_length h, List.take_append_of_le_length h]

/-- Behind an insertion the text has moved. -/
theorem between_insert_behind (a r b : WStr) (j : Nat) :
    between (a ++ r ++ b) (a.length + r.length) (j + r.length) = between (a ++ b) a.length j := by
  have hmid : (a ++ r).length = a.length + r.length := List.length_append
  rw [between, between, List.drop_take, List.drop_take, ← hmid, List.drop_left, List.drop_left, hmid,
    Nat.add_sub_add_right]

/-- `InsertTab` keeps the selection on its text, at a position outside it. -/
theorem selected_insertTab_iff (e : Edit) (hstart : 0 ≤ e.selStart) (hle : e.selStart ≤ e.selEnd)
    (hend : e.selEnd ≤ e.length) (hpos : e.curPos ≤ e.length)
    (hout : (e.curPos : Int) ≤ e.selStart ∨ e.selEnd ≤ e.curPos) :
    (e.insertTab conf).selected = e.selected ↔ e.selStart ≤ e.curPos := by
  obtain ⟨i, hi⟩ := Int.eq_ofNat_of_zero_le hstart
  obtain ⟨j, hj⟩ := Int.eq_ofNat_of_zero_le (Int.le_trans hstart hle)
  obtain ⟨n, hn⟩ : ∃ n, n = conf.tabSize - e.curPos % conf.tabSize := ⟨_, rfl⟩
  have hstr : (e.insertTab conf).str = e.str.take e.curPos ++ List.replicate n SPACE ++ e.str.drop e.curPos := by
    rw [hn]
    rfl
  have hfront : (e.str.take e.curPos).length = e.curPos := List.length_take_of_le hpos
  have hlen : (e.insertTab conf).str.length = e.str.length + n := by
    rw [hstr, List.length_append, List.length_append, hfront, List.length_replicate, List.length_drop]
    have : e.curPos ≤ e.str.length := hpos
    omega
  have hjlen : j ≤ e.str.length := by
    rw [hj] at hend
    exact Int.ofNat_le.mp hend
  have hstart' : (e.insertTab conf).selStart =
      if e.selStart ≠ -1 ∧ (e.curPos : Int) ≤ e.selStart then
        e.selStart + n - (if (e.curPos : Int) = e.selStart then 0 else 1) else e.selStart := by
    rw [hn]
    rfl
  have hend' : (e.insertTab conf).selEnd =
      if e.selStart ≠ -1 ∧ e.selEnd ≠ -1 ∧ (e.curPos : Int) < e.selEnd then e.selEnd + n else e.selEnd := by
    rw [hn]
    rfl
  have hold : e.selected = between (e.str.take e.curPos ++ e.str.drop e.curPos) i j := by
    rw [selected, hi, hj, List.take_append_drop]
    rfl
  by_cases hbefore : e.curPos < i
  · -- one character too many is selected
    refine iff_of_false (fun h => ?_) (by omega)
    rw [if_pos (by omega), if_neg (by omega)] at hstart'
    rw [if_pos (by omega)] at hend'
    have h' := congrArg List.length h
    rw [selected, selected, hi, hj, length_between _ (by omega), length_between _ (by exact hjlen), hstart', hend'] at h'
    omega
  · refine iff_of_true ?_ (by omega)
    rw [hold, selected, hstr]
    rcases Nat.lt_or_ge e.curPos j with hinside | hbehind
    · obtain rfl : e.curPos = i := by omega
      rw [if_pos (by omega), if_pos hi.symm] at hstart'
      rw [if_pos (by omega)] at hend'
      have hstartNat : (e.insertTab conf).selStart.toNat = (e.str.take e.curPos).length + (List.replicate n SPACE).length := by
        rw [hfront, List.length_replicate]
        omega
      have hendNat : (e.insertTab conf).selEnd.toNat = j + (List.replicate n SPACE).length := by
        rw [List.length_replicate]
        omega
      rw [hstartNat, hendNat, between_insert_behind, hfront]
    · have hendNat : (e.insertTab conf).selEnd.toNat = j := by
        rw [if_neg (by omega)] at hend'
        omega
      rw [hendNat, between_insert_front _ _ _ (by omega)]
      by_cases heq : e.curPos = i
      · have hstartNat : j ≤ (e.insertTab conf).selStart.toNat := by
          rw [if_pos (by omega), if_pos (by omega)] at hstart'
          omega
        rw [between_nil _ hstartNat, between_nil _ (by omega)]
      · have hstartNat : (e.insertTab conf).selStart.toNat = i := by
          rw [if_neg (by omega)] at hstart'
          omega
        rw [hstartNat]

/-! ## Both -/

/-- **Tabs and the selection.** `ExpandTabs` makes the whole line the expansion of the
old one and keeps the selection on the image of its text exactly when the selection
is empty or does not begin with a tab; `InsertTab` outside the selection keeps it on
its text exactly when it is not in front of it. -/
theorem tabs_keep_selection_iff (e : Edit) (htab : 0 < conf.tabSize) (hstart : 0 ≤ e.selStart)
    (hle : e.selStart ≤ e.selEnd) (hend : e.selEnd ≤ e.length) :
    ((e.expandTabs conf).str = expansion conf 0 e.str ∧
        (e.expandTabs conf).selected = imageOf conf e.str e.selStart.toNat e.selEnd.toNat ↔
      e.selStart = e.selEnd ∨ e.str[e.selStart.toNat]? ≠ some TAB) ∧
    (e.curPos ≤ e.length → (e.curPos : Int) ≤ e.selStart ∨ e.selEnd ≤ e.curPos →
      ((e.insertTab conf).selected = e.selected ↔ e.selStart ≤ e.curPos)) := by
  refine ⟨?_, fun hpos hout => selected_insertTab_iff conf e hstart hle hend hpos hout⟩
  rw [and_iff_right (str_expandTabs conf e)]
  exact selected_expandTabs_iff conf e htab hstart hle hend

/-- Tab stops every four columns, the other characters one column wide. -/
def tabsOfFour : EditConf := ⟨4, .noTabs, false, fun _ => false, fun _ => false⟩

/-- `a`, a tab and `b`; the tab and the `b` are selected. -/
def tabLine : Edit := { str := [0x61, TAB, 0x62], selStart := 1, selEnd := 3 }

theorem tabs_keep_selection_tabLine :
    0 < tabsOfFour.tabSize ∧ (0 ≤ tabLine.selStart ∧ tabLine.selStart ≤ tabLine.selEnd ∧ tabLine.selEnd ≤ tabLine.length) ∧
      ((tabLine.expandTabs tabsOfFour).str = expansion tabsOfFour 0 tabLine.str ∧
          (tabLine.expandTabs tabsOfFour).selected =
            imageOf tabsOfFour tabLine.str tabLine.selStart.toNat tabLine.selEnd.toNat ↔
        tabLine.selStart = tabLine.selEnd ∨ tabLine.str[tabLine.selStart.toNat]? ≠ some TAB) ∧
      ((tabLine.insertTab tabsOfFour).selected = tabLine.selected ↔ tabLine.selStart ≤ tabLine.curPos) := by
  have h := tabs_keep_selection_iff tabsOfFour tabLine (by decide) (by decide) (by decide) (by decide)
  exact ⟨by decide, by decide, h.1, h.2 (by decide) (by decide)⟩

/-- The spaces of the tab are not selected, and a tab in front of the line selects the `a`. -/
theorem tabLine_selection_moves :
    (tabLine.expandTabs tabsOfFour).selected = [0x62] ∧
      imageOf tabsOfFour tabLine.str 1 3 = [SPACE, SPACE, SPACE, 0x62] ∧
      (tabLine.insertTab tabsOfFour).selected = [0x61, TAB, 0x62] ∧
      ¬ (∀ (conf : EditConf) (e : Edit), 0 < conf.tabSize → 0 ≤ e.selStart → e.selStart ≤ e.selEnd →
        e.selEnd ≤ e.length →
          (e.expandTabs conf).selected = imageOf conf e.str e.selStart.toNat e.selEnd.toNat) ∧
      ¬ (∀ (conf : EditConf) (e : Edit), 0 < conf.tabSize → 0 ≤ e.selStart → e.selStart ≤ e.selEnd →
        e.selEnd ≤ e.length → e.curPos ≤ e.length → (e.curPos : Int) ≤ e.selStart ∨ e.selEnd ≤ e.curPos →
          (e.insertTab conf).selected = e.selected) := by
  refine ⟨by decide, by decide, by decide, fun h => ?_, fun h => ?_⟩
  · exact absurd (h tabsOfFour tabLine (by decide) (by decide) (by decide) (by decide)) (by decide)
  · exact absurd (h tabsOfFour tabLine (by decide) (by decide) (by decide) (by decide) (by decide) (by decide)) (by decide)

end Edit

end Far2l
