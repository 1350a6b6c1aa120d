/-
Far2l.Editor.CellTheorems — screen columns and positions in a line
(`RealPosToCell` and `CellPosToReal` of `far/src/edit.cpp`).

Both loops are read from a column on, over what is left of the line. They agree on
every character but one kind: a combining character at the beginning of the line or
directly behind a tab has no cell for `RealPosToCell` and one for `CellPosToReal`.
-/
import Far2l.Editor.Edit

namespace Far2l

namespace Edit

variable (conf : EditConf)

/-! ## Classes of characters -/

/-- A tab that is shown as one. -/
def isKeptTab (c : WChar) : Bool := decide (c = TAB ∧ conf.tabExpandMode ≠ .allTabs)

/-- A combining character is not a tab, nor two cells wide. -/
def DisjointClasses : Prop := ∀ c, conf.xxxfix c = true → conf.fullWidth c = false ∧ c ≠ TAB

/-- Every combining character has a character in front of it, other than a tab.
The flag says what is in front of the text. -/
def based : Bool → WStr → Bool
  | _, [] => true
  | base, c :: rest => (base || !conf.xxxfix c) && based (!isKeptTab conf c) rest

/-- The column behind a character, for `RealPosToCell`. -/
def cellAfter (col : Nat) (c : WChar) : Nat :=
  if isKeptTab conf c then col + (conf.tabSize - col % conf.tabSize)
  else if conf.fullWidth c then col + 2
  else if !conf.xxxfix c then col + 1
  else col

/-- `RealPosToCell` over a text that begins at a column. -/
def cellFrom (s : WStr) (col p : Nat) : Nat := realPosToCellLoop conf (s.take p) col + (p - s.length)

/-- `CellPosToReal` over a text that begins at a column. -/
abbrev realFrom (s : WStr) (base : Bool) (col pos : Nat) : Nat := cellPosToRealLoop conf pos s base 0 col

variable {conf}

theorem isKeptTab_iff {c : WChar} : isKeptTab conf c = true ↔ c = TAB ∧ conf.tabExpandMode ≠ .allTabs :=
  decide_eq_true_iff

theorem DisjointClasses.not_keptTab (h : DisjointClasses conf) {c : WChar} (hc : conf.xxxfix c = true) :
    isKeptTab conf c = false :=
  decide_eq_false fun htab => (h c hc).2 htab.1

theorem DisjointClasses.cellAfter (h : DisjointClasses conf) {c : WChar} (hc : conf.xxxfix c = true) (col : Nat) :
    cellAfter conf col c = col := by
  rw [Edit.cellAfter, h.not_keptTab hc, (h c hc).1, hc]
  rfl

/-! ## The loops -/

theorem realPosToCellLoop_step (c : WChar) (rest : WStr) (col : Nat) :
    realPosToCellLoop conf (c :: rest) col =
      if c = TAB ∧ conf.tabExpandMode ≠ .allTabs then
        realPosToCellLoop conf rest (col + (conf.tabSize - col % conf.tabSize))
      else if conf.fullWidth c then realPosToCellLoop conf rest (col + 2)
      else if !conf.xxxfix c then realPosToCellLoop conf rest (col + 1)
      else realPosToCellLoop conf rest col := rfl

theorem cellPosToRealLoop_nil (pos : Nat) (base : Bool) (index col : Nat) :
    cellPosToRealLoop conf pos [] base index col = index + (pos - col) := rfl

theorem cellPosToRealLoop_step (pos : Nat) (c : WChar) (rest : WStr) (base : Bool) (index col : Nat) :
    cellPosToRealLoop conf pos (c :: rest) base index col =
      if base ∧ conf.xxxfix c then cellPosToRealLoop conf pos rest true (index + 1) col
      else if pos ≤ col then index
      else if c = TAB ∧ conf.tabExpandMode ≠ .allTabs then
        if col + conf.tabSize - col % conf.tabSize > pos then index
        else cellPosToRealLoop conf pos rest false (index + 1) (col + conf.tabSize - col % conf.tabSize)
      else cellPosToRealLoop conf pos rest true (index + 1) (col + if conf.fullWidth c then 2 else 1) := rfl

/-! ## From positions to columns -/

theorem realPosToCellLoop_cons (c : WChar) (s : WStr) (col : Nat) :
    realPosToCellLoop conf (c :: s) col = realPosToCellLoop conf s (cellAfter conf col c) := by
  rw [realPosToCellLoop_step, cellAfter]
  by_cases htab : c = TAB ∧ conf.tabExpandMode ≠ .allTabs
  · rw [if_pos htab, if_pos (isKeptTab_iff.mpr htab)]
  · rw [if_neg htab, if_neg (mt isKeptTab_iff.mp htab)]
    split
    · rfl
    · split
      · rfl
      · rfl

@[simp] theorem cellFrom_zero (s : WStr) (col : Nat) : cellFrom conf s col 0 = col := by
  rw [cellFrom, List.take_zero, Nat.zero_sub]
  rfl

@[simp] theorem cellFrom_nil (col p : Nat) : cellFrom conf [] col p = col + p := by
  rw [cellFrom, List.take_nil]
  rfl

@[simp] theorem cellFrom_succ (c : WChar) (s : WStr) (col p : Nat) :
    cellFrom conf (c :: s) col (p + 1) = cellFrom conf s (cellAfter conf col c) p := by
  rw [cellFrom, List.take_succ_cons, realPosToCellLoop_cons, List.length_cons, Nat.add_sub_add_right]
  rfl

theorem realPosToCell_eq (e : Edit) (pos : Nat) : e.realPosToCell conf pos = cellFrom conf e.str 0 pos := rfl

theorem le_cellAfter (col : Nat) (c : WChar) : col ≤ cellAfter conf col c := by
  unfold cellAfter
  split
  · omega
  · split
    · omega
    · split
      · omega
      · omega

theorem le_cellFrom (s : WStr) : ∀ (col p : Nat), col ≤ cellFrom conf s col p := by
  induction s with
  | nil =>
    intro col p
    rw [cellFrom_nil]
    omega
  | cons c s ih =>
    intro col p
    cases p with
    | zero => exact Nat.le_of_eq (cellFrom_zero _ _).symm
    | succ p =>
      rw [cellFrom_succ]
      exact Nat.le_trans (le_cellAfter col c) (ih _ p)

/-- Columns grow with positions. -/
theorem cellFrom_mono (s : WStr) : ∀ (col : Nat) {p q : Nat}, p ≤ q → cellFrom conf s col p ≤ cellFrom conf s col q := by
  induction s with
  | nil =>
    intro col p q h
    rw [cellFrom_nil, cellFrom_nil]
    omega
  | cons c s ih =>
    intro col p q h
    cases p with
    | zero =>
      rw [cellFrom_zero]
      exact le_cellFrom _ _ _
    | succ p =>
      obtain ⟨q, rfl⟩ := Nat.exists_eq_add_one_of_ne_zero (show q ≠ 0 by omega)
      rw [cellFrom_succ, cellFrom_succ]
      exact ih _ (Nat.le_of_succ_le_succ h)

/-! ## From columns to positions -/

/-- The loop counts positions from where it starts. -/
theorem cellPosToRealLoop_index (pos : Nat) : ∀ (s : WStr) (base : Bool) (index col : Nat),
    cellPosToRealLoop conf pos s base index col = index + realFrom conf s base col pos
  | [], base, index, col => by
    rw [realFrom, cellPosToRealLoop_nil, cellPosToRealLoop_nil, Nat.zero_add]
  | c :: rest, base, index, col => by
    have hshift : ∀ base' col', cellPosToRealLoop conf pos rest base' (index + 1) col' =
        index + cellPosToRealLoop conf pos rest base' (0 + 1) col' := fun base' col' => by
      rw [cellPosToRealLoop_index pos rest base' (index + 1) col', cellPosToRealLoop_index pos rest base' (0 + 1) col']
      omega
    rw [realFrom, cellPosToRealLoop_step, cellPosToRealLoop_step]
    simp only [hshift]
    split
    · rfl
    · split
      · exact (Nat.add_zero _).symm
      · split
        · split
          · exact (Nat.add_zero _).symm
          · rfl
        · rfl

theorem realFrom_succ (pos : Nat) (s : WStr) (base : Bool) (col : Nat) :
    cellPosToRealLoop conf pos s base (0 + 1) col = realFrom conf s base col pos + 1 := by
  rw [cellPosToRealLoop_index]
  omega

@[simp] theorem realFrom_nil (base : Bool) (col pos : Nat) : realFrom conf [] base col pos = pos - col := by
  rw [realFrom, cellPosToRealLoop_nil, Nat.zero_add]

/-- A combining character goes with the character in front of it. -/
theorem realFrom_combining {c : WChar} (hc : conf.xxxfix c = true) (s : WStr) (col pos : Nat) :
    realFrom conf (c :: s) true col pos = realFrom conf s true col pos + 1 := by
  rw [realFrom, cellPosToRealLoop_step, if_pos ⟨rfl, hc⟩]
  exact realFrom_succ pos s true col

/-- The loop is over when the column has been reached. -/
theorem realFrom_reached {base : Bool} {c : WChar} (hc : ¬ (base = true ∧ conf.xxxfix c = true)) (s : WStr)
    {col pos : Nat} (h : pos ≤ col) : realFrom conf (c :: s) base col pos = 0 := by
  rw [realFrom, cellPosToRealLoop_step, if_neg hc, if_pos h]

theorem realFrom_tab {base : Bool} {c : WChar} (hc : ¬ (base = true ∧ conf.xxxfix c = true))
    (htab : isKeptTab conf c = true) (s : WStr) {col pos : Nat} (h : col < pos) :
    realFrom conf (c :: s) base col pos =
      if col + conf.tabSize - col % conf.tabSize > pos then 0
      else realFrom conf s false (col + conf.tabSize - col % conf.tabSize) pos + 1 := by
  rw [realFrom, cellPosToRealLoop_step, if_neg hc, if_neg (Nat.not_le.mpr h), if_pos (isKeptTab_iff.mp htab)]
  simp only [realFrom_succ]

theorem realFrom_char {base : Bool} {c : WChar} (hc : ¬ (base = true ∧ conf.xxxfix c = true))
    (htab : isKeptTab conf c = false) (s : WStr) {col pos : Nat} (h : col < pos) :
    realFrom conf (c :: s) base col pos =
      realFrom conf s true (col + if conf.fullWidth c then 2 else 1) pos + 1 := by
  have htab' : ¬ (c = TAB ∧ conf.tabExpandMode ≠ .allTabs) := fun h => by
    rw [isKeptTab_iff.mpr h] at htab
    exact Bool.false_ne_true htab.symm
  rw [realFrom, cellPosToRealLoop_step, if_neg hc, if_neg (Nat.not_le.mpr h), if_neg htab', realFrom_succ]

/-- The end of a tab. -/
theorem tabStop_eq (htab : 0 < conf.tabSize) (col : Nat) :
    col + conf.tabSize - col % conf.tabSize = col + (conf.tabSize - col % conf.tabSize) := by
  have := Nat.mod_lt col htab
  omega

theorem tabStop_gt (htab : 0 < conf.tabSize) (col : Nat) : col < col + (conf.tabSize - col % conf.tabSize) := by
  have := Nat.mod_lt col htab
  omega

/-- A later column has the same tab stop or a later one. -/
theorem tabStop_mono (htab : 0 < conf.tabSize) {col col' : Nat} (h : col ≤ col') :
    col + (conf.tabSize - col % conf.tabSize) ≤ col' + (conf.tabSize - col' % conf.tabSize) := by
  have hstop : ∀ n, n + (conf.tabSize - n % conf.tabSize) = conf.tabSize * (n / conf.tabSize + 1) := fun n => by
    have hdiv := Nat.div_add_mod n conf.tabSize
    have hmod := Nat.mod_lt n htab
    rw [Nat.mul_add]
    omega
  rw [hstop, hstop]
  exact Nat.mul_le_mul_left _ (Nat.succ_le_succ (Nat.div_le_div_right h))

/-! ## Back and forth -/

/-- A position in front of a combining character. -/
def beforeCombining (conf : EditConf) (s : WStr) (p : Nat) : Prop := ∃ c, s[p]? = some c ∧ conf.xxxfix c = true

/-- The position behind the combining characters that a text begins with. -/
theorem behind_combining (s : WStr) (col : Nat) (h : DisjointClasses conf) :
    ∃ p, ¬ beforeCombining conf s p ∧ cellFrom conf s col p = col := by
  induction s with
  | nil => exact ⟨0, fun ⟨c, hc, _⟩ => absurd hc (by simp), cellFrom_zero _ _⟩
  | cons c s ih =>
    by_cases hc : conf.xxxfix c = true
    · obtain ⟨p, hp, hcol⟩ := ih
      refine ⟨p + 1, hp, ?_⟩
      rw [cellFrom_succ, h.cellAfter hc, hcol]
    · refine ⟨0, fun ⟨c', hc', hcomb⟩ => ?_, cellFrom_zero _ _⟩
      rw [List.getElem?_cons_zero] at hc'
      rw [← Option.some.inj hc'] at hcomb
      exact hc hcomb

/-- Every position comes back from its column exactly when the text is based. -/
theorem realFrom_cellFrom_iff (htab : 0 < conf.tabSize) (hdisj : DisjointClasses conf) :
    ∀ (s : WStr) (base : Bool) (col : Nat),
      (∀ p, ¬ beforeCombining conf s p → realFrom conf s base col (cellFrom conf s col p) = p) ↔
        based conf base s = true
  | [], base, col => by
    refine iff_of_true (fun p _ => ?_) rfl
    rw [cellFrom_nil, realFrom_nil]
    omega
  | c :: s, base, col => by
    have ih := realFrom_cellFrom_iff htab hdisj s
    have htail : (∀ p, ¬ beforeCombining conf (c :: s) (p + 1) →
        realFrom conf (c :: s) base col (cellFrom conf (c :: s) col (p + 1)) = p + 1) ↔
          based conf base (c :: s) = true := by
      rw [based, Bool.and_eq_true]
      by_cases hc : conf.xxxfix c = true
      · have hkept := hdisj.not_keptTab hc
        rw [hc, hkept]
        cases base with
        | true =>
          rw [Bool.not_false, ← ih true col]
          refine Iff.trans (forall_congr' fun p => ?_) (and_iff_right rfl).symm
          rw [cellFrom_succ, hdisj.cellAfter hc, realFrom_combining hc]
          exact imp_congr_right fun _ => Nat.succ_inj
        | false =>
          -- the combining characters have no cell, and the loop stops in front of them
          refine iff_of_false (fun h => ?_) (fun h => Bool.false_ne_true h.1)
          obtain ⟨p, hp, hcol⟩ := behind_combining s col hdisj
          have hback := h p hp
          rw [cellFrom_succ, hdisj.cellAfter hc, hcol,
            realFrom_reached (fun h => Bool.false_ne_true h.1) s (Nat.le_refl _)] at hback
          exact absurd hback (Nat.succ_ne_zero p).symm
      · have hfree : ¬ (base = true ∧ conf.xxxfix c = true) := fun h => hc h.2
        rw [Bool.not_eq_true] at hc
        rw [hc, ← ih (!isKeptTab conf c) (cellAfter conf col c), Bool.not_false, Bool.or_true]
        refine Iff.trans (forall_congr' fun p => ?_) (and_iff_right rfl).symm
        have hcol : cellAfter conf col c ≤ cellFrom conf s (cellAfter conf col c) p := le_cellFrom _ _ _
        rw [cellFrom_succ]
        cases hkept : isKeptTab conf c with
        | true =>
          have hafter : cellAfter conf col c = col + conf.tabSize - col % conf.tabSize := by
            rw [cellAfter, if_pos hkept, tabStop_eq htab]
          have hgt := tabStop_gt htab col
          rw [tabStop_eq htab] at hafter
          rw [realFrom_tab hfree hkept s (by omega), if_neg (by rw [tabStop_eq htab]; omega), tabStop_eq htab, ← hafter]
          exact imp_congr_right fun _ => Nat.succ_inj
        | false =>
          have hafter : cellAfter conf col c = col + if conf.fullWidth c then 2 else 1 := by
            rw [cellAfter, hkept, hc]
            split
            · next h => exact absurd h Bool.false_ne_true
            · split
              · rfl
              · rfl
          have hwide : col < cellAfter conf col c := by
            rw [hafter]
            split
            · omega
            · omega
          rw [realFrom_char hfree hkept s (by omega), ← hafter]
          exact imp_congr_right fun _ => Nat.succ_inj
    rw [← htail]
    constructor
    · exact fun h p => h (p + 1)
    · intro h p hp
      cases p with
      | succ p => exact h p hp
      | zero =>
        have hfree : ¬ (base = true ∧ conf.xxxfix c = true) := fun hc =>
          hp ⟨c, List.getElem?_cons_zero, hc.2⟩
        rw [cellFrom_zero]
        exact realFrom_reached hfree s (Nat.le_refl _)

/-- A column on the right half of a character that is two cells wide. -/
def onRightHalf (conf : EditConf) (s : WStr) (col pos : Nat) : Prop :=
  ∃ k c, s[k]? = some c ∧ isKeptTab conf c = false ∧ conf.fullWidth c = true ∧ cellFrom conf s col k + 1 = pos

theorem onRightHalf_cons {c : WChar} {s : WStr} {col pos : Nat}
    (h : onRightHalf conf s (cellAfter conf col c) pos) : onRightHalf conf (c :: s) col pos := by
  obtain ⟨k, c', hk, hkept, hfull, hpos⟩ := h
  refine ⟨k + 1, c', hk, hkept, hfull, ?_⟩
  rw [cellFrom_succ]
  exact hpos

/-- The column of the position that a column is mapped to. The loop may be ahead of
the column, by cells that it gives to combining characters. -/
theorem cellFrom_realFrom_le (htab : 0 < conf.tabSize) (hdisj : DisjointClasses conf) (pos : Nat) :
    ∀ (s : WStr) (base : Bool) (col ahead : Nat), col ≤ ahead → col ≤ pos →
      cellFrom conf s col (realFrom conf s base ahead pos) ≤ pos ∨ onRightHalf conf s col pos
  | [], base, col, ahead, hahead, hpos => by
    rw [realFrom_nil, cellFrom_nil]
    exact .inl (by omega)
  | c :: s, base, col, ahead, hahead, hpos => by
    by_cases hcomb : base = true ∧ conf.xxxfix c = true
    · obtain ⟨rfl, hc⟩ := hcomb
      have ih := cellFrom_realFrom_le htab hdisj pos s true col ahead hahead hpos
      rw [realFrom_combining hc, cellFrom_succ, hdisj.cellAfter hc]
      refine ih.imp_right fun h => onRightHalf_cons ?_
      rw [hdisj.cellAfter hc]
      exact h
    · rcases Nat.lt_or_ge ahead pos with hlt | hge
      · cases hkept : isKeptTab conf c with
        | true =>
          rw [realFrom_tab hcomb hkept s hlt]
          split
          · exact .inl (by rw [cellFrom_zero]; exact hpos)
          · next hstop =>
            have hafter : cellAfter conf col c = col + (conf.tabSize - col % conf.tabSize) := if_pos hkept
            have hle := tabStop_mono htab hahead
            rw [tabStop_eq htab] at hstop ⊢
            rw [cellFrom_succ]
            have ih := cellFrom_realFrom_le htab hdisj pos s false (cellAfter conf col c)
              (ahead + (conf.tabSize - ahead % conf.tabSize)) (by omega) (by omega)
            exact ih.imp_right onRightHalf_cons
        | false =>
          rw [realFrom_char hcomb hkept s hlt, cellFrom_succ]
          have hafter : cellAfter conf col c ≤ col + if conf.fullWidth c then 2 else 1 := by
            unfold cellAfter
            rw [hkept]
            split
            · next h => exact absurd h Bool.false_ne_true
            · split
              · exact Nat.le_refl _
              · split
                · exact Nat.le_refl _
                · exact Nat.le_add_right _ _
          by_cases hfits : cellAfter conf col c ≤ pos
          · have ih := cellFrom_realFrom_le htab hdisj pos s true (cellAfter conf col c)
              (ahead + if conf.fullWidth c then 2 else 1) (by omega) hfits
            exact ih.imp_right onRightHalf_cons
          · -- the character begins in the last cell before `pos`
            cases hfull : conf.fullWidth c with
            | true =>
              refine .inr ⟨0, c, List.getElem?_cons_zero, hkept, hfull, ?_⟩
              rw [hfull, if_pos rfl] at hafter
              rw [cellFrom_zero]
              omega
            | false =>
              rw [hfull, if_neg Bool.false_ne_true] at hafter
              omega
      · rw [realFrom_reached hcomb s hge, cellFrom_zero]
        exact .inl hpos

/-- What a line promises about its columns: a position that is not in front of a
combining character comes back from its column, columns grow with positions, and
the position of a column does not lie behind it, but for the right half of a wide
character. -/
structure ColumnsConsistent (conf : EditConf) (e : Edit) : Prop where
  back : ∀ p, ¬ beforeCombining conf e.str p → e.cellPosToReal conf (e.realPosToCell conf p) = p
  mono : ∀ p q, p ≤ q → e.realPosToCell conf p ≤ e.realPosToCell conf q
  below : ∀ pos : Nat, ¬ onRightHalf conf e.str 0 pos → e.realPosToCell conf (e.cellPosToReal conf pos) ≤ pos

/-- **Columns and positions are consistent exactly in the lines where every combining
character has a character in front of it, other than a tab.** -/
theorem columns_consistent_iff (e : Edit) (htab : 0 < conf.tabSize) (hdisj : DisjointClasses conf) :
    ColumnsConsistent conf e ↔ based conf false e.str = true := by
  have hback := realFrom_cellFrom_iff htab hdisj e.str false 0
  have hreal : ∀ pos : Nat, e.cellPosToReal conf pos = realFrom conf e.str false 0 pos := fun pos => by
    rw [cellPosToReal, Int.toNat_natCast]
  constructor
  · intro h
    refine hback.mp fun p hp => ?_
    rw [← hreal]
    exact h.back p hp
  · intro h
    refine ⟨fun p hp => ?_, fun p q hpq => cellFrom_mono e.str 0 hpq, fun pos hpos => ?_⟩
    · rw [hreal]
      exact hback.mpr h p hp
    · rw [hreal]
      exact (cellFrom_realFrom_le htab hdisj pos e.str false 0 0 (Nat.le_refl _) (Nat.zero_le _)).resolve_right hpos

/-- Tabs of eight columns; `0x301` is a combining character and `0x4E00` is wide. -/
def accents : EditConf := ⟨8, .noTabs, false, fun c => c == 0x4E00, fun c => c == 0x301⟩

theorem accents_disjoint : DisjointClasses accents := by
  intro c hc
  rw [beq_iff_eq.mp hc]
  decide

/-- In `a`, an accent and a wide character everything comes back. -/
theorem columns_consistent_accents :
    ColumnsConsistent accents { str := [0x61, 0x301, 0x4E00] } ↔ based accents false [0x61, 0x301, 0x4E00] = true :=
  columns_consistent_iff { str := [0x61, 0x301, 0x4E00] } (by decide) accents_disjoint

/-- An accent behind a tab: the position behind it has the column 8, which is mapped
to the position in front of it. -/
theorem accent_behind_tab :
    (realPosToCell accents { str := [TAB, 0x301, 0x61] } 2 = 8 ∧
        cellPosToReal accents { str := [TAB, 0x301, 0x61] } 8 = 1) ∧
      ¬ ∀ (conf : EditConf) (e : Edit), 0 < conf.tabSize → DisjointClasses conf → ColumnsConsistent conf e := by
  refine ⟨by decide, fun h => ?_⟩
  have hback := (h accents { str := [TAB, 0x301, 0x61] } (by decide) accents_disjoint).back 2
    (fun ⟨c, hc, hcomb⟩ => by
      rw [← Option.some.inj hc] at hcomb
      exact absurd hcomb (by decide))
  exact absurd hback (by decide)

end Edit

end Far2l
