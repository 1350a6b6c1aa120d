/-
Far2l.Editor.LineListTheorems — the list of lines stays one doubly linked list.

`Chained S ps` says that the heap threads the live lines `ps` from `TopList` on;
`Wf S ps cur scr` adds the cursor: `CurLine` is line `cur = NumLine`, `TopScreen`
is line `scr`, at or above it. Each function of `LineList` gets one lemma that
says what it does to `ps`, `cur` and `scr`.
-/
import Far2l.Editor.LineList
import Far2l.Lib.Chain

namespace Far2l.LineList

open Far2l.Chain

/-! ## Reading after writing -/

variable {S : LineList} {ps : List Ptr}

theorem next_some (a : Ptr) : S.next (some a) = (S.mem a).bind Node.next := rfl

theorem prev_some (a : Ptr) : S.prev (some a) = (S.mem a).bind Node.prev := rfl

theorem edit_some (a : Ptr) : S.edit (some a) = ((S.mem a).map Node.edit).getD {} := rfl

@[simp] theorem next_none : S.next none = none := rfl

@[simp] theorem prev_none : S.prev none = none := rfl

/-- A live address holds an object. -/
def Live (S : LineList) (a : Ptr) : Prop := (S.mem a).isSome

instance (S : LineList) (a : Ptr) : Decidable (S.Live a) :=
  inferInstanceAs (Decidable ((S.mem a).isSome = true))

theorem mem_update (p : Option Ptr) (f : Node → Node) (q : Ptr) :
    (S.update p f).mem q = if some q = p then (S.mem q).map f else S.mem q := rfl

@[simp] theorem live_update (p : Option Ptr) (f : Node → Node) (q : Ptr) :
    (S.update p f).Live q ↔ S.Live q := by
  rw [Live, Live, mem_update]
  split
  · simp
  · rfl

@[simp] theorem next_modify (p : Option Ptr) (f : Edit → Edit) :
    (S.modify p f).next = S.next := by
  funext q
  cases q with
  | none => rfl
  | some q =>
    rw [next_some, next_some, modify, mem_update]
    split
    · cases S.mem q <;> rfl
    · rfl

@[simp] theorem prev_modify (p : Option Ptr) (f : Edit → Edit) :
    (S.modify p f).prev = S.prev := by
  funext q
  cases q with
  | none => rfl
  | some q =>
    rw [prev_some, prev_some, modify, mem_update]
    split
    · cases S.mem q <;> rfl
    · rfl

theorem edit_modify_of_ne {p : Option Ptr} {q : Ptr} (h : some q ≠ p) (f : Edit → Edit) :
    (S.modify p f).edit (some q) = S.edit (some q) := by
  rw [edit_some, edit_some, modify, mem_update, if_neg h]

theorem edit_modify_self {q : Ptr} (h : S.Live q) (f : Edit → Edit) :
    (S.modify (some q) f).edit (some q) = f (S.edit (some q)) := by
  obtain ⟨n, hn⟩ := Option.isSome_iff_exists.mp h
  rw [edit_some, edit_some, modify, mem_update, if_pos rfl, hn]
  rfl

@[simp] theorem live_modify (p : Option Ptr) (f : Edit → Edit) (q : Ptr) :
    (S.modify p f).Live q ↔ S.Live q := live_update p _ q

theorem mem_modify_eq_none (p : Option Ptr) (f : Edit → Edit) {q : Ptr} (h : S.mem q = none) :
    (S.modify p f).mem q = none := by
  rw [modify, mem_update, h]
  split <;> rfl

theorem next_setNext (p v : Option Ptr) (q : Ptr) :
    (S.setNext p v).next (some q) = if some q = p ∧ S.Live q then v else S.next (some q) := by
  rw [next_some, next_some, setNext, mem_update]
  by_cases hq : some q = p
  · rw [if_pos hq]
    cases hm : S.mem q <;> simp [Live, hm, hq]
  · simp [hq]

@[simp] theorem prev_setNext (p v : Option Ptr) : (S.setNext p v).prev = S.prev := by
  funext q
  cases q with
  | none => rfl
  | some q =>
    rw [prev_some, prev_some, setNext, mem_update]
    split
    · cases S.mem q <;> rfl
    · rfl

@[simp] theorem edit_setNext (p v : Option Ptr) : (S.setNext p v).edit = S.edit := by
  funext q
  cases q with
  | none => rfl
  | some q =>
    rw [edit_some, edit_some, setNext, mem_update]
    split
    · cases S.mem q <;> rfl
    · rfl

theorem prev_setPrev (p v : Option Ptr) (q : Ptr) :
    (S.setPrev p v).prev (some q) = if some q = p ∧ S.Live q then v else S.prev (some q) := by
  rw [prev_some, prev_some, setPrev, mem_update]
  by_cases hq : some q = p
  · rw [if_pos hq]
    cases hm : S.mem q <;> simp [Live, hm, hq]
  · simp [hq]

@[simp] theorem next_setPrev (p v : Option Ptr) : (S.setPrev p v).next = S.next := by
  funext q
  cases q with
  | none => rfl
  | some q =>
    rw [next_some, next_some, setPrev, mem_update]
    split
    · cases S.mem q <;> rfl
    · rfl

@[simp] theorem edit_setPrev (p v : Option Ptr) : (S.setPrev p v).edit = S.edit := by
  funext q
  cases q with
  | none => rfl
  | some q =>
    rw [edit_some, edit_some, setPrev, mem_update]
    split
    · cases S.mem q <;> rfl
    · rfl

/-! ## The invariant -/

/-- The heap threads the lines `ps`, which are live; addresses from `fresh` on are free. -/
structure Threaded (S : LineList) (ps : List Ptr) : Prop where
  linked : Linked (fun p => S.next (some p)) (fun p => S.prev (some p)) ps
  live : ∀ p ∈ ps, S.Live p
  bound : ∀ p, S.fresh ≤ p → S.mem p = none

/-- The lines are threaded from `TopList` on, and counted. -/
structure Chained (S : LineList) (ps : List Ptr) : Prop extends Threaded S ps where
  top : S.topList = ps[0]?
  num : S.numLastLine = ps.length

/-- The list of lines with its cursor, which is on line `cur`, and its screen, from line `scr`
on. -/
structure Placed (S : LineList) (ps : List Ptr) (cur scr : Nat) : Prop extends Chained S ps where
  bottom : S.endList = ps[ps.length - 1]?
  curLine : S.curLine = ps[cur]?
  cur_lt : cur < ps.length
  screen : S.topScreen = ps[scr]?
  scr_le : scr ≤ cur

/-- **The list invariant**: `NumLine` is the place of the cursor. -/
structure Wf (S : LineList) (ps : List Ptr) (cur scr : Nat) : Prop extends Placed S ps cur scr where
  numLine : S.numLine = cur

namespace Threaded

theorem next_get (h : S.Threaded ps) {i : Nat} {p : Ptr} (hp : ps[i]? = some p) :
    S.next (some p) = ps[i + 1]? := h.linked.next_eq hp

theorem prev_get (h : S.Threaded ps) {i : Nat} {p : Ptr} (hp : ps[i]? = some p) :
    S.prev (some p) = if i = 0 then none else ps[i - 1]? := by
  cases i with
  | zero => exact h.linked.prev_zero hp
  | succ i => rw [if_neg (by omega)]; exact h.linked.prev_succ hp

/-- `m_next` of the line at an index, inside the list or past its end. -/
theorem next_index (h : S.Threaded ps) (i : Nat) : S.next ps[i]? = ps[i + 1]? := by
  cases hp : ps[i]? with
  | some p => exact h.next_get hp
  | none =>
    rw [List.getElem?_eq_none_iff] at hp
    rw [next_none, eq_comm, List.getElem?_eq_none_iff]
    omega

theorem prev_index (h : S.Threaded ps) {i : Nat} (hi : i < ps.length) :
    S.prev ps[i]? = if i = 0 then none else ps[i - 1]? := by
  rw [List.getElem?_eq_getElem hi]
  exact h.prev_get (List.getElem?_eq_getElem hi)

theorem lt_fresh (h : S.Threaded ps) {p : Ptr} (hp : p ∈ ps) : p < S.fresh := by
  apply Nat.lt_of_not_le
  intro hle
  have := h.live p hp
  rw [Live, h.bound p hle] at this
  simp at this

theorem fresh_not_mem (h : S.Threaded ps) : S.fresh ∉ ps :=
  fun hmem => absurd (h.lt_fresh hmem) (Nat.lt_irrefl _)

theorem ne_fresh (h : S.Threaded ps) {p : Ptr} (hp : p ∈ ps) : p ≠ S.fresh :=
  fun heq => h.fresh_not_mem (heq ▸ hp)

/-- A state with the same heap is threaded in the same way. -/
theorem congr {S' : LineList} (h : S.Threaded ps) (hmem : S'.mem = S.mem)
    (hfresh : S'.fresh = S.fresh) : S'.Threaded ps where
  linked := by
    simp only [next_some, prev_some, hmem]
    exact h.linked
  live := by
    intro p hp
    rw [Live, hmem]
    exact h.live p hp
  bound := by
    rw [hmem, hfresh]
    exact h.bound

theorem modify (h : S.Threaded ps) (p : Option Ptr) (f : Edit → Edit) :
    (S.modify p f).Threaded ps where
  linked := by
    rw [next_modify, prev_modify]
    exact h.linked
  live := fun q hq => (live_modify p f q).mpr (h.live q hq)
  bound := fun q hq => mem_modify_eq_none p f (h.bound q hq)

end Threaded

/-! ## Inserting a line -/

@[simp] theorem mem_create (e : Edit) (q : Ptr) :
    (S.create e).mem q = if q = S.fresh then some { edit := e } else S.mem q := rfl

theorem next_create (hb : S.mem S.fresh = none) (e : Edit) : (S.create e).next = S.next := by
  funext q
  cases q with
  | none => rfl
  | some q =>
    rw [next_some, next_some, mem_create]
    split
    · next hq => rw [hq, hb]; rfl
    · rfl

theorem prev_create (hb : S.mem S.fresh = none) (e : Edit) : (S.create e).prev = S.prev := by
  funext q
  cases q with
  | none => rfl
  | some q =>
    rw [prev_some, prev_some, mem_create]
    split
    · next hq => rw [hq, hb]; rfl
    · rfl

/-- What `linkAfter` does to the links and the heap, in one place. -/
theorem linkAfter_spec {q a : Ptr} (hq : S.Live q) (ha : S.Live a)
    (hnext : ∀ b, S.next (some a) = some b → S.Live b ∧ b ≠ q) :
    (∀ p, (S.linkAfter (some q) (some a)).next (some p)
      = if p = a then some q else if p = q then S.next (some a) else S.next (some p))
    ∧ (∀ p, (S.linkAfter (some q) (some a)).prev (some p)
      = if p = q then some a else if S.next (some a) = some p then some q else S.prev (some p))
    ∧ (∀ p, (S.linkAfter (some q) (some a)).Live p ↔ S.Live p)
    ∧ (S.linkAfter (some q) (some a)).edit = S.edit := by
  refine ⟨?_, ?_, ?_, by simp [linkAfter]⟩
  · intro p
    rw [linkAfter, next_setPrev, next_setNext, next_setPrev, next_setNext]
    simp only [setNext, setPrev, live_update, Option.some.injEq]
    by_cases hpa : p = a
    · simp [hpa, ha]
    · by_cases hpq : p = q
      · subst hpq
        simp [hpa, hq]
      · simp [hpa, hpq]
  · intro p
    rw [linkAfter, prev_setPrev, prev_setNext, prev_setPrev, prev_setNext]
    simp only [setNext, setPrev, live_update, Option.some.injEq]
    by_cases hpb : S.next (some a) = some p
    · obtain ⟨hlb, hbq⟩ := hnext p hpb
      simp [hpb, hlb, hbq]
    · have hpb' : ¬ some p = S.next (some a) := fun h => hpb h.symm
      by_cases hpq : p = q
      · subst hpq
        simp [hpb', hq]
      · simp [hpb, hpb', hpq]
  · intro p
    simp only [linkAfter, setNext, setPrev, live_update]

/-- `create` and `linkAfter` behind line `k` insert the new object there. -/
theorem linkAfter_linked (h : S.Threaded ps) {k : Nat} {a : Ptr} (ha : ps[k]? = some a) (e : Edit) :
    let S' := (S.create e).linkAfter (some S.fresh) (some a)
    Linked (fun p => S'.next (some p)) (fun p => S'.prev (some p)) (ps.insertIdx (k + 1) S.fresh)
    ∧ (∀ p, S'.Live p ↔ p = S.fresh ∨ S.Live p)
    ∧ S'.edit = (S.create e).edit := by
  have hb := h.bound S.fresh (Nat.le_refl _)
  have hmem : a ∈ ps := List.mem_of_getElem? ha
  have hlive : ∀ p, (S.create e).Live p ↔ p = S.fresh ∨ S.Live p := by
    intro p
    rw [Live, mem_create]
    by_cases hp : p = S.fresh
    · simp [hp]
    · simp [hp, Live]
  have hnext : (S.create e).next (some a) = ps[k + 1]? := by
    rw [next_create hb, h.next_get ha]
  obtain ⟨hn, hp, hl, he⟩ := linkAfter_spec (S := S.create e) (q := S.fresh) (a := a)
    ((hlive _).mpr (.inl rfl)) ((hlive _).mpr (.inr (h.live a hmem)))
    (by
      intro b hbe
      rw [hnext] at hbe
      have hbmem := List.mem_of_getElem? hbe
      exact ⟨(hlive _).mpr (.inr (h.live b hbmem)), h.ne_fresh hbmem⟩)
  refine ⟨?_, fun p => (hl p).trans (hlive p), he⟩
  refine h.linked.insert ha h.fresh_not_mem ?_ ?_ ?_ ?_ ?_ ?_
  · exact (hn a).trans (if_pos rfl)
  · show ((S.create e).linkAfter (some S.fresh) (some a)).next (some S.fresh) = _
    rw [hn, if_neg (h.ne_fresh hmem).symm, if_pos rfl, hnext]
  · intro p hpm hpa
    show ((S.create e).linkAfter (some S.fresh) (some a)).next (some p) = _
    rw [hn, if_neg hpa, if_neg (h.ne_fresh hpm), next_create hb]
  · exact (hp S.fresh).trans (if_pos rfl)
  · intro b hbe
    show ((S.create e).linkAfter (some S.fresh) (some a)).prev (some b) = _
    rw [hp, if_neg (h.ne_fresh (List.mem_of_getElem? hbe)), hnext, if_pos hbe]
  · intro p hpm hpb
    show ((S.create e).linkAfter (some S.fresh) (some a)).prev (some p) = _
    rw [hp, if_neg (h.ne_fresh hpm), hnext, if_neg hpb, prev_create hb]

/-- Behind a line of the list, `insertString` links and counts. -/
theorem insertString_eq (h : S.Chained ps) {k : Nat} {a : Ptr} (ha : ps[k]? = some a)
    (e : Edit) (n : Int) :
    S.insertString e (some a) n
      = ((S.create e).linkAfter (some S.fresh) (some a)).countLine n := by
  have hk : k < ps.length := (List.getElem?_eq_some_iff.mp ha).1
  have hne : ¬ (S.topList = none ∨ S.numLastLine = 0) := by
    rw [h.top, h.num, List.getElem?_eq_none_iff]
    omega
  rw [insertString, if_neg hne, if_neg (by simp)]

/-- **`InsertString` behind a line** puts the new line behind it; `EndList` is left to the
caller. -/
theorem insertString_chained (h : S.Chained ps) {k : Nat} {a : Ptr} (ha : ps[k]? = some a)
    (e : Edit) (n : Int) :
    (S.insertString e (some a) n).Chained (ps.insertIdx (k + 1) S.fresh) := by
  obtain ⟨hlink, hlive, _⟩ := linkAfter_linked h.toThreaded ha e
  have hk : k < ps.length := (List.getElem?_eq_some_iff.mp ha).1
  rw [insertString_eq h ha]
  refine ⟨⟨hlink, ?_, ?_⟩, ?_, ?_⟩
  · intro p hp
    refine (hlive p).mpr ?_
    rcases (List.mem_insertIdx (by omega)).mp hp with rfl | hp
    · exact .inl rfl
    · exact .inr (h.live p hp)
  · intro p hp
    have hle : S.fresh + 1 ≤ p := hp
    have hnot : ¬ ((S.create e).linkAfter (some S.fresh) (some a)).Live p := by
      rw [hlive p]
      rintro (rfl | hp')
      · exact absurd hle (Nat.not_succ_le_self _)
      · rw [Live, h.bound p (Nat.le_of_succ_le hle)] at hp'
        simp at hp'
    exact Option.not_isSome_iff_eq_none.mp hnot
  · rw [List.getElem?_insertIdx_of_lt (by omega)]
    exact h.top
  · have hnum : S.numLastLine = ps.length := h.num
    show S.numLastLine + 1 = _
    rw [List.length_insertIdx_of_le_length (by omega), hnum]
    omega

/-- The new line is in a state of its own, the others are as they were. -/
theorem edit_insertString (h : S.Chained ps) {k : Nat} {a : Ptr} (ha : ps[k]? = some a)
    (e : Edit) (n : Int) (p : Ptr) :
    (S.insertString e (some a) n).edit (some p) = if p = S.fresh then e else S.edit (some p) := by
  obtain ⟨_, _, hedit⟩ := linkAfter_linked h.toThreaded ha e
  rw [insertString_eq h ha]
  show ((S.create e).linkAfter (some S.fresh) (some a)).edit (some p) = _
  rw [hedit, edit_some, edit_some, mem_create]
  split <;> rfl

/-- **`InsertString` without a line** appends. -/
theorem insertString_append {cur scr : Nat} (h : S.Wf ps cur scr) (e : Edit) (n : Int) :
    (S.insertString e none n).Wf (ps ++ [S.fresh]) cur scr
    ∧ ∀ p, (S.insertString e none n).edit (some p)
        = if p = S.fresh then e else S.edit (some p) := by
  have hlen : 0 < ps.length := Nat.lt_of_le_of_lt (Nat.zero_le _) h.cur_lt
  have hlast : ps.length - 1 < ps.length := by omega
  have hne : ¬ (S.topList = none ∨ S.numLastLine = 0) := by
    rw [h.top, h.num, List.getElem?_eq_none_iff]
    omega
  have ha := List.getElem?_eq_getElem hlast
  have hins : ps.insertIdx (ps.length - 1 + 1) S.fresh = ps ++ [S.fresh] := by
    rw [Nat.sub_add_cancel hlen, List.insertIdx_length_self]
  have hchain := insertString_chained h.toChained ha e (S.numLastLine - 1)
  have hedit := edit_insertString h.toChained ha e (S.numLastLine - 1)
  rw [insertString_eq h.toChained ha, ← ha, ← h.bottom] at hchain hedit
  rw [hins] at hchain
  have heq : S.insertString e none n
      = { ((S.create e).linkAfter (some S.fresh) S.endList).countLine (S.numLastLine - 1) with
          endList := some S.fresh } := by
    rw [insertString, if_neg hne, if_pos rfl]
    rfl
  rw [heq]
  have hget : ∀ {i : Nat}, i < ps.length → (ps ++ [S.fresh])[i]? = ps[i]? :=
    fun hi => List.getElem?_append_left hi
  refine ⟨⟨⟨⟨hchain.toThreaded.congr rfl rfl, hchain.top, hchain.num⟩, ?_, ?_, ?_, ?_, h.scr_le⟩,
    h.numLine⟩, hedit⟩
  · rw [List.length_append, List.length_singleton, Nat.add_sub_cancel,
      List.getElem?_concat_length]
  · rw [hget h.cur_lt]
    exact h.curLine
  · rw [List.length_append, List.length_singleton]
    exact Nat.lt_succ_of_lt h.cur_lt
  · rw [hget (Nat.lt_of_le_of_lt h.scr_le h.cur_lt)]
    exact h.screen

/-- **`InsertString` into an empty editor** makes the first line. -/
theorem insertString_first (hmem : ∀ p, S.mem p = none) (htop : S.topList = none)
    (hnum : S.numLastLine = 0) (hline : S.numLine = 0) (e : Edit) (n : Int) :
    (S.insertString e none n).Wf [S.fresh] 0 0
    ∧ ∀ p, (S.insertString e none n).edit (some p)
        = if p = S.fresh then e else S.edit (some p) := by
  have heq : S.insertString e none n
      = ((S.create e).linkFirst (some S.fresh)).countLine n := by
    rw [insertString, if_pos (.inl htop)]
  have hself : (S.create e).mem S.fresh = some { edit := e } := by rw [mem_create, if_pos rfl]
  rw [heq]
  refine ⟨⟨⟨⟨⟨Linked.singleton ?_ ?_, ?_, ?_⟩, rfl, ?_⟩, rfl, rfl, Nat.zero_lt_one, rfl,
    Nat.le_refl _⟩, hline⟩, fun p => ?_⟩
  · show ((S.create e).mem S.fresh).bind Node.next = none
    rw [hself]
    rfl
  · show ((S.create e).mem S.fresh).bind Node.prev = none
    rw [hself]
    rfl
  · intro p hp
    rw [List.mem_singleton] at hp
    subst hp
    show ((S.create e).mem S.fresh).isSome = true
    rw [hself]
    rfl
  · intro p hp
    have hle : S.fresh + 1 ≤ p := hp
    show (S.create e).mem p = none
    rw [mem_create, if_neg (fun heq => absurd (heq ▸ hle) (Nat.not_succ_le_self _))]
    exact hmem p
  · show S.numLastLine + 1 = _
    rw [hnum]
    rfl
  · show (((S.create e).mem p).map Node.edit).getD {} = _
    rw [mem_create, edit_some]
    split <;> rfl

/-! ## Removing a line -/

/-- Where line `c` of `len` lines is found once line `k` is gone: a line below moves up, and
the line itself is replaced by its successor, or by its predecessor at the end. -/
def afterErase (len k c : Nat) : Nat := if k < c ∨ (c = k ∧ k + 1 = len) then c - 1 else c

theorem afterErase_last {len k : Nat} (h : k + 1 = len) : afterErase len k k = k - 1 :=
  if_pos (.inr ⟨rfl, h⟩)

theorem afterErase_self {len k : Nat} (h : k + 1 ≠ len) : afterErase len k k = k :=
  if_neg (by omega)

theorem getElem?_eraseIdx_afterErase {k c : Nat} (hck : c ≠ k) :
    (ps.eraseIdx k)[afterErase ps.length k c]? = ps[c]? := by
  rw [List.getElem?_eraseIdx, afterErase]
  split
  · split
    · omega
    · congr 1; omega
  · rw [if_pos (by omega)]

/-- `joinNeighbours` takes line `k` out of the links. -/
theorem joinNeighbours_spec (h : S.Threaded ps) {k : Nat} {a : Ptr} (ha : ps[k]? = some a) :
    Linked (fun p => (S.joinNeighbours (some a)).next (some p))
      (fun p => (S.joinNeighbours (some a)).prev (some p)) (ps.eraseIdx k)
    ∧ (S.joinNeighbours (some a)).next (some a) = ps[k + 1]?
    ∧ (S.joinNeighbours (some a)).prev (some a) = if k = 0 then none else ps[k - 1]? := by
  have hk : k < ps.length := (List.getElem?_eq_some_iff.mp ha).1
  have hna := h.next_get ha
  have hpa := h.prev_get ha
  -- the successor of `a` is read again after the first assignment
  have hna1 : (S.setNext (S.prev (some a)) (S.next (some a))).next (some a) = ps[k + 1]? := by
    rw [next_setNext, hna]
    split <;> rfl
  have hnext : ∀ p, (S.joinNeighbours (some a)).next (some p)
      = if some p = S.prev (some a) ∧ S.Live p then ps[k + 1]? else S.next (some p) := by
    intro p
    show ((S.setNext _ _).setPrev _ _).next (some p) = _
    rw [next_setPrev, next_setNext, hna]
  have hprev : ∀ p, (S.joinNeighbours (some a)).prev (some p)
      = if some p = ps[k + 1]? ∧ S.Live p then S.prev (some a) else S.prev (some p) := by
    intro p
    show ((S.setNext _ _).setPrev _ _).prev (some p) = _
    rw [prev_setPrev, prev_setNext, hna1]
    simp only [setNext, live_update]
  refine ⟨h.linked.erase ?_ ?_ ?_ ?_, ?_, ?_⟩
  · intro b hk0 hb
    have hb' : some b = S.prev (some a) := by rw [hpa, if_neg (by omega), hb]
    exact (hnext b).trans (if_pos ⟨hb', h.live b (List.mem_of_getElem? hb)⟩)
  · intro i p hp hik hik1
    show (S.joinNeighbours (some a)).next (some p) = _
    rw [hnext, if_neg]
    rintro ⟨heq, _⟩
    rw [hpa] at heq
    split at heq
    · simp at heq
    · have := h.linked.index_inj hp heq.symm
      omega
  · intro b hb
    show (S.joinNeighbours (some a)).prev (some b) = _
    rw [hprev, if_pos ⟨hb.symm, h.live b (List.mem_of_getElem? hb)⟩, hpa]
  · intro i p hp hik hik1
    show (S.joinNeighbours (some a)).prev (some p) = _
    rw [hprev, if_neg]
    rintro ⟨heq, _⟩
    exact hik1 (h.linked.index_inj hp heq.symm)
  · rw [hnext, hna]
    split <;> rfl
  · rw [hprev, hpa]
    split
    · rfl
    · rfl

theorem moveCursor_threaded (h : S.Threaded ps) (conf : EditConf) (p : Option Ptr) (n : Int) :
    (S.moveCursor conf p n).Threaded ps := by
  unfold moveCursor
  refine Threaded.modify ?_ _ _
  exact h.congr rfl rfl

/-- Only the cursor and the line it enters are touched by `leaveLine`. -/
theorem leaveLine_threaded (h : S.Threaded ps) (conf : EditConf) (p : Option Ptr) :
    (S.leaveLine conf p).Threaded ps := by
  simp only [leaveLine]
  split
  · split
    · exact moveCursor_threaded h _ _ _
    · exact moveCursor_threaded h _ _ _
  · exact h

/-- The parts of `unlinkLine` that read the links read them from the original list. -/
theorem leaveLine_fields (conf : EditConf) (p : Option Ptr) :
    (S.leaveLine conf p).next = S.next ∧ (S.leaveLine conf p).prev = S.prev
    ∧ (S.leaveLine conf p).fresh = S.fresh ∧ (S.leaveLine conf p).topList = S.topList
    ∧ (S.leaveLine conf p).endList = S.endList ∧ (S.leaveLine conf p).topScreen = S.topScreen
    ∧ (S.leaveLine conf p).numLastLine = S.numLastLine
    ∧ (S.leaveLine conf p).lastGetLine = S.lastGetLine
    ∧ (S.leaveLine conf p).lastGetLineNumber = S.lastGetLineNumber
    ∧ (S.leaveLine conf p).height = S.height := by
  simp only [leaveLine]
  split
  · split
    all_goals
      refine ⟨?_, ?_, rfl, rfl, rfl, rfl, rfl, rfl, rfl, rfl⟩
      · rw [moveCursor, next_modify]; rfl
      · rw [moveCursor, prev_modify]; rfl
  · exact ⟨rfl, rfl, rfl, rfl, rfl, rfl, rfl, rfl, rfl, rfl⟩

/-- `leaveLine` moves the cursor off line `k`, down or, at the end, up. -/
theorem leaveLine_cursor (h : S.Threaded ps) (conf : EditConf) {k cur : Nat} {a : Ptr}
    (ha : ps[k]? = some a) (hcur : S.curLine = ps[cur]?) (hlt : cur < ps.length)
    (hlen : 1 < ps.length) :
    (S.leaveLine conf (some a)).curLine = (ps.eraseIdx k)[afterErase ps.length k cur]?
    ∧ (S.leaveLine conf (some a)).numLine
      = if cur = k ∧ k + 1 = ps.length then S.numLine - 1 else S.numLine := by
  by_cases hck : cur = k
  · subst hck
    have hcur' : S.curLine = some a := hcur.trans ha
    have hn := h.next_get ha
    have hp := h.prev_get ha
    rw [leaveLine, if_pos hcur']
    by_cases hend : cur + 1 = ps.length
    · have hnone : S.next (some a) = none := by
        rw [hn, List.getElem?_eq_none_iff]; omega
      rw [if_neg (by rw [hnone]; simp), if_pos ⟨rfl, hend⟩]
      refine ⟨?_, rfl⟩
      show S.prev (some a) = _
      rw [hp, if_neg (by omega), afterErase_last hend, List.getElem?_eraseIdx, if_pos (by omega)]
    · have hsome : S.next (some a) ≠ none := by
        rw [hn, ne_eq, List.getElem?_eq_none_iff]; omega
      rw [if_pos hsome, if_neg (fun hc => hend hc.2)]
      refine ⟨?_, rfl⟩
      show S.next (some a) = _
      rw [hn, afterErase_self hend, List.getElem?_eraseIdx, if_neg (by omega)]
  · have hne : S.curLine ≠ some a := fun heq => hck (h.linked.index_inj (hcur.symm.trans heq) ha)
    rw [leaveLine, if_neg hne, if_neg (fun hc => hck hc.1)]
    exact ⟨hcur.trans (getElem?_eraseIdx_afterErase hck).symm, rfl⟩

theorem joinNeighbours_threaded (h : S.Threaded ps) {k : Nat} {a : Ptr} (ha : ps[k]? = some a) :
    (S.joinNeighbours (some a)).Threaded (ps.eraseIdx k) where
  linked := (joinNeighbours_spec h ha).1
  live := by
    intro p hp
    simp only [joinNeighbours, Live, setPrev, setNext]
    exact (live_update _ _ p).mpr ((live_update _ _ p).mpr (h.live p (List.mem_of_mem_eraseIdx hp)))
  bound := by
    intro p hp
    have : ¬ (S.joinNeighbours (some a)).Live p := by
      simp only [joinNeighbours, Live, setPrev, setNext]
      rw [← Live, live_update, live_update, Live, h.bound p hp]
      simp
    exact Option.not_isSome_iff_eq_none.mp this

/-- **`unlinkLine` takes line `k` out**; the cursor and the screen go to the lines that take
their places. `NumLine` only follows when the cursor had to move up: for a line above the
cursor the caller adjusts it. -/
theorem unlinkLine_placed {cur scr : Nat} (h : S.Placed ps cur scr) (conf : EditConf) {k : Nat}
    {a : Ptr} (ha : ps[k]? = some a) (hlen : 1 < ps.length) (n : Int) :
    (S.unlinkLine conf (some a) n).Placed (ps.eraseIdx k) (afterErase ps.length k cur)
      (afterErase ps.length k scr)
    ∧ (S.unlinkLine conf (some a) n).numLine
      = if cur = k ∧ k + 1 = ps.length then S.numLine - 1 else S.numLine := by
  have hk : k < ps.length := (List.getElem?_eq_some_iff.mp ha).1
  have hcl := h.cur_lt
  have hsl := h.scr_le
  -- the state after `NumLastLine--` and the cache
  obtain ⟨T, hT⟩ : ∃ T, T = ({ S with numLastLine := S.numLastLine - 1 } :
      LineList).forgetLastGetLine n := ⟨_, rfl⟩
  have hthr : T.Threaded ps := by
    subst hT
    exact h.toThreaded.congr rfl rfl
  have htop : T.topList = ps[0]? := by subst hT; exact h.top
  have hend : T.endList = ps[ps.length - 1]? := by subst hT; exact h.bottom
  have hscr : T.topScreen = ps[scr]? := by subst hT; exact h.screen
  have hcur : T.curLine = ps[cur]? := by subst hT; exact h.curLine
  have hnumL : T.numLastLine = (ps.length : Int) - 1 := by
    have := h.num
    subst hT
    show S.numLastLine - 1 = _
    omega
  have hnum : T.numLine = S.numLine := by subst hT; rfl
  -- the cursor leaves the line
  obtain ⟨U, hU⟩ : ∃ U, U = T.leaveLine conf (some a) := ⟨_, rfl⟩
  have hthrU : U.Threaded ps := hU ▸ leaveLine_threaded hthr conf (some a)
  obtain ⟨hcurU, hnumU⟩ := hU ▸ leaveLine_cursor hthr conf ha hcur hcl hlen
  obtain ⟨_, _, _, htopU, hendU, hscrU, hnumLU, _⟩ := hU ▸ leaveLine_fields (S := T) conf (some a)
  obtain ⟨_, hnext, hprev⟩ := joinNeighbours_spec hthrU ha
  have hS' : S.unlinkLine conf (some a) n = (U.joinNeighbours (some a)).leaveTop (some a) := by
    rw [hU, hT]; rfl
  have hprevU := hthrU.prev_get ha
  have hlast : ∀ {j}, ps[j]? = some a → j = k := fun hj => h.linked.index_inj hj ha
  rw [hS']
  refine ⟨⟨⟨(joinNeighbours_threaded hthrU ha).congr rfl rfl, ?_, ?_⟩, ?_, ?_, ?_, ?_, ?_⟩, ?_⟩
  · -- TopList
    show (if some a = (U.joinNeighbours (some a)).topList then
      (U.joinNeighbours (some a)).next (U.joinNeighbours (some a)).topList
      else (U.joinNeighbours (some a)).topList) = _
    have htopJ : (U.joinNeighbours (some a)).topList = ps[0]? := htopU.trans htop
    rw [htopJ, List.getElem?_eraseIdx]
    by_cases hk0 : k = 0
    · subst hk0
      rw [if_pos ha.symm, if_neg (by omega), ha, hnext]
    · rw [if_neg (fun heq => hk0 (hlast heq.symm).symm), if_pos (by omega)]
  · -- NumLastLine
    show U.numLastLine = _
    rw [hnumLU, hnumL, List.length_eraseIdx_of_lt hk]
    omega
  · -- EndList
    show (if U.prev (some a) ≠ none ∧ some a = U.endList then
      (U.setNext (U.prev (some a)) (U.next (some a))).prev U.endList else U.endList) = _
    rw [prev_setNext, hendU, hend, List.length_eraseIdx_of_lt hk, List.getElem?_eraseIdx]
    by_cases hkl : k + 1 = ps.length
    · have hka : ps[ps.length - 1]? = some a := by rw [← ha]; congr 1; omega
      have hsome : ps[k - 1]? ≠ none := by
        rw [ne_eq, List.getElem?_eq_none_iff]; omega
      rw [hka, hprevU, if_neg (by omega : ¬ k = 0), if_pos ⟨hsome, rfl⟩, if_pos (by omega)]
      congr 1
      omega
    · rw [if_neg (fun hc => by have := hlast hc.2.symm; omega), if_neg (by omega)]
      congr 1
      omega
  · exact hcurU
  · rw [List.length_eraseIdx_of_lt hk, afterErase]
    split <;> omega
  · -- TopScreen
    show (if some a = (U.joinNeighbours (some a)).topScreen then
        if (U.joinNeighbours (some a)).next (U.joinNeighbours (some a)).topScreen ≠ none then
          (U.joinNeighbours (some a)).next (U.joinNeighbours (some a)).topScreen
        else (U.joinNeighbours (some a)).prev (U.joinNeighbours (some a)).topScreen
      else (U.joinNeighbours (some a)).topScreen) = _
    have hscrJ : (U.joinNeighbours (some a)).topScreen = ps[scr]? := hscrU.trans hscr
    rw [hscrJ]
    by_cases hsk : scr = k
    · subst hsk
      rw [if_pos ha.symm, ha, hnext, hprev, List.getElem?_eraseIdx]
      by_cases hkl : scr + 1 = ps.length
      · have hnone : ps[scr + 1]? = none := by rw [List.getElem?_eq_none_iff]; omega
        rw [hnone, if_neg (by simp), if_neg (by omega : ¬ scr = 0), afterErase_last hkl,
          if_pos (by omega)]
      · have hsome : ps[scr + 1]? ≠ none := by
          rw [ne_eq, List.getElem?_eq_none_iff]; omega
        rw [if_pos hsome, afterErase_self hkl, if_neg (by omega)]
    · rw [if_neg (fun heq => hsk (hlast heq.symm)), getElem?_eraseIdx_afterErase hsk]
  · rw [afterErase, afterErase]
    split <;> split <;> omega
  · show U.numLine = _
    rw [hnumU, hnum]

/-! ## Moving the cursor -/

theorem Threaded.length_le_fresh (h : S.Threaded ps) : ps.length ≤ S.fresh := by
  have hsub : ps ⊆ List.range S.fresh := fun p hp => List.mem_range.mpr (h.lt_fresh hp)
  have := List.Nodup.length_le_of_subset h.linked.nodup hsub
  rwa [List.length_range] at this

theorem get_ne_none {i : Nat} (hi : i < ps.length) : ps[i]? ≠ none := by
  rw [ne_eq, List.getElem?_eq_none_iff]
  omega

/-- Two places of the list are the same line only when they are the same place. -/
theorem Threaded.place_inj (h : S.Threaded ps) {i j : Nat} (hi : i < ps.length)
    (heq : ps[i]? = ps[j]?) : i = j :=
  (List.getElem?_inj hi h.linked.nodup).mp heq

/-- The screen starts at line `scr'` and the cursor enters line `c`. -/
theorem Wf.enter {cur scr : Nat} (h : S.Wf ps cur scr) (conf : EditConf) {p line : Option Ptr}
    {n : Int} {c scr' : Nat} (hp : p = ps[scr']?) (hl : line = ps[c]?) (hn : n = c)
    (hc : c < ps.length) (hle : scr' ≤ c) :
    (({ S with topScreen := p } : LineList).moveCursor conf line n).Wf ps c scr' := by
  have hthr : ({ S with topScreen := p } : LineList).Threaded ps := h.toThreaded.congr rfl rfl
  exact ⟨⟨⟨moveCursor_threaded hthr conf _ _, h.top, h.num⟩, h.bottom, hl, hc, hp, hle⟩, hn⟩

/-- A state that differs in the screen only. -/
theorem Wf.withScreen {cur scr : Nat} (h : S.Wf ps cur scr) {p : Option Ptr} {scr' : Nat}
    (hp : p = ps[scr']?) (hle : scr' ≤ cur) : ({ S with topScreen := p } : LineList).Wf ps cur scr' :=
  ⟨⟨⟨h.toThreaded.congr rfl rfl, h.top, h.num⟩, h.bottom, h.curLine, h.cur_lt, hp, hle⟩,
    h.numLine⟩

theorem Wf.modify {cur scr : Nat} (h : S.Wf ps cur scr) (p : Option Ptr) (f : Edit → Edit) :
    (S.modify p f).Wf ps cur scr :=
  ⟨⟨⟨h.toThreaded.modify p f, h.top, h.num⟩, h.bottom, h.curLine, h.cur_lt, h.screen, h.scr_le⟩,
    h.numLine⟩

theorem Wf.next_curLine {cur scr : Nat} (h : S.Wf ps cur scr) : S.next S.curLine = ps[cur + 1]? := by
  rw [h.curLine, h.next_index]

theorem Wf.prev_curLine {cur scr : Nat} (h : S.Wf ps cur scr) :
    S.prev S.curLine = if cur = 0 then none else ps[cur - 1]? := by
  rw [h.curLine, h.prev_index h.cur_lt]

theorem Wf.next_topScreen {cur scr : Nat} (h : S.Wf ps cur scr) :
    S.next S.topScreen = ps[scr + 1]? := by
  rw [h.screen, h.next_index]

theorem Wf.prev_topScreen {cur scr : Nat} (h : S.Wf ps cur scr) :
    S.prev S.topScreen = if scr = 0 then none else ps[scr - 1]? := by
  rw [h.screen, h.prev_index (Nat.lt_of_le_of_lt h.scr_le h.cur_lt)]

/-- **`Down`** moves to the next line, if there is one. -/
theorem Wf.down {cur scr : Nat} (h : S.Wf ps cur scr) (conf : EditConf) :
    ∃ scr', (S.down conf).Wf ps (if cur + 1 < ps.length then cur + 1 else cur) scr' := by
  have hle := h.scr_le
  by_cases hlast : cur + 1 < ps.length
  · have hnum : S.numLine + 1 = ((cur + 1 : Nat) : Int) := by rw [h.numLine]; omega
    rw [if_pos hlast, LineList.down, if_neg (by rw [h.next_curLine]; exact get_ne_none hlast)]
    simp only
    split
    · exact ⟨scr + 1, h.enter conf h.next_topScreen h.next_curLine hnum hlast (by omega)⟩
    · exact ⟨scr, h.enter conf h.screen h.next_curLine hnum hlast (by omega)⟩
  · have hnone : ps[cur + 1]? = none := by rw [List.getElem?_eq_none_iff]; omega
    rw [if_neg hlast, LineList.down, if_pos (h.next_curLine.trans hnone)]
    exact ⟨scr, h⟩

theorem Wf.scrollDown {cur scr : Nat} (h : S.Wf ps cur scr) (conf : EditConf) (allow : Bool) :
    ∃ cur' scr', (S.scrollDown conf allow).Wf ps cur' scr' := by
  have hle := h.scr_le
  by_cases hlast : cur + 1 < ps.length
  · have hnum : S.numLine + 1 = ((cur + 1 : Nat) : Int) := by rw [h.numLine]; omega
    have hne : ¬ (S.next S.curLine = none ∨ S.next S.topScreen = none) := by
      rw [h.next_curLine, h.next_topScreen]
      exact fun hor => hor.elim (get_ne_none hlast) (get_ne_none (by omega))
    rw [LineList.scrollDown, if_neg hne]
    split
    · obtain ⟨scr', hw⟩ := h.down conf
      exact ⟨_, scr', hw⟩
    · exact ⟨cur + 1, scr + 1,
        h.enter conf h.next_topScreen h.next_curLine hnum hlast (by omega)⟩
  · have hnone : ps[cur + 1]? = none := by rw [List.getElem?_eq_none_iff]; omega
    rw [LineList.scrollDown, if_pos (.inl (h.next_curLine.trans hnone))]
    exact ⟨cur, scr, h⟩

/-- **`Up`** moves to the previous line, if there is one. -/
theorem Wf.up {cur scr : Nat} (h : S.Wf ps cur scr) (conf : EditConf) :
    ∃ scr', (S.up conf).Wf ps (cur - 1) scr' := by
  have hle := h.scr_le
  have hlt := h.cur_lt
  by_cases h0 : cur = 0
  · rw [LineList.up, if_pos (by rw [h.prev_curLine, if_pos h0])]
    exact ⟨scr, by rw [h0] at h ⊢; exact h⟩
  · have hprev : S.prev S.curLine = ps[cur - 1]? := by rw [h.prev_curLine, if_neg h0]
    have hnum : S.numLine - 1 = ((cur - 1 : Nat) : Int) := by rw [h.numLine]; omega
    rw [LineList.up, if_neg (by rw [hprev]; exact get_ne_none (by omega))]
    simp only
    split
    · next heq =>
      -- the cursor is on the first line of the screen
      have hsc : cur = scr := h.place_inj hlt (h.curLine.symm.trans (heq.trans h.screen))
      have hscr : S.prev S.topScreen = ps[cur - 1]? := by
        rw [h.prev_topScreen, if_neg (by omega), hsc]
      exact ⟨cur - 1, h.enter conf hscr hprev hnum (by omega) (by omega)⟩
    · next hne =>
      have hsc : cur ≠ scr := fun heq => hne (by rw [h.curLine, h.screen, heq])
      exact ⟨scr, h.enter conf h.screen hprev hnum (by omega) (by omega)⟩

theorem Wf.scrollUp {cur scr : Nat} (h : S.Wf ps cur scr) (conf : EditConf) :
    ∃ cur' scr', (S.scrollUp conf).Wf ps cur' scr' := by
  have hle := h.scr_le
  have hlt := h.cur_lt
  rw [LineList.scrollUp]
  split
  · exact ⟨cur, scr, h⟩
  · next hc =>
    split
    · obtain ⟨scr', hw⟩ := h.up conf
      exact ⟨_, scr', hw⟩
    · next hs =>
      have h0 : cur ≠ 0 := fun heq => hc (by rw [h.prev_curLine, if_pos heq])
      have hs0 : scr ≠ 0 := fun heq => hs (by rw [h.prev_topScreen, if_pos heq])
      have hnum : S.numLine - 1 = ((cur - 1 : Nat) : Int) := by rw [h.numLine]; omega
      have hscr : S.prev S.topScreen = ps[scr - 1]? := by rw [h.prev_topScreen, if_neg hs0]
      have hcur : S.prev S.curLine = ps[cur - 1]? := by rw [h.prev_curLine, if_neg h0]
      exact ⟨cur - 1, scr - 1, h.enter conf hscr hcur hnum (by omega) (by omega)⟩

/-! ## `GoToLine` -/

/-- `CalcDistance` never counts past its target. -/
theorem calcDistanceLoop_le (h : S.Threaded ps) {t c : Nat} (htc : t ≤ c) (hc : c < ps.length) :
    ∀ (fuel : Nat) (maxDist : Option Nat),
      S.calcDistanceLoop ps[c]? fuel maxDist ps[t]? ≤ c - t
  | 0, _ => Nat.zero_le _
  | fuel + 1, maxDist => by
    rw [calcDistanceLoop]
    split
    · next hcond =>
      have htc' : t ≠ c := fun heq => hcond.1 (by rw [heq])
      rw [h.next_index]
      have := calcDistanceLoop_le h (t := t + 1) (by omega) hc fuel (maxDist.map (· - 1))
      omega
    · exact Nat.zero_le _

theorem Wf.calcDistance_le {cur scr : Nat} (h : S.Wf ps cur scr) (maxDist : Option Nat) :
    S.calcDistance S.topScreen S.curLine maxDist ≤ cur - scr := by
  rw [calcDistance, h.screen, h.curLine]
  exact calcDistanceLoop_le h.toThreaded h.scr_le h.cur_lt _ _

/-- Walking towards the top from line `c` ends on the line asked for, or on the first line. -/
theorem walkBack_spec (h : S.Threaded ps) (line : Int) :
    ∀ (fuel c : Nat), c < ps.length → c ≤ fuel →
      S.walkBack line fuel (ps[c]?, c) = (ps[min c line.toNat]?, ((min c line.toNat : Nat) : Int))
  | fuel, 0, hc, _ => by
    have h0 : min 0 line.toNat = 0 := by omega
    rw [h0]
    cases fuel with
    | zero => rfl
    | succ fuel =>
      rw [walkBack, if_neg]
      rintro ⟨_, hp⟩
      exact hp (by rw [h.prev_index hc, if_pos rfl])
  | fuel + 1, c + 1, hc, hf => by
    have hprev : S.prev ps[c + 1]? = ps[c]? := by rw [h.prev_index hc, if_neg (by omega)]; rfl
    rw [walkBack, hprev]
    by_cases hl : ((c + 1 : Nat) : Int) > line
    · have hm : min (c + 1) line.toNat = min c line.toNat := by omega
      have hcast : ((c + 1 : Nat) : Int) - 1 = (c : Int) := by omega
      rw [if_pos ⟨hl, get_ne_none (by omega)⟩, hcast,
        walkBack_spec h line fuel c (by omega) (by omega), hm]
    · have hm : min (c + 1) line.toNat = c + 1 := by omega
      rw [if_neg (fun hc => hl hc.1), hm]

/-- Walking towards the end from line `c` ends on the line asked for, or on the last line. -/
theorem walkFwd_spec (h : S.Threaded ps) (line : Int) :
    ∀ (fuel c : Nat), c < ps.length → ps.length ≤ fuel + c + 1 →
      S.walkFwd line fuel (ps[c]?, c)
        = (ps[max c (min line.toNat (ps.length - 1))]?,
            ((max c (min line.toNat (ps.length - 1)) : Nat) : Int))
  | 0, c, hc, hf => by
    have hm : max c (min line.toNat (ps.length - 1)) = c := by omega
    rw [hm]
    rfl
  | fuel + 1, c, hc, hf => by
    rw [walkFwd, h.next_index]
    by_cases hl : (c : Int) < line ∧ c + 1 < ps.length
    · have hm : max c (min line.toNat (ps.length - 1))
          = max (c + 1) (min line.toNat (ps.length - 1)) := by omega
      have hcast : (c : Int) + 1 = ((c + 1 : Nat) : Int) := by omega
      rw [if_pos ⟨hl.1, get_ne_none hl.2⟩, hcast,
        walkFwd_spec h line fuel (c + 1) hl.2 (by omega), hm]
    · have hm : max c (min line.toNat (ps.length - 1)) = c := by omega
      rw [if_neg, hm]
      rintro ⟨hlt, hne⟩
      rw [ne_eq, List.getElem?_eq_none_iff] at hne
      omega

/-- The line `GoToLine` can reach that is closest to the one asked for. -/
def clampLine (len : Nat) (line : Int) : Nat := min line.toNat (len - 1)

/-- From wherever `GoToLine` starts to walk, it arrives at the line asked for. -/
theorem Wf.goToLine_walk {cur scr : Nat} (h : S.Wf ps cur scr) (line : Int) :
    (if (S.goToLineStart line).2 then S.walkBack line S.fresh (S.goToLineStart line).1
      else S.walkFwd line S.fresh (S.goToLineStart line).1)
    = (ps[clampLine ps.length line]?, ((clampLine ps.length line : Nat) : Int)) := by
  have hlt := h.cur_lt
  have hlen := h.length_le_fresh
  have hback := fun c (hc : c < ps.length) => walkBack_spec h.toThreaded line S.fresh c hc (by omega)
  have hfwd := fun c (hc : c < ps.length) => walkFwd_spec h.toThreaded line S.fresh c hc (by omega)
  have hend : ((S.endList, S.numLastLine - 1) : Option Ptr × Int)
      = (ps[ps.length - 1]?, ((ps.length - 1 : Nat) : Int)) := by
    rw [h.bottom, h.num]
    congr 1
    omega
  have htop : ((S.topList, 0) : Option Ptr × Int) = (ps[0]?, ((0 : Nat) : Int)) := by
    rw [h.top]; rfl
  have hcur : ((S.curLine, S.numLine) : Option Ptr × Int) = (ps[cur]?, (cur : Int)) := by
    rw [h.curLine, h.numLine]
  have hnum := h.numLine
  simp only [goToLineStart]
  split
  · next hl =>
    split
    · have hm : min cur line.toNat = clampLine ps.length line := by rw [clampLine]; omega
      simp only [if_true]
      rw [hcur, hback cur hlt, hm]
    · have hm : max 0 (min line.toNat (ps.length - 1)) = clampLine ps.length line := by
        rw [clampLine]; omega
      simp only [Bool.false_eq_true, if_false]
      rw [htop, hfwd 0 (by omega), hm]
  · next hl =>
    split
    · have hm : min (ps.length - 1) line.toNat = clampLine ps.length line := by
        rw [clampLine]; omega
      simp only [if_true]
      rw [hend, hback (ps.length - 1) (by omega), hm]
    · have hm : max cur (min line.toNat (ps.length - 1)) = clampLine ps.length line := by
        rw [clampLine]; omega
      simp only [Bool.false_eq_true, if_false]
      rw [hcur, hfwd cur hlt, hm]

/-- **`GoToLine`** moves the cursor to the line asked for, or to the closest one. -/
theorem Wf.goToLine {cur scr : Nat} (h : S.Wf ps cur scr) (conf : EditConf) (line : Int) :
    ∃ scr', (S.goToLine conf line).Wf ps (clampLine ps.length line) scr' := by
  have hlt := h.cur_lt
  have hnum := h.numLine
  have hcl : clampLine ps.length line < ps.length := by rw [clampLine]; omega
  rw [LineList.goToLine]
  split
  · next heq =>
    have : clampLine ps.length line = cur := by rw [clampLine, heq, hnum]; omega
    exact ⟨scr, this ▸ h⟩
  · have hwalk := h.goToLine_walk line
    generalize S.goToLineStart line = gs at hwalk ⊢
    obtain ⟨start, rev⟩ := gs
    simp only at hwalk ⊢
    rw [hwalk]
    have hdist := h.calcDistance_le none
    have hsle := h.scr_le
    split
    · refine ⟨clampLine ps.length line, ?_⟩
      exact (@Wf.enter _ _ _ _ h conf _ _ _ _ 0 h.top rfl rfl hcl (Nat.zero_le _)).withScreen rfl (Nat.le_refl _)
    · next hc =>
      -- the screen is left alone only when it still starts above the cursor
      exact ⟨scr, h.enter conf h.screen rfl rfl hcl (by omega)⟩

/-! ## The screen -/

theorem screenUp_wf {cur scr : Nat} (fuel : Nat) (h : S.Wf ps cur scr) :
    ∃ scr', (S.screenUp fuel).Wf ps cur scr' := by
  induction fuel generalizing S scr with
  | zero => exact ⟨scr, h⟩
  | succ fuel ih =>
    rw [screenUp]
    have hle := h.scr_le
    split
    · next hc =>
      have hs0 : scr ≠ 0 := fun heq => hc.2 (by rw [h.prev_topScreen, if_pos heq])
      exact ih (h.withScreen (by rw [h.prev_topScreen, if_neg hs0]) (by omega))
    · exact ⟨scr, h⟩

theorem screenDown_wf {cur scr : Nat} (fuel : Nat) (h : S.Wf ps cur scr) :
    ∃ scr', (S.screenDown fuel).Wf ps cur scr' := by
  induction fuel generalizing S scr with
  | zero => exact ⟨scr, h⟩
  | succ fuel ih =>
    rw [screenDown]
    have hdist := h.calcDistance_le none
    split
    · next hc => exact ih (h.withScreen h.next_topScreen (by omega))
    · exact ⟨scr, h⟩

theorem alignScreen_wf {cur scr : Nat} (conf : EditConf) (curPos : Nat) :
    ∀ (rows : Nat) {S : LineList} (p : Option Ptr), S.Wf ps cur scr →
      (S.alignScreen conf curPos rows p).Wf ps cur scr
  | 0, _, _, h => h
  | _ + 1, _, none, h => h
  | rows + 1, _, some _, h => alignScreen_wf conf curPos rows _ (h.modify _ _)

/-- **`ShowEditor`** keeps the cursor where it is and the screen at or above it. -/
theorem Wf.showEditor {cur scr : Nat} (h : S.Wf ps cur scr) (conf : EditConf)
    (allow beyond only : Bool) : ∃ scr', (S.showEditor conf allow beyond only).Wf ps cur scr' := by
  rw [LineList.showEditor]
  split
  · exact ⟨scr, h⟩
  · have h1 : ∃ scr', (if allow = true then S else S.screenUp S.fresh).Wf ps cur scr' := by
      split
      · exact ⟨scr, h⟩
      · exact screenUp_wf _ h
    generalize (if allow = true then S else S.screenUp S.fresh) = S1 at h1 ⊢
    obtain ⟨scr1, h1⟩ := h1
    obtain ⟨scr2, h2⟩ := screenDown_wf S1.fresh h1
    simp only
    generalize S1.screenDown S1.fresh = S2 at h2 ⊢
    refine ⟨scr2, ?_⟩
    split
    · split
      · exact h2.modify _ _
      · exact h2
    · split
      · exact alignScreen_wf conf _ _ _ (h2.modify _ _)
      · exact alignScreen_wf conf _ _ _ h2

end Far2l.LineList
