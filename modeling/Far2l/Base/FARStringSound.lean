/-
Far2l.Base.FARStringSound — what is kept true of strings and their contents.

`Sound` says that each content is counted as often as it is held and is there exactly
while it is, and that each variable has the value that it is to have. It is kept when
a variable is given another content, when a variable is made or destroyed, and when a
content that only one variable holds is changed in place.
-/
import Far2l.Base.FARString
import Mathlib.Data.List.Forall2

namespace Far2l.Base

/-! ## Values -/

/-- What a cell is, against what it is to be: a cell that nothing has been written into may be anything. -/
def Cell.Agrees (cell cell' : Cell) : Prop := cell = none ∨ cell' = cell

/-- What a value is, against what it is to be. -/
def Agree (v w : Value) : Prop := v.Forall₂ Cell.Agrees w

theorem Agree.refl (v : Value) : Agree v v := List.forall₂_same.mpr fun _ _ => .inr rfl

theorem Agree.length {v w : Value} (h : Agree v w) : v.length = w.length := h.length_eq

theorem Agree.append {v v' w w' : Value} (h : Agree v w) (h' : Agree v' w') : Agree (v ++ v') (w ++ w') :=
  List.rel_append h h'

theorem Agree.take {v w : Value} (h : Agree v w) (n : Nat) : Agree (v.take n) (w.take n) :=
  List.forall₂_take n h

theorem Agree.drop {v w : Value} (h : Agree v w) (n : Nat) : Agree (v.drop n) (w.drop n) :=
  List.forall₂_drop n h

theorem Agree.splice {v w data data' : Value} (h : Agree v w) (hdata : Agree data data') (pos len : Nat) :
    Agree (splice v pos len data) (splice w pos len data') :=
  ((h.take pos).append hdata).append (h.drop (pos + len))

theorem Agree.set {v w : Value} (h : Agree v w) (pos : Nat) (cell : Cell) :
    Agree (v.set pos cell) (w.set pos cell) := by
  induction h generalizing pos with
  | nil => exact .nil
  | cons hcell htail ih =>
    cases pos with
    | zero => exact .cons (.inr rfl) htail
    | succ pos => exact .cons hcell (ih pos)

theorem Agree.map {v w : Value} (h : Agree v w) (char : WChar → WChar) :
    Agree (v.map (Option.map char)) (w.map (Option.map char)) := by
  refine List.rel_map (fun cell cell' hcell => ?_) h
  rcases hcell with rfl | rfl
  · exact .inl rfl
  · exact .inr rfl

/-- Cells that may be anything agree with whatever there is. -/
theorem agree_unwritten : ∀ w : Value, Agree (List.replicate w.length none) w
  | [] => .nil
  | _ :: w => .cons (.inl rfl) (agree_unwritten w)

/-! ## Contents -/

/-- The length is within the capacity, and there is a NUL at it. -/
structure Content.WellFormed (c : Content) : Prop where
  length_le : c.length ≤ c.capacity
  capacity_le : c.capacity ≤ UINT_MAX
  nul : c.data c.length = NUL

section

variable {c : Content} {n : Nat}

theorem Content.value_length (c : Content) : c.value.length = c.length := Cells.slice_length

/-- A length is set: what has been in front of it is the value. -/
theorem Content.setLength_value : (c.setLength n).value = c.data.slice 0 (min n c.capacity) :=
  Cells.slice_write_before (Nat.le_of_eq (Nat.zero_add _))

theorem Content.setLength_wellFormed (h : c.capacity ≤ UINT_MAX) : (c.setLength n).WellFormed :=
  ⟨Nat.min_le_right _ _, h, Cells.write_singleton⟩

/-- Nothing can be made of the empty content. -/
theorem sEmptyData_write (pos : Nat) : sEmptyData.write pos [NUL] = sEmptyData := by
  have hdata : Cells.write (fun _ => NUL) pos [NUL] = fun _ => NUL := by
    funext i
    by_cases hlt : i < pos
    · exact Cells.write_before hlt
    · by_cases heq : i = pos
      · rw [heq]
        exact Cells.write_singleton
      · refine Cells.write_behind ?_
        rw [List.length_singleton]
        omega
  rw [Content.write, sEmptyData, hdata]

theorem Content.write_nil (c : Content) (pos : Nat) : c.write pos [] = c := by
  have hdata : c.data.write pos [] = c.data := by
    funext i
    rw [Cells.write, List.getElem?_nil, Option.getD_none, ite_self]
  rw [Content.write, hdata]

theorem sEmptyData_setLength : sEmptyData.setLength n = sEmptyData := by
  have hwrite := sEmptyData_write 0
  have hmin : min n 0 = 0 := Nat.min_zero n
  rw [Content.setLength]
  show ({ sEmptyData with length := min n 0, data := Cells.write sEmptyData.data (min n 0) [NUL] } : Content) = _
  rw [hmin]
  exact hwrite

end

/-! ## Counting -/

/-- The contents, against who holds them: each is counted, it is there exactly while it is held, and it is
well formed; and the empty content is as it has been from the beginning. -/
structure HeapOk (m : Memory) (owners : List (Option Nat)) : Prop where
  counted : ∀ p ≠ emptySingleton, ∀ c, m.contents p = some c →
    c.refCount = owners.count (some p) ∧ 0 < c.refCount ∧ 0 < c.capacity
  there : ∀ p, some p ∈ owners → (m.contents p).isSome = true
  empty : m.contents emptySingleton = some sEmptyData
  next_pos : 0 < m.next
  fresh : ∀ p, m.next ≤ p → m.contents p = none
  wellFormed : ∀ p c, m.contents p = some c → c.WellFormed

/-- What a change leaves as it is: a content that is still there has its value. -/
def Keeps (m m' : Memory) : Prop :=
  ∀ p c c', m.contents p = some c → m'.contents p = some c' → c'.value = c.value

section

variable {m m' : Memory} {owners owners' : List (Option Nat)} {p : Nat} {c : Content}

/-- Only how often each content is held counts. -/
theorem HeapOk.congr (h : HeapOk m owners)
    (hcount : ∀ p ≠ emptySingleton, owners'.count (some p) = owners.count (some p)) : HeapOk m owners' where
  counted := fun p hp c hc => by
    rw [hcount p hp]
    exact h.counted p hp c hc
  there := fun p hmem => by
    by_cases hp : p = emptySingleton
    · rw [hp, h.empty]
      rfl
    · refine h.there p (List.count_pos_iff.mp ?_)
      rw [← hcount p hp]
      exact List.count_pos_iff.mpr hmem
  empty := h.empty
  next_pos := h.next_pos
  fresh := h.fresh
  wellFormed := h.wellFormed

theorem HeapOk.ne_next (h : HeapOk m owners) (hc : m.contents p = some c) : p ≠ m.next := by
  rintro rfl
  rw [h.fresh _ (Nat.le_refl _)] at hc
  exact nomatch hc

/-- The memory with a content at the next address. -/
def Memory.withNew (m : Memory) (c : Content) : Memory :=
  { m with contents := Function.update m.contents m.next (some c), next := m.next + 1 }

theorem modify_withNew (f : Content → Content) : (m.withNew c).modify m.next f = m.withNew (f c) := by
  rw [Memory.modify, Memory.withNew, Memory.withNew]
  dsimp only
  rw [Function.update_self, Option.map_some, Function.update_idem]

theorem keeps_withNew (h : HeapOk m owners) : Keeps m (m.withNew c) := by
  intro p c₀ c' hc hc'
  have hne := h.ne_next hc
  have hsame : (m.withNew c).contents p = m.contents p := Function.update_of_ne hne _ _
  rw [hsame, hc] at hc'
  rw [Option.some.inj hc']

/-- A new content is held by who has made it. -/
theorem HeapOk.withNew (h : HeapOk m owners) (hrefs : c.refCount = 1) (hcapacity : 0 < c.capacity)
    (hwf : c.WellFormed) : HeapOk (m.withNew c) (some m.next :: owners) := by
  have hnext : m.next ≠ emptySingleton := Nat.pos_iff_ne_zero.mp h.next_pos
  have hself : (m.withNew c).contents m.next = some c := Function.update_self _ _ _
  have hother : ∀ p, p ≠ m.next → (m.withNew c).contents p = m.contents p :=
    fun p hne => Function.update_of_ne hne _ _
  refine ⟨fun p hp c' hc' => ?_, fun p hmem => ?_, ?_, Nat.succ_pos _, fun p hle => ?_, fun p c' hc' => ?_⟩
  · by_cases heq : p = m.next
    · rw [heq, hself] at hc'
      obtain rfl := Option.some.inj hc'
      have hcount : owners.count (some m.next) = 0 := List.count_eq_zero.mpr fun hmem => by
        have := h.there _ hmem
        rw [h.fresh _ (Nat.le_refl _)] at this
        exact nomatch this
      rw [heq, List.count_cons_self, hcount, hrefs]
      exact ⟨rfl, Nat.one_pos, hcapacity⟩
    · rw [hother p heq] at hc'
      rw [List.count_cons_of_ne fun hsame => heq (Option.some.inj hsame).symm]
      exact h.counted p hp c' hc'
  · by_cases heq : p = m.next
    · rw [heq, hself]
      rfl
    · rw [hother p heq]
      refine h.there p ((List.mem_cons.mp hmem).resolve_left fun hsame => heq (Option.some.inj hsame))
  · rw [hother _ hnext.symm]
    exact h.empty
  · have hle : m.next + 1 ≤ p := hle
    rw [hother p (by omega)]
    exact h.fresh p (by omega)
  · by_cases heq : p = m.next
    · rw [heq, hself] at hc'
      exact Option.some.inj hc' ▸ hwf
    · rw [hother p heq] at hc'
      exact h.wellFormed p c' hc'

/-- The empty content may be held by anyone. -/
theorem HeapOk.holdEmpty (h : HeapOk m owners) : HeapOk m (some emptySingleton :: owners) :=
  h.congr fun _ hp => List.count_cons_of_ne fun hsame => hp (Option.some.inj hsame).symm

theorem modify_contents (hc : m.contents p = some c) (f : Content → Content) :
    (m.modify p f).contents p = some (f c) := by
  rw [Memory.modify]
  dsimp only
  rw [Function.update_self, hc, Option.map_some]

theorem modify_contents_ne {q : Nat} (h : q ≠ p) (f : Content → Content) :
    (m.modify p f).contents q = m.contents q := Function.update_of_ne h _ _

theorem modify_congr {f g : Content → Content} (hc : m.contents p = some c) (hfg : f c = g c) :
    m.modify p f = m.modify p g := by
  rw [Memory.modify, Memory.modify, hc, Option.map_some, Option.map_some, hfg]

/-- Nothing is changed where the content is left as it is. -/
theorem modify_self {f : Content → Content} (hc : m.contents p = some c) (hf : f c = c) : m.modify p f = m := by
  rw [Memory.modify, hc, Option.map_some, hf, ← hc, Function.update_eq_self]

theorem Keeps.refl (m : Memory) : Keeps m m := by
  intro p c c' hc hc'
  rw [hc] at hc'
  rw [Option.some.inj hc']

/-- A content is changed, but not its value. -/
theorem keeps_modify {f : Content → Content} (hc : m.contents p = some c) (hf : (f c).value = c.value) :
    Keeps m (m.modify p f) := by
  intro q c₁ c' hc₁ hc'
  by_cases heq : q = p
  · rw [heq] at hc₁ hc'
    rw [hc] at hc₁
    rw [modify_contents hc] at hc'
    rw [← Option.some.inj hc', ← Option.some.inj hc₁, hf]
  · rw [modify_contents_ne heq, hc₁] at hc'
    rw [Option.some.inj hc']

/-- A content is held more often, or less often. -/
theorem HeapOk.recount (h : HeapOk m owners) (hp : p ≠ emptySingleton) (hc : m.contents p = some c) {n : Nat}
    (hn : owners'.count (some p) = n) (hpos : 0 < n)
    (hothers : ∀ q ≠ emptySingleton, q ≠ p → owners'.count (some q) = owners.count (some q)) :
    HeapOk (m.modify p fun c => { c with refCount := n }) owners' := by
  have hself := modify_contents hc fun c => { c with refCount := n }
  refine ⟨fun q hq c' hc' => ?_, fun q hmem => ?_, ?_, h.next_pos, fun q hle => ?_, fun q c' hc' => ?_⟩
  · by_cases heq : q = p
    · rw [heq, hself] at hc'
      obtain rfl := Option.some.inj hc'
      rw [heq]
      exact ⟨hn.symm, hpos, (h.counted p hp c hc).2.2⟩
    · rw [modify_contents_ne heq] at hc'
      rw [hothers q hq heq]
      exact h.counted q hq c' hc'
  · by_cases heq : q = p
    · rw [heq, hself]
      rfl
    · rw [modify_contents_ne heq]
      by_cases hq : q = emptySingleton
      · rw [hq, h.empty]
        rfl
      · refine h.there q (List.count_pos_iff.mp ?_)
        rw [← hothers q hq heq]
        exact List.count_pos_iff.mpr hmem
  · rw [modify_contents_ne hp.symm]
    exact h.empty
  · have hne : q ≠ p := by
      rintro rfl
      rw [h.fresh q hle] at hc
      exact nomatch hc
    rw [modify_contents_ne hne]
    exact h.fresh q hle
  · by_cases heq : q = p
    · rw [heq, hself] at hc'
      obtain rfl := Option.some.inj hc'
      exact ⟨(h.wellFormed p c hc).length_le, (h.wellFormed p c hc).capacity_le, (h.wellFormed p c hc).nul⟩
    · rw [modify_contents_ne heq] at hc'
      exact h.wellFormed q c' hc'

/-- **`AddRef`**: one more holds the content, if the count does not overflow. -/
theorem HeapOk.addRef (h : HeapOk m owners) (hc : m.contents p = some c)
    (hcount : owners.count (some p) + 1 < 2 ^ 32) :
    HeapOk (m.addRef p) (some p :: owners) ∧ Keeps m (m.addRef p) := by
  by_cases hp : p = emptySingleton
  · rw [hp, h.empty] at hc
    obtain rfl := Option.some.inj hc
    have hself : m.addRef emptySingleton = m := modify_self h.empty (if_neg fun hne => hne rfl)
    rw [hp, hself]
    exact ⟨h.holdEmpty, Keeps.refl m⟩
  · obtain ⟨hrefs, -, hcapacity⟩ := h.counted p hp c hc
    have hmodify : m.addRef p = m.modify p fun c => { c with refCount := owners.count (some p) + 1 } := by
      refine modify_congr hc ?_
      rw [if_pos (Nat.pos_iff_ne_zero.mp hcapacity), hrefs, Nat.mod_eq_of_lt hcount]
    rw [hmodify]
    refine ⟨h.recount hp hc List.count_cons_self (Nat.succ_pos _) fun q _ hne => ?_, keeps_modify hc rfl⟩
    exact List.count_cons_of_ne fun hsame => hne (Option.some.inj hsame).symm

/-- **`DecRef`**: one less holds the content, and if it has been the last one, it is not there any more. -/
theorem HeapOk.decRef (h : HeapOk m (some p :: owners)) :
    ∃ m', m.decRef p = some m' ∧ HeapOk m' owners ∧ Keeps m m' ∧ m'.vars = m.vars
      ∧ (∀ q, q ≠ p ∨ q = emptySingleton → m'.contents q = m.contents q) := by
  obtain ⟨c, hc⟩ := Option.isSome_iff_exists.mp (h.there p List.mem_cons_self)
  have hothers : ∀ q ≠ emptySingleton, q ≠ p → owners.count (some q) = (some p :: owners).count (some q) :=
    fun q _ hne => (List.count_cons_of_ne fun hsame => hne (Option.some.inj hsame).symm).symm
  rw [Memory.decRef, hc]
  dsimp only
  by_cases hp : p = emptySingleton
  · have hrefs : c.refCount = 0 := by
      rw [hp, h.empty] at hc
      rw [← Option.some.inj hc]
      rfl
    refine ⟨m, if_pos hrefs, h.congr fun q hq => hothers q hq (by rwa [hp]), Keeps.refl m, rfl, fun _ _ => rfl⟩
  · obtain ⟨hrefs, hpos, -⟩ := h.counted p hp c hc
    rw [List.count_cons_self] at hrefs
    rw [if_neg (Nat.pos_iff_ne_zero.mp hpos)]
    by_cases hlast : owners.count (some p) = 0
    · have hone : ¬ (c.refCount ≠ 1 ∧ c.refCount - 1 ≠ 0) := by omega
      rw [if_neg hone, Memory.destroy, if_neg hp]
      have hother : ∀ {q}, q ≠ p → (Function.update m.contents p none) q = m.contents q :=
        fun hne => Function.update_of_ne hne _ _
      have hback : ∀ {q c'}, (Function.update m.contents p none) q = some c' → q ≠ p := by
        rintro q c' hc' rfl
        rw [Function.update_self] at hc'
        exact nomatch hc'
      refine ⟨_, rfl, ⟨fun q hq c' hc' => ?_, fun q hmem => ?_, ?_, h.next_pos, fun q hle => ?_, fun q c' hc' => ?_⟩,
        fun q c₁ c' hc₁ hc' => ?_, rfl, fun q hq => ?_⟩
      · have hc' : Function.update m.contents p none q = some c' := hc'
        have hne := hback hc'
        rw [hother hne] at hc'
        rw [hothers q hq hne]
        exact h.counted q hq c' hc'
      · have hne : q ≠ p := by
          rintro rfl
          exact List.count_eq_zero.mp hlast hmem
        show (Function.update m.contents p none q).isSome = true
        rw [hother hne]
        exact h.there q (List.mem_cons_of_mem _ hmem)
      · exact (hother (Ne.symm hp)).trans h.empty
      · show Function.update m.contents p none q = none
        by_cases heq : q = p
        · rw [heq, Function.update_self]
        · rw [hother heq]
          exact h.fresh q hle
      · have hc' : Function.update m.contents p none q = some c' := hc'
        rw [hother (hback hc')] at hc'
        exact h.wellFormed q c' hc'
      · have hc' : Function.update m.contents p none q = some c' := hc'
        rw [hother (hback hc'), hc₁] at hc'
        rw [Option.some.inj hc']
      · refine hother (hq.elim id fun heq => ?_)
        rw [heq]
        exact Ne.symm hp
    · have hmore : c.refCount ≠ 1 ∧ c.refCount - 1 ≠ 0 := by omega
      rw [if_pos hmore]
      have hmodify : m.modify p (fun c => { c with refCount := c.refCount - 1 })
          = m.modify p fun c => { c with refCount := owners.count (some p) } := by
        refine modify_congr hc ?_
        rw [hrefs, Nat.add_sub_cancel]
      rw [hmodify]
      refine ⟨_, rfl, h.recount hp hc rfl (Nat.pos_of_ne_zero hlast) hothers, keeps_modify hc rfl, rfl,
        fun q hq => modify_contents_ne (hq.elim id fun heq => ?_) _⟩
      rw [heq]
      exact Ne.symm hp

/-- Whose variables they are does not matter to the contents. -/
theorem HeapOk.withVars (h : HeapOk m owners) (vars : List (Option Nat)) :
    HeapOk { m with vars := vars } owners :=
  ⟨h.counted, h.there, h.empty, h.next_pos, h.fresh, h.wellFormed⟩

end

/-! ## Soundness -/

/-- What a variable has, against the value it is to have. -/
def Held (m : Memory) : Option (Option Nat) → Option (Option Value) → Prop
  | none, none => True
  | some none, some none => True
  | some (some p), some (some v) => ∃ c, m.contents p = some c ∧ Agree v c.value
  | _, _ => False

/-- **Each content is held as often as it is counted, and each variable has its value.** -/
structure Sound (m : Memory) (vals : Values) : Prop where
  heap : HeapOk m m.vars
  held : ∀ x : Nat, Held m m.vars[x]? vals[x]?

/-- A variable that has not been destroyed. -/
def Values.Live (vals : Values) (x : Nat) : Prop := ∃ v, vals[x]? = some (some v)

section

variable {m m₁ : Memory} {vals : Values} {x y p q : Nat} {c : Content} {v : Value}

theorem Held.keeps {a : Option (Option Nat)} {b : Option (Option Value)} (h : Held m a b) (hkeeps : Keeps m m₁)
    (hthere : ∀ p, a = some (some p) → (m₁.contents p).isSome = true) : Held m₁ a b := by
  match a, b, h with
  | none, none, _ => trivial
  | some none, some none, _ => trivial
  | some (some p), some (some v), ⟨c, hc, hagree⟩ =>
    obtain ⟨c', hc'⟩ := Option.isSome_iff_exists.mp (hthere p rfl)
    exact ⟨c', hc', by rwa [hkeeps p c c' hc hc']⟩

/-- Whose variables they are does not matter to what a variable has. -/
theorem Held.withVars {a : Option (Option Nat)} {b : Option (Option Value)} (h : Held m a b)
    (vars : List (Option Nat)) : Held { m with vars := vars } a b := by
  match a, b, h with
  | none, none, _ => trivial
  | some none, some none, _ => trivial
  | some (some p), some (some v), h => exact h

theorem Sound.length (h : Sound m vals) : m.vars.length = vals.length := by
  have hnone : ∀ x : Nat, m.vars[x]? = none ↔ vals[x]? = none := by
    intro x
    have hheld := h.held x
    match hvar : m.vars[x]?, hval : vals[x]? with
    | none, none => exact ⟨fun _ => rfl, fun _ => rfl⟩
    | some _, some _ => exact ⟨nofun, nofun⟩
    | none, some _ =>
      rw [hvar, hval] at hheld
      exact hheld.elim
    | some none, none =>
      rw [hvar, hval] at hheld
      exact hheld.elim
    | some (some _), none =>
      rw [hvar, hval] at hheld
      exact hheld.elim
  have hle := (hnone vals.length).mpr (List.getElem?_eq_none (Nat.le_refl _))
  have hge := (hnone m.vars.length).mp (List.getElem?_eq_none (Nat.le_refl _))
  rw [List.getElem?_eq_none_iff] at hle hge
  omega

/-- A live variable has a content, of its value. -/
theorem Sound.content (h : Sound m vals) (hx : vals.Live x) :
    ∃ p c, m.vars[x]? = some (some p) ∧ m.contents p = some c ∧ m.content x = some (p, c)
      ∧ c.WellFormed ∧ vals[x]? = some (some (vals.at_ x)) ∧ Agree (vals.at_ x) c.value
      ∧ (vals.at_ x).length = c.length := by
  obtain ⟨v, hv⟩ := hx
  have hheld := h.held x
  have hat : vals.at_ x = v := by
    rw [Values.at_, hv]
    rfl
  rw [hv] at hheld
  match hvar : m.vars[x]? with
  | none =>
    rw [hvar] at hheld
    exact hheld.elim
  | some none =>
    rw [hvar] at hheld
    exact hheld.elim
  | some (some p) =>
    rw [hvar] at hheld
    obtain ⟨c, hc, hagree⟩ := hheld
    refine ⟨p, c, rfl, hc, ?_, h.heap.wellFormed p c hc, by rw [hat, hv], by rwa [hat], ?_⟩
    · rw [Memory.content, hvar]
      dsimp only
      rw [hc]
      rfl
    · rw [hat, hagree.length, c.value_length]

/-- Where a value is given that is there already, nothing changes. -/
theorem Values.give_at (hx : vals[x]? = some (some v)) : vals.give x v = vals := by
  refine List.ext_getElem? fun y => ?_
  rw [Values.give, List.getElem?_set]
  by_cases heq : x = y
  · rw [if_pos heq, if_pos (List.getElem?_eq_some_iff.mp hx).1, ← heq, hx]
  · rw [if_neg heq]

theorem Values.give_give (w : Value) : (vals.give x w).give x v = vals.give x v := by
  rw [Values.give, Values.give, Values.give, List.set_set]

theorem Values.live_give (hx : vals.Live x) (v : Value) : (vals.give y v).Live x := by
  obtain ⟨w, hw⟩ := hx
  rw [Values.Live, Values.give, List.getElem?_set]
  by_cases heq : y = x
  · rw [if_pos heq, if_pos (heq ▸ (List.getElem?_eq_some_iff.mp hw).1)]
    exact ⟨v, rfl⟩
  · exact ⟨w, by rw [if_neg heq, hw]⟩

/-- How often a content is held when one variable has been given another one. -/
theorem count_assign {vars : List (Option Nat)} (hx : vars[x]? = some (some p)) (q r : Nat) :
    (some p :: vars.set x (some q)).count (some r) = (some q :: vars).count (some r) := by
  obtain ⟨hlt, hget⟩ := List.getElem?_eq_some_iff.mp hx
  have hmem : some p ∈ vars := hget ▸ List.getElem_mem hlt
  rw [List.count_cons, List.count_cons, List.count_set hlt, hget]
  by_cases hpr : p = r
  · have hpos : 0 < vars.count (some r) := List.count_pos_iff.mpr (hpr ▸ hmem)
    have hpr' : (some p == some r) = true := by rw [hpr, beq_self_eq_true]
    rw [if_pos hpr']
    omega
  · have hpr' : ¬ (some p == some r) = true := fun heq => hpr (Option.some.inj (eq_of_beq heq))
    rw [if_neg hpr']
    omega

/-- **A variable is given another content, and lets go of the one it has had.** -/
theorem Sound.renew (h : Sound m vals) (hx : m.vars[x]? = some (some p))
    (hheap : HeapOk m₁ (some q :: m.vars)) (hkeeps : Keeps m m₁) (hvars : m₁.vars = m.vars)
    (hq : m₁.contents q = some c) (hv : Agree v c.value) :
    ∃ m₂, m₁.renew x p q = some m₂ ∧ Sound m₂ (vals.give x v) ∧ m₂.vars[x]? = some (some q)
      ∧ (q ≠ p ∨ q = emptySingleton → m₂.contents q = some c) := by
  have hlt := (List.getElem?_eq_some_iff.mp hx).1
  have howners : HeapOk m₁ (some p :: m.vars.set x (some q)) :=
    hheap.congr fun r _ => count_assign hx q r
  obtain ⟨m₂, hdecRef, hheap₂, hkeeps₂, hvars₂, hsame⟩ := howners.decRef
  have hself : (m₂.assign x q).vars[x]? = some (some q) := by
    rw [Memory.assign, hvars₂, hvars]
    dsimp only
    rw [List.getElem?_set, if_pos rfl, if_pos hlt]
  refine ⟨m₂.assign x q, ?_, ⟨?_, fun y => ?_⟩, hself, fun hne => (hsame q hne).trans hq⟩
  · rw [Memory.renew, hdecRef]
    rfl
  · rw [Memory.assign, hvars₂, hvars]
    exact hheap₂.withVars _
  · by_cases heq : x = y
    · have hlt' : x < vals.length := h.length ▸ hlt
      rw [← heq, hself, Values.give, List.getElem?_set, if_pos rfl, if_pos hlt']
      have hthere := hheap₂.there q (List.mem_of_getElem? (by rw [List.getElem?_set, if_pos rfl, if_pos hlt]))
      obtain ⟨c₂, hc₂⟩ := Option.isSome_iff_exists.mp hthere
      exact ⟨c₂, hc₂, by rwa [hkeeps₂ q c c₂ hq hc₂]⟩
    · have hvar : (m₂.assign x q).vars[y]? = m.vars[y]? := by
        rw [Memory.assign, hvars₂, hvars]
        dsimp only
        rw [List.getElem?_set, if_neg heq]
      rw [hvar, Values.give, List.getElem?_set, if_neg heq]
      have hheld₁ := (h.held y).keeps hkeeps fun r hr =>
        hheap.there r (List.mem_cons_of_mem _ (List.mem_of_getElem? hr))
      refine hheld₁.keeps hkeeps₂ fun r hr => hheap₂.there r (List.mem_of_getElem? (i := y) ?_)
      rw [List.getElem?_set, if_neg heq, hr]

/-- **A variable is made that holds a content.** -/
theorem Sound.push (h : Sound m vals) (hheap : HeapOk m₁ (some q :: m.vars)) (hkeeps : Keeps m m₁)
    (hq : m₁.contents q = some c) (hv : Agree v c.value) :
    Sound { m₁ with vars := m.vars ++ [some q] } (vals ++ [some v]) := by
  refine ⟨(hheap.congr fun r _ => ?_).withVars _, fun y => ?_⟩
  · rw [List.count_append, List.count_cons, List.count_cons, List.count_nil, Nat.zero_add]
  · show Held { m₁ with vars := m.vars ++ [some q] } (m.vars ++ [some q])[y]? (vals ++ [some v])[y]?
    by_cases hlt : y < m.vars.length
    · rw [List.getElem?_append_left hlt, List.getElem?_append_left (h.length ▸ hlt)]
      have hheld := (h.held y).keeps hkeeps fun r hr =>
        hheap.there r (List.mem_cons_of_mem _ (List.mem_of_getElem? hr))
      exact hheld.withVars _
    · rw [List.getElem?_append_right (by omega), List.getElem?_append_right (by rw [← h.length]; omega), h.length]
      match y - vals.length with
      | 0 => exact ⟨c, hq, hv⟩
      | _ + 1 => trivial

/-- Only one variable holds a content that is counted once. -/
theorem Sound.alone (h : Sound m vals) (hx : m.vars[x]? = some (some p)) (hc : m.contents p = some c)
    (hp : p ≠ emptySingleton) (hrefs : c.refCount = 1) (hy : m.vars[y]? = some (some p)) : x = y := by
  by_contra hne
  obtain ⟨hlt, hget⟩ := List.getElem?_eq_some_iff.mp hx
  have hcount := (h.heap.counted p hp c hc).1
  have hset := List.count_set (a := none) (b := some p) hlt
  have hmem : some p ∈ m.vars.set x none :=
    List.mem_of_getElem? (i := y) (by rw [List.getElem?_set, if_neg hne, hy])
  have hpos := List.count_pos_iff.mpr hmem
  rw [hget, if_pos (beq_self_eq_true _), ← hcount, hrefs] at hset
  have hnone : ¬ ((none : Option Nat) == some p) = true := Bool.false_ne_true
  rw [if_neg hnone] at hset
  omega

/-- What may be written into in place. -/
def Owned (p : Nat) (c : Content) : Prop := (p ≠ emptySingleton ∧ c.refCount = 1) ∨ p = emptySingleton

/-- **A content that only one variable holds is changed in place.** Nothing is made of the empty one. -/
theorem Sound.modify (h : Sound m vals) (hx : m.vars[x]? = some (some p)) (hc : m.contents p = some c)
    (howned : Owned p c) {f : Content → Content} (hrefs : (f c).refCount = c.refCount)
    (hcapacity : (f c).capacity = c.capacity) (hwf : (f c).WellFormed) (hv : Agree v (f c).value)
    (hempty : p = emptySingleton → f c = c) :
    Sound (m.modify p f) (vals.give x v) := by
  have hlt := (List.getElem?_eq_some_iff.mp hx).1
  have hlt' : x < vals.length := h.length ▸ hlt
  have hself : (m.modify p f).contents p = some (f c) := modify_contents hc f
  have hvars : (m.modify p f).vars = m.vars := rfl
  have hheld : ∀ y, x ≠ y → Held (m.modify p f) m.vars[y]? vals[y]? := by
    intro y hne
    rcases howned with ⟨hp, hone⟩ | hp
    · have hheld := h.held y
      match hvar : m.vars[y]?, hval : vals[y]? with
      | none, none => trivial
      | some none, some none => trivial
      | some (some r), some (some w) =>
        rw [hvar, hval] at hheld
        obtain ⟨c', hc', hagree⟩ := hheld
        have hr : r ≠ p := fun heq => hne (h.alone hx hc hp hone (heq ▸ hvar))
        exact ⟨c', by rw [modify_contents_ne hr, hc'], hagree⟩
      | none, some _ => rw [hvar, hval] at hheld; exact hheld.elim
      | some none, none => rw [hvar, hval] at hheld; exact hheld.elim
      | some none, some (some _) => rw [hvar, hval] at hheld; exact hheld.elim
      | some (some _), none => rw [hvar, hval] at hheld; exact hheld.elim
      | some (some _), some none => rw [hvar, hval] at hheld; exact hheld.elim
    · rw [modify_self hc (hempty hp)]
      exact h.held y
  refine ⟨?_, fun y => ?_⟩
  · rw [hvars]
    refine ⟨fun r hr c' hc' => ?_, fun r hmem => ?_, ?_, h.heap.next_pos, fun r hle => ?_, fun r c' hc' => ?_⟩
    · by_cases heq : r = p
      · rw [heq, hself] at hc'
        obtain rfl := Option.some.inj hc'
        rw [hrefs, hcapacity, heq]
        exact h.heap.counted p (heq ▸ hr) c hc
      · rw [modify_contents_ne heq] at hc'
        exact h.heap.counted r hr c' hc'
    · by_cases heq : r = p
      · rw [heq, hself]
        rfl
      · rw [modify_contents_ne heq]
        exact h.heap.there r hmem
    · by_cases hp : emptySingleton = p
      · rw [hp, hself, hempty hp.symm, ← hc, ← hp, h.heap.empty]
      · rw [modify_contents_ne hp, h.heap.empty]
    · have hne : r ≠ p := by
        rintro rfl
        rw [h.heap.fresh r hle] at hc
        exact nomatch hc
      rw [modify_contents_ne hne]
      exact h.heap.fresh r hle
    · by_cases heq : r = p
      · rw [heq, hself] at hc'
        exact Option.some.inj hc' ▸ hwf
      · rw [modify_contents_ne heq] at hc'
        exact h.heap.wellFormed r c' hc'
  · rw [hvars]
    by_cases heq : x = y
    · rw [← heq, hx, Values.give, List.getElem?_set, if_pos rfl, if_pos hlt']
      exact ⟨f c, hself, hv⟩
    · rw [Values.give, List.getElem?_set, if_neg heq]
      exact hheld y heq

/-- **A variable is destroyed.** -/
theorem Sound.release (h : Sound m vals) (hx : m.vars[x]? = some (some p)) :
    ∃ m', m.decRef p = some m' ∧ Sound { m' with vars := m'.vars.set x none } (vals.set x none) := by
  obtain ⟨hlt, hget⟩ := List.getElem?_eq_some_iff.mp hx
  have hlt' : x < vals.length := h.length ▸ hlt
  have howners : HeapOk m (some p :: m.vars.set x none) := h.heap.congr fun r _ => by
    have hmem : some p ∈ m.vars := hget ▸ List.getElem_mem hlt
    have hnone : ¬ ((none : Option Nat) == some r) = true := Bool.false_ne_true
    rw [List.count_cons, List.count_set hlt, hget, if_neg hnone]
    by_cases hpr : p = r
    · have hpos : 0 < m.vars.count (some r) := List.count_pos_iff.mpr (hpr ▸ hmem)
      have hpr' : (some p == some r) = true := by rw [hpr, beq_self_eq_true]
      rw [if_pos hpr']
      omega
    · have hpr' : ¬ (some p == some r) = true := fun heq => hpr (Option.some.inj (eq_of_beq heq))
      rw [if_neg hpr']
      omega
  obtain ⟨m', hdecRef, hheap, hkeeps, hvars, -⟩ := howners.decRef
  refine ⟨m', hdecRef, ?_, fun y => ?_⟩
  · rw [hvars]
    exact hheap.withVars _
  · show Held { m' with vars := m'.vars.set x none } (m'.vars.set x none)[y]? (vals.set x none)[y]?
    rw [hvars, List.getElem?_set, List.getElem?_set]
    by_cases heq : x = y
    · rw [if_pos heq, if_pos heq, if_pos hlt, if_pos hlt']
      trivial
    · rw [if_neg heq, if_neg heq]
      have hheld : Held m' m.vars[y]? vals[y]? := (h.held y).keeps hkeeps fun r hr =>
        hheap.there r (List.mem_of_getElem? (i := y) (by rw [List.getElem?_set, if_neg heq, hr]))
      exact hheld.withVars _

/-! ## Letting go, and other changes -/

theorem decRef_assign (m : Memory) (p x q : Nat) :
    (m.assign x q).decRef p = (m.decRef p).map (·.assign x q) := by
  rw [Memory.decRef, Memory.decRef]
  have hsame : (m.assign x q).contents p = m.contents p := rfl
  rw [hsame]
  cases m.contents p with
  | none => rfl
  | some c =>
    dsimp only
    split
    · rfl
    · split
      · rfl
      · rw [Memory.destroy, Memory.destroy]
        split
        · rfl
        · rfl

/-- Another content may be changed before or after. -/
theorem decRef_modify (hne : q ≠ p) (f : Content → Content) :
    (m.modify q f).decRef p = (m.decRef p).map (·.modify q f) := by
  rw [Memory.decRef, Memory.decRef, modify_contents_ne (Ne.symm hne)]
  cases hp : m.contents p with
  | none => rfl
  | some c =>
    dsimp only
    split
    · rfl
    · split
      · refine congrArg some ?_
        simp only [Memory.modify, Function.update_of_ne hne, Function.update_of_ne (Ne.symm hne)]
        rw [Function.update_comm hne]
      · rw [Memory.destroy, Memory.destroy]
        split
        · rfl
        · refine congrArg some ?_
          simp only [Memory.modify, Function.update_of_ne hne]
          rw [Function.update_comm hne]

theorem renew_modify (hne : q ≠ p) (f : Content → Content) (x : Nat) :
    (m.renew x p q).map (·.modify q f) = (m.modify q f).renew x p q := by
  rw [Memory.renew, Memory.renew, decRef_modify hne, Option.map_map, Option.map_map]
  rfl

/-- And a new one may be made before or after. -/
theorem decRef_withNew (hne : p ≠ m.next) (c : Content) :
    (m.withNew c).decRef p = (m.decRef p).map (·.withNew c) := by
  have hsame : (m.withNew c).contents p = m.contents p := Function.update_of_ne hne _ _
  rw [Memory.decRef, Memory.decRef, hsame]
  cases hp : m.contents p with
  | none => rfl
  | some c' =>
    dsimp only
    split
    · rfl
    · split
      · refine congrArg some ?_
        simp only [Memory.modify, Memory.withNew, Function.update_of_ne hne]
        rw [Function.update_comm hne]
      · rw [Memory.destroy, Memory.destroy]
        split
        · rfl
        · refine congrArg some ?_
          simp only [Memory.withNew]
          rw [Function.update_comm hne]

theorem modify_modify (p : Nat) (f g : Content → Content) :
    (m.modify p f).modify p g = m.modify p fun c => g (f c) := by
  rw [Memory.modify, Memory.modify, Memory.modify]
  dsimp only
  rw [Function.update_self, Function.update_idem, Option.map_map]
  rfl

theorem create_of_ne_zero {n : Nat} (hn : n ≠ 0) : m.create n = (m.next, m.withNew (Content.fresh n)) := if_neg hn

theorem create_zero (m : Memory) : m.create 0 = (emptySingleton, m) := if_pos rfl

/-! ## What can be written into -/

/-- A variable whose content may be changed in place, and the value that it has. -/
structure Writable (m : Memory) (vals : Values) (x p : Nat) (c : Content) (v : Value) : Prop where
  sound : Sound m (vals.give x v)
  var : m.vars[x]? = some (some p)
  there : m.contents p = some c
  owned : Owned p c

theorem Writable.content (h : Writable m vals x p c v) : m.content x = some (p, c) := by
  rw [Memory.content, h.var]
  dsimp only
  rw [h.there]
  rfl

theorem Writable.wellFormed (h : Writable m vals x p c v) : c.WellFormed :=
  h.sound.heap.wellFormed p c h.there

theorem Writable.agree (h : Writable m vals x p c v) : Agree v c.value := by
  have hheld := h.sound.held x
  have hlt := (List.getElem?_eq_some_iff.mp h.var).1
  have hlt' : x < vals.length := by
    have := h.sound.length
    rw [Values.give, List.length_set] at this
    omega
  rw [h.var, Values.give, List.getElem?_set, if_pos rfl, if_pos hlt'] at hheld
  obtain ⟨c', hc', hagree⟩ := hheld
  rw [h.there] at hc'
  rwa [Option.some.inj hc']

theorem Writable.length (h : Writable m vals x p c v) : v.length = c.length := by
  rw [h.agree.length, c.value_length]

theorem Writable.eq_empty (h : Writable m vals x p c v) (hp : p = emptySingleton) : c = sEmptyData := by
  have hthere := h.there
  rw [hp, h.sound.heap.empty] at hthere
  exact (Option.some.inj hthere).symm

/-- It is changed. -/
theorem Writable.modify (h : Writable m vals x p c v) {f : Content → Content} {w : Value}
    (hrefs : (f c).refCount = c.refCount) (hcapacity : (f c).capacity = c.capacity)
    (hwf : (f c).WellFormed) (hw : Agree w (f c).value) (hempty : c = sEmptyData → f c = c) :
    Writable (m.modify p f) vals x p (f c) w := by
  refine ⟨?_, h.var, modify_contents h.there f, h.owned.imp_left fun ⟨hp, hone⟩ => ⟨hp, hrefs.trans hone⟩⟩
  have hsound := h.sound.modify h.var h.there h.owned hrefs hcapacity hwf hw fun hp => hempty (h.eq_empty hp)
  rwa [Values.give_give] at hsound

/-- A sound memory where a variable's content is its own already. -/
theorem Sound.writable (h : Sound m vals) (hx : vals.Live x) (hvar : m.vars[x]? = some (some p))
    (hc : m.contents p = some c) (hrefs : c.refCount = 1) : Writable m vals x p c (vals.at_ x) := by
  obtain ⟨_, _, -, -, -, -, hval, -⟩ := h.content hx
  refine ⟨by rwa [Values.give_at hval], hvar, hc, ?_⟩
  by_cases hp : p = emptySingleton
  · exact .inr hp
  · exact .inl ⟨hp, hrefs⟩

/-! ## New contents -/

/-- What `create` gives, when it has been filled: nothing is made of the empty content. -/
def filled (n : Nat) (f : Content → Content) : Content := if n = 0 then sEmptyData else f (Content.fresh n)

/-- A content that is made and filled. -/
structure Fills (n : Nat) (f : Content → Content) : Prop where
  refs : (f (Content.fresh n)).refCount = 1
  capacity : (f (Content.fresh n)).capacity = min n UINT_MAX
  wellFormed : n ≠ 0 → (f (Content.fresh n)).WellFormed
  empty : n = 0 → f sEmptyData = sEmptyData

/-- **A variable is given a new content**, which is its own. -/
theorem Sound.renewFilled (h : Sound m vals) (hvar : m.vars[x]? = some (some p)) (hc : m.contents p = some c)
    {n : Nat} {f : Content → Content} (hf : Fills n f) (hv : Agree v (filled n f).value) :
    ∃ m₂, ((m.create n).2.modify (m.create n).1 f).renew x p (m.create n).1 = some m₂
      ∧ Writable m₂ vals x (m.create n).1 (filled n f) v := by
  by_cases hn : n = 0
  · have hfilled : filled n f = sEmptyData := if_pos hn
    have hself : m.modify emptySingleton f = m := modify_self h.heap.empty (hf.empty hn)
    rw [hfilled] at hv ⊢
    rw [hn, create_zero]
    dsimp only
    rw [hself]
    obtain ⟨m₂, hrenew, hsound, hvar₂, hthere⟩ :=
      h.renew hvar h.heap.holdEmpty (Keeps.refl m) rfl h.heap.empty hv
    exact ⟨m₂, hrenew, hsound, hvar₂, hthere (.inr rfl), .inr rfl⟩
  · have hfilled : filled n f = f (Content.fresh n) := if_neg hn
    have hcapacity : 0 < (f (Content.fresh n)).capacity := by
      rw [hf.capacity, UINT_MAX]
      omega
    rw [hfilled] at hv ⊢
    rw [create_of_ne_zero hn]
    dsimp only
    rw [modify_withNew]
    have hnext : (m.withNew (f (Content.fresh n))).contents m.next = some (f (Content.fresh n)) :=
      Function.update_self _ _ _
    obtain ⟨m₂, hrenew, hsound, hvar₂, hthere⟩ := h.renew hvar
      (h.heap.withNew hf.refs hcapacity (hf.wellFormed hn)) (keeps_withNew h.heap) rfl hnext hv
    refine ⟨m₂, hrenew, hsound, hvar₂, hthere (.inl (h.heap.ne_next hc).symm), .inl ⟨?_, hf.refs⟩⟩
    exact Nat.pos_iff_ne_zero.mp h.heap.next_pos

/-- **A variable is made that has a new content.** -/
theorem Sound.pushFilled (h : Sound m vals) {n : Nat} {f : Content → Content} (hf : Fills n f)
    (hv : Agree v (filled n f).value) :
    Sound { (m.create n).2.modify (m.create n).1 f with vars := m.vars ++ [some (m.create n).1] }
      (vals ++ [some v]) := by
  by_cases hn : n = 0
  · have hfilled : filled n f = sEmptyData := if_pos hn
    have hself : m.modify emptySingleton f = m := modify_self h.heap.empty (hf.empty hn)
    rw [hfilled] at hv
    rw [hn, create_zero]
    dsimp only
    rw [hself]
    exact h.push h.heap.holdEmpty (Keeps.refl m) h.heap.empty hv
  · have hfilled : filled n f = f (Content.fresh n) := if_neg hn
    have hcapacity : 0 < (f (Content.fresh n)).capacity := by
      rw [hf.capacity, UINT_MAX]
      omega
    rw [hfilled] at hv
    rw [create_of_ne_zero hn]
    dsimp only
    rw [modify_withNew]
    exact h.push (h.heap.withNew hf.refs hcapacity (hf.wellFormed hn)) (keeps_withNew h.heap)
      (Function.update_self _ _ _) hv

end

end Far2l.Base
