/-
Far2l.Base.FARStringMethods — what each method of a string does to a sound memory.

Each theorem says that the method comes to an end and that the memory is sound again,
with the value that the method is to give.
-/
import Far2l.Base.FARStringSound

namespace Far2l.Base

section

variable {m m₁ : Memory} {vals : Values} {x y p q : Nat} {c : Content} {v : Value}

/-! ## `PrepareForModify` -/

/-- What `createFrom` does to what it has made. -/
def copied (n : Nat) (src : Value) (c : Content) : Content :=
  { (c.write 0 (src.take (min (min n src.length) UINT_MAX))).write (min (min n src.length) UINT_MAX) [NUL] with
    length := min (min n src.length) UINT_MAX }

theorem createFrom_eq (m : Memory) (n : Nat) (src : Value) :
    m.createFrom n src = ((m.create n).1, (m.create n).2.modify (m.create n).1 (copied n src)) := rfl

theorem copied_empty (src : Value) : copied 0 src sEmptyData = sEmptyData := by
  have hmin : min (min 0 src.length) UINT_MAX = 0 := by rw [Nat.zero_min, Nat.zero_min]
  rw [copied, hmin, List.take_zero, Content.write_nil, sEmptyData_write]
  rfl

theorem copied_slice (n : Nat) (src : Value) (c : Content) :
    (copied n src c).data.slice 0 (min (min n src.length) UINT_MAX) = src.take (min (min n src.length) UINT_MAX) := by
  have hlength : (src.take (min (min n src.length) UINT_MAX)).length = min (min n src.length) UINT_MAX := by
    rw [List.length_take]
    omega
  have hslice := Cells.slice_write c.data 0 (src.take (min (min n src.length) UINT_MAX))
  rw [hlength] at hslice
  exact (Cells.slice_write_before (Nat.le_of_eq (Nat.zero_add _))).trans hslice

/-- A copy is well formed and has the characters that there has been room for. -/
theorem fills_copied (n : Nat) (src : Value) : Fills n (copied n src) where
  refs := rfl
  capacity := rfl
  wellFormed := fun _ => by
    refine ⟨?_, Nat.min_le_right _ _, Cells.write_singleton⟩
    show min (min n src.length) UINT_MAX ≤ min n UINT_MAX
    omega
  empty := fun h => h ▸ copied_empty src

theorem filled_copied (n : Nat) (src : Value) :
    (filled n (copied n src)).value = src.take (min (min n src.length) UINT_MAX) := by
  by_cases hn : n = 0
  · rw [filled, if_pos hn, hn, Nat.zero_min, Nat.zero_min, List.take_zero]
    rfl
  · rw [filled, if_neg hn]
    exact copied_slice n src _

/-- Its length is set to the one it was made from. -/
theorem fills_copied_setLength (n : Nat) (src : Value) :
    Fills n fun c => (copied n src c).setLength src.length where
  refs := rfl
  capacity := rfl
  wellFormed := fun _ => Content.setLength_wellFormed (Nat.min_le_right _ _)
  empty := fun h => by
    rw [h, copied_empty, sEmptyData_setLength]

theorem filled_copied_setLength {n : Nat} {src : Value} (h : src.length ≤ UINT_MAX) :
    (filled n fun c => (copied n src c).setLength src.length).value = src.take n := by
  by_cases hn : n = 0
  · rw [filled, if_pos hn, hn, List.take_zero]
    rfl
  · have hcapacity : (copied n src (Content.fresh n)).capacity = min n UINT_MAX := rfl
    have hmin : min src.length (min n UINT_MAX) = min (min n src.length) UINT_MAX := by omega
    have htake : src.take (min (min n src.length) UINT_MAX) = src.take n := by
      rw [Nat.min_eq_left (by omega), List.take_eq_take_min, Nat.min_assoc, Nat.min_self,
        ← List.take_eq_take_min]
    rw [filled, if_neg hn, Content.setLength_value, hcapacity, hmin, copied_slice, htake]

/-- **`PrepareForModify`**: afterwards the content is the variable's own, there is the room that has been asked
for, and the value is as before, or what there is room for of it. -/
theorem Sound.prepareForModify (h : Sound m vals) (hx : vals.Live x) (n : Nat) :
    ∃ m' p c w, m.prepareForModify x n = some m' ∧ Writable m' vals x p c w ∧ min n UINT_MAX ≤ c.capacity
      ∧ (w = vals.at_ x ∨ w = (vals.at_ x).take n) := by
  obtain ⟨p, c, hvar, hc, hcontent, hwf, hval, hagree, hlength⟩ := h.content hx
  rw [Memory.prepareForModify, hcontent]
  dsimp only
  by_cases hcopy : c.refCount ≠ 1 ∨ n > c.capacity
  · rw [if_pos hcopy, createFrom_eq]
    generalize hN : (if c.capacity > 0 ∧ n > c.capacity then n + max (n - c.capacity) 16 else n) = N
    have hroom : n ≤ N ∧ (N = n ∨ c.length ≤ N) := by
      have := hwf.length_le
      split at hN <;> omega
    have hle : c.value.length ≤ UINT_MAX := by
      rw [c.value_length]
      exact Nat.le_trans hwf.length_le hwf.capacity_le
    have hvalue := filled_copied_setLength (n := N) hle
    rw [c.value_length] at hvalue
    have hfills := fills_copied_setLength N c.value
    rw [c.value_length] at hfills
    dsimp only
    rw [modify_modify]
    obtain ⟨m₂, hrenew, hwritable⟩ := h.renewFilled hvar hc hfills (v := (vals.at_ x).take N) (by
      rw [hvalue]
      exact hagree.take N)
    refine ⟨m₂, _, _, _, hrenew, hwritable, ?_, ?_⟩
    · rw [filled]
      split
      · next hzero =>
        have : n = 0 := by omega
        rw [this]
        exact Nat.zero_le _
      · rw [hfills.capacity]
        omega
    · rcases hroom.2 with rfl | hle
      · exact .inr rfl
      · exact .inl (List.take_of_length_le (hlength ▸ hle))
  · rw [if_neg hcopy]
    obtain ⟨hrefs, hroom⟩ := not_or.mp hcopy
    exact ⟨m, p, c, _, rfl, h.writable hx hvar hc (of_not_not hrefs), by omega, .inl rfl⟩

/-! ## `Replace` -/

/-- Writing within the length. -/
theorem Content.write_value {chars : Value} {pos : Nat} (hle : pos + chars.length ≤ c.length) :
    (c.write pos chars).value = splice c.value pos chars.length chars := by
  obtain ⟨rest, hrest⟩ := Nat.exists_eq_add_of_le hle
  have hvalue : (c.write pos chars).value = (c.data.write pos chars).slice 0 (pos + chars.length + rest) := by
    rw [← hrest]
    rfl
  rw [hvalue, Cells.slice_add, Cells.slice_add, Nat.zero_add, Nat.zero_add,
    Cells.slice_write_before (Nat.le_of_eq (Nat.zero_add _)), Cells.slice_write,
    Cells.slice_write_behind (Nat.le_refl _), splice, Content.value, hrest, Cells.slice_take,
    Cells.slice_drop, Nat.zero_add, Nat.add_sub_cancel_left]
  rw [Nat.min_eq_left (by omega)]

theorem Content.WellFormed.write (h : c.WellFormed) {chars : Value} {pos : Nat}
    (hle : pos + chars.length ≤ c.length) : (c.write pos chars).WellFormed :=
  ⟨h.length_le, h.capacity_le, (Cells.write_behind hle).trans h.nul⟩

/-- Three pieces, one behind the other. -/
theorem slice_pieces (cells : Cells Cell) (front data back : Value)
    (hfront : cells.slice 0 front.length = front)
    (hdata : cells.slice front.length data.length = data)
    (hback : cells.slice (front.length + data.length) back.length = back) :
    cells.slice 0 (front.length + data.length + back.length) = front ++ data ++ back := by
  rw [Cells.slice_add, Cells.slice_add, Nat.zero_add, Nat.zero_add, hfront, hdata, hback]

section

variable {pos len : Nat} {data : Value}

/-- What is in front of a part, and what is behind it. -/
theorem value_front (h : pos ≤ c.length) : c.data.slice 0 pos = c.value.take pos := by
  rw [Content.value, Cells.slice_take, Nat.min_eq_left h]

theorem value_behind (c : Content) (pos len : Nat) :
    c.data.slice (pos + len) (c.length - pos - len) = c.value.drop (pos + len) := by
  rw [Content.value, Cells.slice_drop, Nat.zero_add, Nat.sub_sub]

/-- A part is replaced in place. -/
theorem inPlace_value (hle : pos + len ≤ c.length) (hroom : c.length + data.length - len ≤ c.capacity) :
    (((c.write (pos + data.length) (c.data.slice (pos + len) (c.length - pos - len))).write pos data).setLength
      (c.length + data.length - len)).value = splice c.value pos len data := by
  have hlength : c.length + data.length - len
      = (c.data.slice 0 pos).length + data.length + (c.data.slice (pos + len) (c.length - pos - len)).length := by
    rw [Cells.slice_length, Cells.slice_length]
    omega
  rw [Content.setLength_value]
  show Cells.slice ((c.data.write (pos + data.length) _).write pos data) 0
    (min (c.length + data.length - len) c.capacity) = _
  rw [Nat.min_eq_left hroom, hlength, slice_pieces _ (c.data.slice 0 pos) data
    (c.data.slice (pos + len) (c.length - pos - len)), splice, value_front (by omega), value_behind]
  · rw [Cells.slice_length, Cells.slice_write_before (by omega), Cells.slice_write_before (by omega)]
  · rw [Cells.slice_length]
    exact Cells.slice_write _ _ _
  · rw [Cells.slice_length, Cells.slice_write_behind (Nat.le_refl _)]
    exact Cells.slice_write _ _ _

/-- What is written into a new content. -/
def joined (c : Content) (pos len : Nat) (data : Value) (cNew : Content) : Content :=
  ((cNew.write 0 (c.data.slice 0 pos)).write pos data).write (pos + data.length)
    (c.data.slice (pos + len) (c.length - pos - len))

theorem joined_slice (hle : pos + len ≤ c.length) (cNew : Content) :
    (joined c pos len data cNew).data.slice 0 (c.length + data.length - len) = splice c.value pos len data := by
  have hlength : c.length + data.length - len
      = (c.data.slice 0 pos).length + data.length + (c.data.slice (pos + len) (c.length - pos - len)).length := by
    rw [Cells.slice_length, Cells.slice_length]
    omega
  rw [hlength, slice_pieces _ (c.data.slice 0 pos) data
    (c.data.slice (pos + len) (c.length - pos - len)), splice, value_front (by omega), value_behind]
  · rw [Cells.slice_length]
    refine (Cells.slice_write_before (by omega)).trans ?_
    refine (Cells.slice_write_before (by omega)).trans ?_
    have hslice := Cells.slice_write cNew.data 0 (c.data.slice 0 pos)
    rwa [Cells.slice_length] at hslice
  · rw [Cells.slice_length]
    refine (Cells.slice_write_before (Nat.le_refl _)).trans ?_
    exact Cells.slice_write _ _ _
  · rw [Cells.slice_length]
    exact Cells.slice_write _ _ _

theorem joined_empty (hle : pos + len ≤ c.length) (hzero : c.length + data.length - len = 0) :
    joined c pos len data sEmptyData = sEmptyData := by
  have hpos : pos = 0 := by omega
  have hdata : data = [] := List.length_eq_zero_iff.mp (by omega)
  have hrest : c.length - pos - len = 0 := by omega
  rw [joined, hrest, Cells.slice_zero, hdata, hpos, Cells.slice_zero, Content.write_nil, Content.write_nil,
    Content.write_nil]

end

/-- The new content, when its length has been set. -/
theorem fills_joined {pos len : Nat} (data : Value) (hle : pos + len ≤ c.length) :
    Fills (c.length + data.length - len)
      fun cNew => (joined c pos len data cNew).setLength (c.length + data.length - len) where
  refs := rfl
  capacity := rfl
  wellFormed := fun _ => Content.setLength_wellFormed (Nat.min_le_right _ _)
  empty := fun hzero => by
    rw [joined_empty hle hzero, sEmptyData_setLength]

theorem filled_joined {pos len : Nat} (data : Value) (hle : pos + len ≤ c.length)
    (hmax : c.length + data.length - len ≤ UINT_MAX) :
    (filled (c.length + data.length - len)
        fun cNew => (joined c pos len data cNew).setLength (c.length + data.length - len)).value
      = splice c.value pos len data := by
  by_cases hn : c.length + data.length - len = 0
  · have hslice : (joined c pos len data sEmptyData).data.slice 0 (c.length + data.length - len)
        = splice c.value pos len data := joined_slice hle sEmptyData
    rw [hn, Cells.slice_zero] at hslice
    rw [filled, if_pos hn, ← hslice]
    rfl
  · have hcapacity : (joined c pos len data (Content.fresh (c.length + data.length - len))).capacity
        = min (c.length + data.length - len) UINT_MAX := rfl
    rw [filled, if_neg hn, Content.setLength_value, hcapacity, Nat.min_eq_left (by omega), joined_slice hle]

/-- **What the two `Replace` methods do**: the part of the value is replaced, in place or in a new content. -/
theorem Sound.replaceChecked (h : Sound m vals) (hx : vals.Live x) {pos len : Nat} {data data' : Value}
    (hdata : Agree data data') (hle : pos + len ≤ (vals.at_ x).length)
    (hmax : (splice (vals.at_ x) pos len data).length ≤ UINT_MAX) (inside : Prop) [Decidable inside] :
    ∃ m', m.replaceChecked x pos len data' inside = some m' ∧ Sound m' (vals.replace x pos len data) := by
  obtain ⟨p, c, hvar, hc, hcontent, hwf, hval, hagree, hlength⟩ := h.content hx
  rw [hlength] at hle
  have hsplice := hagree.splice hdata pos len
  have hnewLength : (splice (vals.at_ x) pos len data).length = c.length + data'.length - len := by
    rw [splice, List.length_append, List.length_append, List.length_take, List.length_drop, hlength, hdata.length]
    omega
  rw [hnewLength] at hmax
  rw [Memory.replaceChecked, hcontent]
  dsimp only
  by_cases hnothing : len = 0 ∧ data'.length = 0
  · have hsame : splice (vals.at_ x) pos len data = vals.at_ x := by
      rw [splice, hnothing.1, Nat.add_zero, List.length_eq_zero_iff.mp (hdata.length.trans hnothing.2),
        List.append_nil, List.take_append_drop]
    rw [if_pos hnothing, Values.replace, hsame, Values.give_at hval]
    exact ⟨m, rfl, h⟩
  · rw [if_neg hnothing]
    by_cases hplace : ¬ inside ∧ c.refCount = 1 ∧ c.length + data'.length - len ≤ c.capacity
    · rw [if_pos hplace]
      obtain ⟨-, hrefs, hroom⟩ := hplace
      have hw := h.writable hx hvar hc hrefs
      have hmodify := hw.modify (f := fun c₀ =>
          ((c₀.write (pos + data'.length) (c.data.slice (pos + len) (c.length - pos - len))).write pos
            data').setLength (c.length + data'.length - len)) rfl rfl
        (Content.setLength_wellFormed hwf.capacity_le) ((inPlace_value hle hroom) ▸ hsplice) (by
          rintro rfl
          exact absurd hrefs (by decide))
      exact ⟨_, rfl, hmodify.sound⟩
    · rw [if_neg hplace]
      have hfilled := filled_joined data' hle hmax
      obtain ⟨m₂, hrenew, hw⟩ := h.renewFilled hvar hc (fills_joined data' hle) (hfilled ▸ hsplice)
      refine ⟨m₂, ?_, hw.sound⟩
      by_cases hzero : c.length + data'.length - len = 0
      · have hempty := joined_empty hle hzero
        have hself₁ : m.modify emptySingleton (joined c pos len data') = m := modify_self h.heap.empty hempty
        have hself₂ : m.modify emptySingleton (fun cNew => (joined c pos len data' cNew).setLength 0) = m :=
          modify_self h.heap.empty (by rw [hempty, sEmptyData_setLength])
        rw [hzero, create_zero] at hrenew ⊢
        dsimp only at hrenew ⊢
        rw [hself₂] at hrenew
        show ((m.modify emptySingleton (joined c pos len data')).renew x p emptySingleton).map _ = _
        rw [hself₁, hrenew, Option.map_some]
        exact congrArg some (modify_self hw.sound.heap.empty sEmptyData_setLength)
      · rw [create_of_ne_zero hzero] at hrenew ⊢
        dsimp only at hrenew ⊢
        show (((m.withNew _).modify m.next (joined c pos len data')).renew x p m.next).map _ = _
        rw [renew_modify (h.heap.ne_next hc).symm, modify_modify]
        exact hrenew

/-! ## What is given -/

/-- A piece that lies within a string. -/
def Values.Given (vals : Values) : Source → Prop
  | .elsewhere _ => True
  | .within y offset len => vals.Live y ∧ offset + len ≤ (vals.at_ y).length

/-- **The condition of `Replace`**: no empty piece of the content itself, from its very beginning or end; if
that is not empty. -/
def Memory.Detached (m : Memory) (x : Nat) : Source → Prop
  | .elsewhere _ => True
  | .within y offset len => m.vars[y]? = m.vars[x]? → len = 0 →
      (0 < offset ∧ offset < m.getLength x) ∨ m.getLength x = 0

theorem Sound.getLength (h : Sound m vals) (hx : vals.Live x) : m.getLength x = (vals.at_ x).length := by
  obtain ⟨p, c, -, -, hcontent, -, -, -, hlength⟩ := h.content hx
  rw [Memory.getLength, hcontent, hlength]
  rfl

section

variable {src : Source} {pos len : Nat}

/-- What is given is what the values say. -/
theorem Sound.read (h : Sound m vals) (hgiven : vals.Given src) :
    ∃ data, m.read src = some data ∧ Agree (vals.read src) data := by
  cases src with
  | elsewhere chars => exact ⟨_, rfl, Agree.refl _⟩
  | within y offset len =>
    obtain ⟨hy, hle⟩ := hgiven
    obtain ⟨p, c, -, -, hcontent, -, -, hagree, hlength⟩ := h.content hy
    rw [hlength] at hle
    refine ⟨c.data.slice offset len, by rw [Memory.read, hcontent]; rfl, ?_⟩
    have hslice : (c.value.drop offset).take len = c.data.slice offset len := by
      rw [Content.value, Cells.slice_drop, Cells.slice_take, Nat.zero_add, Nat.min_eq_left (by omega)]
    rw [← hslice]
    exact (hagree.drop offset).take len

/-- Then the assertion holds. -/
theorem Sound.inside (h : Sound m vals) (hx : m.content x = some (p, c)) (hvar : m.vars[x]? = some (some p))
    (hgiven : vals.Given src) (hdetached : m.Detached x src) :
    m.dataStartsInside p c src ↔ m.dataEndsInside p c src := by
  cases src with
  | elsewhere chars => exact Iff.rfl
  | within y offset len =>
    refine and_congr_right fun hy => ?_
    obtain ⟨p', c', hvar', hc', -, -, -, -, hlength⟩ := h.content hgiven.1
    have hle := hgiven.2
    have hgetLength : m.getLength x = c.length := by
      rw [Memory.getLength, hx]
      rfl
    have hcond := hdetached (hy.trans hvar.symm)
    have hsame : c' = c := by
      rw [hvar'] at hy
      obtain rfl := Option.some.inj (Option.some.inj hy)
      have hcontent : m.content x = (m.contents p').map (p', ·) := by
        rw [Memory.content, hvar]
      rw [hc', hx] at hcontent
      exact (congrArg Prod.snd (Option.some.inj hcontent)).symm
    rw [hgetLength] at hcond
    rw [hlength, hsame] at hle
    by_cases hlen : len = 0
    · have := hcond hlen
      omega
    · omega

theorem Sound.replace (h : Sound m vals) (hx : vals.Live x) (hgiven : vals.Given src)
    (hdetached : m.Detached x src) (hle : pos + len ≤ (vals.at_ x).length)
    (hmax : (splice (vals.at_ x) pos len (vals.read src)).length ≤ UINT_MAX) :
    ∃ m', m.replace x pos len src = some m' ∧ Sound m' (vals.replace x pos len (vals.read src)) := by
  obtain ⟨p, c, hvar, -, hcontent, -, -, -, hlength⟩ := h.content hx
  obtain ⟨data, hread, hdata⟩ := h.read hgiven
  have hchecked : pos ≤ c.length ∧ len ≤ c.length ∧ pos + len ≤ c.length := by omega
  rw [Memory.replace, hcontent, hread]
  dsimp only
  rw [if_pos hchecked, if_pos (h.inside hcontent hvar hgiven hdetached)]
  exact h.replaceChecked hx hdata hle hmax _

theorem Sound.replaceCh (h : Sound m vals) (hx : vals.Live x) {ch : WChar} {count : Nat}
    (hle : pos + len ≤ (vals.at_ x).length)
    (hmax : (splice (vals.at_ x) pos len (List.replicate count (some ch))).length ≤ UINT_MAX) :
    ∃ m', m.replaceCh x pos len ch count = some m'
      ∧ Sound m' (vals.replace x pos len (List.replicate count (some ch))) := by
  obtain ⟨p, c, hvar, -, hcontent, -, -, -, hlength⟩ := h.content hx
  have hchecked : pos ≤ c.length ∧ len ≤ c.length ∧ pos + len ≤ c.length := by omega
  rw [Memory.replaceCh, hcontent]
  dsimp only
  rw [if_pos hchecked]
  exact h.replaceChecked hx (Agree.refl _) hle hmax _

end

theorem splice_all (v data : Value) : splice v 0 v.length data = data := by
  rw [splice, List.take_zero, List.nil_append, Nat.zero_add, List.drop_length, List.append_nil]

/-! ## The other methods -/

/-- A character is written. -/
theorem Content.write_char {pos : Nat} {cell : Cell} (h : pos < c.length) :
    (c.write pos [cell]).value = c.value.set pos cell := by
  rw [Content.write_value (by rw [List.length_singleton]; omega), splice, List.length_singleton,
    List.set_eq_take_append_cons_drop, if_pos (by rwa [c.value_length]), List.append_assoc]
  rfl

/-- Where there is room for the value, `PrepareForModify` leaves it. -/
theorem Sound.prepareFor (h : Sound m vals) (hx : vals.Live x) {n : Nat} (hn : (vals.at_ x).length ≤ n) :
    ∃ m' p c, m.prepareForModify x n = some m' ∧ Writable m' vals x p c (vals.at_ x)
      ∧ min n UINT_MAX ≤ c.capacity := by
  obtain ⟨m', p, c, w, hprepare, hw, hcapacity, hvalue⟩ := h.prepareForModify hx n
  rw [List.take_of_length_le hn, or_self] at hvalue
  exact ⟨m', p, c, hprepare, hvalue ▸ hw, hcapacity⟩

theorem Sound.replaceChar (h : Sound m vals) (hx : vals.Live x) {pos : Nat} (ch : WChar)
    (hpos : pos < (vals.at_ x).length) :
    ∃ m', m.replaceChar x pos ch = some m' ∧ Sound m' (vals.give x ((vals.at_ x).set pos (some ch))) := by
  obtain ⟨p, c, -, -, hcontent, -, -, -, hlength⟩ := h.content hx
  obtain ⟨m', p', c', hprepare, hw, -⟩ := h.prepareFor hx (Nat.le_of_eq hlength)
  have hpos' : pos < c'.length := hw.length ▸ hpos
  have hmodify := hw.modify (f := fun c => c.write pos [some ch]) rfl rfl
    (hw.wellFormed.write (by rw [List.length_singleton]; omega))
    (Content.write_char hpos' ▸ hw.agree.set pos (some ch)) (by
      rintro rfl
      exact absurd hpos' (Nat.not_lt_zero _))
  rw [Memory.replaceChar, hcontent]
  dsimp only
  rw [if_pos (hlength ▸ hpos), hprepare]
  dsimp only
  rw [hw.content]
  exact ⟨_, rfl, hmodify.sound⟩

/-- Characters are written behind the value, and the length is set. -/
theorem appended_value {chars : Value} (hroom : c.length + chars.length ≤ c.capacity) :
    ((c.write c.length (chars ++ [NUL])).setLength (c.length + chars.length)).value = c.value ++ chars := by
  have hslice := Cells.slice_write c.data c.length (chars ++ [NUL])
  rw [List.length_append, Cells.slice_add] at hslice
  have hchars := (List.append_inj hslice Cells.slice_length).1
  rw [Content.setLength_value]
  show Cells.slice (c.data.write c.length _) 0 (min (c.length + chars.length) c.capacity) = _
  rw [Nat.min_eq_left hroom, Cells.slice_add, Nat.zero_add, hchars,
    Cells.slice_write_before (Nat.le_of_eq (Nat.zero_add _))]
  rfl

theorem Sound.appendMB (h : Sound m vals) (hx : vals.Live x) (converted : Option (List WChar))
    (hmax : (vals.at_ x ++ (converted.getD []).map some).length ≤ UINT_MAX) :
    ∃ m', m.appendMB x converted = some m'
      ∧ Sound m' (vals.give x (vals.at_ x ++ (converted.getD []).map some)) := by
  obtain ⟨p, c, -, -, hcontent, -, hval, -, hlength⟩ := h.content hx
  cases converted with
  | none =>
    refine ⟨m, rfl, ?_⟩
    rwa [Option.getD_none, List.map_nil, List.append_nil, Values.give_at hval]
  | some converted =>
    rw [Option.getD_some] at hmax ⊢
    rw [List.length_append, List.length_map, hlength] at hmax
    obtain ⟨m', p', c', hprepare, hw, hcapacity⟩ := h.prepareFor hx (n := c.length + converted.length) (by omega)
    have hsame : c'.length = c.length := hw.length.symm.trans hlength
    have hroom : c'.length + (converted.map some).length ≤ c'.capacity := by
      rw [List.length_map, hsame]
      omega
    have hvalue := appended_value hroom
    rw [List.length_map, hsame] at hvalue
    have hmodify := hw.modify (w := vals.at_ x ++ converted.map some)
      (f := fun c₀ => (c₀.write c'.length (converted.map some ++ [NUL])).setLength (c.length + converted.length))
      rfl rfl (Content.setLength_wellFormed hw.wellFormed.capacity_le)
      (by
        rw [hsame, hvalue]
        exact hw.agree.append (Agree.refl _))
      (by
        rintro rfl
        have hzero : converted.length = 0 := by
          have : (converted.map some).length = converted.length := List.length_map _
          have : sEmptyData.length + (converted.map some).length ≤ 0 := hroom
          omega
        rw [List.length_eq_zero_iff.mp hzero]
        exact (congrArg (Content.setLength · _) (sEmptyData_write _)).trans sEmptyData_setLength)
    rw [Memory.appendMB, hcontent]
    dsimp only
    rw [hprepare]
    dsimp only
    rw [hw.content]
    exact ⟨_, rfl, hmodify.sound⟩

/-- **A copy shares the content**, as long as the count does not overflow. -/
theorem Sound.copy (h : Sound m vals) (hx : vals.Live x) (hy : vals.Live y)
    (hcount : ∀ p, m.vars[y]? = some (some p) → m.vars.count (some p) + 1 < 2 ^ 32) :
    ∃ m', m.copy x y = some m' ∧ Sound m' (vals.give x (vals.at_ y)) := by
  obtain ⟨p, c, hvar, hc, hcontent, -, -, -, -⟩ := h.content hx
  obtain ⟨q, d, hvar', hd, hcontent', -, -, hagree, -⟩ := h.content hy
  obtain ⟨hheap, hkeeps⟩ := h.heap.addRef hd (hcount q hvar')
  obtain ⟨d', hd'⟩ := Option.isSome_iff_exists.mp (hheap.there q List.mem_cons_self)
  have hvalue := hkeeps q d d' hd hd'
  obtain ⟨m', hrenew, hsound, -, -⟩ := h.renew hvar hheap hkeeps rfl hd' (hvalue ▸ hagree)
  refine ⟨m', ?_, hsound⟩
  rw [Memory.copy, hcontent, hcontent']
  exact (decRef_assign (m.addRef q) p x q).trans hrenew

theorem decRef_next {m' : Memory} (h : m.decRef p = some m') : m'.next = m.next := by
  rw [Memory.decRef] at h
  split at h
  · cases h
  · split at h
    · rw [← Option.some.inj h]
    · split at h
      · rw [← Option.some.inj h]
        rfl
      · rw [Memory.destroy] at h
        split at h
        · cases h
        · rw [← Option.some.inj h]

/-- What is converted into a new content. -/
def stored (converted : List WChar) (c : Content) : Content :=
  (c.write 0 (converted.map some ++ [NUL])).setLength converted.length

theorem stored_empty {converted : List WChar} (h : converted.length = 0) : stored converted sEmptyData = sEmptyData := by
  rw [stored, List.length_eq_zero_iff.mp h]
  exact (congrArg (Content.setLength · _) (sEmptyData_write _)).trans sEmptyData_setLength

theorem fills_stored (converted : List WChar) : Fills converted.length (stored converted) where
  refs := rfl
  capacity := rfl
  wellFormed := fun _ => Content.setLength_wellFormed (Nat.min_le_right _ _)
  empty := stored_empty

theorem filled_stored {converted : List WChar} (hmax : converted.length ≤ UINT_MAX) :
    (filled converted.length (stored converted)).value = converted.map some := by
  by_cases hn : converted.length = 0
  · rw [filled, if_pos hn, List.length_eq_zero_iff.mp hn]
    rfl
  · have hroom : (Content.fresh converted.length).length + (converted.map some).length
        ≤ (Content.fresh converted.length).capacity := by
      rw [List.length_map]
      show 0 + converted.length ≤ min converted.length UINT_MAX
      omega
    have hslice := appended_value hroom
    rw [List.length_map] at hslice
    rw [filled, if_neg hn, stored]
    have hzero : (Content.fresh converted.length).length + converted.length = converted.length := Nat.zero_add _
    rw [hzero] at hslice
    exact hslice

theorem Sound.copyMB (h : Sound m vals) (hx : vals.Live x) (converted : Option (List WChar))
    (hmax : (converted.getD []).length ≤ UINT_MAX) :
    ∃ m', m.copyMB x converted = some m' ∧ Sound m' (vals.give x ((converted.getD []).map some)) := by
  obtain ⟨p, c, hvar, hc, hcontent, -, -, -, -⟩ := h.content hx
  rw [Memory.copyMB, hcontent]
  dsimp only
  cases converted with
  | none =>
    obtain ⟨m', hrenew, hsound, -, -⟩ :=
      h.renew hvar h.heap.holdEmpty (Keeps.refl m) rfl h.heap.empty (Agree.refl [])
    exact ⟨m', hrenew, hsound⟩
  | some converted =>
    rw [Option.getD_some] at hmax ⊢
    obtain ⟨m', hrenew, hw⟩ := h.renewFilled hvar hc (fills_stored converted)
      (v := converted.map some) (by
        rw [filled_stored hmax]
        exact Agree.refl _)
    refine ⟨m', ?_, hw.sound⟩
    by_cases hn : converted.length = 0
    · have hself : m.modify emptySingleton (stored converted) = m :=
        modify_self h.heap.empty (stored_empty hn)
      rw [hn, create_zero] at hrenew
      dsimp only at hrenew
      rw [hself, Memory.renew] at hrenew
      obtain ⟨m₀, hdecRef, rfl⟩ := Option.map_eq_some_iff.mp hrenew
      rw [hdecRef, Option.map_some]
      dsimp only
      have hempty : m₀.contents emptySingleton = some sEmptyData := hw.sound.heap.empty
      have hself₀ : m₀.modify emptySingleton (stored converted) = m₀ :=
        modify_self hempty (stored_empty hn)
      have hcreate : m₀.create converted.length = (emptySingleton, m₀) := by rw [hn, create_zero]
      rw [hcreate]
      exact congrArg (fun m => some (Memory.assign m x emptySingleton)) hself₀
    · rw [create_of_ne_zero hn] at hrenew
      dsimp only at hrenew
      rw [modify_withNew, Memory.renew, decRef_withNew (h.heap.ne_next hc), Option.map_map] at hrenew
      obtain ⟨m₀, hdecRef, hm₀⟩ := Option.map_eq_some_iff.mp hrenew
      rw [hdecRef, Option.map_some]
      dsimp only
      rw [create_of_ne_zero hn]
      refine congrArg some (Eq.trans ?_ hm₀)
      rw [Function.comp_apply, ← decRef_next hdecRef, ← modify_withNew]
      rfl

theorem Sound.truncate (h : Sound m vals) (hx : vals.Live x) (n : Nat) :
    ∃ m', m.truncate x n = some m' ∧ Sound m' (vals.give x ((vals.at_ x).take n)) := by
  obtain ⟨p, c, hvar, hc, hcontent, hwf, hval, -, hlength⟩ := h.content hx
  rw [Memory.truncate, hcontent]
  dsimp only
  by_cases hlt : n < c.length
  · rw [if_pos hlt]
    by_cases hzero : n = 0
    · rw [if_pos hzero, hzero, List.take_zero]
      obtain ⟨m', hrenew, hsound, -, -⟩ :=
        h.renew hvar h.heap.holdEmpty (Keeps.refl m) rfl h.heap.empty (Agree.refl [])
      exact ⟨m', hrenew, hsound⟩
    · rw [if_neg hzero]
      obtain ⟨m', p', c', w, hprepare, hw, hcapacity, hvalue⟩ := h.prepareForModify hx n
      have hmax : n ≤ UINT_MAX := by
        have := hwf.length_le
        have := hwf.capacity_le
        omega
      have htake : w.take n = (vals.at_ x).take n := by
        rcases hvalue with rfl | rfl
        · rfl
        · rw [List.take_take, Nat.min_self]
      have hle : n ≤ c'.length := by
        rw [← hw.length]
        rcases hvalue with rfl | rfl
        · omega
        · rw [List.length_take]
          omega
      have hmodify := hw.modify (f := fun c => c.setLength n) (w := (vals.at_ x).take n) rfl rfl
        (Content.setLength_wellFormed hw.wellFormed.capacity_le)
        (by
          rw [Content.setLength_value, Nat.min_eq_left (by omega), value_front hle, ← htake]
          exact hw.agree.take n)
        (by
          rintro rfl
          exact sEmptyData_setLength)
      rw [hprepare]
      dsimp only
      rw [hw.content]
      exact ⟨_, rfl, hmodify.sound⟩
  · rw [if_neg hlt, List.take_of_length_le (by omega), Values.give_at hval]
    exact ⟨m, rfl, h⟩

theorem Sound.reserve (h : Sound m vals) (hx : vals.Live x) (n : Nat) :
    ∃ m', m.reserve x n = some m' ∧ Sound m' vals := by
  obtain ⟨p, c, -, -, hcontent, hwf, hval, -, hlength⟩ := h.content hx
  rw [Memory.reserve, hcontent]
  dsimp only
  by_cases hgt : n > c.capacity
  · have := hwf.length_le
    obtain ⟨m', p', c', hprepare, hw, -⟩ := h.prepareFor hx (n := n) (by omega)
    have hsound := hw.sound
    rw [Values.give_at hval] at hsound
    rw [if_pos hgt]
    exact ⟨m', hprepare, hsound⟩
  · rw [if_neg hgt]
    exact ⟨m, rfl, h⟩

theorem Sound.changeCase (h : Sound m vals) (hx : vals.Live x) {start : Nat} (length : Option Nat)
    (char : WChar → WChar) (hstart : start ≤ (vals.at_ x).length)
    (hle : start + length.getD ((vals.at_ x).length - start) ≤ (vals.at_ x).length) :
    ∃ m', m.changeCase x start length char = some m'
      ∧ Sound m' (vals.exec (.changeCase x start length char)) := by
  obtain ⟨p, c, -, -, hcontent, -, -, -, hlength⟩ := h.content hx
  obtain ⟨m', p', c', hprepare, hw, -⟩ := h.prepareFor hx (Nat.le_of_eq hlength)
  rw [Memory.changeCase, hcontent]
  dsimp only
  rw [hprepare]
  dsimp only
  rw [hw.content]
  refine ⟨_, rfl, ?_⟩
  dsimp only
  rw [← hw.length, Values.exec]
  generalize length.getD ((vals.at_ x).length - start) = n at hle
  have hslice : c'.data.slice start n = (c'.value.drop start).take n := by
    rw [Content.value, Cells.slice_drop, Cells.slice_take, Nat.zero_add, ← hw.length, Nat.min_eq_left (by omega)]
  have hlen : ((c'.data.slice start n).map (Option.map char)).length = n := by
    rw [List.length_map, Cells.slice_length]
  have hle' : start + ((c'.data.slice start n).map (Option.map char)).length ≤ c'.length := by
    rw [hlen, ← hw.length]
    exact hle
  have hvalue := Content.write_value hle'
  rw [hlen] at hvalue
  have hmodify := hw.modify (f := fun c₀ => c₀.write start ((c'.data.slice start n).map (Option.map char)))
    (w := splice (vals.at_ x) start n (((vals.at_ x).drop start |>.take n).map (Option.map char)))
    rfl rfl (hw.wellFormed.write hle')
    (by
      rw [hvalue, hslice]
      exact hw.agree.splice (((hw.agree.drop start).take n).map char) start n)
    (by
      rintro rfl
      have hlength₀ : (vals.at_ x).length = 0 := hw.length
      have hzero : n = 0 := by omega
      rw [hzero, Cells.slice_zero, List.map_nil, Content.write_nil])
  exact hmodify.sound

/-! ## Buffers -/

/-- What is written into a buffer. -/
def writeChars (chars : List (Nat × WChar)) (c : Content) : Content :=
  chars.foldl (fun c (pos, ch) => c.write pos [some ch]) c

theorem writeChars_fields (chars : List (Nat × WChar)) : ∀ c : Content,
    (writeChars chars c).refCount = c.refCount ∧ (writeChars chars c).capacity = c.capacity := by
  induction chars with
  | nil => exact fun _ => ⟨rfl, rfl⟩
  | cons char chars ih => exact fun c => ih (c.write char.1 [some char.2])

/-- Within the first `n` cells, it is what is written into the value. -/
theorem agree_writeAll {n : Nat} (chars : List (Nat × WChar)) (hchars : ∀ char ∈ chars, char.1 < n) :
    ∀ {v : Value} {c : Content}, Agree v (c.data.slice 0 n) →
      Agree (writeAll v chars) ((writeChars chars c).data.slice 0 n) := by
  induction chars with
  | nil => exact id
  | cons char chars ih =>
    intro v c hagree
    refine ih (fun char' hmem => hchars char' (List.mem_cons_of_mem _ hmem)) (c := c.write char.1 [some char.2]) ?_
    have hlt := hchars char List.mem_cons_self
    have hvalue : (c.write char.1 [some char.2]).data.slice 0 n
        = (c.data.slice 0 n).set char.1 (some char.2) :=
      Content.write_char (c := { c with length := n }) hlt
    rw [hvalue]
    exact hagree.set char.1 (some char.2)

/-- A buffer has the value in it, as far as there is room. -/
theorem agree_buffer {n : Nat} {w : Value} (hagree : Agree w c.value) (hw : w = v ∨ w = v.take n) :
    Agree (buffer v n) (c.data.slice 0 n) := by
  have hlength : w.length = c.length := by rw [hagree.length, c.value_length]
  have htake : w.take n = v.take n := by
    rcases hw with rfl | rfl
    · rfl
    · rw [List.take_take, Nat.min_self]
  have hsplit : n = min n c.length + (n - v.length) := by
    rcases hw with rfl | rfl
    · omega
    · rw [List.length_take] at hlength
      omega
  have hfront : c.data.slice 0 (min n c.length) = c.value.take n := by
    rw [Content.value, Cells.slice_take]
  have hback := agree_unwritten (c.data.slice (0 + min n c.length) (n - v.length))
  rw [Cells.slice_length] at hback
  have hslice : c.data.slice 0 n
      = c.data.slice 0 (min n c.length) ++ c.data.slice (0 + min n c.length) (n - v.length) := by
    rw [← Cells.slice_add, ← hsplit]
  rw [hslice, hfront, buffer, ← htake]
  exact (hagree.take n).append hback

/-- A content of one's own with room enough is left as it is. -/
theorem prepareForModify_self {n : Nat} (hcontent : m.content x = some (p, c)) (hrefs : c.refCount = 1)
    (hn : n ≤ c.capacity) : m.prepareForModify x n = some m := by
  rw [Memory.prepareForModify, hcontent]
  exact if_neg (not_or.mpr ⟨fun hne => hne hrefs, Nat.not_lt.mpr hn⟩)

/-- **A pair of `GetBuffer` and `ReleaseBuffer`.** -/
theorem Sound.edit (h : Sound m vals) (hx : vals.Live x) (length : Option Nat) {chars : List (Nat × WChar)}
    {released : Nat} (hchars : ∀ char ∈ chars, char.1 < length.getD (vals.at_ x).length)
    (hreleased : released ≤ length.getD (vals.at_ x).length) (hmax : released ≤ UINT_MAX) :
    ∃ m', m.edit x length chars released = some m'
      ∧ Sound m' (vals.exec (.edit x length chars released)) := by
  obtain ⟨_, c₀, -, -, hcontent, -, -, -, hlength⟩ := h.content hx
  rw [Values.exec]
  generalize hn : length.getD (vals.at_ x).length = n at hchars hreleased
  obtain ⟨m', p, c, w, hprepare, hw, hcapacity, hvalue⟩ := h.prepareForModify hx n
  rw [hlength] at hn
  have hroom : released ≤ c.capacity := by omega
  rw [Memory.edit, Memory.getBuffer, hcontent]
  dsimp only
  rw [hn, hprepare]
  dsimp only
  rw [Memory.writes, hw.content, Option.map_some]
  dsimp only
  have hagree := agree_writeAll chars hchars (agree_buffer hw.agree hvalue)
  obtain ⟨hrefs, hcap⟩ := writeChars_fields chars c
  have hfinal : Agree ((writeAll (buffer (vals.at_ x) n) chars).take released)
      ((writeChars chars c).setLength released).value := by
    rw [Content.setLength_value, hcap, Nat.min_eq_left hroom]
    have htake := hagree.take released
    rwa [Cells.slice_take, Nat.min_eq_left hreleased] at htake
  show ∃ m₂, (m'.modify p (writeChars chars)).releaseBuffer x released = some m₂ ∧ _
  have hclip : ∀ {c : Content}, released ≤ c.capacity →
      (if released > c.capacity then c.capacity else released) = released :=
    fun hle => if_neg (Nat.not_lt.mpr hle)
  rcases hw.owned with ⟨hp, hone⟩ | hp
  · have hcontent' : (m'.modify p (writeChars chars)).content x = some (p, writeChars chars c) := by
      have hvar : (m'.modify p (writeChars chars)).vars[x]? = some (some p) := hw.var
      rw [Memory.content, hvar]
      dsimp only
      rw [modify_contents hw.there]
      rfl
    have hself := prepareForModify_self hcontent' (hrefs.trans hone) (n := released) (by rwa [hcap])
    have hmodify := hw.modify (f := fun c => (writeChars chars c).setLength released)
      (w := (writeAll (buffer (vals.at_ x) n) chars).take released) hrefs hcap
      (Content.setLength_wellFormed (by
        rw [hcap]
        exact hw.wellFormed.capacity_le)) hfinal (by
        rintro rfl
        exact absurd hone (by decide))
    rw [Memory.releaseBuffer, hcontent']
    dsimp only
    rw [hclip (by rwa [hcap]), hself]
    dsimp only
    rw [hcontent', Option.map_some, modify_modify]
    exact ⟨_, rfl, hmodify.sound⟩
  · obtain rfl := hw.eq_empty hp
    -- there is no room, and nothing is written
    have hzero : n = 0 := by
      have : min n UINT_MAX ≤ 0 := hcapacity
      rw [UINT_MAX] at this
      omega
    have hnone : chars = [] := List.eq_nil_iff_forall_not_mem.mpr fun char hmem => by
      have := hchars char hmem
      omega
    have hreleased₀ : released = 0 := by omega
    have hself : m'.modify p (writeChars chars) = m' := by
      rw [hnone]
      exact modify_self hw.there rfl
    obtain ⟨m₂, p₂, c₂, w₂, hprepare₂, hw₂, -, hvalue₂⟩ :=
      hw.sound.prepareForModify (Values.live_give hx w) (x := x) 0
    have hmodify := hw₂.modify (f := fun c => c.setLength 0) (w := []) rfl rfl
      (Content.setLength_wellFormed hw₂.wellFormed.capacity_le)
      (by
        rw [Content.setLength_value, Nat.zero_min]
        exact Agree.refl [])
      (by
        rintro rfl
        exact sEmptyData_setLength)
    have hsound := hmodify.sound
    rw [Values.give_give] at hsound
    rw [hself, Memory.releaseBuffer, hw.content]
    dsimp only
    rw [hclip hroom, hreleased₀, hprepare₂]
    dsimp only
    rw [hw₂.content]
    refine ⟨_, rfl, ?_⟩
    rwa [List.take_zero]

/-! ## Construction and destruction -/

theorem create_vars (m : Memory) (n : Nat) : (m.create n).2.vars = m.vars := by
  rw [Memory.create]
  split
  · rfl
  · rfl

theorem Sound.construct (h : Sound m vals) {src : Source} (hgiven : vals.Given src)
    (hmax : (vals.read src).length ≤ UINT_MAX) :
    ∃ m', m.construct src = some m' ∧ Sound m' (vals ++ [some (vals.read src)]) := by
  obtain ⟨data, hread, hdata⟩ := h.read hgiven
  rw [Memory.construct, hread, Option.map_some]
  refine ⟨_, rfl, ?_⟩
  by_cases hzero : data.length = 0
  · rw [if_pos hzero]
    obtain rfl := List.length_eq_zero_iff.mp hzero
    exact h.push h.heap.holdEmpty (Keeps.refl m) h.heap.empty hdata
  · rw [if_neg hzero, createFrom_eq]
    dsimp only
    have hvars : ((m.create data.length).2.modify (m.create data.length).1 (copied data.length data)).vars
        = m.vars := create_vars m data.length
    rw [hvars]
    refine h.pushFilled (fills_copied _ _) ?_
    rw [hdata.length] at hmax
    rw [filled_copied, Nat.min_self, Nat.min_eq_left hmax, List.take_length]
    exact hdata

theorem Sound.constructCopy (h : Sound m vals) (hy : vals.Live y)
    (hcount : ∀ p, m.vars[y]? = some (some p) → m.vars.count (some p) + 1 < 2 ^ 32) :
    ∃ m', m.constructCopy y = some m' ∧ Sound m' (vals ++ [some (vals.at_ y)]) := by
  obtain ⟨q, d, hvar', hd, hcontent', -, -, hagree, -⟩ := h.content hy
  obtain ⟨hheap, hkeeps⟩ := h.heap.addRef hd (hcount q hvar')
  obtain ⟨d', hd'⟩ := Option.isSome_iff_exists.mp (hheap.there q List.mem_cons_self)
  have hvalue := hkeeps q d d' hd hd'
  rw [Memory.constructCopy, hcontent']
  exact ⟨_, rfl, h.push hheap hkeeps hd' (hvalue ▸ hagree)⟩

theorem Sound.constructMove (h : Sound m vals) (hy : vals.Live y) :
    ∃ m', m.constructMove y = some m' ∧ Sound m' (vals.give y [] ++ [some (vals.at_ y)]) := by
  obtain ⟨q, d, hvar, hd, hcontent, -, hval, hagree, -⟩ := h.content hy
  have hlt := (List.getElem?_eq_some_iff.mp hvar).1
  rw [Memory.constructMove, hcontent]
  refine ⟨_, rfl, ⟨(h.heap.congr fun r hr => ?_).withVars _, fun z => ?_⟩⟩
  · show (m.vars.set y (some emptySingleton) ++ [some q]).count (some r) = _
    have hcount := count_assign hvar emptySingleton r
    have hempty : (some emptySingleton :: m.vars).count (some r) = m.vars.count (some r) :=
      List.count_cons_of_ne fun hsame => hr (Option.some.inj hsame).symm
    rw [hempty, List.count_cons] at hcount
    rw [List.count_append, List.count_cons, List.count_nil, Nat.zero_add]
    exact hcount
  · show Held { m with vars := _ } (m.vars.set y (some emptySingleton) ++ [some q])[z]?
      (vals.set y (some []) ++ [some (vals.at_ y)])[z]?
    refine Held.withVars ?_ _
    by_cases hz : z < m.vars.length
    · rw [List.getElem?_append_left (by rwa [List.length_set]),
        List.getElem?_append_left (by rw [List.length_set, ← h.length]; exact hz), List.getElem?_set,
        List.getElem?_set]
      by_cases heq : y = z
      · rw [if_pos heq, if_pos heq, if_pos hlt, if_pos (h.length ▸ hlt)]
        exact ⟨sEmptyData, h.heap.empty, Agree.refl []⟩
      · rw [if_neg heq, if_neg heq]
        exact h.held z
    · rw [List.getElem?_append_right (by rw [List.length_set]; omega),
        List.getElem?_append_right (by rw [List.length_set, ← h.length]; omega), List.length_set, List.length_set,
        h.length]
      match z - vals.length with
      | 0 => exact ⟨d, hd, hagree⟩
      | _ + 1 => trivial

/-- **Move assignment swaps the two.** -/
theorem Sound.move (h : Sound m vals) (hx : vals.Live x) (hy : vals.Live y) :
    ∃ m', m.move x y = some m' ∧ Sound m' ((vals.give x (vals.at_ y)).give y (vals.at_ x)) := by
  obtain ⟨p, c, hvar, hc, hcontent, -, hval, hagree, -⟩ := h.content hx
  obtain ⟨q, d, hvar', hd, hcontent', -, hval', hagree', -⟩ := h.content hy
  have hlt := (List.getElem?_eq_some_iff.mp hvar).1
  have hlt' := (List.getElem?_eq_some_iff.mp hvar').1
  have hmiddle : (m.vars.set x (some q))[y]? = some (some q) := by
    rw [List.getElem?_set]
    by_cases heq : x = y
    · rw [if_pos heq, if_pos hlt]
    · rw [if_neg heq, hvar']
  rw [Memory.move, hcontent, hcontent']
  refine ⟨_, rfl, ⟨(h.heap.congr fun r _ => ?_).withVars _, fun z => ?_⟩⟩
  · show ((m.vars.set x (some q)).set y (some p)).count (some r) = _
    have hcount := count_assign hvar q r
    have hcount' := count_assign hmiddle p r
    rw [List.count_cons, List.count_cons] at hcount hcount'
    omega
  · show Held { m with vars := _ } ((m.vars.set x (some q)).set y (some p))[z]?
      ((vals.set x (some (vals.at_ y))).set y (some (vals.at_ x)))[z]?
    refine Held.withVars ?_ _
    rw [List.getElem?_set, List.getElem?_set, List.getElem?_set, List.getElem?_set, List.length_set,
      List.length_set]
    by_cases heq : y = z
    · rw [if_pos heq, if_pos heq, if_pos hlt', if_pos (h.length ▸ hlt')]
      exact ⟨c, hc, hagree⟩
    · rw [if_neg heq, if_neg heq]
      by_cases heq' : x = z
      · rw [if_pos heq', if_pos heq', if_pos hlt, if_pos (h.length ▸ hlt)]
        exact ⟨d, hd, hagree'⟩
      · rw [if_neg heq', if_neg heq']
        exact h.held z

theorem Sound.destruct (h : Sound m vals) (hx : vals.Live x) :
    ∃ m', m.destruct x = some m' ∧ Sound m' (vals.set x none) := by
  obtain ⟨p, c, hvar, -, hcontent, -, -, -, -⟩ := h.content hx
  obtain ⟨m', hdecRef, hsound⟩ := h.release hvar
  rw [Memory.destruct, hcontent]
  dsimp only
  rw [hdecRef]
  exact ⟨_, rfl, hsound⟩

end

end Far2l.Base
