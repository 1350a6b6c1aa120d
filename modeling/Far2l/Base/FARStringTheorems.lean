/-
Far2l.Base.FARStringTheorems — strings that share their contents are independent
values.

Every sequence of valid calls keeps the memory sound, but for two kinds of calls: one
that is given an empty piece of the string's own content, from its very beginning or
end, which aborts, and a copy to so many variables that the count overflows.
-/
import Far2l.Base.FARStringMethods

namespace Far2l.Base

/-! ## Sequences of calls -/

/-- The variables are there, and the positions and lengths are valid. -/
def Call.Valid (vals : Values) : Call → Prop
  | .construct src => vals.Given src
  | .constructCopy y => vals.Live y
  | .constructMove y => vals.Live y
  | .destruct x => vals.Live x
  | .copy x y => vals.Live x ∧ vals.Live y
  | .move x y => vals.Live x ∧ vals.Live y
  | .copyMB x _ => vals.Live x
  | .appendMB x _ => vals.Live x
  | .replace x pos len src => vals.Live x ∧ vals.Given src ∧ pos + len ≤ (vals.at_ x).length
  | .replaceCh x pos len _ _ => vals.Live x ∧ pos + len ≤ (vals.at_ x).length
  | .append x src => vals.Live x ∧ vals.Given src
  | .appendCh x _ _ => vals.Live x
  | .insert x pos src => vals.Live x ∧ vals.Given src ∧ pos ≤ (vals.at_ x).length
  | .insertCh x pos _ _ => vals.Live x ∧ pos ≤ (vals.at_ x).length
  | .copyChars x src => vals.Live x ∧ vals.Given src
  | .remove x pos len => vals.Live x ∧ pos + len ≤ (vals.at_ x).length
  | .replaceChar x pos _ => vals.Live x ∧ pos < (vals.at_ x).length
  | .truncate x _ => vals.Live x
  | .clear x => vals.Live x
  | .reserve x _ => vals.Live x
  | .changeCase x nStartPos nLength _ => vals.Live x ∧ nStartPos ≤ (vals.at_ x).length
      ∧ nStartPos + nLength.getD ((vals.at_ x).length - nStartPos) ≤ (vals.at_ x).length
  | .edit x nLength chars released => vals.Live x
      ∧ (∀ char ∈ chars, char.1 < nLength.getD (vals.at_ x).length)
      ∧ released ≤ nLength.getD (vals.at_ x).length

/-- The lengths are below 2³¹. -/
def Values.Short (vals : Values) : Prop := ∀ v, some v ∈ vals → v.length < 2 ^ 31

/-- The count of the content of a variable does not overflow when it is held once more. -/
def Memory.Countable (m : Memory) (y : Nat) : Prop :=
  ∀ p, m.vars[y]? = some (some p) → m.vars.count (some p) + 1 < 2 ^ 32

/-- **The condition**: characters are not an empty piece of the content itself from its beginning or end, and
counts do not overflow. -/
def Call.Safe (m : Memory) : Call → Prop
  | .constructCopy y => m.Countable y
  | .copy _ y => m.Countable y
  | .replace x _ _ src => m.Detached x src
  | .append x src => m.Detached x src
  | .insert x _ src => m.Detached x src
  | .copyChars x src => m.Detached x src
  | _ => True

section

variable {m : Memory} {vals : Values} {x : Nat} {v : Value}

theorem Values.Short.given (h : (vals.give x v).Short) (hx : vals.Live x) : v.length ≤ UINT_MAX := by
  obtain ⟨w, hw⟩ := hx
  have hmem : some v ∈ vals.give x v := List.mem_of_getElem? (i := x) (by
    rw [Values.give, List.getElem?_set, if_pos rfl, if_pos (List.getElem?_eq_some_iff.mp hw).1])
  have := h v hmem
  rw [UINT_MAX]
  omega

theorem Values.Short.made (h : Values.Short (vals ++ [some v])) : v.length ≤ UINT_MAX := by
  have := h v (List.mem_append_right _ (List.mem_singleton_self _))
  rw [UINT_MAX]
  omega

theorem writeAll_length (chars : List (Nat × WChar)) : ∀ v : Value, (writeAll v chars).length = v.length := by
  induction chars with
  | nil => exact fun _ => rfl
  | cons char chars ih => exact fun v => (ih _).trans List.length_set

theorem buffer_length (v : Value) (n : Nat) : (buffer v n).length = n := by
  rw [buffer, List.length_append, List.length_take, List.length_replicate]
  omega

/-- **What one call does.** -/
theorem Sound.exec (h : Sound m vals) {call : Call} (hvalid : call.Valid vals) (hshort : (vals.exec call).Short)
    (hsafe : call.Safe m) : ∃ m', m.exec call = some m' ∧ Sound m' (vals.exec call) := by
  cases call with
  | construct src => exact h.construct hvalid hshort.made
  | constructCopy y => exact h.constructCopy hvalid hsafe
  | constructMove y => exact h.constructMove hvalid
  | destruct x => exact h.destruct hvalid
  | copy x y => exact h.copy hvalid.1 hvalid.2 hsafe
  | move x y => exact h.move hvalid.1 hvalid.2
  | copyMB x converted =>
    have hmax := hshort.given hvalid
    rw [List.length_map] at hmax
    exact h.copyMB hvalid converted hmax
  | appendMB x converted => exact h.appendMB hvalid converted (hshort.given hvalid)
  | replace x pos len src => exact h.replace hvalid.1 hvalid.2.1 hsafe hvalid.2.2 (hshort.given hvalid.1)
  | replaceCh x pos len ch count => exact h.replaceCh hvalid.1 hvalid.2 (hshort.given hvalid.1)
  | append x src =>
    rw [Memory.exec, Memory.append, h.getLength hvalid.1]
    exact h.replace hvalid.1 hvalid.2 hsafe (Nat.le_refl _) (hshort.given hvalid.1)
  | appendCh x ch count =>
    rw [Memory.exec, Memory.appendCh, h.getLength hvalid]
    exact h.replaceCh hvalid (Nat.le_refl _) (hshort.given hvalid)
  | insert x pos src => exact h.replace hvalid.1 hvalid.2.1 hsafe hvalid.2.2 (hshort.given hvalid.1)
  | insertCh x pos ch count => exact h.replaceCh hvalid.1 hvalid.2 (hshort.given hvalid.1)
  | copyChars x src =>
    have hmax : (vals.read src).length ≤ UINT_MAX := hshort.given hvalid.1
    have hreplace : ∃ m', m.replace x 0 (vals.at_ x).length src = some m'
        ∧ Sound m' (vals.replace x 0 (vals.at_ x).length (vals.read src)) :=
      h.replace hvalid.1 hvalid.2 hsafe (Nat.le_of_eq (Nat.zero_add _)) (by rwa [splice_all])
    rw [Memory.exec, Memory.copyChars, h.getLength hvalid.1]
    rw [Values.replace, splice_all] at hreplace
    exact hreplace
  | remove x pos len =>
    have hreplace : ∃ m', m.replace x pos len (.elsewhere []) = some m'
        ∧ Sound m' (vals.replace x pos len (vals.read (.elsewhere []))) :=
      h.replace hvalid.1 trivial trivial hvalid.2 (hshort.given hvalid.1)
    exact hreplace
  | replaceChar x pos ch => exact h.replaceChar hvalid.1 ch hvalid.2
  | truncate x nLength => exact h.truncate hvalid nLength
  | clear x =>
    have htruncate := h.truncate hvalid 0
    rwa [List.take_zero] at htruncate
  | reserve x desiredCapacity => exact h.reserve hvalid desiredCapacity
  | changeCase x nStartPos nLength char => exact h.changeCase hvalid.1 nLength char hvalid.2.1 hvalid.2.2
  | edit x nLength chars released =>
    have hmax := hshort.given hvalid.1
    rw [List.length_take, writeAll_length, buffer_length, Nat.min_eq_left hvalid.2.2] at hmax
    exact h.edit hvalid.1 nLength hvalid.2.1 hvalid.2.2 hmax

end

theorem sound_start : Sound .start [] where
  heap :=
    { counted := fun p hp c hc => by
        rw [Memory.start] at hc
        dsimp only at hc
        rw [Function.update_of_ne hp] at hc
        exact nomatch hc
      there := fun p hmem => nomatch hmem
      empty := rfl
      next_pos := Nat.one_pos
      fresh := fun p hle => by
        have hne : p ≠ emptySingleton := Nat.pos_iff_ne_zero.mp hle
        exact (Function.update_of_ne hne (some sEmptyData) fun _ => none).trans rfl
      wellFormed := fun p c hc => by
        rw [Memory.start] at hc
        dsimp only at hc
        by_cases hp : p = emptySingleton
        · rw [hp, Function.update_self] at hc
          rw [← Option.some.inj hc]
          exact ⟨Nat.le_refl _, Nat.zero_le _, rfl⟩
        · rw [Function.update_of_ne hp] at hc
          exact nomatch hc }
  held := fun _ => trivial

/-- Each call is valid, as far as the values go. -/
def Values.ValidAll (vals : Values) : List Call → Prop
  | [] => True
  | call :: calls => call.Valid vals ∧ (vals.exec call).Short ∧ (vals.exec call).ValidAll calls

/-- **Each call meets the condition**, in the memory in which it is made. -/
def Memory.SafeAll (m : Memory) : List Call → Prop
  | [] => True
  | call :: calls => call.Safe m ∧ ∀ m', m.exec call = some m' → m'.SafeAll calls

theorem Sound.execAll : ∀ {calls : List Call} {m : Memory} {vals : Values}, Sound m vals → vals.ValidAll calls →
    m.SafeAll calls → ∃ m', m.execAll calls = some m' ∧ Sound m' (vals.execAll calls)
  | [], m, _, h, _, _ => ⟨m, rfl, h⟩
  | call :: calls, m, vals, h, ⟨hvalid, hshort, hvalidAll⟩, ⟨hsafe, hsafeAll⟩ => by
    obtain ⟨m', hexec, hsound⟩ := h.exec hvalid hshort hsafe
    obtain ⟨m₂, hexecAll, hsound₂⟩ := hsound.execAll hvalidAll (hsafeAll m' hexec)
    refine ⟨m₂, ?_, hsound₂⟩
    rw [Memory.execAll, hexec]
    exact hexecAll

/-- **Strings are independent values**, whatever has been done with them, and their contents are counted. -/
theorem sound_of_calls {calls : List Call} (hvalid : Values.ValidAll [] calls) (hsafe : Memory.start.SafeAll calls) :
    ∃ m, Memory.start.execAll calls = some m ∧ Sound m (Values.execAll [] calls) :=
  sound_start.execAll hvalid hsafe

/-! ## Where they are not -/

/-- `a`, and an empty piece of it from its end. -/
def appendsOwnEnd : List Call := [.construct (.elsewhere [0x61]), .append 0 (.within 0 1 0)]

/-- The same of another variable; whether it shares the content. -/
def appendsOtherEnd (shared : Bool) : List Call :=
  [.construct (.elsewhere [0x61]), if shared then .constructCopy 0 else .construct (.elsewhere [0x61]),
    .append 0 (.within 1 1 0)]

theorem Values.short_nil : Values.Short [] := fun _ hmem => nomatch hmem

theorem Values.Short.cons {vals : Values} {v : Value} (h : vals.Short) (hv : v.length < 2 ^ 31) :
    Values.Short (some v :: vals) := by
  intro w hw
  rcases List.mem_cons.mp hw with heq | hmem
  · rwa [Option.some.inj heq]
  · exact h w hmem

/-- **A string's own end cannot be appended to it**, and that of another one cannot if the two share their
content. -/
theorem append_aborts : (Values.ValidAll [] appendsOwnEnd ∧ (Memory.start.execAll appendsOwnEnd).isSome = false)
    ∧ (∀ shared, Values.ValidAll [] (appendsOtherEnd shared))
    ∧ (Memory.start.execAll (appendsOtherEnd true)).isSome = false
    ∧ (Memory.start.execAll (appendsOtherEnd false)).isSome = true := by
  have hshort : Values.Short [some [some 0x61]] := Values.short_nil.cons (by decide)
  have hshort₂ : Values.Short [some [some 0x61], some [some 0x61]] := hshort.cons (by decide)
  refine ⟨⟨⟨trivial, hshort, ⟨⟨_, rfl⟩, ⟨_, rfl⟩, by decide⟩, hshort, trivial⟩, by decide⟩, fun shared => ?_,
    by decide, by decide⟩
  cases shared with
  | false =>
    exact ⟨trivial, hshort, trivial, hshort₂, ⟨⟨_, rfl⟩, ⟨_, rfl⟩, by decide⟩, hshort₂, trivial⟩
  | true =>
    exact ⟨trivial, hshort, ⟨_, rfl⟩, hshort₂, ⟨⟨_, rfl⟩, ⟨_, rfl⟩, by decide⟩, hshort₂, trivial⟩

/-- A copy, and a character behind the original. -/
theorem sound_of_calls_copy : ∃ m, Memory.start.execAll [.construct (.elsewhere [0x61]), .constructCopy 0,
      .append 0 (.elsewhere [0x62])] = some m ∧ Sound m [some [some 0x61, some 0x62], some [some 0x61]] := by
  refine sound_of_calls ⟨trivial, ?_, ⟨_, rfl⟩, ?_, ⟨⟨_, rfl⟩, trivial⟩, ?_, trivial⟩
    ⟨trivial, fun m' hm' => ⟨fun p _ => ?_, fun _ _ => ⟨trivial, fun _ _ => trivial⟩⟩⟩
  · exact Values.short_nil.cons (by decide)
  · exact (Values.short_nil.cons (by decide)).cons (by decide)
  · exact (Values.short_nil.cons (by decide)).cons (by decide)
  · have hlength : m'.vars.length = 1 := by
      rw [← Option.some.inj hm']
      rfl
    have hcount : m'.vars.count (some p) ≤ m'.vars.length := List.count_le_length
    omega

end Far2l.Base
