/-
Far2l.TTY.InteractsTheorems — no interaction is lost, where none is refused in
the middle of the loop.

The place of an interaction moves from the queue to the hand of the writer and
from there to the wire, or to the refused ones. A refusal ends the loop, and
leaves behind what the writer still has in hand.
-/
import Far2l.TTY.Interacts

namespace Far2l.TTY.Interacts

variable {s : Interacts} {sent : List (UInt8 × Nat)} {id : UInt8} {k : Nat} {rest : List Nat}

/-! ## Ids -/

theorem mem_of_find (h : find sent id = some k) : (id, k) ∈ sent := by
  rw [find, Option.map_eq_some_iff] at h
  obtain ⟨e, hfind, hk⟩ := h
  have hid : e.1 = id := by simpa using List.find?_some hfind
  obtain ⟨id', k'⟩ := e
  obtain rfl : id' = id := hid
  obtain rfl : k' = k := hk
  exact List.mem_of_find?_eq_some hfind

theorem find_eq_none : find sent id = none ↔ id ∉ sent.map Prod.fst := by
  rw [find, Option.map_eq_none_iff, List.find?_eq_none]
  constructor
  · intro h hmem
    obtain ⟨e, he, rfl⟩ := List.mem_map.mp hmem
    exact h e he (decide_eq_true rfl)
  · intro h e he hid
    exact h (List.mem_map.mpr ⟨e, he, of_decide_eq_true hid⟩)

/-- The loop ends at an id that is not zero and not outstanding. -/
theorem nextId_spec : ∀ {fuel : Nat} {c : UInt8}, nextId sent fuel c = some id →
    id ≠ 0 ∧ find sent id = none
  | fuel + 1, c, h => by
    rw [nextId] at h
    split at h
    · next hfree =>
      obtain rfl := Option.some.inj h
      exact hfree
    · exact nextId_spec h

/-- A free id that comes up within the fuel ends the loop. -/
theorem nextId_isSome_of_free : ∀ {fuel : Nat} {c : UInt8} (j : Nat), j < fuel →
    c + 1 + UInt8.ofNat j ≠ 0 → find sent (c + 1 + UInt8.ofNat j) = none →
    (nextId sent fuel c).isSome
  | fuel + 1, c, j, hj, hzero, hfree => by
    rw [nextId]
    split
    · rfl
    · next hnot =>
      cases j with
      | zero =>
        have hsame : c + 1 + UInt8.ofNat 0 = c + 1 := UInt8.add_zero _
        rw [hsame] at hzero hfree
        exact absurd ⟨hzero, hfree⟩ hnot
      | succ j =>
        have hsame : c + 1 + UInt8.ofNat (j + 1) = c + 1 + 1 + UInt8.ofNat j := by
          rw [UInt8.ofNat_add, UInt8.add_assoc (c + 1) 1, UInt8.add_comm 1]
          rfl
        rw [hsame] at hzero hfree
        exact nextId_isSome_of_free j (by omega) hzero hfree

/-- With fewer than 255 interactions outstanding there is an id. -/
theorem exists_free (hlen : sent.length < 0xff) : ∃ f : UInt8, f ≠ 0 ∧ find sent f = none := by
  by_contra hnone
  have hall : ∀ n ∈ List.range 256, n ∈ (0 :: (sent.map Prod.fst)).map UInt8.toNat := by
    intro n hn
    have hlt : n < 256 := List.mem_range.mp hn
    refine List.mem_map.mpr ⟨UInt8.ofNat n, ?_, by simpa using hlt⟩
    by_cases hzero : UInt8.ofNat n = 0
    · rw [hzero]
      exact List.mem_cons_self
    · refine List.mem_cons_of_mem _ (not_not.mp fun hmem => hnone ⟨_, hzero, ?_⟩)
      exact find_eq_none.mpr hmem
  have hle := (List.subperm_of_subset List.nodup_range hall).length_le
  rw [List.length_range, List.length_map, List.length_cons, List.length_map] at hle
  omega

theorem nextId_isSome (hlen : sent.length < 0xff) (c : UInt8) : (nextId sent IDS c).isSome := by
  obtain ⟨f, hzero, hfree⟩ := exists_free hlen
  have hf : c + 1 + UInt8.ofNat (f - (c + 1)).toNat = f := by
    rw [UInt8.ofNat_toNat, UInt8.add_comm, UInt8.sub_add_cancel]
  refine nextId_isSome_of_free (f - (c + 1)).toNat ?_ (by rw [hf]; exact hzero) (by rw [hf]; exact hfree)
  exact UInt8.toNat_lt _

/-! ## Places -/

namespace Accounted

theorem nodup (h : s.Accounted) :
    (s.queued ++ s.writer.hand ++ s.refused ++ s.wire.map Sending.interact).Nodup :=
  h.once.nodup_iff.mpr List.nodup_range

theorem lt_made (h : s.Accounted)
    (hk : k ∈ s.queued ++ s.writer.hand ++ s.refused ++ s.wire.map Sending.interact) :
    k < s.made := List.mem_range.mp (h.once.mem_iff.mp hk)

/-- What is still to be sent has not been sent. -/
theorem wire_ne (h : s.Accounted) (hk : k ∈ s.queued ++ s.writer.hand) {m : Sending}
    (hm : m ∈ s.wire) : m.interact ≠ k := by
  have hdisj := (List.nodup_append.mp h.nodup).2.2
  exact (hdisj k (List.mem_append_left _ hk) _ (List.mem_map.mpr ⟨m, hm, rfl⟩)).symm

theorem refused_ne (h : s.Accounted) (hk : k ∈ s.queued ++ s.writer.hand) {r : Nat}
    (hr : r ∈ s.refused) : r ≠ k := by
  have hdisj := (List.nodup_append.mp (List.nodup_append.mp h.nodup).1).2.2
  exact (hdisj k hk r hr).symm

/-- What is still to be sent is not signalled. -/
theorem not_signalled (h : s.Accounted) (hk : k ∈ s.queued ++ s.writer.hand) :
    (s.data k).signalled = false := by
  rw [← Bool.not_eq_true]
  intro hsig
  rcases h.signalled k hsig with ⟨hr, -⟩ | ⟨m, hm, heq, -⟩
  · exact h.refused_ne hk hr rfl
  · exact h.wire_ne hk hm heq

end Accounted

theorem Receives.mono {s s' : Interacts} {contents : StackSerializer} (h : s.Receives k contents)
    (hrefused : ∀ r ∈ s.refused, r ∈ s'.refused) (hwire : ∀ m ∈ s.wire, m ∈ s'.wire)
    (hreplied : ∀ r ∈ s.replied, r ∈ s'.replied) : s'.Receives k contents := by
  rcases h with ⟨hr, he⟩ | ⟨m, hm, heq, hrep⟩
  · exact .inl ⟨hrefused k hr, he⟩
  · exact .inr ⟨m, hwire m hm, heq, hreplied _ hrep⟩

/-! ## One step -/

namespace Accounted

theorem far2lInteract (h : s.Accounted) (stkSer : StackSerializer) (wait : Bool) :
    (s.far2lInteract stkSer wait).Accounted := by
  rw [Interacts.far2lInteract]
  split
  · -- the new interaction is in none of the places so far
    have hne : ∀ k, k ∈ s.queued ++ s.writer.hand ++ s.refused ++ s.wire.map Sending.interact →
        k ≠ s.made := fun k hk => Nat.ne_of_lt (h.lt_made hk)
    have hwire : ∀ m ∈ s.wire, m.interact ≠ s.made := fun m hm =>
      hne _ (List.mem_append_right _ (List.mem_map.mpr ⟨m, hm, rfl⟩))
    have hsent : ∀ e ∈ s.sent, e.2 ≠ s.made := by
      intro e he
      obtain ⟨-, -, m, hm, heq, -⟩ := h.outstanding e he
      exact heq ▸ hwire m hm
    constructor
    · dsimp only
      rw [List.range_succ]
      have honce := List.perm_iff_count.mp h.once
      refine List.perm_iff_count.mpr fun a => ?_
      have := honce a
      simp only [List.count_append] at this ⊢
      omega
    · intro k hk
      have hk' : k ∈ (s.queued ++ s.writer.hand) ∨ k = s.made := by
        simp only [List.mem_append, List.mem_singleton] at hk ⊢
        tauto
      by_cases hmade : k = s.made
      · subst hmade
        simp
      · dsimp only
        rw [Function.update_of_ne hmade, Function.update_of_ne hmade]
        exact h.pending k (hk'.resolve_right hmade)
    · intro m hm
      dsimp only
      rw [Function.update_of_ne (hwire m hm)]
      exact h.request m hm
    · intro m hm
      dsimp only
      rw [Function.update_of_ne (hwire m hm)]
      exact h.waited m hm
    · intro m hm
      dsimp only
      rw [Function.update_of_ne (hwire m hm)]
      exact h.unwaited m hm
    · exact h.distinct
    · intro e he
      dsimp only
      rw [Function.update_of_ne (hsent e he)]
      exact h.outstanding e he
    · intro k hk
      dsimp only
      rw [Function.update_of_ne (hne k (List.mem_append_left _ (List.mem_append_right _ hk)))]
      exact h.refused k hk
    · intro k
      dsimp only
      by_cases hmade : k = s.made
      · subst hmade
        simp
      · rw [Function.update_of_ne hmade]
        exact h.signalled k
    · exact h.returned
  · exact h

theorem refuse (h : s.Accounted) (hwriter : s.writer = .draining [k])
    (hwaited : (s.data k).waited = true) : (s.refuse k).Accounted := by
  have hhand : k ∈ s.queued ++ s.writer.hand := by
    rw [hwriter]
    exact List.mem_append_right _ List.mem_cons_self
  have hsent : ∀ e ∈ s.sent, e.2 ≠ k := by
    intro e he
    obtain ⟨-, -, m, hm, heq, -⟩ := h.outstanding e he
    exact heq ▸ h.wire_ne hhand hm
  have honce := h.once
  rw [hwriter] at honce
  have hnodup := h.nodup
  rw [hwriter] at hnodup
  have hqueued : k ∉ s.queued := by
    have hdisj := (List.nodup_append.mp (List.nodup_append.mp (List.nodup_append.mp hnodup).1).1).2.2
    exact fun hk => hdisj k hk k List.mem_cons_self rfl
  have hgrow : ∀ r c, s.Receives r c → (s.refuse k).Receives r c := fun r c hr =>
    hr.mono (fun _ => List.mem_append_left _) (fun _ hr => hr) (fun _ hr => hr)
  constructor
  · have hcount := List.perm_iff_count.mp honce
    refine List.perm_iff_count.mpr fun a => ?_
    have := hcount a
    simp only [Interacts.refuse, Writer.hand, List.count_append, List.count_nil] at this ⊢
    omega
  · intro r hr
    have hr' : r ∈ s.queued := by
      simpa [Interacts.refuse, Writer.hand] using hr
    have hne : r ≠ k := fun heq => hqueued (heq ▸ hr')
    simp only [Interacts.refuse]
    rw [Function.update_of_ne hne]
    exact h.pending r (List.mem_append_left _ hr')
  · exact h.request
  · intro m hm
    simp only [Interacts.refuse]
    rw [Function.update_of_ne (h.wire_ne hhand hm)]
    exact h.waited m hm
  · intro m hm
    simp only [Interacts.refuse]
    rw [Function.update_of_ne (h.wire_ne hhand hm)]
    exact h.unwaited m hm
  · exact h.distinct
  · intro e he
    simp only [Interacts.refuse]
    rw [Function.update_of_ne (hsent e he)]
    exact h.outstanding e he
  · intro r hr
    simp only [Interacts.refuse]
    rcases List.mem_append.mp hr with hr | hr
    · rw [Function.update_of_ne (h.refused_ne hhand hr)]
      exact h.refused r hr
    · obtain rfl := List.mem_singleton.mp hr
      rw [Function.update_self]
      exact ⟨hwaited, rfl⟩
  · intro r hr
    by_cases hne : r = k
    · subst hne
      refine .inl ⟨List.mem_append_right _ (List.mem_singleton.mpr rfl), ?_⟩
      simp only [Interacts.refuse]
      rw [Function.update_self]
    · simp only [Interacts.refuse] at hr ⊢
      rw [Function.update_of_ne hne] at hr ⊢
      exact hgrow r _ (h.signalled r hr)
  · exact fun r hr => hgrow _ _ (h.returned r hr)

/-- An interaction goes from the hand of the writer to the wire. -/
theorem send (h : s.Accounted) (hwriter : s.writer = .draining (k :: rest)) {sent' : List (UInt8 × Nat)}
    {counter : UInt8}
    (hsent' : (s.data k).waited = true ∧ id ≠ 0 ∧ id ∉ s.sent.map Prod.fst ∧ sent' = (id, k) :: s.sent
      ∨ (s.data k).waited = false ∧ id = 0 ∧ sent' = s.sent) :
    Accounted { s.send k rest id with sent := sent', idCounter := counter } := by
  have hhand : k ∈ s.queued ++ s.writer.hand := by
    rw [hwriter]
    exact List.mem_append_right _ List.mem_cons_self
  have hsent : ∀ e ∈ s.sent, e.2 ≠ k := by
    intro e he
    obtain ⟨-, -, m, hm, heq, -⟩ := h.outstanding e he
    exact heq ▸ h.wire_ne hhand hm
  have honce := h.once
  rw [hwriter] at honce
  have hnodup := (List.nodup_append.mp (List.nodup_append.mp h.nodup).1).1
  rw [hwriter] at hnodup
  have hother : ∀ r, r ∈ s.queued ++ rest → r ≠ k := by
    rintro r hr rfl
    obtain ⟨-, hrest, hdisj⟩ := List.nodup_append.mp hnodup
    rcases List.mem_append.mp hr with hr | hr
    · exact hdisj r hr r List.mem_cons_self rfl
    · exact (List.nodup_cons.mp hrest).1 hr
  have hold : ∀ e ∈ s.sent, e ∈ sent' := by
    intro e he
    rcases hsent' with ⟨-, -, -, heq⟩ | ⟨-, -, heq⟩
    · rw [heq]
      exact List.mem_cons_of_mem _ he
    · rw [heq]
      exact he
  have hrequest : (s.data k).stkSer = s.requests k := h.pending k hhand
  have hunsig := h.not_signalled hhand
  constructor
  · have hcount := List.perm_iff_count.mp honce
    refine List.perm_iff_count.mpr fun a => ?_
    have := hcount a
    simp only [Interacts.send, Writer.hand, List.count_append, List.map_append, List.map_cons,
      List.map_nil, List.count_cons, List.count_nil] at this ⊢
    omega
  · intro r hr
    have hr' : r ∈ s.queued ++ rest := hr
    simp only [Interacts.send]
    rw [Function.update_of_ne (hother r hr')]
    refine h.pending r ?_
    rw [hwriter]
    rcases List.mem_append.mp hr' with hr' | hr'
    · exact List.mem_append_left _ hr'
    · exact List.mem_append_right _ (List.mem_cons_of_mem _ hr')
  · intro m hm
    rcases List.mem_append.mp hm with hm | hm
    · exact h.request m hm
    · obtain rfl := List.mem_singleton.mp hm
      show (s.data k).stkSer.push [id] = (s.requests k).push [id]
      rw [hrequest]
  · intro m hm hw
    simp only [Interacts.send] at hw ⊢
    rcases List.mem_append.mp hm with hm | hm
    · rw [Function.update_of_ne (h.wire_ne hhand hm)] at hw
      obtain ⟨hid, hreg⟩ := h.waited m hm hw
      exact ⟨hid, hreg.imp_left (hold _)⟩
    · obtain rfl := List.mem_singleton.mp hm
      dsimp only at hw ⊢
      rw [Function.update_self] at hw
      rcases hsent' with ⟨-, hid, -, heq⟩ | ⟨hnot, -, -⟩
      · rw [heq]
        exact ⟨hid, .inl List.mem_cons_self⟩
      · exact absurd (hw.symm.trans hnot) Bool.noConfusion
  · intro m hm hw
    simp only [Interacts.send] at hw ⊢
    rcases List.mem_append.mp hm with hm | hm
    · rw [Function.update_of_ne (h.wire_ne hhand hm)] at hw
      exact h.unwaited m hm hw
    · obtain rfl := List.mem_singleton.mp hm
      dsimp only at hw ⊢
      rw [Function.update_self] at hw
      rcases hsent' with ⟨hnot, -⟩ | ⟨-, hid, -⟩
      · exact absurd (hw.symm.trans hnot) Bool.noConfusion
      · exact hid
  · show (sent'.map Prod.fst).Nodup
    rcases hsent' with ⟨-, -, hfree, heq⟩ | ⟨-, -, heq⟩
    · rw [heq]
      exact List.nodup_cons.mpr ⟨hfree, h.distinct⟩
    · rw [heq]
      exact h.distinct
  · intro e he
    simp only [Interacts.send]
    have hcases : e ∈ s.sent ∨ ((s.data k).waited = true ∧ id ≠ 0 ∧ e = (id, k)) := by
      have he' : e ∈ sent' := he
      rcases hsent' with ⟨hw, hid, -, heq⟩ | ⟨-, -, heq⟩
      · rw [heq] at he'
        rcases List.mem_cons.mp he' with he' | he'
        · exact .inr ⟨hw, hid, he'⟩
        · exact .inl he'
      · rw [heq] at he'
        exact .inl he'
    rcases hcases with he | ⟨-, hid, rfl⟩
    · rw [Function.update_of_ne (hsent e he)]
      obtain ⟨h0, h1, m, hm, h2⟩ := h.outstanding e he
      exact ⟨h0, h1, m, List.mem_append_left _ hm, h2⟩
    · dsimp only
      rw [Function.update_self]
      exact ⟨hid, hunsig, _, List.mem_append_right _ (List.mem_singleton.mpr rfl), rfl, rfl⟩
  · intro r hr
    simp only [Interacts.send]
    rw [Function.update_of_ne (h.refused_ne hhand hr)]
    exact h.refused r hr
  · intro r hr
    simp only [Interacts.send] at hr ⊢
    by_cases hne : r = k
    · subst hne
      rw [Function.update_self] at hr
      exact absurd (hr.symm.trans hunsig) Bool.noConfusion
    · rw [Function.update_of_ne hne] at hr ⊢
      exact (h.signalled r hr).mono (fun _ hr => hr) (fun _ => List.mem_append_left _) (fun _ hr => hr)
  · intro r hr
    exact (h.returned r hr).mono (fun _ hr => hr) (fun _ => List.mem_append_left _) (fun _ hr => hr)

theorem dispatchTurn (h : s.Accounted) (hwriter : s.writer = .draining (k :: rest))
    (hroomy : (s.data k).waited = true → s.sent.length ≥ 0xff → rest = []) :
    (s.dispatchTurn k rest).Accounted := by
  rw [Interacts.dispatchTurn]
  split
  · next hwaited =>
    split
    · next hfull =>
      obtain rfl := hroomy hwaited hfull
      exact h.refuse hwriter hwaited
    · cases hid : nextId s.sent IDS s.idCounter with
      | none => exact h
      | some id =>
        obtain ⟨hzero, hfree⟩ := nextId_spec hid
        refine h.send hwriter (.inl ⟨hwaited, hzero, find_eq_none.mp hfree, ?_⟩)
        rw [if_pos hfree]
  · next hwaited =>
    exact h.send hwriter (.inr ⟨Bool.eq_false_iff.mpr hwaited, rfl, rfl⟩)

theorem answer (h : s.Accounted) (hfind : find s.sent id = some k) (contents : StackSerializer) :
    (s.answer id k contents).Accounted := by
  have hmem := mem_of_find hfind
  obtain ⟨-, -, m₀, hm₀, heq₀, hid₀⟩ := h.outstanding _ hmem
  have hpending : ∀ r ∈ s.queued ++ s.writer.hand, r ≠ k := fun r hr heq =>
    h.wire_ne hr hm₀ (heq₀.trans heq.symm)
  have hrefused : ∀ r ∈ s.refused, r ≠ k := by
    intro r hr heq
    have hdisj := (List.nodup_append.mp h.nodup).2.2
    refine hdisj r (List.mem_append_right _ hr) m₀.interact (List.mem_map.mpr ⟨m₀, hm₀, rfl⟩) ?_
    rw [heq, heq₀]
  -- an interaction is sent once, and so has one id
  have hone : ∀ m ∈ s.wire, m.interact = k → m.id = id := by
    intro m hm heq
    have hnodup := (List.nodup_append.mp h.nodup).2.1
    have hsame : m = m₀ := List.inj_on_of_nodup_map hnodup hm hm₀ (heq.trans heq₀.symm)
    rw [hsame]
    exact hid₀
  have hgrow : ∀ r c, s.Receives r c → (s.answer id k contents).Receives r c := fun r c hr =>
    hr.mono (fun _ hr => hr) (fun _ hr => hr) (fun _ => List.mem_append_left _)
  constructor
  · exact h.once
  · intro r hr
    simp only [Interacts.answer]
    rw [Function.update_of_ne (hpending r hr)]
    exact h.pending r hr
  · exact h.request
  · intro m hm hw
    have hw' : (s.data m.interact).waited = true := by
      by_cases heq : m.interact = k
      · rw [heq]
        simp only [Interacts.answer] at hw
        rw [heq, Function.update_self] at hw
        exact hw
      · simp only [Interacts.answer] at hw
        rw [Function.update_of_ne heq] at hw
        exact hw
    obtain ⟨hid, hreg⟩ := h.waited m hm hw'
    refine ⟨hid, ?_⟩
    rcases hreg with hreg | ⟨r, hr⟩
    · by_cases hsame : m.id = id
      · have hfst := List.inj_on_of_nodup_map h.distinct hreg hmem hsame
        have hk : m.interact = k := congrArg Prod.snd hfst
        refine .inr ⟨contents, List.mem_append_right _ (List.mem_singleton.mpr ?_)⟩
        rw [hk, hsame]
      · exact .inl (List.mem_filter.mpr ⟨hreg, decide_eq_true hsame⟩)
    · exact .inr ⟨r, List.mem_append_left _ hr⟩
  · intro m hm hw
    refine h.unwaited m hm ?_
    by_cases heq : m.interact = k
    · rw [heq]
      simp only [Interacts.answer] at hw
      rw [heq, Function.update_self] at hw
      exact hw
    · simp only [Interacts.answer] at hw
      rw [Function.update_of_ne heq] at hw
      exact hw
  · exact (h.distinct.sublist (List.Sublist.map _ List.filter_sublist))
  · intro e he
    obtain ⟨he, hne⟩ := List.mem_filter.mp he
    obtain ⟨h0, h1, m, hm, heq, hid⟩ := h.outstanding e he
    have hk : e.2 ≠ k := by
      intro hk
      refine of_decide_eq_true hne ?_
      rw [← hid]
      exact hone m hm (heq.trans hk)
    simp only [Interacts.answer]
    rw [Function.update_of_ne hk]
    exact ⟨h0, h1, m, hm, heq, hid⟩
  · intro r hr
    simp only [Interacts.answer]
    rw [Function.update_of_ne (hrefused r hr)]
    exact h.refused r hr
  · intro r hr
    by_cases hk : r = k
    · subst hk
      refine .inr ⟨m₀, hm₀, heq₀, List.mem_append_right _ (List.mem_singleton.mpr ?_)⟩
      simp only [Interacts.answer]
      rw [Function.update_self, hid₀]
    · simp only [Interacts.answer] at hr ⊢
      rw [Function.update_of_ne hk] at hr ⊢
      exact hgrow r _ (h.signalled r hr)
  · exact fun r hr => hgrow _ _ (h.returned r hr)

theorem onFar2lReply (h : s.Accounted) (stkSer : StackSerializer) :
    (s.onFar2lReply stkSer).Accounted := by
  rw [Interacts.onFar2lReply]
  split
  · cases stkSer.popNum 1 with
    | none => exact h
    | some r =>
      dsimp only
      cases hfind : find s.sent (UInt8.ofNat r.1) with
      | none => exact h
      | some k => exact h.answer hfind r.2
  · exact h

/-- Only the writer has moved. -/
theorem move (h : s.Accounted) {writer : Writer} {queued : List Nat}
    (hplaces : queued ++ writer.hand = s.queued ++ s.writer.hand) :
    Accounted { s with writer := writer, queued := queued } where
  once := by
    show (queued ++ writer.hand ++ s.refused ++ s.wire.map Sending.interact).Perm _
    rw [hplaces]
    exact h.once
  pending k hk := by
    have hk' : k ∈ queued ++ writer.hand := hk
    rw [hplaces] at hk'
    exact h.pending k hk'
  request := h.request
  waited := h.waited
  unwaited := h.unwaited
  distinct := h.distinct
  outstanding := h.outstanding
  refused := h.refused
  signalled := h.signalled
  returned := h.returned

/-- **One step** keeps every interaction accounted for. -/
theorem perform (h : s.Accounted) {op : Op} (hroomy : s.Roomy op) : (s.perform op).Accounted := by
  cases op with
  | interact stkSer wait => exact h.far2lInteract stkSer wait
  | swap =>
    simp only [Interacts.perform]
    cases hwriter : s.writer with
    | outside =>
      refine h.move ?_
      rw [hwriter]
      exact (List.append_nil _).symm
    | swapped queued => exact h
    | draining queued => exact h
  | lock =>
    simp only [Interacts.perform]
    cases hwriter : s.writer with
    | outside => exact h
    | swapped queued =>
      refine h.move ?_
      rw [hwriter]
      rfl
    | draining queued => exact h
  | turn =>
    simp only [Interacts.perform]
    cases hwriter : s.writer with
    | outside => exact h
    | swapped queued => exact h
    | draining queued =>
      cases queued with
      | nil =>
        refine h.move ?_
        rw [hwriter]
        rfl
      | cons k rest => exact h.dispatchTurn hwriter (hroomy k rest hwriter)
  | reply stkSer =>
    simp only [Interacts.perform]
    split
    · exact h
    · exact h.onFar2lReply stkSer
  | wake k =>
    simp only [Interacts.perform]
    split
    · exact h
    · next hwake =>
      have hsig : (s.data k).signalled = true := by
        simp only [not_or, Bool.not_eq_true, Bool.not_eq_false'] at hwake
        exact hwake.2.1
      refine ⟨h.once, h.pending, h.request, h.waited, h.unwaited, h.distinct, h.outstanding,
        h.refused, h.signalled, fun r hr => ?_⟩
      rcases List.mem_append.mp hr with hr | hr
      · exact h.returned r hr
      · obtain rfl := List.mem_singleton.mp hr
        exact h.signalled k hsig

end Accounted

/-- **No interaction is lost**, in every run in which none is refused in front of others: each one is
accounted for in every state, and the loop over the ids ends. -/
theorem reach_accounted {far2lTty : Bool} (h : Reach perform Roomy { far2lTty := far2lTty } s) :
    s.Accounted ∧ (s.sent.length < 0xff → (nextId s.sent IDS s.idCounter).isSome) := by
  refine ⟨h.invariant ?_ fun s op hs hroomy => hs.perform hroomy, fun hlen => nextId_isSome hlen _⟩
  exact
    { once := .refl _
      pending := fun _ h => absurd h List.not_mem_nil
      request := fun _ h => absurd h List.not_mem_nil
      waited := fun _ h => absurd h List.not_mem_nil
      unwaited := fun _ h => absurd h List.not_mem_nil
      distinct := .nil
      outstanding := fun _ h => absurd h List.not_mem_nil
      refused := fun _ h => absurd h List.not_mem_nil
      signalled := fun _ h => Bool.noConfusion h
      returned := fun _ h => absurd h List.not_mem_nil }

theorem roomy_of_lt (h : s.sent.length < 0xff) (op : Op) : s.Roomy op := by
  cases op with
  | turn => exact fun _ _ _ _ hfull => absurd h (Nat.not_lt.mpr hfull)
  | _ => exact trivial

/-- An interaction is made, sent and answered. -/
def oneAnswered : Interacts :=
  [.interact {} true, .swap, .lock, .turn, .turn, .reply ⟨[0x41, 1]⟩, .wake 0].foldl perform
    { far2lTty := true }

theorem oneAnswered_accounted :
    oneAnswered.returned = [(0, ⟨[0x41]⟩)] ∧ oneAnswered.Accounted
    ∧ (oneAnswered.sent.length < 0xff → (nextId oneAnswered.sent IDS oneAnswered.idCounter).isSome) := by
  have h0 : Reach perform Roomy { far2lTty := true } { far2lTty := true } := .start
  have h1 := h0.step (Op.interact {} true) trivial
  have h2 := h1.step Op.swap trivial
  have h3 := h2.step Op.lock trivial
  have h4 := h3.step Op.turn (roomy_of_lt (by decide) _)
  have h5 := h4.step Op.turn (roomy_of_lt (by decide) _)
  have h6 := h5.step (Op.reply ⟨[0x41, 1]⟩) trivial
  have h7 : Reach perform Roomy { far2lTty := true } oneAnswered := h6.step (Op.wake 0) trivial
  exact ⟨by decide, reach_accounted h7⟩

/-! ## 255 outstanding interactions -/

theorem perform_turn (h : s.writer = .draining (k :: rest)) :
    s.perform .turn = s.dispatchTurn k rest := by
  simp only [perform]
  rw [h]

theorem dispatchTurn_sends (hwaited : (s.data k).waited = true) (hroom : s.sent.length < 0xff)
    (hid : nextId s.sent IDS s.idCounter = some id) :
    s.dispatchTurn k rest = s.sendWaited k rest id := by
  rw [dispatchTurn, if_pos hwaited, if_neg (Nat.not_le.mpr hroom), hid]

theorem dispatchTurn_refuses (hwaited : (s.data k).waited = true) (hfull : s.sent.length ≥ 0xff) :
    s.dispatchTurn k rest = s.refuse k := by
  rw [dispatchTurn, if_pos hwaited, if_pos hfull]

/-- `n` interactions have been made, whose threads wait, and are in the queue. -/
structure Asked (s : Interacts) (n : Nat) : Prop where
  far2lTty : s.far2lTty = true
  made : s.made = n
  queued : s.queued = List.range n
  writer : s.writer = .outside
  sent : s.sent = []
  refused : s.refused = []
  wire : s.wire = []
  waited : ∀ k < n, (s.data k).waited = true
  accounted : s.Accounted

theorem asked : ∀ n : Nat,
    Asked ((List.replicate n (Op.interact {} true)).foldl perform { far2lTty := true }) n
  | 0 => ⟨rfl, rfl, rfl, rfl, rfl, rfl, rfl, fun _ hk => absurd hk (Nat.not_lt_zero _),
      (reach_accounted .start).1⟩
  | n + 1 => by
    have ih := asked n
    rw [List.replicate_succ', List.foldl_append]
    generalize (List.replicate n (Op.interact {} true)).foldl perform { far2lTty := true } = s at ih ⊢
    have hacc := ih.accounted.far2lInteract {} true
    show Asked (s.far2lInteract {} true) (n + 1)
    rw [far2lInteract, if_pos ih.far2lTty] at hacc ⊢
    refine ⟨ih.far2lTty, ?_, ?_, ih.writer, ih.sent, ih.refused, ih.wire, fun k hk => ?_, hacc⟩
    · show s.made + 1 = n + 1
      rw [ih.made]
    · show s.queued ++ [s.made] = List.range (n + 1)
      rw [ih.queued, ih.made, List.range_succ]
    · show ((Function.update s.data s.made _) k).waited = true
      by_cases hmade : k = s.made
      · rw [hmade, Function.update_self]
      · rw [Function.update_of_ne hmade]
        refine ih.waited k ?_
        rw [ih.made] at hmade
        omega

/-- The writer has sent `n` of the interactions in `queue`. -/
structure Drained (s s' : Interacts) (queue : List Nat) (n : Nat) : Prop where
  writer : s'.writer = .draining (queue.drop n)
  sent : s'.sent.length = s.sent.length + n
  queued : s'.queued = s.queued
  waited : ∀ k, (s'.data k).waited = (s.data k).waited
  accounted : s'.Accounted

theorem drained {s : Interacts} {queue : List Nat} (h : s.Accounted)
    (hwriter : s.writer = .draining queue) (hwaited : ∀ k ∈ queue, (s.data k).waited = true) :
    ∀ n : Nat, n ≤ queue.length → s.sent.length + n ≤ 0xff →
    Drained s ((List.replicate n Op.turn).foldl perform s) queue n
  | 0, _, _ => ⟨hwriter, rfl, rfl, fun _ => rfl, h⟩
  | n + 1, hn, hroom => by
    have ih := drained h hwriter hwaited n (by omega) (by omega)
    rw [List.replicate_succ', List.foldl_append]
    generalize (List.replicate n Op.turn).foldl perform s = s' at ih ⊢
    obtain ⟨k, hk⟩ : ∃ k, queue[n]? = some k := ⟨_, List.getElem?_eq_getElem (by omega)⟩
    have hdrop : queue.drop n = k :: queue.drop (n + 1) := by
      rw [List.drop_eq_getElem_cons (by omega)]
      congr 1
      exact (List.getElem_eq_iff _).mpr hk
    have hkw : (s'.data k).waited = true :=
      (ih.waited k).trans (hwaited k (List.mem_of_getElem? hk))
    have hlen : s'.sent.length < 0xff := by
      rw [ih.sent]
      omega
    obtain ⟨id, hid⟩ := Option.isSome_iff_exists.mp (nextId_isSome hlen s'.idCounter)
    have hstep : s'.perform .turn = s'.sendWaited k (queue.drop (n + 1)) id :=
      (perform_turn (hdrop ▸ ih.writer)).trans (dispatchTurn_sends hkw hlen hid)
    have hacc := ih.accounted.perform (roomy_of_lt hlen .turn)
    show Drained s (s'.perform .turn) queue (n + 1)
    rw [hstep] at hacc ⊢
    refine ⟨rfl, ?_, ih.queued, fun j => ?_, hacc⟩
    · show (if find s'.sent id = none then (id, k) :: s'.sent else s'.sent).length = _
      rw [if_pos (nextId_spec hid).2, List.length_cons, ih.sent]
      omega
    · show ((Function.update s'.data k _) j).waited = _
      by_cases hj : j = k
      · rw [hj, Function.update_self]
        exact ih.waited k
      · rw [Function.update_of_ne hj]
        exact ih.waited j

/-- A refusal that leaves `lost` interactions in the hand of the writer loses them. -/
theorem refuse_not_accounted {lost : List Nat} (hwriter : s.writer = .draining (k :: lost))
    (hlost : lost ≠ []) (h : s.Accounted) : ¬ (s.refuse k).Accounted := by
  intro h'
  have hlen := h.once.length_eq
  have hlen' := h'.once.length_eq
  rw [hwriter] at hlen
  simp only [Writer.hand, List.length_append, List.length_cons, List.length_map,
    List.length_range] at hlen
  simp only [refuse, Writer.hand, List.length_append, List.length_nil, List.length_map,
    List.length_range, List.length_singleton] at hlen'
  have hpos := List.length_pos_iff.mpr hlost
  omega

/-- `n` threads make an interaction and wait, and the writer takes them and locks. -/
def manyWaited (n : Nat) : Interacts :=
  (((List.replicate n (Op.interact {} true)).foldl perform { far2lTty := true }).perform
    .swap).perform .lock

/-- With 257 of them, the 256th is refused, and the last one is lost. -/
theorem manyWaited_not_accounted :
    ∃ s, Reach perform (fun _ _ => True) { far2lTty := true } s
      ∧ s.queued = [] ∧ s.writer = .outside ∧ ¬ s.Accounted := by
  have hasked := asked 257
  have hreach : Reach perform (fun _ _ => True) { far2lTty := true } (manyWaited 257) :=
    ((Reach.foldl _ .start).step Op.swap trivial).step Op.lock trivial
  have hmany : ∃ s, manyWaited 257 = s ∧ s.writer = .draining (List.range 257) ∧ s.sent = []
      ∧ s.queued = [] ∧ (∀ k ∈ List.range 257, (s.data k).waited = true) ∧ s.Accounted := by
    refine ⟨_, rfl, ?_⟩
    rw [manyWaited]
    generalize (List.replicate 257 (Op.interact {} true)).foldl perform { far2lTty := true } = s
      at hasked ⊢
    have hswapped : (s.perform .swap).Accounted := hasked.accounted.perform trivial
    have hacc : ((s.perform .swap).perform .lock).Accounted := hswapped.perform trivial
    have hswap : (s.perform .swap).perform .lock
        = { s with writer := .draining s.queued, queued := [] } := by
      simp only [perform]
      rw [hasked.writer]
    rw [hswap] at hacc ⊢
    refine ⟨?_, hasked.sent, rfl, fun k hk => hasked.waited k (List.mem_range.mp hk), hacc⟩
    rw [hasked.queued]
  obtain ⟨s, hs, hwriter, hsent, hqueued, hwaited, hacc⟩ := hmany
  rw [hs] at hreach
  have hdrained := drained hacc hwriter hwaited 255 (by rw [List.length_range]; omega)
    (by rw [hsent]; decide)
  have hreach := Reach.foldl (List.replicate 255 Op.turn) hreach
  generalize (List.replicate 255 Op.turn).foldl perform s = t at hdrained hreach
  have hhand : (List.range 257).drop 255 = [255, 256] := by decide
  have htake := hdrained.writer
  rw [hhand] at htake
  have hfull : t.sent.length ≥ 0xff := by
    rw [hdrained.sent]
    exact Nat.le_add_left _ _
  have hwait : (t.data 255).waited = true :=
    (hdrained.waited 255).trans (hwaited 255 (List.mem_range.mpr (by decide)))
  refine ⟨t.perform .turn, hreach.step Op.turn trivial, ?_⟩
  rw [perform_turn htake, dispatchTurn_refuses hwait hfull]
  exact ⟨hdrained.queued.trans hqueued, rfl,
    refuse_not_accounted htake (List.cons_ne_nil _ _) hdrained.accounted⟩

end Far2l.TTY.Interacts
