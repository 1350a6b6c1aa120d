/-
Far2l.Mix.SearchReverseTheorems — which match a search for a regular expression to the
left returns, and whether it stays in its array of matches.

The loop turns as long as the forward searches find a match in front of the position,
and keeps the last one in one half of the array while the next one is stored into the
other half. The array has only been made for one half.
-/
import Far2l.Mix.SearchStringTheorems

namespace Far2l

namespace SearchString

variable {U : CaseTable} {q : Sought} {R : RegExp} {source : WStr}

/-! ## The forward searches -/

variable (R source) in
/-- The match that a search gives. -/
def matchFrom (pos : Int) : Option RegExpMatch :=
  if (R.searchEx source pos.toNat).found then (R.searchEx source pos.toNat).stored.head? else none

variable (R source) in
/-- **The forward searches**: each one begins behind the start of the match before it. -/
def forwardMatch : Nat → Option RegExpMatch
  | 0 => matchFrom R source 0
  | k + 1 => (forwardMatch k).bind fun m => matchFrom R source (m.start + 1)

variable (R source) in
/-- The last match of the forward searches that begins at an index or in front of it. -/
def IsLast (limit : Int) (m : RegExpMatch) : Prop :=
  (∃ k, forwardMatch R source k = some m) ∧ m.start ≤ limit
    ∧ ∀ k m', forwardMatch R source k = some m' → m'.start ≤ limit → m'.start ≤ m.start

theorem matchFrom_ge {pos : Int} {m : RegExpMatch} (h : matchFrom R source pos = some m) :
    0 ≤ m.start ∧ pos ≤ m.start := by
  rw [matchFrom] at h
  split at h
  · next hfound =>
    obtain ⟨m', ms, hstored, hle⟩ := R.found_match source pos.toNat hfound
    rw [hstored, List.head?_cons, Option.some.injEq] at h
    subst h
    omega
  · cases h

theorem matchFrom_of_found (pos : Int) (h : (R.searchEx source pos.toNat).found = true) :
    ∃ m ms, (R.searchEx source pos.toNat).stored = m :: ms ∧ matchFrom R source pos = some m := by
  obtain ⟨m, ms, hstored, -⟩ := R.found_match source pos.toNat h
  exact ⟨m, ms, hstored, by rw [matchFrom, if_pos h, hstored, List.head?_cons]⟩

theorem matchFrom_of_not_found {pos : Int} (h : (R.searchEx source pos.toNat).found = false) :
    matchFrom R source pos = none := by
  rw [matchFrom, h]
  rfl

/-- Where nothing has been stored, nothing has been found. -/
theorem matchFrom_of_nothing {pos : Int} (h : (R.searchEx source pos.toNat).stored = []) :
    matchFrom R source pos = none := by
  rw [matchFrom, h, List.head?_nil, ite_self]

theorem forwardMatch_nonneg {k : Nat} {m : RegExpMatch} (h : forwardMatch R source k = some m) : 0 ≤ m.start := by
  cases k with
  | zero => exact (matchFrom_ge h).1
  | succ k =>
    obtain ⟨_, -, hm⟩ := Option.bind_eq_some_iff.mp h
    exact (matchFrom_ge hm).1

/-- Where a search finds nothing, there is no further one. -/
theorem forwardMatch_none {k : Nat} (h : forwardMatch R source k = none) (j : Nat) :
    forwardMatch R source (k + j) = none := by
  induction j with
  | zero => exact h
  | succ j ih => rw [← Nat.add_assoc, forwardMatch, ih, Option.bind_none]

/-- The matches begin one behind the other. -/
theorem forwardMatch_le {k : Nat} {m : RegExpMatch} (h : forwardMatch R source k = some m) (j : Nat) (m' : RegExpMatch)
    (h' : forwardMatch R source (k + j) = some m') : m.start + j ≤ m'.start := by
  induction j generalizing m' with
  | zero =>
    cases h.symm.trans h'
    exact Int.le_of_eq (Int.add_zero _)
  | succ j ih =>
    obtain ⟨m₁, hm₁, hm'⟩ := Option.bind_eq_some_iff.mp h'
    have hle := ih m₁ hm₁
    have hge := (matchFrom_ge hm').2
    omega

/-- A match is the last one at or before a limit when the next search gives none there. -/
theorem isLast_of_next {limit : Int} {k : Nat} {m : RegExpMatch} (h : forwardMatch R source k = some m)
    (hle : m.start ≤ limit) (hnext : ∀ m', forwardMatch R source (k + 1) = some m' → limit < m'.start) :
    IsLast R source limit m := by
  refine ⟨⟨k, h⟩, hle, fun j m' hm' hle' => ?_⟩
  rcases Nat.le_total j k with hjk | hkj
  · obtain ⟨i, rfl⟩ := Nat.exists_eq_add_of_le hjk
    have := forwardMatch_le hm' i m h
    omega
  · obtain ⟨i, rfl⟩ := Nat.exists_eq_add_of_le hkj
    cases i with
    | zero =>
      cases h.symm.trans hm'
      exact Int.le_refl _
    | succ i =>
      cases hmid : forwardMatch R source (k + 1) with
      | none =>
        have hnone := forwardMatch_none hmid i
        rw [Nat.add_assoc, Nat.add_comm 1 i, hm'] at hnone
        cases hnone
      | some m₁ =>
        have hbehind := hnext m₁ hmid
        have hmono := forwardMatch_le hmid i m' (by rw [Nat.add_assoc, Nat.add_comm 1 i, hm'])
        omega

/-! ## The loop -/

/-- The other half of the array is kept. -/
theorem write_other (pm : Cells RegExpMatch) {half : Nat} (hhalf : half = 0 ∨ half = R.bracketsCount)
    {stored : List RegExpMatch} (hlen : stored = [] ∨ stored.length = R.bracketsCount) :
    pm.write half stored (R.bracketsCount - half) = pm (R.bracketsCount - half) := by
  have hpos := R.brackets_pos
  have hle : stored.length ≤ R.bracketsCount := by
    rcases hlen with rfl | h
    · exact Nat.zero_le _
    · exact Nat.le_of_eq h
  rcases hhalf with rfl | rfl
  · exact Cells.write_behind (by omega)
  · exact Cells.write_before (by omega)

theorem write_head (pm : Cells RegExpMatch) (half : Nat) (m : RegExpMatch) (ms : List RegExpMatch) :
    pm.write half (m :: ms) half = m := by
  rw [Cells.write, if_pos (Nat.le_refl _), Nat.sub_self]
  rfl

variable (R source) in
/-- The array has room for two matches, or nothing is stored behind a match in front of the limit. -/
def HasRoom (size : Nat) (limit : Int) : Prop :=
  R.bracketsCount + R.bracketsCount ≤ size ∨ ∀ m, forwardMatch R source 0 = some m → m.start ≤ limit →
    (R.searchEx source (m.start + 1).toNat).stored = []

/-- Without room for a second match, there is none. -/
theorem HasRoom.nothing {size : Nat} {limit : Int} (h : HasRoom R source size limit)
    (hsmall : ¬R.bracketsCount + R.bracketsCount ≤ size) {k : Nat} {m : RegExpMatch}
    (hm : forwardMatch R source k = some m) (hle : m.start ≤ limit) :
    (R.searchEx source (m.start + 1).toNat).stored = [] := by
  have hnone := h.resolve_left hsmall
  cases hfirst : forwardMatch R source 0 with
  | none =>
    have := forwardMatch_none hfirst k
    rw [Nat.zero_add, hm] at this
    cases this
  | some m₀ =>
    cases k with
    | zero =>
      cases hfirst.symm.trans hm
      exact hnone _ hfirst hle
    | succ k =>
      have hmono := forwardMatch_le hfirst (k + 1) m (by rw [Nat.zero_add, hm])
      have hsecond : forwardMatch R source 1 = none := by
        rw [forwardMatch, hfirst, Option.bind_some]
        exact matchFrom_of_nothing (hnone m₀ hfirst (by omega))
      have := forwardMatch_none hsecond k
      rw [Nat.add_comm, hm] at this
      cases this

variable (R source) in
/-- The state of the loop: either no search has been made, or the last one has given a match in front of the limit,
which is in the half that is not used next. -/
def Turning (limit pos : Int) (half : Nat) (found : Bool) (pm : Cells RegExpMatch) : Prop :=
  (half = 0 ∧ pos = 0 ∧ found = false)
    ∨ (half = 0 ∨ half = R.bracketsCount) ∧ found = true ∧ ∃ k m, forwardMatch R source k = some m
      ∧ m.start ≤ limit ∧ pos = m.start + 1 ∧ pm (R.bracketsCount - half) = m

variable (R source) in
/-- What the loop gives back: the last match at or before the limit, if there is one. -/
def LoopGives (limit : Int) : Option (Bool × Nat × Cells RegExpMatch) → Prop
  | none => False
  | some (true, half, pm) => IsLast R source limit (pm half)
  | some (false, _, _) => ∀ m, forwardMatch R source 0 = some m → limit < m.start

/-- When a search gives no match at or before the limit, the loop ends. -/
theorem Turning.gives {limit pos : Int} {half : Nat} {found : Bool} {pm pm' : Cells RegExpMatch}
    (h : Turning R source limit pos half found pm) (hkept : pm' (R.bracketsCount - half) = pm (R.bracketsCount - half))
    (hnext : ∀ m, matchFrom R source pos = some m → limit < m.start) :
    LoopGives R source limit (some (found, R.bracketsCount - half, pm')) := by
  rcases h with ⟨-, rfl, rfl⟩ | ⟨-, rfl, k, m, hm, hle, rfl, hpm⟩
  · exact hnext
  · show IsLast R source limit (pm' (R.bracketsCount - half))
    rw [hkept, hpm]
    refine isLast_of_next hm hle fun m' hm' => hnext m' ?_
    rw [← hm', forwardMatch, hm, Option.bind_some]

/-- When it gives one, that is kept, and the loop turns. -/
theorem Turning.next {limit pos : Int} {half : Nat} {found : Bool} {pm pm' : Cells RegExpMatch}
    (h : Turning R source limit pos half found pm) {m : RegExpMatch} (hm : matchFrom R source pos = some m)
    (hle : m.start ≤ limit) (hpm : pm' half = m) :
    Turning R source limit (m.start + 1) (R.bracketsCount - half) true pm' := by
  have hhalf : half = 0 ∨ half = R.bracketsCount := h.elim (fun h => .inl h.1) And.left
  have hback : R.bracketsCount - (R.bracketsCount - half) = half := by omega
  have hchain : ∃ k, forwardMatch R source k = some m := by
    rcases h with ⟨-, rfl, -⟩ | ⟨-, -, k, m', hm', -, rfl, -⟩
    · exact ⟨0, hm⟩
    · exact ⟨k + 1, by rw [forwardMatch, hm', Option.bind_some, hm]⟩
  obtain ⟨k, hk⟩ := hchain
  exact .inr ⟨by omega, rfl, k, m, hk, hle, rfl, by rw [hback, hpm]⟩

theorem Turning.pos_bounds {limit pos : Int} {half : Nat} {found : Bool} {pm : Cells RegExpMatch}
    (h : Turning R source limit pos half found pm) (hlimit : 0 ≤ limit) : 0 ≤ pos ∧ pos ≤ limit + 1 := by
  rcases h with ⟨-, rfl, -⟩ | ⟨-, -, k, m, hm, hle, rfl, -⟩
  · omega
  · have := forwardMatch_nonneg hm
    omega

/-- There is room for what a search stores. -/
theorem Turning.store {limit pos : Int} {half : Nat} {found : Bool} {pm : Cells RegExpMatch} {size : Nat}
    (h : Turning R source limit pos half found pm) (hroom : HasRoom R source size limit)
    (hsize : R.bracketsCount ≤ size) :
    store size pm half (R.searchEx source pos.toNat).stored
      = some (pm.write half (R.searchEx source pos.toNat).stored) := by
  refine if_pos ?_
  rcases R.stored_or_not source pos.toNat with hnothing | hlen
  · exact .inl hnothing
  · rcases h with ⟨rfl, -, -⟩ | ⟨hhalf, -, k, m, hm, hle, rfl, -⟩
    · exact .inr (by omega)
    · by_cases hbig : R.bracketsCount + R.bracketsCount ≤ size
      · exact .inr (by omega)
      · exact .inl (hroom.nothing hbig hm hle)

/-- **The loop gives the last match** in front of the limit, where there is room. -/
theorem reverseLoop_gives {size : Nat} {limit : Int} (hroom : HasRoom R source size limit)
    (hsize : R.bracketsCount ≤ size) (hlimit : 0 ≤ limit) (hint : limit < 2 ^ 31) (turns : Nat) {pos : Int} {half : Nat}
    {found : Bool} {pm : Cells RegExpMatch} (h : Turning R source limit pos half found pm)
    (hturns : limit + 2 ≤ pos + turns) :
    LoopGives R source limit (reverseLoop source R size limit turns pos half found pm) := by
  induction turns generalizing pos half found pm with
  | zero =>
    have := (h.pos_bounds hlimit).2
    omega
  | succ turns ih =>
    have hpos := h.pos_bounds hlimit
    have hfrom : sizeT pos = pos.toNat := by
      rw [sizeT, Int.emod_eq_of_lt hpos.1 (by omega)]
    have hhalf : half = 0 ∨ half = R.bracketsCount := h.elim (fun h => .inl h.1) And.left
    have hother := write_other pm hhalf (R.stored_or_not source pos.toNat)
    rw [reverseLoop, hfrom, h.store hroom hsize]
    dsimp only
    cases hfound : (R.searchEx source pos.toNat).found with
    | false =>
      rw [if_pos rfl]
      refine h.gives hother fun m hm => ?_
      rw [matchFrom_of_not_found hfound] at hm
      cases hm
    | true =>
      obtain ⟨m, ms, hstored, hm⟩ := matchFrom_of_found _ hfound
      have hhead : pm.write half (R.searchEx source pos.toNat).stored half = m := by rw [hstored, write_head]
      rw [if_neg Bool.noConfusion, hhead]
      by_cases hbehind : m.start > limit
      · rw [if_pos hbehind]
        refine h.gives hother fun m' hm' => ?_
        cases hm.symm.trans hm'
        exact hbehind
      · rw [if_neg hbehind]
        have hge := (matchFrom_ge hm).2
        exact ih (h.next hm (Int.not_lt.mp hbehind) hhead) (by omega)

/-- Without room, the second search stores behind the array. -/
theorem reverseLoop_none {size : Nat} {limit : Int} (hroom : ¬HasRoom R source size limit)
    (hsize : R.bracketsCount ≤ size) (hint : limit < 2 ^ 31) {turns : Nat} (pm : Cells RegExpMatch) :
    reverseLoop source R size limit (turns + 2) 0 0 false pm = none := by
  obtain ⟨hbig, hsecond⟩ := not_or.mp hroom
  simp only [not_forall] at hsecond
  obtain ⟨m, hm, hle, hstored⟩ := hsecond
  have hzero : sizeT 0 = 0 := rfl
  have hfound : (R.searchEx source 0).found = true := by
    by_contra h
    rw [forwardMatch, matchFrom_of_not_found (Bool.eq_false_iff.mpr h)] at hm
    cases hm
  obtain ⟨m', ms, hfirst, hm'⟩ := matchFrom_of_found 0 hfound
  cases hm.symm.trans hm'
  have hlen : (R.searchEx source 0).stored.length = R.bracketsCount :=
    (R.stored_or_not source 0).resolve_left fun h => by
      rw [Int.toNat_zero, h] at hfirst
      cases hfirst
  have hpos := (matchFrom_ge hm).1
  have hnext : sizeT (m.start + 1) = (m.start + 1).toNat := by
    rw [sizeT, Int.emod_eq_of_lt (by omega) (by omega)]
  have hlen' := (R.stored_or_not source (m.start + 1).toNat).resolve_left hstored
  have hhead : pm.write 0 (R.searchEx source 0).stored 0 = m := by
    rw [show (R.searchEx source 0).stored = m :: ms from hfirst, write_head]
  rw [reverseLoop, hzero, store, if_pos (.inr (by omega))]
  dsimp only
  rw [if_neg (by rw [hfound]; exact Bool.noConfusion), hhead, if_neg (by omega), reverseLoop, hnext, store, if_neg]
  rintro (h | h)
  · exact hstored h
  · omega

/-! ## `SearchString` -/

/-- **The search is right**: it stays in its array, and what it returns is the last match of the forward searches that
begins in front of the position. -/
def ReverseRight (R : RegExp) (source : WStr) (position : Int) (outcome : Option (Option Found)) : Prop :=
  ∃ found, outcome = some found ∧ ∀ f, found = some f →
    ∃ m, IsLast R source (position - 1) m ∧ f.curPos = m.start ∧ f.searchLength = m.end_ - m.start

/-- Nothing but what is behind the end of the text lies between the two limits. -/
def NothingBehind (R : RegExp) (source : WStr) (position : Int) : Prop :=
  ∀ k m, forwardMatch R source k = some m → (source.length : Int) ≤ m.start → m.start ≤ position - 1 →
    ∀ m₀, forwardMatch R source 0 = some m₀ → (source.length : Int) ≤ m₀.start

/-- The last match in front of the end of the text is the last one in front of the position. -/
theorem isLast_position {limit position : Int} {m : RegExpMatch} (h : IsLast R source limit m)
    (hlimit : limit = min (position - 1) (source.length - 1)) :
    IsLast R source (position - 1) m ↔ NothingBehind R source position := by
  obtain ⟨⟨k, hk⟩, hle, hlast⟩ := h
  constructor
  · rintro ⟨-, -, hall⟩ j m' hm' hend hpos
    have := hall j m' hm' hpos
    omega
  · intro hnothing
    refine ⟨⟨k, hk⟩, by omega, fun j m' hm' hle' => ?_⟩
    by_cases hin : m'.start ≤ limit
    · exact hlast j m' hm' hin
    · cases hfirst : forwardMatch R source 0 with
      | none =>
        have hnone := forwardMatch_none hfirst k
        rw [Nat.zero_add, hk] at hnone
        cases hnone
      | some m₀ =>
        have hend := hnothing j m' hm' (by omega) hle' m₀ hfirst
        have hmono := forwardMatch_le hfirst k m (by rw [Nat.zero_add, hk])
        omega

variable (R source) in
/-- When a search to the left is right. -/
def ReverseStays (extent : Extent) (position : Int) : Prop :=
  (-2 ^ 31 ≤ position - 1 ∧ position - 1 < 2 ^ 31)
    ∧ HasRoom R source (extent.size R.bracketsCount) (startIndex source position true)
    ∧ NothingBehind R source position

theorem extent_size (extent : Extent) (n : Nat) : n ≤ extent.size n := by
  cases extent with
  | elements => exact Nat.le_refl n
  | memory =>
    rw [Extent.size]
    split <;> omega

/-- **A search for a regular expression to the left** stays in its array and returns the last match exactly when
there is room for a second match or the second search stores nothing, and when no match behind the end of the text is left
out. -/
theorem searchString_reverse_iff {compile : WStr → Bool → Option RegExp} (extent : Extent) (replaceStr : WStr)
    (hne : q.str ≠ []) (hR : compile (insertRegexpQuote q.str) q.case = some R) (position : Int) :
    ReverseRight R source position (searchString U q source compile extent replaceStr position true true)
      ↔ ReverseStays R source extent position := by
  rw [searchString, if_pos rfl, ReverseStays, int]
  by_cases hint : -2 ^ 31 ≤ position - 1 ∧ position - 1 < 2 ^ 31
  · have hstart : (if position - 1 ≥ source.length then (source.length : Int) - 1 else position - 1)
        = startIndex source position true := by
      rw [startIndex, if_pos rfl]
      split <;> omega
    rw [if_pos hint, Option.bind_some, and_iff_right hint]
    dsimp only
    rw [hstart]
    have hlimit : startIndex source position true = min (position - 1) (source.length - 1) := if_pos rfl
    generalize startIndex source position true = limit at hlimit ⊢
    have hsize := extent_size extent R.bracketsCount
    by_cases hneg : limit < 0
    · rw [if_pos hneg]
      refine iff_of_true ⟨none, rfl, fun _ h => by cases h⟩ ⟨.inr fun m hm hle => ?_, fun k m hm hend hpos => ?_⟩
      · have := forwardMatch_nonneg hm
        omega
      · have := forwardMatch_nonneg hm
        intro m₀ hm₀
        have := forwardMatch_nonneg hm₀
        omega
    · rw [if_neg hneg, searchFrom, if_pos ⟨.inl (by omega), hne⟩, if_pos rfl, hR]
      dsimp only
      rw [searchRegexp, if_pos rfl]
      by_cases hroom : HasRoom R source (extent.size R.bracketsCount) limit
      · rw [and_iff_right hroom]
        have hgives := reverseLoop_gives hroom hsize (by omega) (by omega) (limit + 2).toNat
          (show Turning R source limit 0 0 false noMatches from .inl ⟨rfl, rfl, rfl⟩) (by omega)
        generalize reverseLoop source R (extent.size R.bracketsCount) limit (limit + 2).toNat 0 0 false noMatches = gives
          at hgives ⊢
        obtain _ | ⟨_ | _, half, pm⟩ := gives
        · exact hgives.elim
        · refine iff_of_true ⟨none, rfl, fun _ h => by cases h⟩ fun k m hm hend hpos m₀ hm₀ => ?_
          have := hgives m₀ hm₀
          have := forwardMatch_le hm₀ k m (by rw [Nat.zero_add, hm])
          omega
        · rw [← isLast_position hgives hlimit]
          constructor
          · rintro ⟨found, hfound, hall⟩
            cases hfound
            obtain ⟨m, hm, hcur, -⟩ := hall _ rfl
            change (pm half).start = m.start at hcur
            obtain ⟨-, hle, hmax⟩ := hm
            exact ⟨hgives.1, hcur ▸ hle, fun j m' hm' hle' => hcur ▸ hmax j m' hm' hle'⟩
          · exact fun h => ⟨_, rfl, fun f hf => ⟨pm half, h, by cases hf; rfl, by cases hf; rfl⟩⟩
      · have hturns : (limit + 2).toNat = limit.toNat + 2 := by omega
        rw [hturns, reverseLoop_none hroom hsize (by omega)]
        exact iff_of_false (by rintro ⟨_, h, _⟩; cases h) fun h => hroom h.1
  · rw [if_neg hint]
    exact iff_of_false (by rintro ⟨_, h, _⟩; cases h) fun h => hint h.1

/-- The letter `a` in `groups` pairs of brackets. -/
def letterA (groups : Nat) : RegExp where
  bracketsCount := groups + 1
  searchEx text from_ :=
    match (text.drop from_).findIdx? (· = 0x61) with
    | some i => ⟨true, List.replicate (groups + 1) ⟨↑(from_ + i), ↑(from_ + i) + 1⟩⟩
    | none => ⟨false, []⟩
  brackets_pos := Nat.succ_pos groups
  stored_or_not text from_ := by
    split
    · exact .inr List.length_replicate
    · exact .inl rfl
  found_match text from_ h := by
    split at h
    · next i _ =>
      exact ⟨_, _, List.replicate_succ, Int.ofNat_le.mpr (Nat.le_add_right from_ i)⟩
    · cases h

theorem searchString_reverse_iff_letter :
    ReverseRight (letterA 0) (L ['a', 'a']) 1
        (searchString asciiCase wordA (L ['a', 'a']) (fun _ _ => some (letterA 0)) .memory [] 1 true true)
      ↔ ReverseStays (letterA 0) (L ['a', 'a']) .memory 1 :=
  searchString_reverse_iff _ _ (by decide) rfl 1

/-- The second match is stored behind the elements of the array, and from seventeen brackets on behind all of it. -/
theorem searchString_reverse_wrong :
    ¬ReverseRight (letterA 0) (L ['a', 'a']) 2
        (searchString asciiCase wordA (L ['a', 'a']) (fun _ _ => some (letterA 0)) .elements [] 2 true true)
      ∧ ¬ReverseRight (letterA 16) (L ['a', 'a']) 2
        (searchString asciiCase wordA (L ['a', 'a']) (fun _ _ => some (letterA 16)) .memory [] 2 true true) := by
  have helements : searchString asciiCase wordA (L ['a', 'a']) (fun _ _ => some (letterA 0)) .elements [] 2 true true
      = none := rfl
  have hmemory : searchString asciiCase wordA (L ['a', 'a']) (fun _ _ => some (letterA 16)) .memory [] 2 true true
      = none := rfl
  rw [helements, hmemory]
  exact ⟨fun ⟨_, h, _⟩ => (nomatch h), fun ⟨_, h, _⟩ => (nomatch h)⟩

end SearchString

end Far2l
