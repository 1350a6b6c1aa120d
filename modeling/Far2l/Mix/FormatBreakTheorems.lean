/-
Far2l.Mix.FormatBreakTheorems — `FarFormatText` for a break of several characters, and
where long words are cut.

What lies in front of `last` has been wrapped, and every piece of `newtext` ends with a
break. What lies between `last` and `i` is lines that end with breaks of the text
itself; `i` may be inside such a break, since the loop steps into it.
-/
import Far2l.Mix.FormatText

namespace Far2l

namespace FormatText

variable {strCmpN : WStr → WStr → Nat → Int} {w : Nat} {b : WChar} {bs : WStr} {docut : Bool} {text : WStr}

/-! ## A turn -/

variable (strCmpN b bs) in
theorem scanBreak_spec (s : WStr) :
    scanBreak strCmpN b bs s ≤ s.length
      ∧ (scanBreak strCmpN b bs s = s.length
        ∨ isBreak strCmpN b bs (s.drop (scanBreak strCmpN b bs s)) = true) := by
  induction s with
  | nil => exact ⟨Nat.le_refl _, .inl rfl⟩
  | cons c s ih =>
    rw [scanBreak]
    split
    · next h => exact ⟨Nat.zero_le _, .inr h⟩
    · exact ⟨Nat.succ_le_succ ih.1, ih.2.imp (congrArg (· + 1)) id⟩

/-- A line of length 0 begins with a break. -/
theorem isBreak_of_scan {s : WStr} (hne : s ≠ []) (h : scanBreak strCmpN b bs s = 0) : isBreak strCmpN b bs s = true := by
  have hspec := (scanBreak_spec strCmpN b bs s).2
  rw [h, List.drop_zero] at hspec
  exact hspec.resolve_left fun hlen => hne (List.eq_nil_of_length_eq_zero hlen.symm)

/-- What a turn keeps: what lies in front of `last` has been wrapped, and it fits. -/
structure BreakInv (b : WChar) (bs : WStr) (docut : Bool) (text : WStr) (s : Breaking) : Prop where
  last_le : s.last ≤ s.i
  i_le : s.i ≤ text.length
  wrapped : Wrapped (b :: bs) docut (text.take s.last) s.newtext
  fits : s.newtext.length ≤ s.last * ((b :: bs).length + 1)

theorem put_some {newtext : WStr} (last : Nat) (hlast : last ≤ text.length)
    (h : newtext.length ≤ last * ((b :: bs).length + 1)) : put b bs text newtext = some newtext :=
  if_pos (Nat.lt_succ_of_le (h.trans (Nat.mul_le_mul_right _ hlast)))

/-- Pieces and breaks fit, as each break takes a character of the text. -/
theorem fits_piece {length last n d : Nat} (bl : Nat) (h : length ≤ last * (bl + 1)) (hn : n ≤ d) (hd : 0 < d) :
    length + (n + bl) ≤ (last + d) * (bl + 1) := by
  have hmul : bl ≤ d * bl := Nat.le_mul_of_pos_left bl hd
  have hsplit : (last + d) * (bl + 1) = last * (bl + 1) + (d * bl + d) := by
    rw [Nat.add_mul, Nat.mul_succ d]
  omega

theorem readable_break {s : Breaking} (h : s.i ≤ text.length) :
    (if readable text s.i then some s else none) = some s :=
  if_pos (decide_eq_true h)

/-- A break is appended: in place of a space, or behind a character where words are cut. -/
theorem BreakInv.breakLine {s : Breaking} (h : BreakInv b bs docut text s) {l n : Nat}
    (hn : (n = s.i + l - s.last ∧ text[s.i + l]? = some SPACE)
      ∨ (n = s.i + l - s.last + 1 ∧ docut = true ∧ s.i + l < text.length)) :
    ∃ s', breakLine b bs text s l n = some s' ∧ BreakInv b bs docut text s' ∧ s'.i = s.i + l + 1 ∧ s'.last = s'.i
      ∧ s'.newtext = s.newtext ++ (text.drop s.last).take n ++ b :: bs := by
  have hlast := h.last_le
  have hlt : s.i + l < text.length := by
    rcases hn with ⟨-, hat⟩ | ⟨-, -, hlt⟩
    · exact (List.getElem?_eq_some_iff.mp hat).1
    · exact hlt
  have hnle : n ≤ s.i + l + 1 - s.last := by omega
  have hlen : (s.newtext ++ (text.drop s.last).take n ++ b :: bs).length ≤ (s.i + l + 1) * ((b :: bs).length + 1) := by
    have htake : ((text.drop s.last).take n).length ≤ n := List.length_take_le _ _
    have hfit := fits_piece (b :: bs).length h.fits (Nat.le_trans htake hnle) (by omega)
    rw [List.length_append, List.length_append, Nat.add_assoc]
    refine hfit.trans (Nat.mul_le_mul_right _ ?_)
    omega
  refine ⟨⟨s.i + l + 1, s.i + l + 1, l, _⟩, ?_, ⟨Nat.le_refl _, hlt, ?_, hlen⟩, rfl, rfl, rfl⟩
  · rw [FormatText.breakLine, put_some (s.i + l + 1) hlt hlen]
    rfl
  · have htaken : ∀ m, s.last + m ≤ text.length → Wrapped (b :: bs) docut (text.take (s.last + m))
        (s.newtext ++ (text.drop s.last).take m) := by
      intro m hm
      rw [List.take_add]
      exact h.wrapped.append _
    show Wrapped (b :: bs) docut (text.take (s.i + l + 1)) _
    rcases hn with ⟨rfl, hat⟩ | ⟨rfl, hcut, -⟩
    · have hpiece := htaken (s.i + l - s.last) (by omega)
      rw [show s.last + (s.i + l - s.last) = s.i + l by omega] at hpiece
      rw [List.take_add_one, hat]
      exact hpiece.replace
    · have hpiece := htaken (s.i + l - s.last + 1) (by omega)
      rw [show s.last + (s.i + l - s.last + 1) = s.i + l + 1 by omega] at hpiece
      exact hpiece.insert hcut

/-- `i` goes on, and nothing is appended. -/
theorem BreakInv.skip {s : Breaking} (h : BreakInv b bs docut text s) {i l : Nat} (hi : s.i ≤ i) (hle : i ≤ text.length) :
    BreakInv b bs docut text ⟨i, s.last, l, s.newtext⟩ :=
  ⟨h.last_le.trans hi, hle, h.wrapped, h.fits⟩

/-- The rest is appended at the end. -/
theorem BreakInv.appendRest {s : Breaking} (h : BreakInv b bs docut text s) (hend : s.i = text.length) :
    appendRest b bs text s = some (s.newtext ++ text.drop s.last) := by
  rw [FormatText.appendRest]
  have hlast := h.last_le
  split
  · refine put_some text.length (Nat.le_refl _) ?_
    have hfit := h.fits
    have hsplit : text.length * ((b :: bs).length + 1)
        = s.last * ((b :: bs).length + 1) + (text.length - s.last) * ((b :: bs).length + 1) := by
      rw [← Nat.add_mul]
      congr 1
      omega
    have hrest : text.length - s.last ≤ (text.length - s.last) * ((b :: bs).length + 1) :=
      Nat.le_mul_of_pos_right _ (Nat.succ_pos _)
    rw [List.length_append, List.length_drop]
    omega
  · rw [List.drop_of_length_le (by omega), List.append_nil]

/-! ## Words are not cut -/

variable (strCmpN w b bs text) in
/-- In a turn the end of the text is overrun. -/
def BreakOverruns (s : Breaking) : Prop :=
  Stuck w text s.i (scanBreak strCmpN b bs (text.drop s.i))
    ∧ text.length < s.i + (scanBreak strCmpN b bs (text.drop s.i) + 1) + 1

variable (strCmpN w) in
/-- **A turn** fails just where the end of the text is overrun; otherwise it goes on. -/
theorem breakStep_spec {s : Breaking} (h : BreakInv b bs false text s) (hmore : s.i < text.length) :
    (BreakOverruns strCmpN w b bs text s ∧ breakStep strCmpN w b bs false text s = none)
      ∨ ¬BreakOverruns strCmpN w b bs text s ∧ ∃ s', breakStep strCmpN w b bs false text s = some s'
        ∧ BreakInv b bs false text s' ∧ s.i < s'.i := by
  have hscan := (scanBreak_spec strCmpN b bs (text.drop s.i)).1
  rw [List.length_drop] at hscan
  rw [BreakOverruns, breakStep, breakTurn]
  generalize scanBreak strCmpN b bs (text.drop s.i) = pgr at hscan ⊢
  by_cases hlong : w + 1 ≤ pgr
  · rw [if_pos hlong]
    have hspace : ∀ l n, text[s.i + l]? = some SPACE → l ≤ pgr → n = s.i + l - s.last →
        ¬(Stuck w text s.i pgr ∧ text.length < s.i + (pgr + 1) + 1)
          ∧ ∃ s', ((breakLine b bs text s l n).bind fun s' => if readable text s'.i then some s' else none) = some s'
            ∧ BreakInv b bs false text s' ∧ s.i < s'.i := by
      intro l n hat hle hn
      obtain ⟨s', hline, hinv, hi, -⟩ := h.breakLine (.inl ⟨hn, hat⟩)
      refine ⟨fun hstuck => hstuck.1.2 l hle hat, s', ?_, hinv, by omega⟩
      rw [hline, Option.bind_some, readable_break hinv.i_le]
    rcases backwards_spec text (i := s.i) (n := w + 2) (by omega) with ⟨l, hl, heq, hat⟩ | ⟨heq, hback⟩
    · rw [heq]
      exact .inr (hspace l _ hat (by omega) rfl)
    · rw [heq]
      dsimp only
      rcases forwards_spec text (i := s.i)
        (fun l c => decide (c = SPACE ∨ (false = true ∧ s.i < l + s.last))) (pgr + 1 - w) (l := w)
        (by omega) with ⟨k, c, hlo, hhi, heq', hread, htest⟩ | ⟨heq', hnone⟩
      · rw [heq']
        refine .inr (hspace k _ ?_ (by omega) rfl)
        obtain ⟨c', hread', hiff⟩ := read_some text (k := s.i + k) (by omega)
        cases hread.symm.trans hread'
        exact hiff.mp ((of_decide_eq_true htest).resolve_right fun h => Bool.noConfusion h.1)
      · rw [heq']
        have hstuck : Stuck w text s.i pgr := by
          refine ⟨hlong, fun l hl => ?_⟩
          by_cases hlt : l < w + 2
          · exact hback l hlt
          · obtain ⟨c, hread, hiff⟩ := read_some text (k := s.i + l) (by omega)
            exact fun hat => of_decide_eq_false (hnone l (by omega) (by omega) c hread) (.inl (hiff.mpr hat))
        by_cases hover : text.length < s.i + (pgr + 1) + 1
        · exact .inl ⟨⟨hstuck, hover⟩, if_neg fun hle => Nat.not_le.mpr hover (of_decide_eq_true hle)⟩
        · have hinv := h.skip (i := s.i + (pgr + 1) + 1) (l := pgr + 1) (by omega) (Nat.not_lt.mp hover)
          exact .inr ⟨fun hstuck => hover hstuck.2, _, readable_break hinv.i_le, hinv,
            Nat.lt_add_of_pos_right (Nat.succ_pos _)⟩
  · rw [if_neg hlong]
    have hstep : s.i < s.i + (if pgr = 0 then 1 else pgr) ∧ s.i + (if pgr = 0 then 1 else pgr) ≤ text.length := by
      split <;> omega
    have hinv := h.skip (l := pgr) (Nat.le_of_lt hstep.1) hstep.2
    exact .inr ⟨fun hstuck => hlong hstuck.1.1, _, readable_break hinv.i_le, hinv, hstep.1⟩

variable (strCmpN w b bs text) in
/-- No turn overruns the end of the text. -/
def NeverBreakOverruns : Prop :=
  ∀ s, Comes (breakMore text) (breakStep strCmpN w b bs false text) ⟨0, 0, 0, []⟩ s → breakMore text s = true →
    ¬BreakOverruns strCmpN w b bs text s

theorem breakInv_start : BreakInv b bs docut text ⟨0, 0, 0, []⟩ :=
  ⟨Nat.le_refl 0, Nat.zero_le _, .nil, Nat.zero_le _⟩

/-- What the other branch gives, from a loop that comes to its end. -/
theorem insertBreaks_some {s : Breaking}
    (hs : whileLoop (breakMore text) (breakStep strCmpN w b bs docut text) (text.length + 1) ⟨0, 0, 0, []⟩ = some s)
    (hinv : BreakInv b bs docut text s) :
    s.i = text.length ∧ insertBreaks strCmpN w b bs docut text = some (s.newtext ++ text.drop s.last)
      ∧ Wrapped (b :: bs) docut text (s.newtext ++ text.drop s.last) := by
  have hend : s.i = text.length :=
    Nat.le_antisymm hinv.i_le (Nat.not_lt.mp (of_decide_eq_false (whileLoop_some hs).2))
  refine ⟨hend, by rw [insertBreaks, hs, Option.bind_some, hinv.appendRest hend], ?_⟩
  have hwrapped := hinv.wrapped.append (text.drop s.last)
  rwa [List.take_append_drop] at hwrapped

/-- **Where words are not cut** the text is wrapped just when no turn overruns its end. -/
theorem insertBreaks_iff :
    Right w b bs false text (insertBreaks strCmpN w b bs false text) ↔ NeverBreakOverruns strCmpN w b bs text := by
  have hkeep : ∀ s s', BreakInv b bs false text s → breakMore text s = true →
      breakStep strCmpN w b bs false text s = some s' →
      BreakInv b bs false text s' ∧ text.length - s'.i < text.length - s.i := by
    intro s s' hs hmore hstep
    have hlt : s.i < text.length := of_decide_eq_true hmore
    rcases breakStep_spec strCmpN w hs hlt with ⟨-, hnone⟩ | ⟨-, s'', hsome, hinv, hless⟩
    · cases hnone.symm.trans hstep
    · cases hsome.symm.trans hstep
      exact ⟨hinv, by omega⟩
  have hinv : ∀ s, Comes (breakMore text) (breakStep strCmpN w b bs false text) ⟨0, 0, 0, []⟩ s →
      BreakInv b bs false text s := fun s hs =>
    hs.keeps breakInv_start fun s s' hs hmore hstep => (hkeep s s' hs hmore hstep).1
  constructor
  · rintro ⟨result, hresult, -⟩ s hs hmore hover
    rcases breakStep_spec strCmpN w (hinv s hs) (of_decide_eq_true hmore)
      with ⟨-, hnone⟩ | ⟨hnot, -⟩
    · rw [insertBreaks, whileLoop_fails hs hmore hnone] at hresult
      cases hresult
    · exact hnot hover
  · intro hnever
    obtain ⟨s, hs⟩ := whileLoop_isSome (n := text.length + 1) breakInv_start hkeep (Nat.lt_succ_self _)
      fun t ht hmore => by
        rcases breakStep_spec strCmpN w (hinv t ht) (of_decide_eq_true hmore)
          with ⟨hover, -⟩ | ⟨-, s', hsome, -⟩
        · exact absurd hover (hnever t ht hmore)
        · rw [hsome]
          exact Option.some_ne_none s'
    obtain ⟨-, hresult, hwrapped⟩ := insertBreaks_some hs (hinv s (whileLoop_some hs).1)
    exact ⟨_, hresult, hwrapped, fun h => by cases h⟩

/-! ## Words are cut -/

variable (strCmpN b bs text) in
/-- No break of the text that begins from `last` to `i` goes on behind a place. -/
def Clear (s : Breaking) (k : Nat) : Prop :=
  ∀ p, s.last ≤ p → p < s.i → isBreak strCmpN b bs (text.drop p) = true → p + (b :: bs).length ≤ k

variable (strCmpN w b bs text) in
/-- **In a turn a line is cut in time**: at a space of its first characters, or when less than the width lies
between `last` and its last character; and not within a break of the text. -/
def CutsInTime (s : Breaking) : Prop :=
  w + 1 ≤ scanBreak strCmpN b bs (text.drop s.i) →
    match backwards text s.i (w + 2) with
    | some (some l) => Clear strCmpN b bs text s (s.i + l)
    | _ => s.i < s.last + w ∧ Clear strCmpN b bs text s (s.i + w + 1)

variable (strCmpN b bs text) in
/-- What `StrCmpN` takes for a break is one. -/
def ExactBreaks : Prop := ∀ p, isBreak strCmpN b bs (text.drop p) = true → b :: bs <+: text.drop p

variable (strCmpN w b bs text) in
/-- What a turn keeps where lines are cut in time: `newtext` is lines with breaks behind them, and so is the text from
`last` up to where the line begins. That is `i`, or the end of a break that `i` is in; or it lies in front of
`i`, which has come to the next break or to the end of the text. -/
def LineInv (s : Breaking) : Prop :=
  Closed (b :: bs) (w + 1) s.newtext ∧ ∃ ls, s.last ≤ ls ∧ ls ≤ text.length
    ∧ Closed (b :: bs) (w + 1) ((text.take ls).drop s.last)
    ∧ (s.i ≤ ls ∧ (ls = s.i ∨ ∃ p, s.last ≤ p ∧ p < s.i ∧ isBreak strCmpN b bs (text.drop p) = true
        ∧ ls = p + (b :: bs).length)
      ∨ ls < s.i ∧ s.i ≤ ls + w ∧ (s.i = text.length ∨ isBreak strCmpN b bs (text.drop s.i) = true))

/-- A piece of a text is put together from two. -/
theorem take_drop_append {i j k : Nat} (hij : i ≤ j) (hjk : j ≤ k) (hk : k ≤ text.length) :
    (text.take k).drop i = (text.take j).drop i ++ (text.take k).drop j := by
  have htake : (text.take k).take j = text.take j := by rw [List.take_take, Nat.min_eq_left hjk]
  rw [← htake, ← List.drop_append_of_le_length, List.take_append_drop]
  rw [List.length_take, List.length_take]
  omega

theorem length_piece {i k : Nat} : ((text.take k).drop i).length ≤ k - i := by
  rw [List.length_drop, List.length_take]
  omega

/-- A line and the break behind it are closed. -/
theorem LineInv.closed_break (hexact : ExactBreaks strCmpN b bs text) {last ls i : Nat} (hlast : last ≤ ls) (hls : ls ≤ i)
    (hlen : i ≤ ls + w) (hclosed : Closed (b :: bs) (w + 1) ((text.take ls).drop last))
    (hbreak : isBreak strCmpN b bs (text.drop i) = true) :
    i + (b :: bs).length ≤ text.length
      ∧ Closed (b :: bs) (w + 1) ((text.take (i + (b :: bs).length)).drop last) := by
  obtain ⟨rest, hrest⟩ := hexact i hbreak
  have hroom : i + (b :: bs).length ≤ text.length := by
    have h := congrArg List.length hrest
    rw [List.length_append, List.length_drop, List.length_cons] at h
    rw [List.length_cons]
    omega
  refine ⟨hroom, ?_⟩
  have hpiece : (text.take (i + (b :: bs).length)).drop i = b :: bs := by
    rw [List.drop_take, ← hrest, Nat.add_sub_cancel_left, List.take_left]
  rw [take_drop_append (hlast.trans hls) (Nat.le_add_right i _) hroom, hpiece,
    take_drop_append hlast hls (by omega), List.append_assoc]
  exact hclosed.append (.line (length_piece.trans (by omega)))

/-- A turn that appends nothing. -/
theorem LineInv.skip (hexact : ExactBreaks strCmpN b bs text) {s : Breaking} (h : LineInv strCmpN w b bs text s)
    (hmore : s.i < text.length) (hshort : ¬w + 1 ≤ scanBreak strCmpN b bs (text.drop s.i)) :
    LineInv strCmpN w b bs text ⟨s.i + if scanBreak strCmpN b bs (text.drop s.i) = 0 then 1
      else scanBreak strCmpN b bs (text.drop s.i), s.last, scanBreak strCmpN b bs (text.drop s.i), s.newtext⟩ := by
  obtain ⟨hnew, ls, hlast, hls, hclosed, hwhere⟩ := h
  have hlenbrk : 0 < (b :: bs).length := Nat.succ_pos _
  have hspec := scanBreak_spec strCmpN b bs (text.drop s.i)
  rw [List.length_drop, List.drop_drop] at hspec
  refine ⟨hnew, ?_⟩
  by_cases hzero : scanBreak strCmpN b bs (text.drop s.i) = 0
  · -- a break begins at `i`, and the loop steps into it
    rw [if_pos hzero]
    have hbreak : isBreak strCmpN b bs (text.drop s.i) = true :=
      isBreak_of_scan (by rw [Ne, List.drop_eq_nil_iff]; omega) hzero
    by_cases hin : s.i < ls
    · refine ⟨ls, hlast, hls, hclosed, .inl ⟨hin, .inr ?_⟩⟩
      obtain ⟨-, hat⟩ := hwhere.resolve_right fun h => absurd h.1 (by omega)
      obtain ⟨p, hp, hlt, hbreak', heq⟩ := hat.resolve_left (by omega)
      exact ⟨p, hp, Nat.lt_succ_of_lt hlt, hbreak', heq⟩
    · have hbounds : ls ≤ s.i ∧ s.i ≤ ls + w := by
        rcases hwhere with ⟨hle, -⟩ | ⟨hlt, hle, -⟩
        · omega
        · omega
      obtain ⟨hroom, hclosed'⟩ := LineInv.closed_break (w := w) hexact hlast hbounds.1 hbounds.2 hclosed hbreak
      refine ⟨s.i + (b :: bs).length, ?_, hroom, hclosed', .inl ⟨?_, .inr ⟨s.i, ?_, ?_, hbreak, rfl⟩⟩⟩
      · dsimp only
        omega
      · dsimp only
        omega
      · dsimp only
        omega
      · exact Nat.lt_succ_self _
  · rw [if_neg hzero]
    have hnobreak : isBreak strCmpN b bs (text.drop s.i) = false := by
      by_contra hbreak
      apply hzero
      cases hdrop : text.drop s.i with
      | nil => rfl
      | cons c rest =>
        rw [hdrop] at hbreak
        rw [scanBreak, if_pos (Bool.not_eq_false _ ▸ hbreak)]
    obtain ⟨hile, hat⟩ := hwhere.resolve_right fun h => h.2.2.elim (by omega) fun hbreak => by
      rw [hnobreak] at hbreak
      cases hbreak
    generalize scanBreak strCmpN b bs (text.drop s.i) = pgr at hspec hshort hzero ⊢
    by_cases hin : s.i + pgr ≤ ls
    · refine ⟨ls, hlast, hls, hclosed, .inl ⟨hin, ?_⟩⟩
      rcases hat with heq | ⟨p, hp, hlt, hbreak', heq⟩
      · exact absurd heq (by omega)
      · exact .inr ⟨p, hp, Nat.lt_add_right _ hlt, hbreak', heq⟩
    · refine ⟨ls, hlast, hls, hclosed, .inr ⟨Nat.not_le.mp hin, ?_, ?_⟩⟩
      · show s.i + pgr ≤ ls + w
        omega
      · show s.i + pgr = text.length ∨ _
        exact hspec.2.imp (fun h => by omega) id

/-- A turn that appends a piece and a break. -/
theorem LineInv.cut {s s' : Breaking} (h : LineInv strCmpN w b bs text s)
    (hlong : w + 1 ≤ scanBreak strCmpN b bs (text.drop s.i)) {k : Nat} (hclear : Clear strCmpN b bs text s k)
    (hk : s.i ≤ k) (hkw : k ≤ s.i + w + 1) (hkt : k ≤ text.length) (hi' : s'.i ≤ text.length) (hlast' : s'.last = s'.i)
    (hnew' : s'.newtext = s.newtext ++ (text.drop s.last).take (k - s.last) ++ b :: bs) :
    LineInv strCmpN w b bs text s' := by
  obtain ⟨hnew, ls, hlast, hls, hclosed, hwhere⟩ := h
  have hmore : s.i < text.length := by
    have hle := (scanBreak_spec strCmpN b bs (text.drop s.i)).1
    rw [List.length_drop] at hle
    omega
  have hnobreak : isBreak strCmpN b bs (text.drop s.i) = false := by
    by_contra hbreak
    rw [List.drop_eq_getElem_cons hmore] at hlong hbreak
    rw [scanBreak, if_pos (Bool.not_eq_false _ ▸ hbreak)] at hlong
    omega
  have hlsk : s.i ≤ ls ∧ ls ≤ k := by
    rcases hwhere with ⟨hle, rfl | ⟨p, hp, hlt, hbreak, rfl⟩⟩ | ⟨-, -, hend | hbreak⟩
    · exact ⟨hle, hk⟩
    · exact ⟨hle, hclear p hp hlt hbreak⟩
    · omega
    · rw [hnobreak] at hbreak
      cases hbreak
  refine ⟨?_, s'.i, by omega, hi', ?_, .inl ⟨Nat.le_refl _, .inl rfl⟩⟩
  · have hpiece : (text.drop s.last).take (k - s.last) = (text.take k).drop s.last := by rw [List.drop_take]
    rw [hnew', hpiece, take_drop_append hlast hlsk.2 hkt, List.append_assoc, List.append_assoc]
    exact hnew.append (hclosed.append (.line (length_piece.trans (by omega))))
  · rw [hlast', List.drop_of_length_le (by rw [List.length_take]; omega)]
    exact .nil

/-- **A turn** goes on and keeps the lines, when it cuts in time. -/
theorem cutStep_spec (hexact : ExactBreaks strCmpN b bs text) {s : Breaking} (h : BreakInv b bs true text s)
    (hlines : LineInv strCmpN w b bs text s) (hmore : s.i < text.length) (hgood : CutsInTime strCmpN w b bs text s) :
    ∃ s', breakStep strCmpN w b bs true text s = some s' ∧ (BreakInv b bs true text s' ∧ LineInv strCmpN w b bs text s')
      ∧ s.i < s'.i := by
  have hscan := (scanBreak_spec strCmpN b bs (text.drop s.i)).1
  rw [List.length_drop] at hscan
  rw [breakStep, breakTurn]
  have hlast := h.last_le
  by_cases hlong : w + 1 ≤ scanBreak strCmpN b bs (text.drop s.i)
  · rw [if_pos hlong]
    have hgood := hgood hlong
    rcases backwards_spec text (i := s.i) (n := w + 2) (by omega) with ⟨l, hl, heq, hat⟩ | ⟨heq, -⟩
    · rw [heq] at hgood ⊢
      obtain ⟨s', hline, hinv, hi, hlast', hnew⟩ := h.breakLine (.inl ⟨rfl, hat⟩)
      dsimp only
      rw [hline, Option.bind_some, readable_break hinv.i_le]
      exact ⟨s', rfl, ⟨hinv, hlines.cut hlong hgood (Nat.le_add_right _ _) (by omega) (by omega) hinv.i_le hlast' hnew⟩,
        by omega⟩
    · rw [heq] at hgood ⊢
      obtain ⟨htime, hclear⟩ := hgood
      obtain ⟨places, hplaces⟩ : ∃ places, scanBreak strCmpN b bs (text.drop s.i) + 1 - w = places + 1 :=
        ⟨scanBreak strCmpN b bs (text.drop s.i) - w, by omega⟩
      obtain ⟨c, hread, -⟩ := read_some text (k := s.i + w) (by omega)
      obtain ⟨s', hline, hinv, hi, hlast', hnew⟩ := h.breakLine (l := w) (.inr ⟨rfl, rfl, by omega⟩)
      dsimp only
      rw [hplaces, forwards, hread]
      dsimp only
      rw [if_pos (decide_eq_true (.inr ⟨rfl, by omega⟩)), if_pos rfl]
      dsimp only
      rw [hline, Option.bind_some, readable_break hinv.i_le]
      rw [show s.i + w - s.last + 1 = s.i + w + 1 - s.last by omega] at hnew
      exact ⟨s', rfl, ⟨hinv, hlines.cut hlong hclear (by omega) (Nat.le_refl _) (by omega) hinv.i_le hlast' hnew⟩,
        by omega⟩
  · rw [if_neg hlong, Option.bind_some]
    have hstep : s.i < s.i + (if scanBreak strCmpN b bs (text.drop s.i) = 0 then 1
        else scanBreak strCmpN b bs (text.drop s.i))
        ∧ s.i + (if scanBreak strCmpN b bs (text.drop s.i) = 0 then 1
          else scanBreak strCmpN b bs (text.drop s.i)) ≤ text.length := by
      split <;> omega
    have hinv := h.skip (l := scanBreak strCmpN b bs (text.drop s.i)) (Nat.le_of_lt hstep.1) hstep.2
    exact ⟨_, readable_break hinv.i_le, ⟨hinv, hlines.skip hexact hmore hlong⟩, hstep.1⟩

variable (strCmpN w b bs text) in
/-- Every turn cuts in time, and breaks are what they are taken for. -/
def AlwaysInTime : Prop :=
  ExactBreaks strCmpN b bs text
    ∧ ∀ s, Comes (breakMore text) (breakStep strCmpN w b bs true text) ⟨0, 0, 0, []⟩ s → breakMore text s = true →
      CutsInTime strCmpN w b bs text s

/-- **Where words are cut** the text is wrapped, and no line is too long, when every turn cuts in time. -/
theorem insertBreaks_right (h : AlwaysInTime strCmpN w b bs text) :
    Right w b bs true text (insertBreaks strCmpN w b bs true text) := by
  obtain ⟨hexact, htime⟩ := h
  have hstart : BreakInv b bs true text ⟨0, 0, 0, []⟩ ∧ LineInv strCmpN w b bs text ⟨0, 0, 0, []⟩ :=
    ⟨breakInv_start, .nil, 0, Nat.le_refl 0, Nat.zero_le _, .nil, .inl ⟨Nat.le_refl 0, .inl rfl⟩⟩
  have hall : ∀ s, Comes (breakMore text) (breakStep strCmpN w b bs true text) ⟨0, 0, 0, []⟩ s →
      BreakInv b bs true text s ∧ LineInv strCmpN w b bs text s := by
    intro s hs
    induction hs with
    | start => exact hstart
    | turn hs hmore hstep ih =>
      obtain ⟨s'', hsome, hinv, -⟩ := cutStep_spec hexact ih.1 ih.2 (of_decide_eq_true hmore) (htime _ hs hmore)
      cases hsome.symm.trans hstep
      exact hinv
  have hkeep : ∀ s s', Comes (breakMore text) (breakStep strCmpN w b bs true text) ⟨0, 0, 0, []⟩ s →
      breakMore text s = true → breakStep strCmpN w b bs true text s = some s' →
      Comes (breakMore text) (breakStep strCmpN w b bs true text) ⟨0, 0, 0, []⟩ s'
        ∧ text.length - s'.i < text.length - s.i := by
    intro s s' hs hmore hstep
    have hlt : s.i < text.length := of_decide_eq_true hmore
    obtain ⟨s'', hsome, -, hless⟩ := cutStep_spec hexact (hall s hs).1 (hall s hs).2 hlt (htime s hs hmore)
    cases hsome.symm.trans hstep
    exact ⟨.turn hs hmore hstep, by omega⟩
  obtain ⟨s, hs⟩ := whileLoop_isSome (n := text.length + 1) .start hkeep (Nat.lt_succ_self _) fun t ht hmore => by
    obtain ⟨s', hsome, -⟩ := cutStep_spec hexact (hall t ht).1 (hall t ht).2 (of_decide_eq_true hmore) (htime t ht hmore)
    rw [hsome]
    exact nofun
  obtain ⟨hinv, hnew, ls, hlast, hls, hclosed, hwhere⟩ := hall s (whileLoop_some hs).1
  obtain ⟨hend, hresult, hwrapped⟩ := insertBreaks_some hs hinv
  refine ⟨_, hresult, hwrapped, fun _ => ⟨s.newtext ++ (text.take ls).drop s.last, (text.take text.length).drop ls,
    hnew.append hclosed, length_piece.trans ?_, ?_⟩⟩
  · rcases hwhere with ⟨hle, -⟩ | ⟨hlt, hle, -⟩
    · omega
    · omega
  · rw [List.append_assoc, ← take_drop_append hlast hls (Nat.le_refl _), List.take_length]

/-! ## `FarFormatText` -/

variable (strCmpN w b bs text) in
/-- No turn of the loop overruns the end of the text. -/
def NeverOverruns : Prop :=
  if bs = [] then NeverReplaceOverruns w b text else NeverBreakOverruns strCmpN w b bs text

/-- A comparison that tells texts apart. -/
def plainCmpN (s1 s2 : WStr) (n : Nat) : Int := if s1.take n = s2.take n then 0 else 1

theorem not_right_none : ¬Right w b bs docut text none := fun ⟨_, h, _⟩ => nomatch h

end FormatText

end Far2l
