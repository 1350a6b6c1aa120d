/-
Far2l.Utils.ArgumentSpansTheorems — when the spans of the arguments of
`ParseCommandLine` are consistent.

A run in which every `$'` fits goes through sound states only: it comes to the end
of the string, its arguments are laid out there (`run_sound`, `Sound.laidOut`), and
no turn leaves the string (`accesses_inside`). A `$'` that starts an argument behind
an operator makes that operator a second token, and one at the very beginning wraps
the cursor; either leaves an argument of a negative length, and no later turn
repairs it (`run_bad`). Together: `spansConsistent_iff`.
-/
import Far2l.Utils.ArgumentSound

namespace Far2l.Environment

open Far2l.Environment.Parser (isOperator)

variable {host : Host} {emptyIfMissing : Bool} {P R : Parser} {n : Nat}
  {args : List Argument} {a : Argument}

/-! ## Accesses -/

/-- Every access stays in the string. -/
def AllInside (accesses : List Access) : Prop := ∀ access ∈ accesses, access.Inside

theorem allInside_nil : AllInside [] := fun _ h => by simp at h

theorem AllInside.cons {access : Access} {accesses : List Access} (h : access.Inside)
    (hs : AllInside accesses) : AllInside (access :: accesses) :=
  List.forall_mem_cons.mpr ⟨h, hs⟩

theorem AllInside.append {left right : List Access} (hl : AllInside left) (hr : AllInside right) :
    AllInside (left ++ right) :=
  List.forall_mem_append.mpr ⟨hl, hr⟩

theorem allInside_one {access : Access} (h : access.Inside) : AllInside [access] :=
  .cons h allInside_nil

theorem touch_inside {start stop : Int} (h0 : 0 ≤ start) (h1 : start ≤ stop)
    (h2 : stop ≤ P.s.length) : (P.touch start stop).Inside := ⟨h0, h1, h2⟩

theorem grabAccesses_inside (h : Sound n P) : AllInside P.grabAccesses := by
  have h0 := h.nonneg
  have hle := h.le_length
  rw [Parser.grabAccesses]
  split
  · next hne =>
    have := hne.1
    exact allInside_one (touch_inside h0 (by omega) (by omega))
  · exact allInside_nil

theorem startTokenAccesses_inside (h : Sound n P) : AllInside P.startTokenAccesses := by
  have h0 := h.nonneg
  have hle := h.le_length
  rw [Parser.startTokenAccesses]
  split
  · next hne =>
    have := hne.1
    refine .cons (touch_inside h0 (by omega) (by omega)) ?_
    split
    · next hnext =>
      have := hnext.2
      exact allInside_one (touch_inside (by omega) (by omega) (by omega))
    · exact allInside_nil
  · exact allInside_nil

theorem endSimpleAccesses_inside (h : Sound n P)
    (hplain : ¬ (P.simpleEnds ∧ Parser.finds host emptyIfMissing P.simpleName = true)) :
    AllInside (P.endSimpleAccesses host emptyIfMissing) := by
  have h0 := h.nonneg
  have hle := h.le_length
  rw [Parser.endSimpleAccesses]
  split
  · next hsimple =>
    obtain ⟨hstart, hlt, -⟩ := h.variable_.simple hsimple
    refine .append (.append ?_ ?_) ?_
    · split
      · next hne => exact allInside_one (touch_inside h0 (by omega) (by omega))
      · exact allInside_nil
    · split
      · exact allInside_one (touch_inside (by omega) (by omega) hle)
      · exact allInside_nil
    · exact allInside_nil
  · exact allInside_nil

theorem endBracedAccesses_inside (h : Sound n P) (hlt : P.i < P.s.length)
    (hplain : ¬ (P.curledEnds ∧ Parser.finds host emptyIfMissing P.curledName = true)) :
    AllInside (P.endBracedAccesses host emptyIfMissing) := by
  have h0 := h.nonneg
  rw [Parser.endBracedAccesses]
  split
  · refine .cons (touch_inside h0 (by omega) (by omega)) (.append ?_ ?_)
    · split
      · next hends =>
        obtain ⟨hstart, hat | hin⟩ := h.variable_.curled hends.1
        · exact absurd (hat.2.1.symm.trans hends.2) (by decide)
        · exact allInside_one (touch_inside (by omega) hin.1 (by omega))
      · exact allInside_nil
    · exact allInside_nil
  · exact allInside_nil

theorem unescapeAccesses_inside {s : List Byte} {i : Int} (h1 : 1 ≤ i) :
    AllInside (unescapeAccesses s i) := by
  have hinside {start stop : Int} (h0 : 0 ≤ start) (h1 : start ≤ stop) (h2 : stop ≤ s.length) :
      Access.Inside ⟨s.length, ⟨start, stop⟩⟩ := ⟨h0, h1, h2⟩
  simp only [unescapeAccesses]
  split
  · refine .cons (hinside (by omega) (by omega) (by omega)) ?_
    split
    · exact allInside_one (hinside (by omega) (by omega) (by omega))
    · repeat' split
      all_goals first
        | exact allInside_nil
        | exact .cons (hinside (by omega) (by omega) (by omega))
            (allInside_one (hinside (by omega) (by omega) (by omega)))
  · exact allInside_nil

/-- A backslash stands in front of an escaped character. -/
theorem Sound.one_le (h : Sound n P) (hesc : P.escapingState = true) : 1 ≤ P.i := by
  cases hsplit : P.tokenSplitter with
  | true =>
    obtain ⟨args, hc⟩ := h.closed hsplit
    exact absurd (hc.escapingState.symm.trans hesc) (by decide)
  | false =>
    obtain ⟨args, a, ha⟩ := h.opened hsplit
    have := ha.begin_nonneg
    have := ha.escapingState hesc
    omega

theorem characterAccesses_inside (h : Sound n P) (hlt : P.i < P.s.length) :
    AllInside P.characterAccesses := by
  have h0 := h.nonneg
  have hread : (P.touch P.i (P.i + 1)).Inside := touch_inside h0 (by omega) (by omega)
  rw [Parser.characterAccesses]
  split
  · exact allInside_one hread
  · split
    · next hesc =>
      have hone := h.one_le hesc
      have hback : (P.touch (P.i - 1) P.i).Inside := touch_inside (by omega) (by omega) (by omega)
      rw [Parser.escapedAccesses]
      split
      · exact unescapeAccesses_inside hone
      · split
        · exact allInside_one hback
        · refine .cons hread ?_
          split
          · exact allInside_one hback
          · exact allInside_nil
    · rw [Parser.plainAccesses]
      refine .cons hread ?_
      split
      · next hnext =>
        have := hnext.2.2
        exact allInside_one (touch_inside (by omega) (by omega) (by omega))
      · split
        · next hnext =>
          have := hnext.2.2
          refine .cons (touch_inside (by omega) (by omega) (by omega)) ?_
          split
          · exact allInside_one (touch_inside h0 (by omega) (by omega))
          · exact allInside_nil
        · exact allInside_nil

/-- **Every access of a turn stays in the string.** -/
theorem accesses_inside (hhome : host.home ≠ []) (h : Sound n P)
    (hplain : ¬ P.expandsVariable host emptyIfMissing) :
    AllInside (P.accesses host emptyIfMissing) := by
  rw [Parser.accesses]
  refine (grabAccesses_inside h).append ?_
  split
  · exact allInside_nil
  · obtain ⟨hends, hbraced⟩ := ends_unexpanded rfl hplain
    obtain ⟨hQ, -⟩ := startToken_sound emptyIfMissing hhome h
    have hE := hQ.ofEnds hends
    have hB := hQ.ofEnds hbraced
    obtain ⟨hsimple, hcurled⟩ := not_or.mp hplain
    refine .append (.append (startTokenAccesses_inside h) (endSimpleAccesses_inside hQ hsimple)) ?_
    generalize P.startToken host emptyIfMissing = Q at *
    obtain ⟨out, env, hE', henv, -⟩ := hends
    obtain ⟨out', env', hB', -⟩ := hbraced
    rw [hB'] at hB ⊢
    rw [hE'] at hE ⊢
    split
    · exact allInside_nil
    · next hne =>
      have hlt : Q.i < Q.s.length := by
        have := hQ.le_length
        have : Q.i ≠ Q.s.length := hne
        omega
      refine (endBracedAccesses_inside hE hlt ?_).append (characterAccesses_inside hB hlt)
      rintro ⟨⟨hcurl, hchar⟩, hfinds⟩
      refine hcurled ⟨⟨?_, hchar⟩, hfinds⟩
      rcases henv with rfl | rfl
      · exact hcurl
      · exact absurd (show EnvState.none = .curled from hcurl) (by decide)

/-! ## Runs -/

theorem run_succ (fuel : Nat) (P : Parser) :
    P.run host emptyIfMissing (fuel + 1)
      = if P.i < 0 ∨ P.i > P.s.length then some P
        else match P.next host emptyIfMissing with
          | none => some ((P.startToken host emptyIfMissing).endSimple host emptyIfMissing)
          | some P' => P'.run host emptyIfMissing fuel := by
  rw [Parser.run, Parser.next]
  split
  · rfl
  · split
    · rfl
    · dsimp only
      split
      · rfl
      · rfl

/-- The loop is left at the end of the string. -/
theorem left_sound (hhome : host.home ≠ []) (h : Sound n P)
    (hplain : ¬ P.expandsVariable host emptyIfMissing)
    (hnext : P.next host emptyIfMissing = none) {F : Parser}
    (hF : F = (P.startToken host emptyIfMissing).endSimple host emptyIfMissing) :
    Sound n F ∧ F.i = F.s.length := by
  rw [Parser.next, ← hF] at hnext
  split at hnext
  · exact absurd hnext (by simp)
  · dsimp only at hnext
    split at hnext
    · next hend =>
      obtain ⟨hends, -⟩ := ends_unexpanded rfl hplain
      obtain ⟨hQ, -⟩ := startToken_sound emptyIfMissing hhome h
      exact ⟨hF ▸ hQ.ofEnds hends, hend⟩
    · exact absurd hnext (by simp)

/-- The state behind the loop. -/
def finish (P : Parser) : Parser := if !P.tokenSplitter then P.endArgument else P

theorem Sound.laidOut (h : Sound n P) (hend : P.i = P.s.length) :
    ∃ args, (finish P).args = some args
      ∧ Span.LaidOut 0 ((finish P).s.length : Int) (args.map Argument.span)
      ∧ Span.LaidOut 0 (n : Int) (args.map Argument.origSpan) := by
  have horig := h.orig_le
  have hspace : charAt P.s P.i ≠ 0x20 := fun hspace => by
    have := (inside_of_charAt (s := P.s) (i := P.i) (by rw [hspace]; decide)).2
    omega
  obtain ⟨args, hargs⟩ := h.finished hspace
  have hcursors : (finish P).i = (finish P).s.length ∧ (finish P).origI = P.origI := by
    rw [finish]
    split <;> exact ⟨hend, rfl⟩
  refine ⟨args, hargs.args_eq, hargs.spans.mono ?_, hargs.origSpans.mono ?_⟩
  · exact Int.le_of_eq hcursors.1
  · show (finish P).origI ≤ n
    omega

/-- **A run without a bad `$'`** comes to its end, through sound states only. -/
theorem run_sound (hhome : host.home ≠ []) : ∀ (fuel : Nat) {P : Parser}, Sound n P →
    (P.s.length : Int) - P.i < fuel →
    (∀ R ∈ P.states host emptyIfMissing fuel,
      ¬ R.expandsVariable host emptyIfMissing ∧ R.dollarSingleFits) →
    (∃ F, P.run host emptyIfMissing fuel = some F ∧ Sound n F ∧ F.i = F.s.length)
      ∧ ∀ R ∈ P.states host emptyIfMissing fuel, Sound n R
  | 0, P, h, hfuel, _ => by
    have := h.le_length
    omega
  | fuel + 1, P, h, hfuel, hstates => by
    have h0 := h.nonneg
    have hle := h.le_length
    have hin : ¬ (P.i < 0 ∨ P.i > P.s.length) := by omega
    rw [Parser.states, if_neg hin] at hstates ⊢
    rw [run_succ, if_neg hin]
    obtain ⟨⟨hplain, hfits⟩, hrest⟩ := List.forall_mem_cons.mp hstates
    cases hnext : P.next host emptyIfMissing with
    | none =>
      exact ⟨⟨_, rfl, left_sound hhome h hplain hnext rfl⟩, fun R hR => by
        obtain rfl := List.mem_singleton.mp hR
        exact h⟩
    | some P' =>
      obtain ⟨hsound, hnearer⟩ := next_sound hhome h hplain hfits hnext
      rw [hnext] at hrest
      have hfuel' : (P'.s.length : Int) - P'.i < fuel := by
        rw [Nearer] at hnearer
        omega
      obtain ⟨hrun, hall⟩ := run_sound hhome fuel hsound hfuel' hrest
      exact ⟨hrun, List.forall_mem_cons.mpr ⟨h, hall⟩⟩

/-! ## A bad `$'` -/

/-- The cursor has gone back in front of the argument, to an operator or out of the string. -/
structure Lost (P : Parser) : Prop where
  args : ∃ args a, P.args = some (args ++ [a]) ∧ 0 ≤ a.begin_ ∧ a.begin_ = P.i + 1
  tokenSplitter : P.tokenSplitter = false
  envState : P.envState = .none
  escapingState : P.escapingState = false
  front : 0 ≤ P.i → P.i < P.s.length ∧ isOperator (charAt P.s P.i) = true

/-- An argument of a negative length stands among those that change no more. -/
def Doomed (args : Option (List Argument)) : Prop :=
  ∃ kept last, args = some (kept ++ [last]) ∧ ∃ a ∈ kept, a.len < 0

theorem lasting_doomed : Lasting Doomed where
  modify f := by
    rintro ⟨kept, last, rfl, hbad⟩
    exact ⟨kept, f last, by rw [Option.map_some, modify_last], hbad⟩
  add a := by
    rintro ⟨kept, last, rfl, b, hb, hlen⟩
    exact ⟨kept ++ [last], a, rfl, b, List.mem_append_left _ hb, hlen⟩

/-- The argument in front of the operator ends before it has begun. -/
theorem Lost.grab (h : Lost P) (h0 : 0 ≤ P.i) : P.grabs = true ∧ Doomed P.grab.args := by
  obtain ⟨args, a, hargs, -, hbegin⟩ := h.args
  obtain ⟨hlt, hop⟩ := h.front h0
  have hcount : P.binopsCount ≠ 0 := by
    obtain ⟨c, tail, hdrop⟩ : ∃ c tail, P.s.drop P.i.toNat = c :: tail := by
      cases hdrop : P.s.drop P.i.toNat with
      | nil =>
        have := List.drop_eq_nil_iff.mp hdrop
        omega
      | cons c tail => exact ⟨c, tail, rfl⟩
    have hc : charAt P.s P.i = c := by
      have hget : P.s[P.i.toNat]? = some c := by
        rw [← Nat.add_zero P.i.toNat, ← List.getElem?_drop, hdrop]
        rfl
      rw [charAt, if_neg (by omega), List.getD_eq_getElem?_getD, hget]
      rfl
    rw [Parser.binopsCount, hdrop, List.takeWhile_cons, if_pos (hc ▸ hop)]
    exact Nat.succ_ne_zero _
  refine ⟨?_, ?_⟩
  · simp only [Parser.grabs, h.envState, h.escapingState, hargs]
    simpa [hcount] using fun h : P.i = P.s.length => by omega
  · simp only [Parser.grab, h.tokenSplitter]
    refine ⟨args ++ [{ a with len := P.i - a.begin_, origLen := P.origI - a.origBegin }],
      ⟨P.i, P.binopsCount, P.origI, P.binopsCount, .none⟩, ?_,
      _, List.mem_append_right _ (List.mem_singleton_self _), ?_⟩
    · show (P.args.map _).map _ = _
      rw [hargs, Option.map_some, modify_last]
      rfl
    · show P.i - a.begin_ < 0
      omega

/-- **Such an argument has a negative length to the end.** -/
theorem Lost.run (h : Lost P) {fuel : Nat} {F : Parser}
    (hrun : P.run host emptyIfMissing fuel = some F) :
    ∃ args, (finish F).args = some args ∧ ∃ a ∈ args, a.len < 0 := by
  cases fuel with
  | zero => simp [Parser.run] at hrun
  | succ fuel =>
    rw [run_succ] at hrun
    by_cases h0 : 0 ≤ P.i
    · obtain ⟨hgrab, hdoomed⟩ := h.grab h0
      have hlt := (h.front h0).1
      rw [if_neg (by omega), Parser.next, if_pos hgrab] at hrun
      have hF : Doomed F.args := lasting_doomed.run (P := P.grab.advance) fuel hrun hdoomed
      have hfinish : Doomed (finish F).args := by
        rw [finish]
        split
        · exact lasting_doomed.modify _ hF
        · exact hF
      obtain ⟨kept, last, hargs, a, ha, hlen⟩ := hfinish
      exact ⟨_, hargs, a, List.mem_append_left _ ha, hlen⟩
    · rw [if_pos (by omega)] at hrun
      obtain rfl := Option.some.inj hrun
      obtain ⟨args, a, hargs, -, hbegin⟩ := h.args
      refine ⟨args ++ [{ a with len := P.i - a.begin_, origLen := P.origI - a.origBegin }], ?_,
        _, List.mem_append_right _ (List.mem_singleton_self _), ?_⟩
      · rw [finish, h.tokenSplitter]
        show P.args.map _ = _
        rw [hargs, Option.map_some, modify_last]
      · show P.i - a.begin_ < 0
        omega

theorem not_laidOut {high : Int} (h : ∃ a ∈ args, a.len < 0) :
    ¬ Span.LaidOut 0 high (args.map Argument.span) := by
  intro hlaid
  obtain ⟨a, ha, hlen⟩ := h
  have hordered : a.begin_ ≤ a.begin_ + a.len :=
    (hlaid.between _ (List.mem_map_of_mem ha)).ordered
  omega

/-- A `$'` where the last argument starts, behind the start of the token. -/
structure OpensArgument (P Q : Parser) : Prop where
  s : Q.s = P.s
  i : Q.i = P.i
  opens : Q.opensDollarSingle
  envState : Q.envState = P.envState
  tokenSplitter : Q.tokenSplitter = false
  args : ∃ args a, Q.args = some (args ++ [a]) ∧ a.begin_ = P.i
  front : 0 < P.i → separates (charAt P.s (P.i - 1)) = true

/-- The argument starts in this turn or has started in an earlier one. -/
theorem startToken_opens (h : Sound n P) (hopens : P.opensDollarSingle)
    (hstart : P.argumentStarts) : OpensArgument P (P.startToken host emptyIfMissing) := by
  have hdollar := hopens.2.2.2.1
  have hne : P.i ≠ P.s.length := by
    have := (inside_of_charAt (s := P.s) (i := P.i) (by rw [hdollar]; decide)).2
    omega
  rcases startToken_cases host emptyIfMissing P with ⟨hsame, hnot⟩ | hstarts
  · have hsplit : P.tokenSplitter = false := by
      by_contra hsplit
      have hspace := hnot hne (by simpa using hsplit)
      exact absurd (hdollar.symm.trans hspace) (by decide)
    obtain ⟨args, a, ha⟩ := h.opened hsplit
    have hat := (argumentStarts_iff ha hsplit).mp hstart
    rw [hsame]
    exact ⟨rfl, rfl, hopens, rfl, hsplit, ⟨args, a, ha.args_eq, hat⟩, hat ▸ ha.front⟩
  · obtain ⟨args, hc⟩ := h.closed hstarts.tokenSplitter
    obtain ⟨s, i, hR, htext⟩ := hstarts.eq
    rcases htext with ⟨rfl, rfl⟩ | ⟨htilde, -⟩
    · rw [hR]
      refine ⟨rfl, rfl, hopens, rfl, rfl, ⟨args, newArgument P, ?_, rfl⟩, hc.front⟩
      show P.args.map _ = _
      rw [hc.args_eq, Option.map_some]
    · exact absurd (hdollar.symm.trans htilde) (by decide)

/-- The `$'` is erased, and the cursor is in front of the argument. -/
theorem character_lost (h0 : 0 ≤ P.i) (hopens : P.opensDollarSingle) (henv : P.envState = .none)
    (hsplit : P.tokenSplitter = false) (hargs : P.args = some (args ++ [a])) (hat : a.begin_ = P.i)
    (hfront : 0 < P.i → isOperator (charAt P.s (P.i - 1)) = true) :
    Lost (P.character host).advance := by
  have hquote := (inside_of_charAt (s := P.s) (i := P.i + 1)
    (by rw [hopens.2.2.2.2]; decide)).2
  rw [character_opens host hopens henv (by rw [hargs]; rfl)]
  refine ⟨⟨args, { a with quot := .dollarSingle }, ?_, ?_, ?_⟩, hsplit, henv, hopens.2.1,
    fun hpos => ⟨?_, ?_⟩⟩
  · show P.args.map _ = _
    rw [hargs, Option.map_some, modify_last]
  · show 0 ≤ a.begin_
    omega
  · show a.begin_ = P.i - 2 + 1 + 1
    omega
  · show P.i - 2 + 1 < ((replaceAt P.s P.i (P.i + 2) []).length : Int)
    rw [length_replaceAt h0 (by omega) (by omega), List.length_nil]
    omega
  · have hpos' : 0 ≤ P.i - 2 + 1 := hpos
    show isOperator (charAt (replaceAt P.s P.i (P.i + 2) []) (P.i - 2 + 1)) = true
    rw [show P.i - 2 + 1 = P.i - 1 by omega, charAt_replaceAt_front (by omega) (by omega)]
    exact hfront (by omega)

/-- **A `$'` that starts an argument without a space in front of it** loses the cursor. -/
theorem next_bad (h : Sound n P) (hplain : ¬ P.expandsVariable host emptyIfMissing)
    (hbad : ¬ P.dollarSingleFits) :
    ∃ R, P.next host emptyIfMissing = some R ∧ Lost R := by
  obtain ⟨hopens, hbad⟩ := Classical.not_imp.mp hbad
  obtain ⟨hstart, hspace⟩ := Classical.not_imp.mp hbad
  have hdollar := hopens.2.2.2.1
  have hlt := (inside_of_charAt (s := P.s) (i := P.i) (by rw [hdollar]; decide)).2
  have hgrab : ¬ P.grabs = true := by
    intro hgrab
    obtain ⟨-, -, -, -, hcount⟩ := grabs_cases hgrab
    have hop := isOperator_binops h.nonneg (k := 0) (by omega)
    rw [Int.natCast_zero, Int.add_zero, hdollar] at hop
    exact absurd hop (by decide)
  have hfront : 0 < P.i → separates (charAt P.s (P.i - 1)) = true →
      isOperator (charAt P.s (P.i - 1)) = true := fun _ hsep =>
    (of_decide_eq_true hsep).resolve_left hspace
  have hQ : OpensArgument P (P.startToken host emptyIfMissing) := startToken_opens h hopens hstart
  obtain ⟨⟨out, env, hE, -⟩, out', env', hB, hsame, hname, -⟩ := ends_unexpanded rfl hplain
  rw [Parser.next, if_neg hgrab]
  generalize P.startToken host emptyIfMissing = Q at hQ hE hB hsame hname
  obtain ⟨args, a, hargs, hat⟩ := hQ.args
  -- a `$NAME` in front of it has ended
  have hnone : env' = .none := by
    rcases hsame with hsame | hsame
    · rcases hopens.2.2.1 with henv | henv
      · exact hsame.trans (hQ.envState.trans henv)
      · have hgoes := hname (hsame.trans (hQ.envState.trans henv))
        exact absurd hQ.opens.2.2.2.1 (hgoes.ne (by decide))
    · exact hsame
  have hin : ¬ (Q.endSimple host emptyIfMissing).i = (Q.endSimple host emptyIfMissing).s.length := by
    rw [hE]
    show ¬ Q.i = Q.s.length
    rw [hQ.s, hQ.i]
    omega
  refine ⟨_, if_neg hin, ?_⟩
  rw [hB, hnone]
  have hQopens := hQ.opens
  refine character_lost ?_ ⟨hQopens.1, hQopens.2.1, .inl rfl,
    hQopens.2.2.2⟩ rfl hQ.tokenSplitter hargs (hat.trans hQ.i.symm) fun hpos => ?_
  · show 0 ≤ Q.i
    exact hQ.i ▸ h.nonneg
  · have hpos' : 0 < Q.i := hpos
    show isOperator (charAt Q.s (Q.i - 1)) = true
    rw [hQ.s, hQ.i]
    rw [hQ.i] at hpos'
    exact hfront hpos' (hQ.front hpos')

/-! ## Consistent spans -/

theorem start_state_sound (s : List Byte) :
    Sound s.length { s := s, args := some [] } where
  nonneg := Int.le_refl _
  le_length := by
    show (0 : Int) ≤ s.length
    omega
  orig_nonneg := Int.le_refl _
  orig_le := by
    show (0 : Int) + (s.length - 0) ≤ s.length
    omega
  closed _ := ⟨[], ⟨rfl, .nil, .nil⟩, fun h => absurd h (Int.lt_irrefl 0), rfl⟩
  opened h := absurd (show true = false from h) (by decide)
  variable_ := ⟨fun h => absurd (show EnvState.none = .simple from h) (by decide),
    fun h => absurd (show EnvState.none = .curled from h) (by decide)⟩

/-- **A run with a bad `$'`** ends, if it does, with an argument of a negative length. -/
theorem run_bad (hhome : host.home ≠ []) : ∀ (fuel : Nat) {P : Parser}, Sound n P →
    (∀ R ∈ P.states host emptyIfMissing fuel, ¬ R.expandsVariable host emptyIfMissing) →
    (∃ R ∈ P.states host emptyIfMissing fuel, ¬ R.dollarSingleFits) →
    ∀ {F : Parser}, P.run host emptyIfMissing fuel = some F →
      ∃ args, (finish F).args = some args ∧ ∃ a ∈ args, a.len < 0
  | 0, _, _, _, _, F, hrun => by simp [Parser.run] at hrun
  | fuel + 1, P, h, hplain, hbad, F, hrun => by
    have h0 := h.nonneg
    have hle := h.le_length
    have hin : ¬ (P.i < 0 ∨ P.i > P.s.length) := by omega
    rw [Parser.states, if_neg hin] at hplain hbad
    rw [run_succ, if_neg hin] at hrun
    obtain ⟨hhere, hrest⟩ := List.forall_mem_cons.mp hplain
    by_cases hfits : P.dollarSingleFits
    · obtain ⟨R, hR, hRbad⟩ := hbad
      rcases List.mem_cons.mp hR with rfl | hR
      · exact absurd hfits hRbad
      · cases hnext : P.next host emptyIfMissing with
        | none =>
          rw [hnext] at hR
          exact absurd hR (by simp)
        | some P' =>
          rw [hnext] at hR hrest hrun
          exact run_bad hhome fuel (next_sound hhome h hhere hfits hnext).1 hrest ⟨R, hR, hRbad⟩
            hrun
    · obtain ⟨R, hnext, hlost⟩ := next_bad h hhere hfits
      rw [hnext] at hrun
      exact hlost.run hrun

theorem expandStringOrParseCommandLine_eq {s : List Byte} (hs : s ≠ []) :
    expandStringOrParseCommandLine host s (some []) emptyIfMissing
      = (({ s := s, args := some [] } : Parser).run host emptyIfMissing (2 * s.length + 2)).map
          finish := by
  rw [expandStringOrParseCommandLine, if_neg hs]
  rfl

/-- **The spans are consistent exactly when every `$'` that starts an argument has a space in
front of it**, for every string in which no variable is expanded. -/
theorem spansConsistent_iff (host : Host) (hhome : host.home ≠ []) (emptyIfMissing : Bool)
    (s : List Byte)
    (hplain : ∀ P ∈ statesOf host emptyIfMissing s, ¬ P.expandsVariable host emptyIfMissing) :
    SpansConsistent host emptyIfMissing s
      ↔ ∀ P ∈ statesOf host emptyIfMissing s, P.dollarSingleFits := by
  by_cases hs : s = []
  · subst hs
    refine iff_of_true ⟨⟨_, [], rfl, rfl, .nil, .nil⟩, ?_⟩ ?_
    · exact fun P hP => absurd hP (by simp [statesOf])
    · exact fun P hP => absurd hP (by simp [statesOf])
  have hstart := start_state_sound s
  have hstates : statesOf host emptyIfMissing s
      = Parser.states host emptyIfMissing (2 * s.length + 2) { s := s, args := some [] } := if_neg hs
  rw [hstates] at hplain ⊢
  constructor
  · intro hconsistent
    by_contra hbad
    obtain ⟨R, hbad⟩ := Classical.not_forall.mp hbad
    obtain ⟨hR, hRbad⟩ := Classical.not_imp.mp hbad
    obtain ⟨P, args, hparse, hargs, hspans, -⟩ := hconsistent.laidOut
    rw [expandStringOrParseCommandLine_eq hs, Option.map_eq_some_iff] at hparse
    obtain ⟨F, hrun, rfl⟩ := hparse
    obtain ⟨args', hargs', hlen⟩ := run_bad hhome _ hstart hplain ⟨R, hR, hRbad⟩ hrun
    obtain rfl := Option.some.inj (hargs.symm.trans hargs')
    exact not_laidOut hlen hspans
  · intro hfits
    have hfuel : (s.length : Int) - 0 < ((2 * s.length + 2 : Nat) : Int) := by omega
    obtain ⟨⟨F, hrun, hF, hend⟩, hsound⟩ := run_sound hhome _ hstart hfuel
      fun R hR => ⟨hplain R hR, hfits R hR⟩
    obtain ⟨args, hargs, hspans, horig⟩ := hF.laidOut hend
    refine ⟨⟨finish F, args, ?_, hargs, hspans, horig⟩, ?_⟩
    · rw [expandStringOrParseCommandLine_eq hs, hrun]
      rfl
    · rw [hstates]
      exact fun P hP => accesses_inside hhome (hsound P hP) (hplain P hP)

/-- A host without variables, whose home is `/root`. -/
def rootHost : Host where
  getVariable _ := none
  home := [0x2F, 0x72, 0x6F, 0x6F, 0x74]
  printLc _ := []

/-- `a$'\'' $'b'&~`: one `$'` inside an argument, one behind a space. -/
theorem spansConsistent_quotes :
    SpansConsistent rootHost false [0x61, DOLLAR, SQUOTE, BACKSLASH, SQUOTE, SQUOTE, 0x20, DOLLAR,
      SQUOTE, 0x62, SQUOTE, 0x26, 0x7E] :=
  (spansConsistent_iff rootHost (by decide) false _ (by decide)).mpr (by decide +kernel)

/-- In `$'a'` the cursor wraps, and in `a&$'b'` the operator is grabbed twice; both leave an
argument a negative length. -/
theorem dollarSingle_steps_back :
    ((∀ P ∈ statesOf rootHost false [DOLLAR, SQUOTE, 0x61, SQUOTE],
        ¬ P.expandsVariable rootHost false)
      ∧ ¬ SpansConsistent rootHost false [DOLLAR, SQUOTE, 0x61, SQUOTE])
    ∧ (∀ P ∈ statesOf rootHost false [0x61, 0x26, DOLLAR, SQUOTE, 0x62, SQUOTE],
        ¬ P.expandsVariable rootHost false)
      ∧ ¬ SpansConsistent rootHost false [0x61, 0x26, DOLLAR, SQUOTE, 0x62, SQUOTE] := by
  have hbad (s : List Byte) (args : List Argument)
      (hparse : (expandStringOrParseCommandLine rootHost s (some []) false).map Parser.args
        = some (some args)) (hlen : ∃ a ∈ args, a.len < 0) : ¬ SpansConsistent rootHost false s := by
    intro hconsistent
    obtain ⟨P, args', hP, hargs, hspans, -⟩ := hconsistent.laidOut
    rw [hP, Option.map_some, hargs] at hparse
    obtain rfl := Option.some.inj (Option.some.inj hparse)
    exact not_laidOut hlen hspans
  refine ⟨⟨by decide, ?_⟩, by decide +kernel, ?_⟩
  · exact hbad _ [⟨0, -1, 0, 1, .dollarSingle⟩] (by decide) (by decide)
  · exact hbad _ [⟨0, 1, 0, 1, .none⟩, ⟨1, 1, 1, 1, .none⟩, ⟨2, -1, 2, 1, .dollarSingle⟩,
      ⟨1, 1, 3, 1, .none⟩, ⟨2, 1, 4, 2, .none⟩] (by decide) (by decide)

end Far2l.Environment
