/-
Far2l.Utils.ArgumentSound — what every turn of the command line parser keeps.

`Sound`: the cursor is in the string, the original cursor is no farther from the
end of its string than the cursor is from the end of this one, the finished
arguments are laid out, and the current one starts at or in front of the cursor. A
`$'` takes the cursor back by one character. Inside an argument that character is
read once more, and nothing is lost; at the start of an argument it belongs to what
stands in front, and only a space is passed over.

A turn is taken apart as the source has it: an operator (`grab_sound`), the start of
an argument (`start_sound`), the end of a variable (`ends_unexpanded`), and the
character (`character_sound`). `next_sound` puts them together.
-/
import Mathlib.Data.List.TakeWhile
import Far2l.Utils.ArgumentTurns

namespace Far2l.Environment

open Far2l.Environment.Parser (isOperator)

variable {host : Host} {emptyIfMissing : Bool} {P R : Parser} {n : Nat}
  {args : List Argument} {a : Argument}

/-! ## The arguments -/

theorem modify_last (args : List Argument) (a : Argument) (f : Argument → Argument) :
    (args ++ [a]).modify ((args ++ [a]).length - 1) f = args ++ [f a] := by
  have hlast : (args ++ [a]).length - 1 = args.length + 0 := by simp
  rw [hlast, List.modify, List.modifyTailIdx_add]
  rfl

theorem map_modify {β : Type} (g : Argument → β) (f : Argument → Argument)
    (hf : ∀ a, g (f a) = g a) (k : Nat) (args : List Argument) :
    (args.modify k f).map g = args.map g := by
  induction args generalizing k with
  | nil => simp
  | cons a args ih =>
    cases k with
    | zero => simp [hf]
    | succ k => simp [ih]

/-- What can stand in front of an argument. -/
def separates (c : Byte) : Bool := c = 0x20 ∨ isOperator c

/-- The arguments are laid out up to the cursors. -/
structure Finished (P : Parser) (args : List Argument) : Prop where
  args_eq : P.args = some args
  spans : Span.LaidOut 0 P.i (args.map Argument.span)
  origSpans : Span.LaidOut 0 P.origI (args.map Argument.origSpan)

/-- No argument is open. -/
structure Closed (P : Parser) (args : List Argument) : Prop extends Finished P args where
  front : 0 < P.i → separates (charAt P.s (P.i - 1)) = true
  escapingState : P.escapingState = false

/-- The last argument is open. Behind a `$'` that starts it, the cursor stands on the space in
front. -/
structure Open (P : Parser) (args : List Argument) (a : Argument) : Prop where
  args_eq : P.args = some (args ++ [a])
  spans : Span.LaidOut 0 a.begin_ (args.map Argument.span)
  origSpans : Span.LaidOut 0 a.origBegin (args.map Argument.origSpan)
  begin_nonneg : 0 ≤ a.begin_
  orig : 0 ≤ a.origBegin ∧ a.origBegin ≤ P.origI
  front : 0 < a.begin_ → separates (charAt P.s (a.begin_ - 1)) = true
  begin_le : a.begin_ ≤ P.i ∨ (a.begin_ = P.i + 1 ∧ charAt P.s P.i = 0x20
    ∧ P.quot = .dollarSingle ∧ P.escapingState = false)
  escapingState : P.escapingState = true → a.begin_ < P.i

/-- The name of a variable lies between `env_start` and the cursor. -/
structure InVariable (P : Parser) : Prop where
  simple : P.envState = .simple → 0 ≤ P.envStart ∧ P.envStart < P.i ∧ P.escapingState = false
  curled : P.envState = .curled → 0 ≤ P.envStart
    ∧ ((P.i = P.envStart + 1 ∧ charAt P.s P.i = 0x7B ∧ P.escapingState = false)
      ∨ (P.envStart + 2 ≤ P.i ∧ (P.escapingState = true → P.envStart + 2 < P.i)))

/-- What every turn of the loop keeps; `n` is the length of the original string. -/
structure Sound (n : Nat) (P : Parser) : Prop where
  nonneg : 0 ≤ P.i
  le_length : P.i ≤ P.s.length
  orig_nonneg : 0 ≤ P.origI
  orig_le : P.origI + (P.s.length - P.i) ≤ n
  closed : P.tokenSplitter = true → ∃ args, Closed P args
  opened : P.tokenSplitter = false → ∃ args a, Open P args a
  variable_ : InVariable P

/-- The argument ends at the cursors. -/
theorem Open.endArgument (h : Open P args a) (hle : a.begin_ ≤ P.i) :
    ∃ args, Finished P.endArgument args := by
  obtain ⟨ended, hended⟩ : ∃ ended : Argument, ended = { a with
    len := P.i - a.begin_, origLen := P.origI - a.origBegin } := ⟨_, rfl⟩
  have hspan : ended.span = ⟨a.begin_, P.i⟩ := by
    rw [hended, Argument.span]
    congr 1
    show a.begin_ + (P.i - a.begin_) = P.i
    omega
  have horig : ended.origSpan = ⟨a.origBegin, P.origI⟩ := by
    rw [hended, Argument.origSpan]
    congr 1
    show a.origBegin + (P.origI - a.origBegin) = P.origI
    omega
  refine ⟨args ++ [ended], ?_, ?_, ?_⟩
  · rw [Parser.endArgument, Parser.modifyBack]
    show P.args.map _ = _
    rw [h.args_eq, Option.map_some, modify_last, hended]
  · rw [List.map_append, List.map_singleton, hspan]
    exact h.spans.append ⟨h.begin_nonneg, hle, Int.le_refl _⟩
  · rw [List.map_append, List.map_singleton, horig]
    exact h.origSpans.append ⟨h.orig.1, h.orig.2, Int.le_refl _⟩

/-- A mark on the last argument moves nothing. -/
theorem Finished.modifyBack (h : Finished P args) {f : Argument → Argument}
    (hspan : ∀ a, (f a).span = a.span) (horig : ∀ a, (f a).origSpan = a.origSpan) :
    ∃ args, Finished (P.modifyBack f) args := by
  refine ⟨args.modify (args.length - 1) f, ?_, ?_, ?_⟩
  · show P.args.map _ = _
    rw [h.args_eq, Option.map_some]
  · rw [map_modify _ _ hspan]
    exact h.spans
  · rw [map_modify _ _ horig]
    exact h.origSpans

/-! ## An operator -/

theorem grabs_cases (h : P.grabs = true) : P.i ≠ P.s.length ∧ P.args.isSome = true
    ∧ P.envState = .none ∧ P.escapingState = false ∧ P.binopsCount ≠ 0 := by
  simpa [Parser.grabs] using h

theorem binopsCount_le (h0 : 0 ≤ P.i) (hle : P.i ≤ P.s.length) :
    (P.binopsCount : Int) ≤ P.s.length - P.i := by
  have hcount := (List.takeWhile_prefix isOperator (l := P.s.drop P.i.toNat)).length_le
  rw [List.length_drop] at hcount
  rw [Parser.binopsCount]
  omega

/-- The characters that are grabbed are operators. -/
theorem isOperator_binops (h0 : 0 ≤ P.i) {k : Nat} (hk : k < P.binopsCount) :
    isOperator (charAt P.s (P.i + k)) = true := by
  obtain ⟨c, hc⟩ : ∃ c, ((P.s.drop P.i.toNat).takeWhile isOperator)[k]? = some c :=
    ⟨_, List.getElem?_eq_getElem hk⟩
  have hop : isOperator c = true := List.mem_takeWhile_imp (List.mem_of_getElem? hc)
  have hs : (P.s.drop P.i.toNat)[k]? = some c := by
    obtain ⟨tail, htail⟩ := List.takeWhile_prefix isOperator (l := P.s.drop P.i.toNat)
    rw [← htail, List.getElem?_append_left hk, hc]
  rw [List.getElem?_drop] at hs
  rw [charAt, if_neg (by omega), List.getD_eq_getElem?_getD,
    show (P.i + (k : Int)).toNat = P.i.toNat + k by omega, hs]
  exact hop

/-- The cursor is not in front of the argument, unless on a space. -/
theorem Open.begin_le_of_ne (h : Open P args a) (hchar : charAt P.s P.i ≠ 0x20) :
    a.begin_ ≤ P.i := by
  rcases h.begin_le with hle | ⟨-, hspace, -⟩
  · exact hle
  · exact absurd hspace hchar

/-- The arguments in front of an operator are finished. -/
theorem Sound.finished (h : Sound n P) (hchar : charAt P.s P.i ≠ 0x20) :
    ∃ args, Finished (if !P.tokenSplitter then P.endArgument else P) args := by
  cases hsplit : P.tokenSplitter with
  | true =>
    obtain ⟨args, hargs⟩ := h.closed hsplit
    exact ⟨args, hargs.toFinished⟩
  | false =>
    obtain ⟨args, a, hopen⟩ := h.opened hsplit
    exact hopen.endArgument (hopen.begin_le_of_ne hchar)

/-- **An operator becomes an argument of its own.** -/
theorem grab_sound (h : Sound n P) (hgrab : P.grabs = true) :
    Sound n P.grab.advance
      ∧ (P.grab.advance.s.length : Int) - P.grab.advance.i < P.s.length - P.i := by
  obtain ⟨hne, -, henv, hesc, hcount⟩ := grabs_cases hgrab
  have h0 := h.nonneg
  have hle := h.le_length
  have horig := h.orig_le
  have horig0 := h.orig_nonneg
  have hmost := binopsCount_le h0 hle
  have hop := isOperator_binops h0 (k := 0) (by omega)
  have hlast := isOperator_binops h0 (k := P.binopsCount - 1) (by omega)
  rw [Int.natCast_zero, Int.add_zero] at hop
  obtain ⟨m, hm⟩ : ∃ m : Int, m = P.binopsCount := ⟨_, rfl⟩
  obtain ⟨args, hargs⟩ := h.finished fun hspace => absurd (hspace ▸ hop) (by decide)
  obtain ⟨P1, hP1⟩ : ∃ P1, P1 = if !P.tokenSplitter then P.endArgument else P := ⟨_, rfl⟩
  have hsame : P1.s = P.s ∧ P1.i = P.i ∧ P1.origI = P.origI ∧ P1.envState = P.envState
      ∧ P1.escapingState = P.escapingState := by
    rw [hP1]
    split <;> exact ⟨rfl, rfl, rfl, rfl, rfl⟩
  obtain ⟨hs, hi, ho, henv1, hesc1⟩ := hsame
  rw [← hP1] at hargs
  have hgrabbed : P.grab.advance = { P1.addArgument m with
      tokenSplitter := true, i := P.i + m, origI := P.origI + m } := by
    simp only [Parser.grab, ← hP1, ← hm, Parser.advance, Parser.addArgument, hi, ho]
    congr 1 <;> omega
  rw [hgrabbed]
  refine ⟨⟨?_, ?_, ?_, ?_, ?_, ?_, ?_⟩, ?_⟩
  · show 0 ≤ P.i + m
    omega
  · show P.i + m ≤ P1.s.length
    rw [hs]
    omega
  · show 0 ≤ P.origI + m
    omega
  · show P.origI + m + (P1.s.length - (P.i + m)) ≤ n
    rw [hs]
    omega
  · refine fun _ => ⟨args ++ [⟨P1.i, m, P1.origI, m, .none⟩], ⟨?_, ?_, ?_⟩, ?_, ?_⟩
    · show P1.args.map _ = _
      rw [hargs.args_eq, Option.map_some]
    · rw [List.map_append, List.map_singleton]
      refine Span.LaidOut.append hargs.spans ⟨?_, ?_, ?_⟩
      · show 0 ≤ P1.i
        omega
      · show P1.i ≤ P1.i + m
        omega
      · show P1.i + m ≤ P.i + m
        omega
    · rw [List.map_append, List.map_singleton]
      refine Span.LaidOut.append hargs.origSpans ⟨?_, ?_, ?_⟩
      · show 0 ≤ P1.origI
        omega
      · show P1.origI ≤ P1.origI + m
        omega
      · show P1.origI + m ≤ P.origI + m
        omega
    · intro _
      show separates (charAt P1.s (P.i + m - 1)) = true
      rw [hs, show P.i + m - 1 = P.i + ((P.binopsCount - 1 : Nat) : Int) by omega, separates]
      exact decide_eq_true (.inr hlast)
    · exact hesc1.trans hesc
  · exact fun hopen => absurd (show true = false from hopen) (by decide)
  · have hnone : ({ P1.addArgument m with
        tokenSplitter := true, i := P.i + m, origI := P.origI + m } : Parser).envState = .none :=
      henv1.trans henv
    constructor
    · intro hsimple
      rw [hnone] at hsimple
      cases hsimple
    · intro hcurled
      rw [hnone] at hcurled
      cases hcurled
  · show (P1.s.length : Int) - (P.i + m) < P.s.length - P.i
    rw [hs]
    omega

/-! ## The start of an argument -/

/-- **A new argument starts at the cursor.** -/
theorem start_sound (hhome : host.home ≠ []) (h : Sound n P) (hstarts : Starts host P R) :
    Sound n R ∧ (R.s.length : Int) - R.i = P.s.length - P.i := by
  have h0 := h.nonneg
  have hle := h.le_length
  have horig := h.orig_le
  have hne := hstarts.inside
  have hlen : 0 < host.home.length := List.length_pos_iff.mpr hhome
  obtain ⟨args, hargs⟩ := h.closed hstarts.tokenSplitter
  obtain ⟨s, i, hR, hs⟩ := hstarts.eq
  -- what both forms have in common
  have htext : P.i ≤ i ∧ (s.length : Int) - i = P.s.length - P.i
      ∧ (∀ j < P.i, charAt s j = charAt P.s j)
      ∧ (charAt P.s P.i = 0x7B → s = P.s ∧ i = P.i) := by
    rcases hs with ⟨rfl, rfl⟩ | ⟨htilde, -, rfl, rfl⟩
    · exact ⟨Int.le_refl _, rfl, fun _ _ => rfl, fun _ => ⟨rfl, rfl⟩⟩
    · rw [length_replaceAt h0 (by omega) (by omega)]
      refine ⟨by omega, by omega, fun j hj => charAt_replaceAt_front hj hle, fun hbrace => ?_⟩
      rw [htilde] at hbrace
      exact absurd hbrace (by decide)
  obtain ⟨hi, hrest, hkept, hbrace⟩ := htext
  subst hR
  refine ⟨⟨?_, ?_, h.orig_nonneg, ?_, ?_, ?_, ?_, ?_⟩, hrest⟩
  · show 0 ≤ i
    omega
  · show i ≤ s.length
    omega
  · show P.origI + ((s.length : Int) - i) ≤ n
    omega
  · exact fun hsplit => absurd (show false = true from hsplit) (by decide)
  · refine fun _ => ⟨args, newArgument P, ?_⟩
    exact {
      args_eq := by
        show P.args.map _ = _
        rw [hargs.args_eq, Option.map_some]
      spans := hargs.spans
      origSpans := hargs.origSpans
      begin_nonneg := h0
      orig := ⟨h.orig_nonneg, Int.le_refl _⟩
      front := fun hpos => by
        show separates (charAt s (P.i - 1)) = true
        rw [hkept _ (by omega)]
        exact hargs.front hpos
      begin_le := .inl hi
      escapingState := fun hesc =>
        absurd (hargs.escapingState.symm.trans (show P.escapingState = true from hesc))
          (by decide) }
  · intro hsimple
    obtain ⟨h1, h2, h3⟩ := h.variable_.simple hsimple
    refine ⟨h1, ?_, h3⟩
    show P.envStart < i
    omega
  · intro hcurled
    obtain ⟨h1, h2⟩ := h.variable_.curled hcurled
    refine ⟨h1, ?_⟩
    show (i = P.envStart + 1 ∧ charAt s i = 0x7B ∧ P.escapingState = false)
      ∨ (P.envStart + 2 ≤ i ∧ (P.escapingState = true → P.envStart + 2 < i))
    rcases h2 with ⟨hat, hchar, hesc⟩ | ⟨hin, hesc⟩
    · obtain ⟨rfl, rfl⟩ := hbrace hchar
      exact .inl ⟨hat, hchar, hesc⟩
    · refine .inr ⟨by omega, fun h => ?_⟩
      have := hesc h
      omega

/-! ## The end of a variable -/

/-- A variable that is not expanded ends without a trace in the string. -/
theorem endSimple_unexpanded
    (h : ¬ (P.simpleEnds ∧ Parser.finds host emptyIfMissing P.simpleName = true)) :
    ∃ out envState, P.endSimple host emptyIfMissing = { P with out := out, envState := envState }
      ∧ (envState = P.envState ∧ ¬ P.simpleEnds ∨ envState = .none ∧ P.envState = .simple) := by
  rw [Parser.endSimple]
  split
  · next hends =>
    have hfinds : Parser.finds host emptyIfMissing P.simpleName = false := by
      simpa using fun hfinds => h ⟨hends, hfinds⟩
    obtain ⟨hmissing, hkeep⟩ : host.getVariable (cstr P.simpleName) = none
        ∧ emptyIfMissing = false := by
      simpa [Parser.finds] using hfinds
    refine ⟨false, .none, ?_, .inr ⟨rfl, hends.1⟩⟩
    rw [Parser.replaceVariableAt]
    simp only [Parser.simpleName] at hmissing
    rw [hmissing, hkeep]
    rfl
  · next hends => exact ⟨P.out, P.envState, rfl, .inl ⟨rfl, hends⟩⟩

theorem endBraced_unexpanded
    (h : ¬ (P.curledEnds ∧ Parser.finds host emptyIfMissing P.curledName = true)) :
    ∃ out envState, P.endBraced host emptyIfMissing = { P with out := out, envState := envState }
      ∧ (envState = P.envState
        ∨ envState = .none ∧ (charAt P.s P.i = 0x7D ∨ charAt P.s P.i = 0x29)) := by
  rw [Parser.endBraced]
  split
  · next hends =>
    have hfinds : Parser.finds host emptyIfMissing P.curledName = false := by
      simpa using fun hfinds => h ⟨hends, hfinds⟩
    obtain ⟨hmissing, hkeep⟩ : host.getVariable (cstr P.curledName) = none
        ∧ emptyIfMissing = false := by
      simpa [Parser.finds] using hfinds
    refine ⟨false, .none, ?_, .inr ⟨rfl, .inl hends.2⟩⟩
    rw [Parser.replaceVariableAt]
    simp only [Parser.curledName] at hmissing
    rw [hmissing, hkeep]
    simp
  · split
    · next hends => exact ⟨_, .none, rfl, .inr ⟨rfl, .inr hends.2⟩⟩
    · exact ⟨P.out, P.envState, rfl, .inl rfl⟩

theorem Sound.ofEnv (h : Sound n P) (out : Bool) {envState : EnvState}
    (henv : envState = P.envState ∨ envState = .none) :
    Sound n { P with out := out, envState := envState } where
  nonneg := h.nonneg
  le_length := h.le_length
  orig_nonneg := h.orig_nonneg
  orig_le := h.orig_le
  closed hsplit := by
    obtain ⟨args, hargs⟩ := h.closed hsplit
    exact ⟨args, ⟨hargs.args_eq, hargs.spans, hargs.origSpans⟩, hargs.front, hargs.escapingState⟩
  opened hsplit := by
    obtain ⟨args, a, ha⟩ := h.opened hsplit
    exact ⟨args, a, ha.args_eq, ha.spans, ha.origSpans, ha.begin_nonneg, ha.orig, ha.front,
      ha.begin_le, ha.escapingState⟩
  variable_ := by
    rcases henv with rfl | rfl
    · exact ⟨h.variable_.simple, h.variable_.curled⟩
    · exact ⟨fun h => absurd (show EnvState.none = .simple from h) (by decide),
        fun h => absurd (show EnvState.none = .curled from h) (by decide)⟩

/-- The name of a `$NAME` goes on. -/
def nameGoesOn (c : Byte) : Prop := isAlnum c = true ∨ c = 0x5F

/-- A character of a name is none of the special ones. -/
theorem nameGoesOn.ne {c c' : Byte} (h : nameGoesOn c) (hc : isAlnum c' = false ∧ c' ≠ 0x5F) :
    c ≠ c' := by
  rintro rfl
  rcases h with h | h
  · exact absurd (hc.1.symm.trans h) (by decide)
  · exact hc.2 h

theorem nameGoesOn_of_not_simpleEnds (hsimple : P.envState = .simple) (h : ¬ P.simpleEnds) :
    nameGoesOn (charAt P.s P.i) := by
  by_contra hname
  obtain ⟨halnum, hline⟩ := not_or.mp hname
  exact h ⟨hsimple, .inr ⟨by simpa using halnum, hline⟩⟩

theorem escaped_variable (host : Host) (P : Parser) :
    (P.escaped host).envState = P.envState ∧ (P.escaped host).envStart = P.envStart
      ∧ (P.escaped host).escapingState = false := by
  simp only [Parser.escaped]
  split
  · exact ⟨rfl, rfl, trivial⟩
  · split <;> exact ⟨rfl, rfl, trivial⟩

/-- Only a backslash announces an escaped character. -/
theorem not_escaping {esc : Bool}
    (hesc : esc = true → P.escapingState = true ∨ charAt P.s P.i = BACKSLASH)
    (hold : P.escapingState = false) (hchar : charAt P.s P.i ≠ BACKSLASH) : esc = false := by
  by_contra hne
  rcases hesc (by simpa using hne) with hesc | hslash
  · exact absurd (hold.symm.trans hesc) (by decide)
  · exact hchar hslash

/-- The name of a variable still lies in front of the cursor. -/
theorem Does.inVariable (h : Does host P R) (hv : InVariable P) (hlt : P.i < P.s.length)
    (h0 : 0 ≤ P.i) (hname : P.envState = .simple → nameGoesOn (charAt P.s P.i))
    (f : Argument → Argument) :
    InVariable (R.modifyBack f).advance := by
  have hchar {c : Byte} (hsimple : P.envState = .simple)
      (hc : isAlnum c = false ∧ c ≠ 0x5F) : charAt P.s P.i ≠ c :=
    (hname hsimple).ne hc
  constructor
  · intro hsimple
    show 0 ≤ R.envStart ∧ R.envStart < R.i + 1 ∧ R.escapingState = false
    cases h with
    | reads esc env start hesc henv =>
      rcases henv with ⟨rfl, rfl⟩ | ⟨hdollar, hplain, rfl, -⟩
      · obtain ⟨h1, h2, h3⟩ := hv.simple hsimple
        refine ⟨h1, ?_, ?_⟩
        · show P.envStart < P.i + 1
          omega
        · exact not_escaping hesc h3 (hchar hsimple (by decide))
      · refine ⟨h0, ?_, ?_⟩
        · show P.i < P.i + 1
          omega
        · exact not_escaping hesc hplain (by rw [hdollar]; decide)
    | ends _ _ hspace => exact absurd hspace (hchar hsimple (by decide))
    | erases _ hquote =>
      rcases hquote with hquote | hquote
      · exact absurd hquote (hchar hsimple (by decide))
      · exact absurd hquote (hchar hsimple (by decide))
    | unescapes hesc =>
      have henv : P.envState = .simple := (escaped_variable host P).1.symm.trans hsimple
      exact absurd ((hv.simple henv).2.2.symm.trans hesc) (by decide)
    | opens _ henv => exact absurd (henv.symm.trans hsimple) (by decide)
  · intro hcurled
    show 0 ≤ R.envStart
      ∧ ((R.i + 1 = R.envStart + 1 ∧ charAt R.s (R.i + 1) = 0x7B ∧ R.escapingState = false)
        ∨ (R.envStart + 2 ≤ R.i + 1 ∧ (R.escapingState = true → R.envStart + 2 < R.i + 1)))
    cases h with
    | reads esc env start hesc henv =>
      rcases henv with ⟨rfl, rfl⟩ | ⟨hdollar, hplain, rfl, hbrace⟩
      · obtain ⟨h1, h2⟩ := hv.curled hcurled
        refine ⟨h1, .inr ?_⟩
        rcases h2 with ⟨hat, hchar, hplain⟩ | ⟨hin, hin'⟩
        · refine ⟨?_, fun hnew => ?_⟩
          · show P.envStart + 2 ≤ P.i + 1
            omega
          · have hnot := not_escaping hesc hplain (by rw [hchar]; decide)
            exact absurd (hnot.symm.trans hnew) (by decide)
        · refine ⟨?_, fun _ => ?_⟩
          · show P.envStart + 2 ≤ P.i + 1
            omega
          · show P.envStart + 2 < P.i + 1
            omega
      · have hnot := not_escaping hesc hplain (by rw [hdollar]; decide)
        exact ⟨h0, .inl ⟨rfl, hbrace hcurled, hnot⟩⟩
    | ends _ _ hspace hplain =>
      obtain ⟨h1, h2⟩ := hv.curled hcurled
      rcases h2 with ⟨-, hchar, -⟩ | ⟨hin, -⟩
      · exact absurd (hchar.symm.trans hspace) (by decide)
      · refine ⟨h1, .inr ⟨?_, fun hnew => absurd (hplain.symm.trans hnew) (by decide)⟩⟩
        show P.envStart + 2 ≤ P.i + 1
        omega
    | erases _ hquote =>
      obtain ⟨h1, h2⟩ := hv.curled hcurled
      rcases h2 with ⟨-, hchar, -⟩ | ⟨hin, hin'⟩
      · rw [hchar] at hquote
        exact absurd hquote (by decide)
      · refine ⟨h1, .inr ⟨?_, fun hnew => ?_⟩⟩
        · show P.envStart + 2 ≤ P.i - 1 + 1
          omega
        · have := hin' hnew
          show P.envStart + 2 < P.i - 1 + 1
          omega
    | unescapes hesc =>
      obtain ⟨henv, hstart, hdone⟩ := escaped_variable host P
      obtain ⟨h1, h2⟩ := hv.curled (henv.symm.trans hcurled)
      rw [hstart]
      rcases h2 with ⟨-, -, hplain⟩ | ⟨hin, hin'⟩
      · exact absurd (hplain.symm.trans hesc) (by decide)
      · have := hin' hesc
        have hlow := (escaped_edits host (by omega) hlt).low_le
        exact ⟨h1, .inr ⟨by omega, fun hnew => absurd (hdone.symm.trans hnew) (by decide)⟩⟩
    | opens _ henv => exact absurd (henv.symm.trans hcurled) (by decide)

/-! ## The character at the cursor -/

/-- What the turn ends with. -/
def turned (R : Parser) : Parser := (R.modifyBack fun a => { a with quot := R.quot }).advance

/-- The string is shorter behind the cursor than it was. -/
def Nearer (P R : Parser) : Prop := (R.s.length : Int) - R.i < P.s.length - P.i

/-- The argument stays open, with the cursor behind its start or on the space in front. -/
theorem turned_open (h : Sound n P) (ha : Open P args a) (hargs : R.args = P.args)
    (horigI : R.origI = P.origI) (hsplit : R.tokenSplitter = false) (h0 : 0 ≤ R.i + 1)
    (hlen : R.i + 1 ≤ R.s.length) (hahead : (R.s.length : Int) - R.i ≤ P.s.length - P.i)
    (hkept : charAt R.s (a.begin_ - 1) = charAt P.s (a.begin_ - 1))
    (hbegin : a.begin_ ≤ R.i + 1 ∨ (a.begin_ = R.i + 1 + 1 ∧ charAt R.s (R.i + 1) = 0x20
      ∧ R.quot = .dollarSingle ∧ R.escapingState = false))
    (hesc : R.escapingState = true → a.begin_ ≤ R.i) (hv : InVariable (turned R)) :
    Sound n (turned R) ∧ Nearer P (turned R) := by
  have horig := h.orig_le
  have horig0 := h.orig_nonneg
  have hnearer : Nearer P (turned R) := by
    show (R.s.length : Int) - (R.i + 1) < P.s.length - P.i
    omega
  refine ⟨⟨h0, hlen, ?_, ?_, ?_, fun _ => ⟨args, { a with quot := R.quot }, ?_⟩, hv⟩, hnearer⟩
  · show 0 ≤ R.origI + 1
    omega
  · show R.origI + 1 + ((R.s.length : Int) - (R.i + 1)) ≤ n
    omega
  · intro hopen
    exact absurd (hsplit.symm.trans (show R.tokenSplitter = true from hopen)) (by decide)
  · exact {
      args_eq := by
        show R.args.map _ = _
        rw [hargs, ha.args_eq, Option.map_some, modify_last]
      spans := ha.spans
      origSpans := ha.origSpans
      begin_nonneg := ha.begin_nonneg
      orig := ⟨ha.orig.1, by
        show a.origBegin ≤ R.origI + 1
        have := ha.orig.2
        omega⟩
      front := fun hpos => by
        show separates (charAt R.s (a.begin_ - 1)) = true
        rw [hkept]
        exact ha.front hpos
      begin_le := hbegin
      escapingState := fun hnew => by
        show a.begin_ < R.i + 1
        have := hesc hnew
        omega }

/-- A space is behind the finished arguments. -/
theorem turned_closed (h : Sound n P) (hlt : P.i < P.s.length) (hargs : Finished R args)
    (hs : R.s = P.s) (hi : R.i = P.i) (horigI : R.origI = P.origI) (hesc : R.escapingState = false)
    (hsplit : R.tokenSplitter = true) (hspace : charAt P.s P.i = 0x20)
    (hv : InVariable (turned R)) : Sound n (turned R) ∧ Nearer P (turned R) := by
  have h0 := h.nonneg
  have horig := h.orig_le
  have horig0 := h.orig_nonneg
  have hnearer : Nearer P (turned R) := by
    show (R.s.length : Int) - (R.i + 1) < P.s.length - P.i
    rw [hs]
    omega
  obtain ⟨args', hargs'⟩ := hargs.modifyBack (f := fun a => { a with quot := R.quot })
    (fun _ => rfl) fun _ => rfl
  refine ⟨⟨?_, ?_, ?_, ?_, fun _ => ⟨args', ⟨hargs'.args_eq, ?_, ?_⟩, fun _ => ?_, hesc⟩, ?_, hv⟩,
    hnearer⟩
  · show 0 ≤ R.i + 1
    omega
  · show R.i + 1 ≤ R.s.length
    rw [hs]
    omega
  · show 0 ≤ R.origI + 1
    omega
  · show R.origI + 1 + ((R.s.length : Int) - (R.i + 1)) ≤ n
    rw [hs]
    omega
  · refine hargs'.spans.mono ?_
    show R.i ≤ R.i + 1
    omega
  · refine hargs'.origSpans.mono ?_
    show R.origI ≤ R.origI + 1
    omega
  · show separates (charAt R.s (R.i + 1 - 1)) = true
    rw [Int.add_sub_cancel, hs, hi, hspace]
    rfl
  · intro hopen
    exact absurd (hsplit.symm.trans (show R.tokenSplitter = false from hopen)) (by decide)

/-- **A `$'` with a space in front of its argument** leaves the cursor on that space. -/
theorem turned_opens (h : Sound n P) (ha : Open P args a) (hat : a.begin_ = P.i)
    (hopens : P.opensDollarSingle) (henv : P.envState = .none)
    (hspace : charAt P.s (P.i - 1) = 0x20)
    (hR : R = { P with s := replaceAt P.s P.i (P.i + 2) [], i := P.i - 2, quot := .dollarSingle })
    (hsplit : P.tokenSplitter = false) : Sound n (turned R) ∧ Nearer P (turned R) := by
  have hquote := (inside_of_charAt (s := P.s) (i := P.i + 1)
    (by rw [hopens.2.2.2.2]; decide)).2
  have hfront := (inside_of_charAt (s := P.s) (i := P.i - 1) (by rw [hspace]; decide)).1
  have hlen : ((replaceAt P.s P.i (P.i + 2) []).length : Int) = P.s.length - 2 := by
    rw [length_replaceAt h.nonneg (by omega) (by omega), List.length_nil]
    omega
  have hs : R.s = replaceAt P.s P.i (P.i + 2) [] := by rw [hR]
  have hi : R.i = P.i - 2 := by rw [hR]
  have hesc : R.escapingState = false := by rw [hR]; exact hopens.2.1
  have henv' : R.envState = .none := by rw [hR]; exact henv
  have hkept (j : Int) (hj : j < P.i) : charAt R.s j = charAt P.s j := by
    rw [hs]
    exact charAt_replaceAt_front hj h.le_length
  have hcursor : charAt R.s (R.i + 1) = 0x20 := by
    rw [hi, show P.i - 2 + 1 = P.i - 1 by omega, hkept _ (by omega), hspace]
  refine turned_open h ha (by rw [hR]) (by rw [hR]) (by rw [hR]; exact hsplit) (by omega)
    (by rw [hs]; omega) (by rw [hs]; omega) (hkept _ (by omega))
    (.inr ⟨by omega, hcursor, by rw [hR], hesc⟩)
    (fun hnew => absurd (hesc.symm.trans hnew) (by decide)) ⟨?_, ?_⟩
  · exact fun hnew => absurd (henv'.symm.trans (show R.envState = .simple from hnew)) (by decide)
  · exact fun hnew => absurd (henv'.symm.trans (show R.envState = .curled from hnew)) (by decide)

/-- Between arguments a space is read, and nothing is done with it. -/
theorem Does.closed (h : Does host P R) (hc : Closed P args) (hspace : charAt P.s P.i = 0x20) :
    Finished R args ∧ R.s = P.s ∧ R.i = P.i ∧ R.escapingState = false
      ∧ R.tokenSplitter = P.tokenSplitter ∨ P.tokenSplitter = false := by
  cases h with
  | reads esc env start hesc henv =>
    have hnot := not_escaping hesc hc.escapingState (by rw [hspace]; decide)
    exact .inl ⟨⟨hc.args_eq, hc.spans, hc.origSpans⟩, rfl, rfl, hnot, rfl⟩
  | ends _ hsplit => exact .inr hsplit
  | erases _ hquote =>
    rw [hspace] at hquote
    exact absurd hquote (by decide)
  | unescapes hesc => exact absurd (hc.escapingState.symm.trans hesc) (by decide)
  | opens hopens => exact absurd (hspace.symm.trans hopens.2.2.2.1) (by decide)

/-- **The string is edited behind the start of the argument**, when a `$'` does not start it. -/
theorem Does.edits_open (h : Does host P R) (ha : Open P args a) (hlt : P.i < P.s.length)
    (hopens : P.opensDollarSingle → a.begin_ ≠ P.i) : Edits a.begin_ P.s P.i R.s R.i := by
  rcases ha.begin_le with hle | ⟨hahead, hspace, hquot, hesc⟩
  · refine h.edits ⟨ha.begin_nonneg, hle⟩ hlt ha.escapingState fun hd => ?_
    have := hopens hd
    omega
  · -- behind a `$'`, on the space in front of the argument
    cases h with
    | reads => exact .refl (by omega) hlt
    | ends hnone => exact absurd (hquot.symm.trans hnone) (by decide)
    | erases _ hquote =>
      rw [hspace] at hquote
      exact absurd hquote (by decide)
    | unescapes hnew => exact absurd (hesc.symm.trans hnew) (by decide)
    | opens hd => exact absurd (hspace.symm.trans hd.2.2.2.1) (by decide)

/-- A character that announces an escaped one stays where it is. -/
theorem Does.escapingState (h : Does host P R) (hesc : R.escapingState = true) :
    R.i = P.i ∧ charAt P.s P.i = BACKSLASH
      ∨ P.escapingState = true ∧ (R.i = P.i ∨ R.i + 1 = P.i) := by
  cases h with
  | reads _ _ _ hnew =>
    rcases hnew hesc with hold | hchar
    · exact .inr ⟨hold, .inl rfl⟩
    · exact .inl ⟨rfl, hchar⟩
  | ends _ _ _ hold => exact absurd (hold.symm.trans hesc) (by decide)
  | erases =>
    refine .inr ⟨hesc, .inr ?_⟩
    show P.i - 1 + 1 = P.i
    omega
  | unescapes => exact absurd ((escaped_variable host P).2.2.symm.trans hesc) (by decide)
  | opens hd => exact absurd (hd.2.1.symm.trans hesc) (by decide)

/-- Only a space ends an argument. -/
theorem Does.ended (h : Does host P R) (hsplit : P.tokenSplitter = false)
    (hends : R.tokenSplitter = true) :
    R = { P with tokenSplitter := true }.endArgument ∧ P.quot = .none
      ∧ charAt P.s P.i = 0x20 ∧ P.escapingState = false := by
  cases h with
  | ends hquot _ hspace hesc => exact ⟨rfl, hquot, hspace, hesc⟩
  | unescapes =>
    have hsame : (P.escaped host).tokenSplitter = P.tokenSplitter := by
      simp only [Parser.escaped]
      split
      · rfl
      · split <;> rfl
    exact absurd ((hsame.trans hsplit).symm.trans hends) (by decide)
  | reads => exact absurd (hsplit.symm.trans hends) (by decide)
  | erases => exact absurd (hsplit.symm.trans hends) (by decide)
  | opens => exact absurd (hsplit.symm.trans hends) (by decide)

theorem argumentStarts_iff (ha : Open P args a) (hsplit : P.tokenSplitter = false) :
    P.argumentStarts ↔ a.begin_ = P.i := by
  rw [Parser.argumentStarts, hsplit, ha.args_eq]
  simp

/-- **A character keeps the arguments consistent**, unless it is a `$'` that starts an argument
without a space in front of it. -/
theorem character_sound (host : Host) (h : Sound n P) (hlt : P.i < P.s.length)
    (hspace : P.tokenSplitter = true → charAt P.s P.i = 0x20)
    (hname : P.envState = .simple → nameGoesOn (charAt P.s P.i))
    (hfits : P.envState = .none → P.dollarSingleFits) :
    Sound n (P.character host).advance ∧ Nearer P (P.character host).advance := by
  have hargs : P.args.isSome = true := by
    cases hsplit : P.tokenSplitter with
    | true =>
      obtain ⟨args, hc⟩ := h.closed hsplit
      rw [hc.args_eq]
      rfl
    | false =>
      obtain ⟨args, a, ha⟩ := h.opened hsplit
      rw [ha.args_eq]
      rfl
  have hnone (hopens : P.opensDollarSingle) : P.envState = .none := by
    rcases hopens.2.2.1 with henv | henv
    · exact henv
    · exact absurd hopens.2.2.2.1 ((hname henv).ne (by decide))
  obtain ⟨R, hdoes, hR⟩ := character_does host hargs
  have hv : InVariable (turned R) := hdoes.inVariable h.variable_ hlt h.nonneg hname _
  cases hsplit : P.tokenSplitter with
  | true =>
    obtain ⟨args, hc⟩ := h.closed hsplit
    rw [hR]
    rcases hdoes.closed hc (hspace hsplit) with ⟨hfin, hs, hi, hesc, hsame⟩ | hopen
    · exact turned_closed h hlt hfin hs hi hdoes.origI hesc (hsame.trans hsplit) (hspace hsplit) hv
    · exact absurd (hsplit.symm.trans hopen) (by decide)
  | false =>
    obtain ⟨args, a, ha⟩ := h.opened hsplit
    by_cases hstart : P.opensDollarSingle ∧ a.begin_ = P.i
    · obtain ⟨hopens, hat⟩ := hstart
      have henv := hnone hopens
      rw [character_opens host hopens henv hargs]
      exact turned_opens h ha hat hopens henv
        (hfits henv hopens ((argumentStarts_iff ha hsplit).mpr hat)) rfl hsplit
    · rw [hR]
      cases hends : R.tokenSplitter with
      | false =>
        have hedits := hdoes.edits_open ha hlt fun hopens hat => hstart ⟨hopens, hat⟩
        have hbegin := ha.begin_nonneg
        have hlow := hedits.low_le
        refine turned_open h ha (hdoes.args (hends.trans hsplit.symm)) hdoes.origI hends
          (by omega) hedits.le_length hedits.ahead (hedits.kept _ (by omega)) (.inl hlow)
          (fun hesc => ?_) hv
        rcases hdoes.escapingState hesc with ⟨hi, hchar⟩ | ⟨hold, hi⟩
        · rw [hi]
          exact ha.begin_le_of_ne (by rw [hchar]; decide)
        · have := ha.escapingState hold
          omega
      | true =>
        obtain ⟨rfl, hquot, hchar, hesc⟩ := hdoes.ended hsplit hends
        have hle : a.begin_ ≤ P.i := by
          rcases ha.begin_le with hle | ⟨-, -, hdollar, -⟩
          · exact hle
          · exact absurd (hdollar.symm.trans hquot) (by decide)
        obtain ⟨ended, hended⟩ := ha.endArgument hle
        exact turned_closed h hlt ⟨hended.args_eq, hended.spans, hended.origSpans⟩ rfl rfl rfl hesc
          rfl hchar hv

/-! ## A turn -/

/-- Between the start of a token and the character, only the state of a variable changes. -/
def Ends (Q R : Parser) : Prop :=
  ∃ out envState, R = { Q with out := out, envState := envState }
    ∧ (envState = Q.envState ∨ envState = .none)
    ∧ (envState = .simple → nameGoesOn (charAt Q.s Q.i))
    ∧ (charAt Q.s Q.i = DOLLAR → envState = .none → Q.envState = .none ∨ Q.envState = .simple)

theorem ends_unexpanded {Q : Parser} (hQ : Q = P.startToken host emptyIfMissing)
    (hplain : ¬ P.expandsVariable host emptyIfMissing) :
    Ends Q (Q.endSimple host emptyIfMissing)
      ∧ Ends Q ((Q.endSimple host emptyIfMissing).endBraced host emptyIfMissing) := by
  rw [Parser.expandsVariable, ← hQ] at hplain
  obtain ⟨hsimple, hcurled⟩ := not_or.mp hplain
  obtain ⟨out, env, h1, henv⟩ := endSimple_unexpanded hsimple
  have hsame : env = Q.envState ∨ env = .none := henv.imp And.left And.left
  have hname : env = .simple → nameGoesOn (charAt Q.s Q.i) := by
    rcases henv with ⟨rfl, hname⟩ | ⟨rfl, -⟩
    · exact fun h => nameGoesOn_of_not_simpleEnds h hname
    · exact fun h => absurd h (by decide)
  have hnone : env = .none → Q.envState = .none ∨ Q.envState = .simple := by
    rintro rfl
    exact henv.imp (fun h => h.1.symm) And.right
  have hcurled' : ¬ (({ Q with out := out, envState := env } : Parser).curledEnds
      ∧ Parser.finds host emptyIfMissing Q.curledName = true) := by
    rintro ⟨⟨hcurl, hchar⟩, hfinds⟩
    refine hcurled ⟨⟨?_, hchar⟩, hfinds⟩
    rcases hsame with rfl | rfl
    · exact hcurl
    · exact absurd (show EnvState.none = .curled from hcurl) (by decide)
  obtain ⟨out', env', h2, henv'⟩ := endBraced_unexpanded hcurled'
  rw [h1, h2]
  refine ⟨⟨out, env, rfl, hsame, hname, fun _ => hnone⟩, out', env', rfl, ?_⟩
  rcases henv' with rfl | ⟨rfl, hbrace⟩
  · exact ⟨hsame, hname, fun _ => hnone⟩
  · refine ⟨.inr rfl, fun h => absurd h (by decide), fun hdollar => ?_⟩
    have hbrace' : charAt Q.s Q.i = 0x7D ∨ charAt Q.s Q.i = 0x29 := hbrace
    rw [hdollar] at hbrace'
    exact absurd hbrace' (by decide)

theorem Sound.ofEnds {Q : Parser} (h : Sound n Q) (hends : Ends Q R) : Sound n R := by
  obtain ⟨out, env, rfl, henv, -⟩ := hends
  exact h.ofEnv out henv

/-- A `$'` is there before the token starts if it is there afterwards: the home directory is
followed by a slash or by nothing. -/
theorem fits_of_startToken (h : Sound n P)
    (hends : Ends (P.startToken host emptyIfMissing) R)
    (hfits : P.dollarSingleFits) (hnone : R.envState = .none) : R.dollarSingleFits := by
  have h0 := h.nonneg
  have hle := h.le_length
  obtain ⟨out, env, rfl, -, -, hstate⟩ := hends
  rcases startToken_cases host emptyIfMissing P with ⟨hsame, -⟩ | hstarts
  · rw [hsame] at hstate ⊢
    intro hopens hstart
    exact hfits ⟨hopens.1, hopens.2.1, hstate hopens.2.2.2.1 hnone, hopens.2.2.2⟩ hstart
  · have hne := hstarts.inside
    obtain ⟨s, i, hQ, htext⟩ := hstarts.eq
    rw [hQ] at hstate ⊢
    intro hopens _
    rcases htext with ⟨rfl, rfl⟩ | ⟨-, hslash, rfl, rfl⟩
    · exact hfits ⟨hopens.1, hopens.2.1, hstate hopens.2.2.2.1 hnone, hopens.2.2.2⟩
        (.inl hstarts.tokenSplitter)
    · have hquote : charAt (replaceAt P.s P.i (P.i + 1) host.home)
          (P.i + host.home.length - 1 + 1) = SQUOTE := hopens.2.2.2.2
      rw [Int.sub_add_cancel, charAt_replaceAt_behind h0 (by omega) hle] at hquote
      rcases hslash with hend | hslash
      · have := (inside_of_charAt (s := P.s) (i := P.i + 1) (by rw [hquote]; decide)).2
        omega
      · exact absurd (hslash.symm.trans hquote) (by decide)

theorem startToken_sound (emptyIfMissing : Bool) (hhome : host.home ≠ []) (h : Sound n P) :
    Sound n (P.startToken host emptyIfMissing)
      ∧ ((P.startToken host emptyIfMissing).s.length : Int)
          - (P.startToken host emptyIfMissing).i = P.s.length - P.i
      ∧ ((P.startToken host emptyIfMissing).i ≠ (P.startToken host emptyIfMissing).s.length →
        (P.startToken host emptyIfMissing).tokenSplitter = true →
        charAt (P.startToken host emptyIfMissing).s (P.startToken host emptyIfMissing).i = 0x20) := by
  rcases startToken_cases host emptyIfMissing P with ⟨hsame, hspace⟩ | hstarts
  · rw [hsame]
    exact ⟨h, rfl, hspace⟩
  · obtain ⟨hsound, hrest⟩ := start_sound hhome h hstarts
    refine ⟨hsound, hrest, fun _ hsplit => ?_⟩
    obtain ⟨s, i, hQ, -⟩ := hstarts.eq
    rw [hQ] at hsplit
    exact absurd (show false = true from hsplit) (by decide)

/-- **A turn of the loop keeps the arguments consistent** and brings the cursor nearer to the end
of the string. -/
theorem next_sound (hhome : host.home ≠ []) (h : Sound n P)
    (hplain : ¬ P.expandsVariable host emptyIfMissing) (hfits : P.dollarSingleFits)
    (hnext : P.next host emptyIfMissing = some R) : Sound n R ∧ Nearer P R := by
  rw [Parser.next] at hnext
  by_cases hgrab : P.grabs = true
  · rw [if_pos hgrab] at hnext
    obtain rfl := Option.some.inj hnext
    exact grab_sound h hgrab
  · rw [if_neg hgrab] at hnext
    obtain ⟨hends, hbraced⟩ := ends_unexpanded rfl hplain
    have hfits' := fits_of_startToken h hbraced hfits
    obtain ⟨hQ, hrest, hspace⟩ := startToken_sound emptyIfMissing hhome h
    have hB := hQ.ofEnds hbraced
    obtain ⟨out, env, hE, -⟩ := hends
    obtain ⟨out', env', hB', -, hname, -⟩ := hbraced
    generalize P.startToken host emptyIfMissing = Q at *
    dsimp only at hnext
    rw [hB'] at hB hfits' hnext
    rw [hE] at hnext
    split at hnext
    · exact absurd hnext (by simp)
    · next hne =>
      obtain rfl := Option.some.inj hnext
      have hlt : Q.i < Q.s.length := by
        have := hQ.le_length
        have : Q.i ≠ Q.s.length := hne
        omega
      obtain ⟨hsound, hnearer⟩ := character_sound host hB hlt (hspace hne) hname hfits'
      refine ⟨hsound, ?_⟩
      rw [Nearer, ← hrest]
      exact hnearer

end Far2l.Environment
