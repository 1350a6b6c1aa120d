/-
Far2l.Utils.EnvironmentTheorems — a quoted argument in front of the command line
parser.

Inside double quotes the parser drops the backslash in front of `"` and `$` only,
and grabs operators as it does outside. So a quoted string comes back as it was
exactly when it has neither of these characters: no operator, no backslash, no
backtick.
-/
import Far2l.Utils.Environment

namespace Far2l.Environment

open Far2l.Environment.Parser (isOperator)

variable {host : Host} {emptyIfMissing : Bool} {P : Parser} {done rest : List Byte}

/-! ## Strings -/

theorem charAt_append (done rest : List Byte) (c : Byte) :
    charAt (done ++ c :: rest) done.length = c := by
  have h0 : ¬ (done.length : Int) < 0 := by omega
  rw [charAt, if_neg h0, Int.toNat_natCast, List.getD_eq_getElem?_getD,
    List.getElem?_append_right (Nat.le_refl _), Nat.sub_self, List.getElem?_cons_zero,
    Option.getD_some]

/-- The character at `done.length` is erased. -/
theorem replaceAt_erase (done rest : List Byte) (c : Byte) :
    replaceAt (done ++ c :: rest) done.length (done.length + 1) [] = done ++ rest := by
  rw [replaceAt, Int.toNat_natCast, show ((done.length : Int) + 1).toNat = done.length + 1 by omega,
    List.take_left, List.append_nil, ← List.drop_drop, List.drop_left, List.drop_one,
    List.tail_cons]

/-! ## Inside double quotes -/

/-- The parser is in the first argument: it has read `done`, and `rest` is still ahead. -/
structure At (P : Parser) (done rest : List Byte) (quot : Quoting) (escaping : Bool) : Prop where
  s : P.s = done ++ rest
  i : P.i = done.length
  quot : P.quot = quot
  envState : P.envState = .none
  escapingState : P.escapingState = escaping
  tokenSplitter : P.tokenSplitter = false
  args : ∃ a : Argument, P.args = some [a] ∧ a.begin_ = 0

/-- The characters that come back with a backslash in front of them. -/
def keepsBackslash (c : Byte) : Bool := c = BACKSLASH ∨ c = BACKTICK

/-- What the parser makes of a quoted string without operators. -/
def parsed (str : List Byte) : List Byte :=
  str.flatMap fun c => if keepsBackslash c then [BACKSLASH, c] else [c]

/-- A turn of the loop that neither ends it nor grabs an operator. -/
def turn (host : Host) (emptyIfMissing : Bool) (P : Parser) : Parser :=
  ((((P.startToken host emptyIfMissing).endSimple host emptyIfMissing).endBraced host
    emptyIfMissing).character host).advance

variable (host emptyIfMissing) in
theorem run_turn (h0 : 0 ≤ P.i) (hlt : P.i < P.s.length) (hgrab : P.grabs = false)
    (hstay : ((P.startToken host emptyIfMissing).endSimple host emptyIfMissing).i
      ≠ ((P.startToken host emptyIfMissing).endSimple host emptyIfMissing).s.length) (fuel : Nat) :
    P.run host emptyIfMissing (fuel + 1)
      = (turn host emptyIfMissing P).run host emptyIfMissing fuel := by
  rw [Parser.run, if_neg (by omega), if_neg (by rw [hgrab]; exact Bool.false_ne_true),
    if_neg hstay]
  rfl

theorem endSimple_none (henv : P.envState = .none) : P.endSimple host emptyIfMissing = P := by
  rw [Parser.endSimple, henv]
  exact if_neg fun h => by simp at h

theorem endBraced_none (henv : P.envState = .none) : P.endBraced host emptyIfMissing = P := by
  rw [Parser.endBraced, henv]
  simp

/-- In a token, outside variables, a turn deals with a character and nothing else. -/
theorem run_character (h0 : 0 ≤ P.i) (hlt : P.i < P.s.length) (hgrab : P.grabs = false)
    (hsplit : P.tokenSplitter = false) (henv : P.envState = .none) (fuel : Nat) :
    P.run host emptyIfMissing (fuel + 1)
      = (P.character host).advance.run host emptyIfMissing fuel := by
  have hstart : P.startToken host emptyIfMissing = P := by
    rw [Parser.startToken, hsplit]
    exact if_neg fun h => Bool.false_ne_true h.2.1
  rw [run_turn _ _ h0 hlt hgrab (by rw [hstart, endSimple_none henv]; omega), turn, hstart,
    endSimple_none henv, endBraced_none henv]

variable {c : Byte} {quot : Quoting} {escaping : Bool}

theorem character_plain (hquot : P.quot ≠ .single) (hesc : P.escapingState = false) :
    P.character host = P.plain.modifyBack fun a => { a with quot := P.plain.quot } := by
  simp only [Parser.character, hquot, hesc, if_false, Bool.false_eq_true]

theorem character_escaped (hquot : P.quot ≠ .single) (hesc : P.escapingState = true) :
    P.character host
      = (P.escaped host).modifyBack fun a => { a with quot := (P.escaped host).quot } := by
  simp only [Parser.character, hquot, hesc, if_false, if_true]

/-- The end of a turn. -/
theorem At.ofTurn (hs : P.s = done ++ rest) (hi : P.i + 1 = done.length) (hquot : P.quot = quot)
    (henv : P.envState = .none) (hesc : P.escapingState = escaping)
    (hsplit : P.tokenSplitter = false) (hargs : ∃ a : Argument, P.args = some [a] ∧ a.begin_ = 0)
    (q : Quoting) :
    At (P.modifyBack fun a => { a with quot := q }).advance done rest quot escaping where
  s := hs
  i := hi
  quot := hquot
  envState := henv
  escapingState := hesc
  tokenSplitter := hsplit
  args := by
    obtain ⟨a, hargs, hbegin⟩ := hargs
    refine ⟨{ a with quot := q }, ?_, hbegin⟩
    show P.args.map _ = _
    rw [hargs]
    rfl

theorem At.charAt (h : At P done (c :: rest) quot escaping) : charAt P.s P.i = c := by
  rw [h.s, h.i, charAt_append]

theorem At.lt (h : At P done (c :: rest) quot escaping) : 0 ≤ P.i ∧ P.i < P.s.length := by
  rw [h.i, h.s, List.length_append, List.length_cons]
  omega

theorem At.grabs (h : At P done (c :: rest) quot escaping) :
    P.grabs = (!escaping && isOperator c) := by
  obtain ⟨a, hargs, -⟩ := h.args
  have hne : P.i ≠ P.s.length := by
    have := h.lt
    omega
  have hcount : P.binopsCount ≠ 0 ↔ isOperator c = true := by
    rw [Parser.binopsCount, h.s, h.i, Int.toNat_natCast, List.drop_left, List.takeWhile_cons]
    split
    · next hc => simp [hc]
    · next hc => simp [hc]
  rw [Parser.grabs, h.envState, h.escapingState, hargs]
  simp only [ne_eq, hne, not_false_eq_true, Option.isSome_some, true_and]
  simp only [ne_eq] at hcount
  simp only [hcount]
  cases escaping <;> simp

theorem At.run (h : At P done (c :: rest) quot escaping)
    (hgrab : (!escaping && isOperator c) = false) (fuel : Nat) :
    P.run host emptyIfMissing (fuel + 1)
      = (P.character host).advance.run host emptyIfMissing fuel :=
  run_character h.lt.1 h.lt.2 (h.grabs.trans hgrab) h.tokenSplitter h.envState fuel

variable (host) in
/-- A character that is neither special nor an operator is read. -/
theorem At.plain (h : At P done (c :: rest) .double false) (hc : c ∉ cmdEscapedChars) :
    At (P.character host).advance (done ++ [c]) rest .double false := by
  simp only [cmdEscapedChars, List.mem_cons, List.not_mem_nil, or_false, not_or] at hc
  have hplain : P.plain = P := by
    simp only [Parser.plain, h.charAt, h.quot, hc, if_false]
    simp
  rw [character_plain (by rw [h.quot]; decide) h.escapingState, hplain]
  refine .ofTurn ?_ ?_ h.quot h.envState h.escapingState h.tokenSplitter h.args _
  · rw [h.s, List.append_assoc, List.singleton_append]
  · rw [h.i, List.length_append, List.length_singleton]
    rfl

variable (host) in
/-- A backslash announces an escaped character. -/
theorem At.backslash (h : At P done (BACKSLASH :: rest) .double false) :
    At (P.character host).advance (done ++ [BACKSLASH]) rest .double true := by
  obtain ⟨a, hargs, hbegin⟩ := h.args
  have hplain : P.plain = { P with escapingState := true } := by
    simp only [Parser.plain, h.charAt, hargs]
    rfl
  rw [character_plain (by rw [h.quot]; decide) h.escapingState, hplain]
  refine .ofTurn ?_ ?_ ?_ ?_ ?_ ?_ ?_ _
  · show P.s = _
    rw [h.s, List.append_assoc, List.singleton_append]
  · show P.i + 1 = _
    rw [h.i, List.length_append, List.length_singleton]
    rfl
  · exact h.quot
  · exact h.envState
  · rfl
  · exact h.tokenSplitter
  · exact ⟨a, hargs, hbegin⟩

variable (host) in
/-- The escaped character is read, and the backslash dropped in front of `"` and `$` only. -/
theorem At.escaped (h : At P (done ++ [BACKSLASH]) (c :: rest) .double true)
    (hc : c ∈ cmdEscapedChars) :
    At (P.character host).advance (done ++ if keepsBackslash c then [BACKSLASH, c] else [c]) rest
      .double false := by
  rw [character_escaped (by rw [h.quot]; decide) h.escapingState]
  have hdrop : (P.quot = .none ∨ c = DQUOTE ∨ c = DOLLAR) ↔ keepsBackslash c = false := by
    simp only [cmdEscapedChars, List.mem_cons, List.not_mem_nil, or_false] at hc
    rw [h.quot]
    rcases hc with rfl | rfl | rfl | rfl <;> decide
  have hquot : P.quot ≠ .dollarSingle := by
    rw [h.quot]
    decide
  simp only [Parser.escaped, h.charAt, hquot, if_false, hdrop]
  by_cases hkeep : keepsBackslash c = false
  · rw [if_pos hkeep, hkeep]
    refine .ofTurn ?_ ?_ ?_ ?_ ?_ ?_ ?_ _
    · show replaceAt P.s (P.i - 1) P.i [] = _
      have hi : P.i - 1 = done.length := by
        rw [h.i, List.length_append, List.length_singleton]
        omega
      rw [hi, show P.i = done.length + 1 by omega, h.s, List.append_assoc, List.singleton_append,
        replaceAt_erase, List.append_assoc]
      rfl
    · show P.i - 1 + 1 = _
      rw [h.i, List.length_append, List.length_append]
      simp
    · exact h.quot
    · exact h.envState
    · rfl
    · exact h.tokenSplitter
    · exact h.args
  · rw [if_neg hkeep, if_pos (by simpa using hkeep)]
    refine .ofTurn ?_ ?_ ?_ ?_ ?_ ?_ ?_ _
    · show P.s = _
      rw [h.s]
      simp
    · show P.i + 1 = _
      rw [h.i]
      simp
      omega
    · exact h.quot
    · exact h.envState
    · rfl
    · exact h.tokenSplitter
    · exact h.args

variable (host emptyIfMissing) in
/-- The parser reads an escaped string without operators. -/
theorem At.body : ∀ (pre : List Byte) {P : Parser} {done rest : List Byte}
    (_ : At P done (escapeCmdStr cmdEscapedChars pre ++ rest) .double false)
    (_ : ∀ c ∈ pre, isOperator c = false),
    ∃ P', At P' (done ++ parsed pre) rest .double false ∧ ∀ fuel,
      P.run host emptyIfMissing (fuel + (escapeCmdStr cmdEscapedChars pre).length)
        = P'.run host emptyIfMissing fuel
  | [], P, done, rest, h, _ => ⟨P, by simpa [parsed, escapeCmdStr] using h, fun _ => rfl⟩
  | c :: pre, P, done, rest, h, hop => by
    have hop' : ∀ c ∈ pre, isOperator c = false := fun c' hc' =>
      hop c' (List.mem_cons_of_mem _ hc')
    by_cases hc : c ∈ cmdEscapedChars
    · rw [escapeCmdStr, if_pos hc, List.cons_append, List.cons_append] at h
      have h1 := h.backslash host
      have h2 := h1.escaped host hc
      obtain ⟨P', hP', hrun⟩ := At.body pre h2 hop'
      refine ⟨P', ?_, fun fuel => ?_⟩
      · rwa [parsed, List.flatMap_cons, ← List.append_assoc]
      · rw [escapeCmdStr, if_pos hc, List.length_cons, List.length_cons, ← hrun fuel,
          ← Nat.add_assoc, h.run (by rfl), ← Nat.add_assoc, h1.run (by rfl)]
    · rw [escapeCmdStr, if_neg hc, List.cons_append] at h
      have hopc := hop c List.mem_cons_self
      have h1 := h.plain host hc
      obtain ⟨P', hP', hrun⟩ := At.body pre h1 hop'
      have hkeep : keepsBackslash c = false := by
        rw [keepsBackslash]
        refine decide_eq_false fun hb => hc ?_
        rcases hb with rfl | rfl <;> decide
      refine ⟨P', ?_, fun fuel => ?_⟩
      · rw [parsed, List.flatMap_cons, ← List.append_assoc, hkeep]
        exact hP'
      · rw [escapeCmdStr, if_neg hc, List.length_cons, ← hrun fuel, ← Nat.add_assoc,
          h.run (by rw [hopc]; rfl)]

/-! ## The quotes -/

variable (host) in
/-- A quote begins or ends the quoting, and is dropped. -/
theorem At.dquote (h : At P done (DQUOTE :: rest) quot false) (hquot : quot ≠ .single) :
    At (P.character host).advance done rest (if quot = .double then .none else .double) false := by
  obtain ⟨a, hargs, hbegin⟩ := h.args
  obtain ⟨q, hq⟩ : ∃ q : Quoting, (if quot = .double then .none else .double) = q := ⟨_, rfl⟩
  have hplain : P.plain = { P with quot := q }.eraseHere := by
    rw [← hq]
    simp only [Parser.plain, h.charAt, hargs, h.quot]
    rfl
  rw [character_plain (by rw [h.quot]; exact hquot) h.escapingState, hplain, hq]
  refine .ofTurn ?_ ?_ ?_ ?_ ?_ ?_ ?_ _
  · show replaceAt P.s P.i (P.i + 1) [] = _
    rw [h.s, h.i, replaceAt_erase]
  · show P.i - 1 + 1 = _
    rw [h.i]
    omega
  · rfl
  · exact h.envState
  · exact h.escapingState
  · exact h.tokenSplitter
  · exact ⟨a, hargs, hbegin⟩

variable (host emptyIfMissing) in
/-- The opening quote. -/
theorem run_open (rest : List Byte) :
    ∃ P', At P' [] rest .double false ∧ ∀ fuel,
      ({ s := DQUOTE :: rest, args := some [] } : Parser).run host emptyIfMissing (fuel + 1)
        = P'.run host emptyIfMissing fuel := by
  generalize hP : ({ s := DQUOTE :: rest, args := some [] } : Parser) = P
  have hlen : (P.s.length : Int) = rest.length + 1 := by
    rw [← hP]
    rfl
  have hi : P.i = 0 := by rw [← hP]
  have hgrab : P.grabs = false := by
    rw [← hP, Parser.grabs, Parser.binopsCount]
    simp [isOperator, DQUOTE]
  obtain ⟨P1, hP1⟩ : ∃ P1, P.startToken host emptyIfMissing = P1 := ⟨_, rfl⟩
  have hat : At P1 [] (DQUOTE :: rest) .none false := by
    have hstart : P.startToken host emptyIfMissing = { P with
        tokenSplitter := false
        args := some [{ begin_ := 0, len := 0, origBegin := 0, origLen := 0, quot := .none }] } := by
      rw [← hP]
      simp [Parser.startToken, Parser.addArgument, charAt, DQUOTE]
      omega
    rw [← hP1, hstart, ← hP]
    exact ⟨rfl, rfl, rfl, rfl, rfl, rfl, ⟨_, rfl, rfl⟩⟩
  have hstay := hat.lt
  have hturn := run_turn host emptyIfMissing
    (by omega) (by omega) hgrab (by rw [hP1, endSimple_none hat.envState]; omega)
  rw [turn, hP1, endSimple_none hat.envState, endBraced_none hat.envState] at hturn
  exact ⟨_, hat.dquote host (by decide), hturn⟩

/-- The end of the string. -/
theorem At.end (h : At P done [] quot false) (fuel : Nat) :
    P.run host emptyIfMissing (fuel + 1) = some P := by
  have hi : P.i = P.s.length := by rw [h.i, h.s, List.append_nil]
  have hgrab : P.grabs = false := by
    rw [Parser.grabs, hi]
    simp
  have hstart : P.startToken host emptyIfMissing = P := by
    rw [Parser.startToken, h.tokenSplitter]
    exact if_neg fun h => Bool.false_ne_true h.2.1
  rw [Parser.run, if_neg (by omega), if_neg (by rw [hgrab]; exact Bool.false_ne_true), hstart,
    endSimple_none h.envState, if_pos hi]

/-- **A quoted string without operators is parsed as one argument.** -/
theorem explodeCommandLine_parsed (str : List Byte) (hop : ∀ c ∈ str, isOperator c = false) :
    explodeCommandLine host (quoteCmdArg str) = some [parsed str] := by
  obtain ⟨P1, h1, hrun1⟩ := run_open host false
    (escapeCmdStr cmdEscapedChars str ++ [DQUOTE])
  obtain ⟨P2, h2, hrun2⟩ := h1.body host false str hop
  have h3 := h2.dquote host (by decide)
  obtain ⟨a, hargs, hbegin⟩ := h3.args
  have hrun : ({ s := quoteCmdArg str, args := some [] } : Parser).run host false
      (2 * (quoteCmdArg str).length + 2) = some (P2.character host).advance := by
    have hlen : (quoteCmdArg str).length = (escapeCmdStr cmdEscapedChars str).length + 2 := by
      simp [quoteCmdArg]
    rw [show 2 * (quoteCmdArg str).length + 2 = (quoteCmdArg str).length + 1 + 1 + 1
      + (escapeCmdStr cmdEscapedChars str).length + 1 by omega]
    exact (hrun1 _).trans ((hrun2 _).trans ((h2.run (by rfl) _).trans (h3.end _)))
  have hne : quoteCmdArg str ≠ [] := List.cons_ne_nil _ _
  simp only [explodeCommandLine, expandStringOrParseCommandLine, if_neg hne, hrun, Option.map_some,
    h3.tokenSplitter, Parser.endArgument, Parser.modifyBack, hargs]
  have hlen : ¬ ((parsed str).length : Int) < 0 := by omega
  simp [h3.s, h3.i, hbegin, substr, hlen]

/-! ## Operators -/

/-- How many arguments there are. -/
def argc (P : Parser) : Nat := (P.args.getD []).length

theorem argc_modifyBack (P : Parser) (f : Argument → Argument) : argc (P.modifyBack f) = argc P := by
  simp only [argc, Parser.modifyBack]
  cases P.args with
  | none => rfl
  | some as => simp

theorem args_replaceVariableAt (P : Parser) (edge : Int) (env : List Byte) :
    (P.replaceVariableAt host emptyIfMissing edge env).args = P.args := by
  rw [Parser.replaceVariableAt]
  split
  · rfl
  · split <;> rfl

theorem args_endSimple (P : Parser) : (P.endSimple host emptyIfMissing).args = P.args := by
  rw [Parser.endSimple]
  split
  · exact args_replaceVariableAt _ _ _
  · rfl

theorem args_endBraced (P : Parser) : (P.endBraced host emptyIfMissing).args = P.args := by
  rw [Parser.endBraced]
  split
  · exact args_replaceVariableAt _ _ _
  · split <;> rfl

theorem args_dollar (P : Parser) : P.dollar.args = P.args := by
  simp only [Parser.dollar]
  repeat' split
  all_goals rfl

theorem args_escaped (P : Parser) : (P.escaped host).args = P.args := by
  simp only [Parser.escaped]
  split
  · rfl
  · split <;> rfl

/-- A property of the arguments that stays when the last one changes or a new one is added. -/
structure Lasting (p : Option (List Argument) → Prop) : Prop where
  modify : ∀ {args} (f : Argument → Argument), p args →
    p (args.map fun as => as.modify (as.length - 1) f)
  add : ∀ {args} (a : Argument), p args → p (args.map fun as => as ++ [a])

namespace Lasting

variable {p : Option (List Argument) → Prop}

theorem grab (hp : Lasting p) (h : p P.args) : p P.grab.args := by
  simp only [Parser.grab]
  refine hp.add _ ?_
  split
  · exact hp.modify _ h
  · exact h

theorem startToken (hp : Lasting p) (h : p P.args) :
    p (P.startToken host emptyIfMissing).args := by
  simp only [Parser.startToken]
  split
  · split
    · exact hp.add _ h
    · exact hp.add _ h
  · exact h

theorem plain (hp : Lasting p) (h : p P.args) : p P.plain.args := by
  simp only [Parser.plain]
  repeat' split
  all_goals first
    | exact h
    | exact hp.modify _ h
    | exact (args_dollar P).symm ▸ h

theorem character (hp : Lasting p) (h : p P.args) : p (P.character host).args := by
  rw [Parser.character]
  refine hp.modify _ ?_
  split
  · split <;> exact h
  · split
    · exact (args_escaped P).symm ▸ h
    · exact hp.plain h

/-- **The loop changes the last argument and adds new ones**, and nothing else. -/
theorem run (hp : Lasting p) : ∀ (fuel : Nat) {P P' : Parser},
    P.run host emptyIfMissing fuel = some P' → p P.args → p P'.args
  | 0, P, P', h, _ => by simp [Parser.run] at h
  | fuel + 1, P, P', h, hargs => by
    rw [Parser.run] at h
    split at h
    · exact Option.some.inj h ▸ hargs
    · split at h
      · exact hp.run (P := P.grab.advance) fuel h (hp.grab hargs)
      · have hstart : p ((P.startToken host emptyIfMissing).endSimple host emptyIfMissing).args := by
          rw [args_endSimple]
          exact hp.startToken hargs
        generalize (P.startToken host emptyIfMissing).endSimple host emptyIfMissing = P1 at h hstart
        dsimp only at h
        split at h
        · exact Option.some.inj h ▸ hstart
        · refine hp.run fuel h ?_
          show p ((P1.endBraced host emptyIfMissing).character host).args
          refine hp.character ?_
          rw [args_endBraced]
          exact hstart

end Lasting

/-- No argument is ever taken back. -/
theorem argc_run (fuel : Nat) {P P' : Parser} (h : P.run host emptyIfMissing fuel = some P') :
    argc P ≤ argc P' := by
  have hlasting : Lasting fun args => argc P ≤ (args.getD []).length := by
    constructor
    · intro args f hle
      cases args with
      | none => exact hle
      | some as => simpa using hle
    · intro args a hle
      cases args with
      | none => exact hle
      | some as =>
        refine Nat.le_trans hle ?_
        simp
  exact hlasting.run fuel h (Nat.le_refl _)

/-- An operator becomes an argument, even inside quotes. -/
theorem At.argc_grab (h : At P done (c :: rest) quot escaping) : argc P.grab = 2 := by
  obtain ⟨a, hargs, -⟩ := h.args
  simp only [argc, Parser.grab, Parser.addArgument, Parser.endArgument, Parser.modifyBack,
    h.tokenSplitter, hargs]
  rfl

theorem escapeCmdStr_append (escapedChars pre post : List Byte) :
    escapeCmdStr escapedChars (pre ++ post)
      = escapeCmdStr escapedChars pre ++ escapeCmdStr escapedChars post := by
  induction pre with
  | nil => rfl
  | cons c pre ih =>
    rw [List.cons_append, escapeCmdStr, escapeCmdStr, ih]
    split <;> rfl

/-- The string up to its first operator. -/
theorem split_operator {str : List Byte} (h : ∃ c ∈ str, isOperator c = true) :
    ∃ pre c post, str = pre ++ c :: post ∧ (∀ c ∈ pre, isOperator c = false)
      ∧ isOperator c = true := by
  induction str with
  | nil => simp at h
  | cons c str ih =>
    cases hc : isOperator c with
    | true => exact ⟨[], c, str, rfl, by simp, hc⟩
    | false =>
      obtain ⟨c', hmem, hc'⟩ := h
      rcases List.mem_cons.mp hmem with rfl | hmem
      · rw [hc] at hc'
        exact absurd hc' Bool.false_ne_true
      · obtain ⟨pre, c1, post, rfl, hpre, hc1⟩ := ih ⟨c', hmem, hc'⟩
        exact ⟨c :: pre, c1, post, rfl, List.forall_mem_cons.mpr ⟨hc, hpre⟩, hc1⟩

theorem explodeCommandLine_operator {str : List Byte} (hop : ∃ c ∈ str, isOperator c = true)
    {tokens : List (List Byte)} (h : explodeCommandLine host (quoteCmdArg str) = some tokens) :
    2 ≤ tokens.length := by
  obtain ⟨pre, c, post, rfl, hpre, hc⟩ := split_operator hop
  have hesc : c ∉ cmdEscapedChars := by
    intro hmem
    simp only [cmdEscapedChars, List.mem_cons, List.not_mem_nil, or_false] at hmem
    rcases hmem with rfl | rfl | rfl | rfl <;> exact absurd hc (by decide)
  have hquote : quoteCmdArg (pre ++ c :: post) = DQUOTE :: (escapeCmdStr cmdEscapedChars pre
      ++ c :: (escapeCmdStr cmdEscapedChars post ++ [DQUOTE])) := by
    rw [quoteCmdArg, escapeCmdStr_append, escapeCmdStr, if_neg hesc]
    simp
  obtain ⟨P1, h1, hrun1⟩ := run_open host false
    (escapeCmdStr cmdEscapedChars pre ++ c :: (escapeCmdStr cmdEscapedChars post ++ [DQUOTE]))
  obtain ⟨P2, h2, hrun2⟩ := h1.body host false pre hpre
  have hne : quoteCmdArg (pre ++ c :: post) ≠ [] := List.cons_ne_nil _ _
  simp only [explodeCommandLine, expandStringOrParseCommandLine, if_neg hne] at h
  -- the turn that grabs the operator
  obtain ⟨n, hn⟩ : ∃ n, 2 * (quoteCmdArg (pre ++ c :: post)).length + 2
      = n + 1 + (escapeCmdStr cmdEscapedChars pre).length + 1 := by
    refine ⟨2 * (quoteCmdArg (pre ++ c :: post)).length - (escapeCmdStr cmdEscapedChars pre).length,
      ?_⟩
    rw [hquote, List.length_cons, List.length_append]
    omega
  have hgrab : P2.run host false (n + 1) = P2.grab.advance.run host false n := by
    have hlt := h2.lt
    rw [Parser.run, if_neg (by omega), if_pos (by rw [h2.grabs, hc]; rfl)]
  rw [hn, hquote, hrun1, hrun2, hgrab, Option.map_eq_some_iff] at h
  obtain ⟨P3, hP3, rfl⟩ := h
  rw [Option.map_eq_some_iff] at hP3
  obtain ⟨P4, hP4, rfl⟩ := hP3
  have hargc : 2 ≤ argc P4 := by
    refine Nat.le_trans (Nat.le_of_eq ?_) (argc_run n hP4)
    exact h2.argc_grab.symm
  rw [List.length_map]
  refine Nat.le_trans hargc (Nat.le_of_eq ?_)
  split
  · exact (argc_modifyBack _ _).symm
  · rfl

/-! ## Quoting and parsing -/

theorem length_parsed (str : List Byte) :
    (parsed str).length = str.length + str.countP keepsBackslash := by
  induction str with
  | nil => rfl
  | cons c str ih =>
    rw [parsed, List.flatMap_cons, List.length_append, List.countP_cons]
    rw [parsed] at ih
    rw [ih]
    cases keepsBackslash c
    · simp
      omega
    · simp
      omega

theorem parsed_eq_self_iff (str : List Byte) :
    parsed str = str ↔ ∀ c ∈ str, keepsBackslash c = false := by
  constructor
  · intro h
    have hlen := length_parsed str
    rw [h] at hlen
    have hcount : str.countP keepsBackslash = 0 := by omega
    exact fun c hc => by simpa using List.countP_eq_zero.mp hcount c hc
  · intro h
    induction str with
    | nil => rfl
    | cons c str ih =>
      obtain ⟨hc, hstr⟩ := List.forall_mem_cons.mp h
      rw [parsed, List.flatMap_cons, hc, ← parsed, ih hstr]
      rfl

/-- **A quoted string is parsed back as one argument** exactly when no character of it is an
operator, a backslash or a backtick. -/
theorem explodeCommandLine_quoteCmdArg (host : Host) (str : List Byte) :
    explodeCommandLine host (quoteCmdArg str) = some [str]
      ↔ ∀ c ∈ str, isOperator c = false ∧ c ≠ BACKSLASH ∧ c ≠ BACKTICK := by
  by_cases hop : ∀ c ∈ str, isOperator c = false
  · rw [explodeCommandLine_parsed str hop, Option.some.injEq, List.cons.injEq]
    simp only [and_true, parsed_eq_self_iff, keepsBackslash]
    constructor
    · intro h c hc
      exact ⟨hop c hc, not_or.mp (of_decide_eq_false (h c hc))⟩
    · intro h c hc
      exact decide_eq_false (not_or.mpr (h c hc).2)
  · refine iff_of_false (fun h => ?_) fun h => hop fun c hc => (h c hc).1
    have hex : ∃ c ∈ str, isOperator c = true := by
      obtain ⟨c, hc⟩ := Classical.not_forall.mp hop
      obtain ⟨hmem, hc⟩ := Classical.not_imp.mp hc
      exact ⟨c, hmem, by simpa using hc⟩
    exact absurd (explodeCommandLine_operator hex h) (by simp)

/-- A host without variables. -/
def bareHost : Host where
  getVariable _ := none
  home := []
  printLc _ := []

/-- `a&b` comes back as three arguments, and a backslash as two. -/
theorem explodeCommandLine_not_undone :
    explodeCommandLine bareHost (quoteCmdArg [0x61, 0x26, 0x62]) = some [[0x61], [0x26], [0x62]]
    ∧ explodeCommandLine bareHost (quoteCmdArg [BACKSLASH]) = some [[BACKSLASH, BACKSLASH]] := by
  decide

end Far2l.Environment
