/-
Far2l.Utils.ArgumentTurns — what one turn of the command line parser does to the
string and to its two cursors.

`Edits` says it of a piece of a turn: nothing in front of a bound is touched, and
what is still ahead of the cursor does not grow, so that `++i` brings the parser
nearer to the end. Every way of dealing with a character is one of `Does`, and all
of them but the `$'` keep this with the start of the current argument as the bound.
-/
import Far2l.Utils.ArgumentSpans
import Far2l.Utils.EnvironmentTheorems

namespace Far2l.Environment

variable {host : Host} {emptyIfMissing : Bool} {P R : Parser} {s s' value : List Byte}
  {i i' j low start edge : Int}

/-! ## The string -/

/-- There is nothing outside the string. -/
theorem inside_of_charAt (h : charAt s i ≠ 0) : 0 ≤ i ∧ i < s.length := by
  rw [charAt] at h
  by_cases hi : i < 0
  · rw [if_pos hi] at h
    exact absurd rfl h
  · rw [if_neg hi] at h
    refine ⟨by omega, ?_⟩
    by_contra hlt
    rw [List.getD_eq_getElem?_getD, List.getElem?_eq_none (by omega)] at h
    exact h rfl

theorem length_replaceAt (h0 : 0 ≤ start) (h1 : start ≤ edge) (h2 : edge ≤ s.length) :
    ((replaceAt s start edge value).length : Int) = s.length - (edge - start) + value.length := by
  rw [replaceAt, List.length_append, List.length_append, List.length_take, List.length_drop]
  omega

theorem charAt_replaceAt_front (hj : j < start) (h : start ≤ s.length) :
    charAt (replaceAt s start edge value) j = charAt s j := by
  simp only [charAt, List.getD_eq_getElem?_getD]
  split
  · rfl
  · rw [replaceAt, List.append_assoc, List.getElem?_append_left (by rw [List.length_take]; omega),
      List.getElem?_take, if_pos (by omega)]

theorem charAt_replaceAt_behind (h0 : 0 ≤ start) (h1 : start ≤ edge) (h2 : start ≤ s.length) :
    charAt (replaceAt s start edge value) (start + value.length) = charAt s edge := by
  simp only [charAt, List.getD_eq_getElem?_getD]
  rw [if_neg (by omega), if_neg (by omega), replaceAt,
    List.getElem?_append_right (by rw [List.length_append, List.length_take]; omega),
    List.getElem?_drop]
  congr 2
  rw [List.length_append, List.length_take]
  omega

/-! ## Edits -/

/-- From `s` and `i` to `s'` and `i'`, before `++i`: nothing in front of `low` is touched, and no
more is ahead than before. -/
structure Edits (low : Int) (s : List Byte) (i : Int) (s' : List Byte) (i' : Int) : Prop where
  low_le : low ≤ i' + 1
  le_length : i' + 1 ≤ s'.length
  ahead : s'.length - i' ≤ s.length - i
  kept : ∀ j < low, charAt s' j = charAt s j

theorem Edits.refl (hlow : low ≤ i + 1) (hlt : i < s.length) : Edits low s i s i :=
  ⟨hlow, by omega, Int.le_refl _, fun _ _ => rfl⟩

theorem Edits.mono (h : Edits low s i s' i') {low' : Int} (hlow : low' ≤ low) :
    Edits low' s i s' i' :=
  ⟨Int.le_trans hlow h.low_le, h.le_length, h.ahead, fun j hj => h.kept j (by omega)⟩

theorem Edits.of_replaceAt (hstart : 0 ≤ start ∧ low ≤ start) (hedge : start ≤ edge)
    (hlen : edge ≤ s.length) (hlow : low ≤ i' + 1)
    (hle : i' + 1 ≤ s.length - (edge - start) + value.length)
    (hahead : start + value.length + i ≤ i' + edge) :
    Edits low s i (replaceAt s start edge value) i' where
  low_le := hlow
  le_length := by rwa [length_replaceAt hstart.1 hedge hlen]
  ahead := by
    rw [length_replaceAt hstart.1 hedge hlen]
    omega
  kept j hj := charAt_replaceAt_front (by omega) (by omega)

/-- A part is erased. -/
theorem Edits.erased (hstart : 0 ≤ start ∧ low ≤ start) (hedge : start ≤ edge)
    (hlen : edge ≤ s.length) (hlow : low ≤ i' + 1) (hle : i' + 1 ≤ s.length - (edge - start))
    (hahead : start + i ≤ i' + edge) : Edits low s i (replaceAt s start edge []) i' := by
  have hnil : ([] : List Byte).length = 0 := rfl
  exact .of_replaceAt hstart hedge hlen hlow (by omega) (by omega)

/-- A part that begins in front of the cursor and ends behind it is replaced. -/
theorem Edits.replaced (h0 : 0 ≤ start) (hedge : i + 1 ≤ edge) (hstart : start ≤ i)
    (hlen : edge ≤ s.length) :
    Edits start s i (replaceAt s start edge value) (start + value.length - 1) :=
  .of_replaceAt ⟨h0, Int.le_refl _⟩ (by omega) hlen (by omega) (by omega) (by omega)

/-- **An escape sequence** is replaced from its backslash on, or left. -/
theorem unescapeCLikeSequence_edits (host : Host) (h1 : 1 ≤ i) (hlt : i < s.length) :
    Edits (i - 1) s i (unescapeCLikeSequence host s i).1 (unescapeCLikeSequence host s i).2 := by
  have hleft : Edits (i - 1) s i s (i + 1 - 1) := by
    rw [Int.add_sub_cancel]
    exact .refl (by omega) hlt
  have hcode (n : Int) (value : List Byte) (hn : 1 ≤ n) (hlen : i + n ≤ s.length) :
      Edits (i - 1) s i (replaceSubstringAt s (i + 1 - 2) (i + n) value).1
        ((replaceSubstringAt s (i + 1 - 2) (i + n) value).2 - 1) := by
    rw [show i + 1 - 2 = i - 1 by omega]
    exact .replaced (by omega) (by omega) (by omega) hlen
  simp only [unescapeCLikeSequence]
  split
  · next hin =>
    split
    · next c hc =>
      have hone : ([c] : List Byte).length = 1 := List.length_singleton
      rw [show i + 1 - 2 = i - 1 by omega,
        show i + 1 - 1 - 1 = i - 1 + (([c] : List Byte).length : Int) - 1 by omega]
      exact .replaced (by omega) (by omega) (by omega) (by omega)
    · split
      · split
        · rw [show i + 1 + 2 = i + 3 by omega]
          exact hcode 3 _ (by omega) (by omega)
        · exact hleft
      · split
        · split
          · rw [show i + 1 + 4 = i + 5 by omega]
            exact hcode 5 _ (by omega) (by omega)
          · exact hleft
        · split
          · split
            · rw [show i + 1 + 8 = i + 9 by omega]
              exact hcode 9 _ (by omega) (by omega)
            · exact hleft
          · split
            · split
              · rw [show i + 1 + 2 = i + 3 by omega]
                exact hcode 3 _ (by omega) (by omega)
              · exact hleft
            · exact hleft
  · exact hleft

/-! ## The start of a token -/

/-- The argument that starts at the cursor. -/
def newArgument (P : Parser) : Argument :=
  { begin_ := P.i, len := 0, origBegin := P.origI, origLen := 0, quot := .none }

/-- A token starts at a character that is not a space; a `~` may have become the home directory,
with the cursor on its last character. -/
structure Starts (host : Host) (P R : Parser) : Prop where
  inside : P.i ≠ P.s.length
  tokenSplitter : P.tokenSplitter = true
  notSpace : charAt P.s P.i ≠ 0x20
  eq : ∃ s i, R = { P with
      tokenSplitter := false, args := P.args.map (· ++ [newArgument P]), s := s, i := i }
    ∧ (s = P.s ∧ i = P.i
      ∨ charAt P.s P.i = 0x7E ∧ (P.i + 1 = (P.s.length : Int) ∨ charAt P.s (P.i + 1) = 0x2F)
        ∧ s = replaceAt P.s P.i (P.i + 1) host.home ∧ i = P.i + host.home.length - 1)

theorem startToken_cases (host : Host) (emptyIfMissing : Bool) (P : Parser) :
    P.startToken host emptyIfMissing = P
        ∧ (P.i ≠ P.s.length → P.tokenSplitter = true → charAt P.s P.i = 0x20)
      ∨ Starts host P (P.startToken host emptyIfMissing) := by
  rw [Parser.startToken]
  split
  · next h =>
    obtain ⟨hne, hsplit, hspace⟩ := h
    refine .inr ⟨hne, hsplit, hspace, ?_⟩
    dsimp only
    split
    · next htilde => exact ⟨_, _, rfl, .inr ⟨htilde.1, htilde.2.1, rfl, rfl⟩⟩
    · exact ⟨_, _, rfl, .inl ⟨rfl, rfl⟩⟩
  · next h =>
    refine .inl ⟨rfl, fun hne hsplit => ?_⟩
    by_contra hspace
    exact h ⟨hne, hsplit, hspace⟩

/-! ## The character at the cursor -/

/-- Everything that can be done with the character at the cursor. -/
inductive Does (host : Host) (P : Parser) : Parser → Prop
  /-- It stays; a backslash may announce an escaped character, a `$` a variable. -/
  | reads (escapingState : Bool) (envState : EnvState) (envStart : Int)
      (hesc : escapingState = true → P.escapingState = true ∨ charAt P.s P.i = BACKSLASH)
      (henv : (envState = P.envState ∧ envStart = P.envStart)
        ∨ (charAt P.s P.i = DOLLAR ∧ P.escapingState = false ∧ envStart = P.i
          ∧ (envState = .curled → charAt P.s (P.i + 1) = 0x7B))) :
      Does host P { P with
        escapingState := escapingState, envState := envState, envStart := envStart }
  /-- A space ends the argument. -/
  | ends (hquot : P.quot = .none) (hsplit : P.tokenSplitter = false)
      (hchar : charAt P.s P.i = 0x20) (hesc : P.escapingState = false) :
      Does host P { P with tokenSplitter := true }.endArgument
  /-- A quote is erased. -/
  | erases (quot : Quoting) (hchar : charAt P.s P.i = SQUOTE ∨ charAt P.s P.i = DQUOTE) :
      Does host P { P with quot := quot }.eraseHere
  /-- A backslash in front of it is erased, or the escape sequence replaced. -/
  | unescapes (hesc : P.escapingState = true) : Does host P (P.escaped host)
  /-- The `$'` is erased, and the cursor goes back in front of it. -/
  | opens (hopens : P.opensDollarSingle) (henv : P.envState = .none) :
      Does host P { P with
        s := replaceAt P.s P.i (P.i + 2) [], i := P.i - 2, quot := .dollarSingle }

theorem Does.stays (host : Host) (P : Parser) : Does host P P :=
  .reads P.escapingState P.envState P.envStart .inl (.inl ⟨rfl, rfl⟩)

theorem plain_opens (hopens : P.opensDollarSingle) (henv : P.envState = .none)
    (hargs : P.args.isSome) :
    P.plain = { P with
      s := replaceAt P.s P.i (P.i + 2) [], i := P.i - 2, quot := .dollarSingle } := by
  obtain ⟨-, -, -, hdollar, hquote⟩ := hopens
  have hlt := (inside_of_charAt (s := P.s) (i := P.i + 1) (by rw [hquote]; decide)).2
  rw [Parser.plain]
  simp only [hdollar]
  rw [if_neg (by decide), if_neg (by decide), if_neg (by decide), if_neg (by decide),
    if_pos (by trivial), Parser.dollar]
  simp only [hquote]
  rw [if_pos ⟨henv, hlt⟩, if_neg (fun h => absurd h.2 (by decide)),
    if_neg (fun h => absurd h.2 (by decide)), if_neg (by decide), if_pos ⟨trivial, hargs⟩]

theorem plain_does (hquot : P.quot ≠ .single) (hesc : P.escapingState = false)
    (hargs : P.args.isSome) : Does host P P.plain := by
  by_cases hopens : P.opensDollarSingle ∧ P.envState = .none
  · rw [plain_opens hopens.1 hopens.2 hargs]
    exact .opens hopens.1 hopens.2
  rw [Parser.plain]
  dsimp only
  split
  · next hspace =>
    split
    · next h => exact .ends h.1 (by simpa using h.2) hspace hesc
    · exact .stays host P
  · split
    · next hchar =>
      split
      · exact .erases _ (.inl hchar)
      · split
        · exact .erases _ (.inl hchar)
        · exact .stays host P
    · split
      · next hchar => exact .erases _ (.inr hchar)
      · split
        · next hchar =>
          split
          · exact .reads true P.envState P.envStart (fun _ => .inr hchar) (.inl ⟨rfl, rfl⟩)
          · exact .stays host P
        · split
          · next hchar =>
            simp only [Parser.dollar]
            split
            · next henv =>
              split
              · exact .reads P.escapingState .command P.i .inl
                  (.inr ⟨hchar, hesc, rfl, fun h => absurd h (by decide)⟩)
              · split
                · next hbrace =>
                  exact .reads P.escapingState .curled P.i .inl
                    (.inr ⟨hchar, hesc, rfl, fun _ => hbrace.2⟩)
                · split
                  · exact .reads P.escapingState .simple P.i .inl
                      (.inr ⟨hchar, hesc, rfl, fun h => absurd h (by decide)⟩)
                  · split
                    · next hquote =>
                      exact absurd ⟨⟨hquot, hesc, .inl henv.1, hchar, hquote.1⟩, henv.1⟩ hopens
                    · exact .stays host P
            · exact .stays host P
          · exact .stays host P

/-- **What is done with the character at the cursor.** -/
theorem character_does (host : Host) (hargs : P.args.isSome) :
    ∃ R, Does host P R ∧ P.character host = R.modifyBack fun a => { a with quot := R.quot } := by
  rw [Parser.character]
  refine ⟨_, ?_, rfl⟩
  split
  · split
    · next hchar => exact .erases _ (.inl hchar)
    · exact .stays host P
  · next hquot =>
    split
    · next hesc => exact .unescapes hesc
    · next hesc => exact plain_does hquot (by simpa using hesc) hargs

theorem character_opens (host : Host) (hopens : P.opensDollarSingle) (henv : P.envState = .none)
    (hargs : P.args.isSome) :
    P.character host = ({ P with
        s := replaceAt P.s P.i (P.i + 2) [], i := P.i - 2, quot := .dollarSingle } :
      Parser).modifyBack fun a => { a with quot := .dollarSingle } := by
  rw [character_plain hopens.1 hopens.2.1, plain_opens hopens henv hargs]

namespace Does

/-- A backslash in front of the cursor, or the sequence it begins, is replaced. -/
theorem escaped_edits (host : Host) (h1 : 1 ≤ P.i) (hlt : P.i < P.s.length) :
    Edits (P.i - 1) P.s P.i (P.escaped host).s (P.escaped host).i := by
  simp only [Parser.escaped]
  split
  · exact unescapeCLikeSequence_edits host h1 hlt
  · split
    · show Edits (P.i - 1) P.s P.i (replaceAt P.s (P.i - 1) P.i []) (P.i - 1)
      exact .erased (by omega) (by omega) (by omega) (by omega) (by omega) (by omega)
    · exact .refl (by omega) hlt

/-- **Nothing in front of the argument is touched**, as long as a `$'` has a character of the
argument in front of it. -/
theorem edits (h : Does host P R) (hlow : 0 ≤ low ∧ low ≤ P.i) (hlt : P.i < P.s.length)
    (hesc : P.escapingState = true → low < P.i) (hopens : P.opensDollarSingle → low < P.i) :
    Edits low P.s P.i R.s R.i := by
  cases h with
  | reads => exact .refl (by omega) hlt
  | ends => exact .refl (by omega) hlt
  | erases =>
    show Edits low P.s P.i (replaceAt P.s P.i (P.i + 1) []) (P.i - 1)
    exact .erased (by omega) (by omega) (by omega) (by omega) (by omega) (by omega)
  | unescapes h =>
    have := hesc h
    exact (escaped_edits host (by omega) hlt).mono (by omega)
  | opens h =>
    have := hopens h
    have hquote := (inside_of_charAt (s := P.s) (i := P.i + 1) (by rw [h.2.2.2.2]; decide)).2
    show Edits low P.s P.i (replaceAt P.s P.i (P.i + 2) []) (P.i - 2)
    exact .erased (by omega) (by omega) (by omega) (by omega) (by omega) (by omega)

theorem origI (h : Does host P R) : R.origI = P.origI := by
  cases h with
  | unescapes =>
    simp only [Parser.escaped]
    split
    · rfl
    · split <;> rfl
  | _ => rfl

/-- The arguments are left alone unless one ends. -/
theorem args (h : Does host P R) (hsplit : R.tokenSplitter = P.tokenSplitter) : R.args = P.args := by
  cases h with
  | ends _ hopen =>
    have hended : true = false := hsplit.trans hopen
    exact absurd hended (by decide)
  | unescapes => exact args_escaped P
  | _ => rfl

end Does

end Far2l.Environment
