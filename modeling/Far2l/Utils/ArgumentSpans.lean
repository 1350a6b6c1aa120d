/-
Far2l.Utils.ArgumentSpans — what `ParseCommandLine` promises of the spans of its
arguments, and which characters of the string each turn of its loop uses.

The accesses are listed function by function, in the order of `Environment.cpp`: a
read of `s[i]` is the stretch `[i, i + 1)`, `s.erase(i, 2)` is `[i, i + 2)`, and
`s.substr(i, n)` is `[i, i + n)`. An edit of the character that has just been read
is not listed again.
-/
import Mathlib
import Far2l.Utils.Environment
import Far2l.Lib.Spans

namespace Far2l.Environment

/-! ## Spans -/

namespace Argument

/-- `[begin, begin + len)` of the rewritten string. -/
def span (a : Argument) : Span Int := ⟨a.begin_, a.begin_ + a.len⟩

/-- `[orig_begin, orig_begin + orig_len)` of the original string. -/
def origSpan (a : Argument) : Span Int := ⟨a.origBegin, a.origBegin + a.origLen⟩

end Argument

/-- A stretch of the string that is read or edited when the string has `size` characters. -/
structure Access where
  size : Nat
  span : Span Int

/-- The access stays in the string. -/
def Access.Inside (access : Access) : Prop := Span.Between 0 (access.size : Int) access.span

/-! ## Accesses -/

/-- The accesses of `UnescapeCLikeSequence`. -/
def unescapeAccesses (s : List Byte) (i : Int) : List Access :=
  let touch (start stop : Int) : Access := ⟨s.length, ⟨start, stop⟩⟩
  let i := i + 1
  if i < s.length then
    let c := charAt s (i - 1)
    touch (i - 1) i ::
      if (simpleEscapes.lookup c).isSome then [touch (i - 2) i]
      else if c = 0x78 then
        if i + 1 < s.length then [touch i (i + 2), touch (i - 2) (i + 2)] else []
      else if c = 0x75 then
        if i + 3 < s.length then [touch i (i + 4), touch (i - 2) (i + 4)] else []
      else if c = 0x55 then
        if i + 7 < s.length then [touch i (i + 8), touch (i - 2) (i + 8)] else []
      else if 0x30 ≤ c ∧ c ≤ 0x37 then
        if i + 1 < s.length then [touch (i - 1) (i + 2), touch (i - 2) (i + 2)] else []
      else []
  else []

namespace Parser

def touch (P : Parser) (start stop : Int) : Access := ⟨P.s.length, ⟨start, stop⟩⟩

/-- The operators are counted, up to the first other character. -/
def grabAccesses (P : Parser) : List Access :=
  if P.i ≠ P.s.length ∧ P.args.isSome ∧ P.envState = .none ∧ !P.escapingState then
    [P.touch P.i (min (P.i + P.binopsCount + 1) P.s.length)]
  else []

/-- A token starts here, or a space is read; behind a `~` one more character is read. -/
def startTokenAccesses (P : Parser) : List Access :=
  if P.i ≠ P.s.length ∧ P.tokenSplitter then
    P.touch P.i (P.i + 1) ::
      if charAt P.s P.i = 0x7E ∧ P.i + 1 ≠ (P.s.length : Int) then
        [P.touch (P.i + 1) (P.i + 2)]
      else []
  else []

/-- `$NAME` ends here. -/
def simpleEnds (P : Parser) : Prop :=
  P.envState = .simple
    ∧ (P.i = P.s.length ∨ (!isAlnum (charAt P.s P.i) ∧ charAt P.s P.i ≠ 0x5F))

/-- `${NAME}` ends here. -/
def curledEnds (P : Parser) : Prop := P.envState = .curled ∧ charAt P.s P.i = 0x7D

instance (P : Parser) : Decidable P.simpleEnds := by unfold simpleEnds; infer_instance
instance (P : Parser) : Decidable P.curledEnds := by unfold curledEnds; infer_instance

/-- `ReplaceVariableAt` has something to put in the place of a variable. -/
def finds (host : Host) (emptyIfMissing : Bool) (env : List Byte) : Bool :=
  (host.getVariable (cstr env)).isSome || emptyIfMissing

def simpleName (P : Parser) : List Byte := substr P.s (P.envStart + 1) (P.i - P.envStart - 1)

def curledName (P : Parser) : List Byte := substr P.s (P.envStart + 2) (P.i + 1 - P.envStart - 3)

/-- A character is read, the name of a variable that ends, and the variable replaced. -/
def endSimpleAccesses (host : Host) (emptyIfMissing : Bool) (P : Parser) : List Access :=
  if P.envState = .simple then
    (if P.i ≠ P.s.length then [P.touch P.i (P.i + 1)] else [])
      ++ (if P.simpleEnds then [P.touch (P.envStart + 1) P.i] else [])
      ++ (if P.simpleEnds ∧ finds host emptyIfMissing P.simpleName then
            [P.touch P.envStart P.i]
          else [])
  else []

/-- A character is read, the name of a variable that ends, and the variable replaced. -/
def endBracedAccesses (host : Host) (emptyIfMissing : Bool) (P : Parser) : List Access :=
  if P.envState = .curled ∨ P.envState = .command then
    P.touch P.i (P.i + 1) ::
      ((if P.curledEnds then [P.touch (P.envStart + 2) P.i] else [])
        ++ (if P.curledEnds ∧ finds host emptyIfMissing P.curledName then
              [P.touch P.envStart (P.i + 1)]
            else []))
  else []

/-- The character behind a backslash, and the backslash. -/
def escapedAccesses (P : Parser) : List Access :=
  if P.quot = .dollarSingle then unescapeAccesses P.s P.i
  else if P.quot = .none then [P.touch (P.i - 1) P.i]
  else
    P.touch P.i (P.i + 1) ::
      if charAt P.s P.i = DQUOTE ∨ charAt P.s P.i = DOLLAR then [P.touch (P.i - 1) P.i] else []

/-- A character, and behind a `$` one more; `$'` is erased. Outside command lines the character
behind a backslash is read as well. -/
def plainAccesses (P : Parser) : List Access :=
  P.touch P.i (P.i + 1) ::
    if charAt P.s P.i = BACKSLASH ∧ P.args.isNone ∧ P.i + 1 < P.s.length then
      [P.touch (P.i + 1) (P.i + 2)]
    else if charAt P.s P.i = DOLLAR ∧ P.envState = .none ∧ P.i + 1 < P.s.length then
      P.touch (P.i + 1) (P.i + 2) ::
        if charAt P.s (P.i + 1) = SQUOTE ∧ P.args.isSome then [P.touch P.i (P.i + 2)] else []
    else []

/-- The character at `i` is dealt with. -/
def characterAccesses (P : Parser) : List Access :=
  if P.quot = .single then [P.touch P.i (P.i + 1)]
  else if P.escapingState then P.escapedAccesses
  else P.plainAccesses

/-- The accesses of a turn of the loop. -/
def accesses (host : Host) (emptyIfMissing : Bool) (P : Parser) : List Access :=
  P.grabAccesses ++
    if P.grabs then []
    else
      let started := P.startToken host emptyIfMissing
      let ended := started.endSimple host emptyIfMissing
      P.startTokenAccesses ++ started.endSimpleAccesses host emptyIfMissing ++
        if ended.i = ended.s.length then []
        else
          ended.endBracedAccesses host emptyIfMissing
            ++ (ended.endBraced host emptyIfMissing).characterAccesses

/-! ## Runs -/

/-- A turn of the loop; `none` when it is left. -/
def next (host : Host) (emptyIfMissing : Bool) (P : Parser) : Option Parser :=
  if P.grabs then some P.grab.advance
  else
    let P := (P.startToken host emptyIfMissing).endSimple host emptyIfMissing
    if P.i = P.s.length then none
    else some ((P.endBraced host emptyIfMissing).character host).advance

/-- The states in which the loop's body is entered. -/
def states (host : Host) (emptyIfMissing : Bool) : Nat → Parser → List Parser
  | 0, _ => []
  | fuel + 1, P =>
      if P.i < 0 ∨ P.i > P.s.length then []
      else P :: match P.next host emptyIfMissing with
        | none => []
        | some P' => states host emptyIfMissing fuel P'

/-- A variable is expanded in this turn. -/
def expandsVariable (host : Host) (emptyIfMissing : Bool) (P : Parser) : Prop :=
  let P := P.startToken host emptyIfMissing
  (P.simpleEnds ∧ finds host emptyIfMissing P.simpleName)
    ∨ (P.curledEnds ∧ finds host emptyIfMissing P.curledName)

/-- `$'` is read outside other quotes, behind no backslash, and not in a `${...}` or `$(...)`. -/
def opensDollarSingle (P : Parser) : Prop :=
  P.quot ≠ .single ∧ P.escapingState = false ∧ (P.envState = .none ∨ P.envState = .simple)
    ∧ charAt P.s P.i = DOLLAR ∧ charAt P.s (P.i + 1) = SQUOTE

/-- The current argument starts at `i`. -/
def argumentStarts (P : Parser) : Prop :=
  P.tokenSplitter = true ∨ (P.args.bind List.getLast?).map Argument.begin_ = some P.i

/-- A `$'` that starts an argument has a space in front of it. -/
def dollarSingleFits (P : Parser) : Prop :=
  P.opensDollarSingle → P.argumentStarts → charAt P.s (P.i - 1) = 0x20

instance (host : Host) (emptyIfMissing : Bool) (P : Parser) :
    Decidable (P.expandsVariable host emptyIfMissing) := by
  unfold expandsVariable
  infer_instance

instance (P : Parser) : Decidable P.dollarSingleFits := by
  unfold dollarSingleFits opensDollarSingle argumentStarts
  infer_instance

end Parser

/-- The states that `ParseCommandLine` goes through. -/
def statesOf (host : Host) (emptyIfMissing : Bool) (s : List Byte) : List Parser :=
  if s = [] then []
  else Parser.states host emptyIfMissing (2 * s.length + 2) { s := s, args := some [] }

/-- **The argument spans are consistent**: the parser comes to an end, the spans of its arguments
lie in order inside the rewritten and inside the original string, and the string is used at
indices inside it only. -/
structure SpansConsistent (host : Host) (emptyIfMissing : Bool) (s : List Byte) : Prop where
  laidOut : ∃ P args, expandStringOrParseCommandLine host s (some []) emptyIfMissing = some P
    ∧ P.args = some args
    ∧ Span.LaidOut 0 (P.s.length : Int) (args.map Argument.span)
    ∧ Span.LaidOut 0 (s.length : Int) (args.map Argument.origSpan)
  inside : ∀ P ∈ statesOf host emptyIfMissing s, ∀ access ∈ P.accesses host emptyIfMissing,
    access.Inside

end Far2l.Environment
