/-
Far2l.Utils.Environment — `ExpandStringOrParseCommandLine` and
`ExplodeCommandLine` of `utils/src/Environment.cpp`.

The parser is one loop over a string it edits in place. `$(...)` is modelled as
`allow_exec_cmd` being off, as it is for `ExplodeCommandLine`. An index that is
decremented below 0 is a huge `size_t` in the source and negative here; either
ends the loop.
-/
import Far2l.Utils.Escaping

namespace Far2l.Environment

/-- What the parser asks its surroundings: `GetVariable`, `GetMyHome`, and what
`StrPrintf("%lc", ...)` prints. -/
structure Host where
  getVariable : List Byte → Option (List Byte)
  home : List Byte
  printLc : Nat → List Byte

inductive Quoting where
  | none
  | single
  | double
  | dollarSingle
deriving DecidableEq, Repr

inductive EnvState where
  | none
  | simple
  | curled
  | command
deriving DecidableEq, Repr

structure Argument where
  begin_ : Int
  len : Int
  origBegin : Int
  origLen : Int
  quot : Quoting
deriving DecidableEq, Repr

/-- The variables of `ExpandStringOrParseCommandLine`; `args` is `none` for a null pointer. -/
structure Parser where
  s : List Byte
  args : Option (List Argument)
  i : Int := 0
  origI : Int := 0
  envStart : Int := 0
  out : Bool := true
  envState : EnvState := .none
  quot : Quoting := .none
  escapingState : Bool := false
  tokenSplitter : Bool := true

/-! ## Strings -/

/-- `s[i]`. -/
def charAt (s : List Byte) (i : Int) : Byte := if i < 0 then 0 else s.getD i.toNat 0

/-- `s.substr(begin, len)`; a negative length stands for a huge `size_t`. -/
def substr (s : List Byte) (begin_ len : Int) : List Byte :=
  if len < 0 then s.drop begin_.toNat else (s.drop begin_.toNat).take len.toNat

/-- `s.replace(start, edge - start, value)`; with an empty value, `s.erase(start, edge - start)`. -/
def replaceAt (s : List Byte) (start edge : Int) (value : List Byte) : List Byte :=
  s.take start.toNat ++ value ++ s.drop edge.toNat

/-- A string as `strlen` and `strcpy` see it. -/
def cstr (s : List Byte) : List Byte := s.takeWhile (· ≠ 0)

/-- `isspace` in the C locale. -/
def isSpace (c : Byte) : Bool := c = 0x20 ∨ (0x09 ≤ c ∧ c ≤ 0x0D)

/-- `isalpha` in the C locale. -/
def isAlpha (c : Byte) : Bool := (0x41 ≤ c ∧ c ≤ 0x5A) ∨ (0x61 ≤ c ∧ c ≤ 0x7A)

/-- `isalnum` in the C locale. -/
def isAlnum (c : Byte) : Bool := isAlpha c ∨ (0x30 ≤ c ∧ c ≤ 0x39)

/-- The value of a digit, for `strtol`. -/
def digitValue (c : Byte) : Nat :=
  if 0x30 ≤ c ∧ c ≤ 0x39 then c.toNat - 0x30
  else if 0x41 ≤ c ∧ c ≤ 0x5A then c.toNat - 0x41 + 10
  else if 0x61 ≤ c ∧ c ≤ 0x7A then c.toNat - 0x61 + 10
  else 36

/-- `strtol`. -/
def strtol (s : List Byte) (base : Nat) : Int :=
  let s := s.dropWhile isSpace
  let negative := s.head? = some 0x2D
  let s := if negative ∨ s.head? = some 0x2B then s.drop 1 else s
  let hex : Bool := base = 16 ∧ s.head? = some 0x30
    ∧ (s.getD 1 0 = 0x78 ∨ s.getD 1 0 = 0x58) ∧ digitValue (s.getD 2 0) < 16
  let s := if hex then s.drop 2 else s
  let n : Nat := (s.takeWhile fun c => digitValue c < base).foldl
    (fun n c => n * base + digitValue c) 0
  if negative then -n else n

/-! ## Escape sequences -/

/-- The characters behind a backslash that stand for one other character. -/
def simpleEscapes : List (Byte × Byte) :=
  [(0x61, 0x07), (0x62, 0x08), (0x65, 0x1B), (0x66, 0x0C), (0x6E, 0x0A), (0x72, 0x0D),
   (0x74, 0x09), (0x76, 0x0B), (BACKSLASH, BACKSLASH), (SQUOTE, SQUOTE), (DQUOTE, DQUOTE),
   (0x3F, 0x3F)]

/-- `ReplaceSubstringAt`: the string, and the moved `edge`. -/
def replaceSubstringAt (s : List Byte) (start edge : Int) (value : List Byte) : List Byte × Int :=
  let value := cstr value
  (replaceAt s start edge value, start + value.length)

/-- The code of an escape: what `strtol` returns, as `unsigned long`. -/
def escapeCode (s : List Byte) (start len : Int) (base : Nat) : Nat :=
  (strtol (cstr (substr s start len)) base % 2 ^ 64).toNat

/-- `UnescapeCLikeSequence`: the string and the moved `i`. -/
def unescapeCLikeSequence (host : Host) (s : List Byte) (i : Int) : List Byte × Int :=
  let i := i + 1
  let (s, i) :=
    if i < s.length then
      let c := charAt s (i - 1)
      match simpleEscapes.lookup c with
      | some value => (replaceAt s (i - 2) i [value], i - 1)
      | none =>
          if c = 0x78 then
            if i + 1 < s.length then
              replaceSubstringAt s (i - 2) (i + 2) [UInt8.ofNat (escapeCode s i 2 16)]
            else (s, i)
          else if c = 0x75 then
            if i + 3 < s.length then
              replaceSubstringAt s (i - 2) (i + 4) (host.printLc (escapeCode s i 4 16 % 2 ^ 32))
            else (s, i)
          else if c = 0x55 then
            if i + 7 < s.length then
              replaceSubstringAt s (i - 2) (i + 8) (host.printLc (escapeCode s i 8 16 % 2 ^ 32))
            else (s, i)
          else if 0x30 ≤ c ∧ c ≤ 0x37 then
            if i + 1 < s.length then
              replaceSubstringAt s (i - 2) (i + 2) [UInt8.ofNat (escapeCode s (i - 1) 3 8)]
            else (s, i)
          else (s, i)
    else (s, i)
  (s, i - 1)

/-! ## The loop -/

namespace Parser

/-- A change of `args->back()`. -/
def modifyBack (P : Parser) (f : Argument → Argument) : Parser :=
  { P with args := P.args.map fun as => as.modify (as.length - 1) f }

/-- `args->emplace_back(...)`. -/
def addArgument (P : Parser) (len : Int) : Parser :=
  { P with
    args := P.args.map fun as =>
      as ++ [{ begin_ := P.i, len := len, origBegin := P.origI, origLen := len, quot := .none }] }

/-- The argument ends here. -/
def endArgument (P : Parser) : Parser :=
  P.modifyBack fun a => { a with len := P.i - a.begin_, origLen := P.origI - a.origBegin }

/-- `strchr("<>&|()", c) != nullptr`; the terminator is found as well. -/
def isOperator (c : Byte) : Bool := c ∈ ([0x3C, 0x3E, 0x26, 0x7C, 0x28, 0x29, 0x00] : List Byte)

/-- `binops_count`. -/
def binopsCount (P : Parser) : Nat := ((P.s.drop P.i.toNat).takeWhile isOperator).length

/-- An operation is grabbed. -/
def grabs (P : Parser) : Bool :=
  P.i ≠ P.s.length ∧ P.args.isSome ∧ P.envState = .none ∧ !P.escapingState ∧ P.binopsCount ≠ 0

/-- An operation becomes a token of its own. -/
def grab (P : Parser) : Parser :=
  let n : Int := P.binopsCount
  let P := if !P.tokenSplitter then P.endArgument else P
  let P := P.addArgument n
  { P with tokenSplitter := true, i := P.i + (n - 1), origI := P.origI + (n - 1) }

/-- A token starts; a leading `~` is the home directory. -/
def startToken (host : Host) (emptyIfMissing : Bool) (P : Parser) : Parser :=
  if P.i ≠ P.s.length ∧ P.tokenSplitter ∧ charAt P.s P.i ≠ 0x20 then
    let P : Parser := { P with tokenSplitter := false }.addArgument 0
    if charAt P.s P.i = 0x7E ∧ (P.i + 1 = (P.s.length : Int) ∨ charAt P.s (P.i + 1) = 0x2F)
        ∧ (host.home ≠ [] ∨ emptyIfMissing) then
      { P with
        s := replaceAt P.s P.i (P.i + 1) host.home
        i := P.i + host.home.length - 1 }
    else P
  else P

/-- `ReplaceVariableAt`, up to `edge`, which becomes `i`. -/
def replaceVariableAt (host : Host) (emptyIfMissing : Bool) (P : Parser) (edge : Int)
    (env : List Byte) : Parser :=
  match host.getVariable (cstr env) with
  | some value =>
      let (s, i) := replaceSubstringAt P.s P.envStart edge value
      { P with s := s, i := i }
  | none =>
      if !emptyIfMissing then { P with i := edge, out := false }
      else
        let (s, i) := replaceSubstringAt P.s P.envStart edge []
        { P with s := s, i := i, out := false }

/-- `$NAME` ends. -/
def endSimple (host : Host) (emptyIfMissing : Bool) (P : Parser) : Parser :=
  if P.envState = .simple
      ∧ (P.i = P.s.length ∨ (!isAlnum (charAt P.s P.i) ∧ charAt P.s P.i ≠ 0x5F)) then
    { P.replaceVariableAt host emptyIfMissing P.i
        (substr P.s (P.envStart + 1) (P.i - P.envStart - 1)) with envState := .none }
  else P

/-- `${NAME}` or `$(COMMAND)` ends; the command is not run. -/
def endBraced (host : Host) (emptyIfMissing : Bool) (P : Parser) : Parser :=
  if P.envState = .curled ∧ charAt P.s P.i = 0x7D then
    let P := P.replaceVariableAt host emptyIfMissing (P.i + 1)
      (substr P.s (P.envStart + 2) (P.i + 1 - P.envStart - 3))
    { P with i := P.i - 1, envState := .none }
  else if P.envState = .command ∧ charAt P.s P.i = 0x29 then
    { P with out := P.out && emptyIfMissing, envState := .none }
  else P

/-- `s.erase(i, 1); --i`. -/
def eraseHere (P : Parser) : Parser :=
  { P with s := replaceAt P.s P.i (P.i + 1) [], i := P.i - 1 }

/-- `s.erase(i - 1, 1); --i`. -/
def eraseBackslash (P : Parser) : Parser :=
  { P with s := replaceAt P.s (P.i - 1) P.i [], i := P.i - 1 }

/-- The character behind a backslash. -/
def escaped (host : Host) (P : Parser) : Parser :=
  let c := charAt P.s P.i
  let P :=
    if P.quot = .dollarSingle then
      let (s, i) := unescapeCLikeSequence host P.s P.i
      { P with s := s, i := i }
    else if P.quot = .none ∨ c = DQUOTE ∨ c = DOLLAR then P.eraseBackslash
    else P
  { P with escapingState := false }

/-- The case `'$'`. -/
def dollar (P : Parser) : Parser :=
  let c := charAt P.s (P.i + 1)
  if P.envState = .none ∧ P.i + 1 < P.s.length then
    if P.i + 2 < P.s.length ∧ c = 0x28 then { P with envState := .command, envStart := P.i }
    else if P.i + 2 < P.s.length ∧ c = 0x7B then { P with envState := .curled, envStart := P.i }
    else if isAlpha c then { P with envState := .simple, envStart := P.i }
    else if c = SQUOTE ∧ P.args.isSome then
      { P with
        s := replaceAt P.s P.i (P.i + 2) []
        i := P.i - 2
        quot := .dollarSingle }
    else P
  else P

/-- The `switch`. -/
def plain (P : Parser) : Parser :=
  let c := charAt P.s P.i
  if c = 0x20 then
    if P.quot = .none ∧ !P.tokenSplitter then { P with tokenSplitter := true }.endArgument else P
  else if c = SQUOTE then
    if P.quot = .dollarSingle then { P with quot := .none }.eraseHere
    else if P.quot ≠ .double ∧ P.args.isSome then { P with quot := .single }.eraseHere
    else P
  else if c = DQUOTE then
    if P.args.isSome then
      let quot : Quoting := if P.quot = .double then .none else .double
      { P with quot := quot }.eraseHere
    else P
  else if c = BACKSLASH then
    if P.args.isSome ∨ (P.i + 1 < P.s.length ∧ charAt P.s (P.i + 1) = DOLLAR) then
      { P with escapingState := true }
    else P
  else if c = DOLLAR then P.dollar
  else P

/-- The character at `i` is dealt with. -/
def character (host : Host) (P : Parser) : Parser :=
  let P :=
    if P.quot = .single then
      if charAt P.s P.i = SQUOTE then { P with quot := .none }.eraseHere else P
    else if P.escapingState then P.escaped host
    else P.plain
  P.modifyBack fun a => { a with quot := P.quot }

/-- `++i, ++orig_i`. -/
def advance (P : Parser) : Parser := { P with i := P.i + 1, origI := P.origI + 1 }

/-- The loop; `none` when the turns do not suffice. -/
def run (host : Host) (emptyIfMissing : Bool) : Nat → Parser → Option Parser
  | 0, _ => none
  | fuel + 1, P =>
      if P.i < 0 ∨ P.i > P.s.length then some P
      else if P.grabs then run host emptyIfMissing fuel P.grab.advance
      else
        let P := (P.startToken host emptyIfMissing).endSimple host emptyIfMissing
        if P.i = P.s.length then some P
        else run host emptyIfMissing fuel
          ((P.endBraced host emptyIfMissing).character host).advance

end Parser

/-- `ExpandStringOrParseCommandLine` without execution of commands. A turn of the loop reads on, or
goes back by a character and has taken out two. -/
def expandStringOrParseCommandLine (host : Host) (s : List Byte) (args : Option (List Argument))
    (emptyIfMissing : Bool) : Option Parser :=
  let P : Parser := { s := s, args := args }
  if s = [] then some P
  else
    (P.run host emptyIfMissing (2 * s.length + 2)).map fun P =>
      if !P.tokenSplitter then P.endArgument else P

/-- `ExplodeCommandLine`. -/
def explodeCommandLine (host : Host) (expression : List Byte) : Option (List (List Byte)) :=
  (expandStringOrParseCommandLine host expression (some []) false).map fun P =>
    (P.args.getD []).map fun token => substr P.s token.begin_ token.len

end Far2l.Environment
