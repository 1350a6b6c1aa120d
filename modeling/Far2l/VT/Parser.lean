/-
Far2l.VT.Parser — the automaton of `VTAnsiContext::ParseAndPrintString`
(`far/src/vt/vtansi.cpp`): the members that it reads and writes, and what it asks
for character by character.

What is asked for is a list of actions; what they do to the console does not come
back to these members. `char` members keep the low byte of a character, and the
arguments are `int`s that wrap.
-/
import Far2l.Utils.WideMB

namespace Far2l

namespace VT

/-- A character of the source that is a `char`. -/
def ch (c : Char) : Byte := c.val.toUInt8

/-- A character of the source that is a `WCHAR`. -/
def wch (c : Char) : WChar := c.val

/-- `ESC` -/
def ESC : WChar := 0x1B

/-- `BEL` -/
def BEL : WChar := 0x07

/-- `SO` -/
def SO : WChar := 0x0E

/-- `SI` -/
def SI : WChar := 0x0F

/-- `MAX_ARG`: the arguments there is room for. -/
def MAX_ARG : Nat := 32

/-- `MAXSHORT` -/
def MAXSHORT : Int := 32767

/-- A value that is stored in an `int`. -/
def int (v : Int) : Int := (v + 2147483648) % 4294967296 - 2147483648

/-- `is_digit` -/
def isDigit (c : WChar) : Bool := 0x30 ≤ c && c ≤ 0x39

/-- The states of the automaton, in the order of their numbers from 1 to 10. -/
inductive State where
  | text
  | escape
  | introduced
  | arguments
  | command
  | string
  | crmEscape
  | crmIntroduced
  | crmThree
  | charset
  deriving DecidableEq, Repr

/-- The members of the automaton; `prefix1` is `prefix`, and `crm` is the one of `ansi_state`. -/
structure Parser where
  state : State := .text
  prefix1 : Byte := 0
  prefix2 : Byte := 0
  suffix : Byte := 0
  suffix2 : Byte := 0
  esArgc : Nat := 0
  esArgv : List Int := List.replicate MAX_ARG 0
  osCmdArg : List Byte := []
  prevChar : WChar := 0
  charsetShifted : Bool := false
  charset0 : WChar := wch 'B'
  charset1 : WChar := wch 'B'
  crm : Bool := false
  deriving DecidableEq, Repr

/-- What the automaton asks for. `FlushBuffer` looks at `crm`, and `PushBuffer` at the character set
as well. -/
inductive Action where
  | pushBuffer (c charset : WChar) (crm : Bool)
  | flushBuffer (crm : Bool)
  | interpretEscSeq (p : Parser)
  | interpretControlString (p : Parser)
  | reverseIndex
  | saveCursor
  | restoreCursor
  | clearScreenAndHomeCursor
  | resetTerminal
  deriving DecidableEq, Repr

namespace Parser

/-- `es_argv[i]` -/
def arg (p : Parser) (i : Nat) : Int := p.esArgv.getD i 0

/-- `es_argv[i] = v` -/
def setArg (p : Parser) (i : Nat) (v : Int) : Parser := { p with esArgv := p.esArgv.set i v }

/-- `CurrentCharsetSelection` -/
def currentCharsetSelection (p : Parser) : WChar := if p.charsetShifted then p.charset1 else p.charset0

/-- `PushBuffer`: the character is remembered. -/
def pushBuffer (p : Parser) (c : WChar) : Parser × List Action :=
  ({ p with prevChar := c }, [.pushBuffer c p.currentCharsetSelection p.crm])

/-- `PushBuffer` of some characters. -/
def pushAll (p : Parser) : WStr → Parser × List Action
  | [] => (p, [])
  | c :: cs =>
      let (p, actions) := p.pushBuffer c
      let (p, rest) := p.pushAll cs
      (p, actions ++ rest)

/-- `ResetTerminal` -/
def resetTerminal (_ : Parser) : Parser := {}

/-! ## `InterpretEscSeq` -/

/-- A single argument that is not there. -/
def oneArg (p : Parser) (default : Int) : Parser :=
  if p.esArgc = 0 then { p.setArg 0 default with esArgc := 1 } else p

/-- The sequences whose argument is `1` when it is not there. -/
def counted : List Byte :=
  ['X', 'L', 'S', 'T', 'M', 'P', '@', 'k', 'A', 'e', 'B', 'a', 'C', 'j', 'D', 'E', 'F', '\u0060',
    'G', 'd', 'I', 'Z'].map ch

/-- The arguments as the sequence leaves them. `ESC[#b` counts its own down. -/
def interpretSuffix (p : Parser) : Parser × List Action :=
  if p.suffix = ch 'J' ∨ p.suffix = ch 'K' then (p.oneArg 0, [])
  else if p.suffix ∈ counted then (p.oneArg 1, [])
  else if p.suffix = ch 'f' ∨ p.suffix = ch 'H' then
    let p := p.oneArg 1
    (if p.esArgc = 1 then { p.setArg 1 1 with esArgc := 2 } else p, [])
  else if p.suffix = ch 'b' then
    let p := p.oneArg 1
    if p.esArgc ≠ 1 then (p, [])
    else
      let rest := int (p.arg 0 - 1)
      if rest < 0 then (p.setArg 0 rest, [])
      else
        (p.setArg 0 (-1),
          List.replicate (rest + 1).toNat (.pushBuffer p.prevChar p.currentCharsetSelection p.crm))
  else if p.suffix = ch 'h' then
    ({ p with crm := if p.esArgc = 1 ∧ p.arg 0 = 3 then true else p.crm }, [])
  else if p.suffix = ch 'r' then
    if p.esArgc < 2 then
      let p := p.setArg 1 MAXSHORT
      (if p.esArgc < 1 then p.setArg 0 1 else p, [])
    else (p, [])
  else (p, [])

/-- `InterpretEscSeq` -/
def interpretEscSeq (p : Parser) : Parser × List Action :=
  let asked : List Action := [.interpretEscSeq p]
  if p.prefix1 = ch '[' then
    if p.prefix2 ≠ 0 then (p, asked)
    else
      let (p, actions) := p.interpretSuffix
      (p, asked ++ actions)
  else if p.prefix2 = 0 ∧ p.esArgc = 1 ∧ (p.arg 0 = 0 ∨ p.arg 0 = 2) then
    ({ p with osCmdArg := [] }, asked)
  else (p, asked)

/-- `InterpretControlString` -/
def interpretControlString (p : Parser) : Parser × List Action :=
  ({ p with osCmdArg := [] }, [.flushBuffer p.crm, .interpretControlString p])

/-! ## `ParseAndPrintString` -/

/-- Is the character one of these? -/
def among (c : WChar) (cs : List Char) : Bool := (cs.map wch).contains c

/-- The sequences of one letter behind `ESC`. -/
def escapeLetter (p : Parser) (c : WChar) : Parser × List Action :=
  if c = wch 'D' then (p, [.flushBuffer p.crm])
  else if c = wch 'M' then (p, [.flushBuffer p.crm, .reverseIndex])
  else if c = wch 'N' then ({ p with charsetShifted := true }, [])
  else if c = wch 'O' then ({ p with charsetShifted := false }, [])
  else if c = wch 'C' then (p.resetTerminal, [.resetTerminal])
  else if c = wch '7' then (p, [.flushBuffer p.crm, .saveCursor])
  else if c = wch '8' then (p, [.flushBuffer p.crm, .restoreCursor])
  else if c = wch 'c' then (p, [.clearScreenAndHomeCursor])
  else (p, [])

/-- A character of the text. -/
def parseText (p : Parser) (c : WChar) : Parser × List Action :=
  if c = ESC then
    ({ p with suffix2 := 0, state := if p.crm then .crmEscape else .escape }, [])
  else if c = SO then ({ p with charsetShifted := true }, [])
  else if c = SI then ({ p with charsetShifted := false }, [])
  else p.pushBuffer c

/-- A character behind `ESC`. -/
def parseEscape (p : Parser) (c : WChar) : Parser × List Action :=
  if c = ESC then (p, [])
  else if among c ['(', ')', '*', '+'] then
    ({ p with prefix1 := c.toUInt8, state := .charset }, [.flushBuffer p.crm])
  else if 0x20 ≤ c ∧ c ≤ 0x2F then ({ p with suffix2 := c.toUInt8 }, [])
  else if p.suffix2 ≠ 0 then ({ p with state := .text }, [])
  else if among c ['[', ']'] then
    ({ p with prefix1 := c.toUInt8, prefix2 := 0, osCmdArg := [], state := .introduced },
      [.flushBuffer p.crm])
  else if among c ['P', 'X', '^', '_'] then
    ({ p with osCmdArg := [], prefix1 := c.toUInt8, state := .string }, [])
  else
    let (p, actions) := p.escapeLetter c
    ({ p with state := .text }, actions)

/-- The sequence is complete. -/
def finish (p : Parser) : Parser × List Action :=
  let (p, actions) := p.interpretEscSeq
  ({ p with state := .text }, actions)

/-- A character in front of the arguments. -/
def parseIntroduced (p : Parser) (c : WChar) : Parser × List Action :=
  if isDigit c then
    ({ p.setArg 0 ((c.toNat : Int) - 0x30) with esArgc := 0, state := .arguments }, [])
  else if c = wch ';' then
    ({ (p.setArg 0 0).setArg 1 0 with esArgc := 1, state := .arguments }, [])
  else if c = wch ':' then (p, [])
  else if 0x3B ≤ c ∧ c ≤ 0x3F then ({ p with prefix2 := c.toUInt8 }, [])
  else if 0x20 ≤ c ∧ c ≤ 0x2F then ({ p with suffix2 := c.toUInt8 }, [])
  else if p.suffix2 ≠ 0 then ({ p with state := .text }, [])
  else { p with esArgc := 0, suffix := c.toUInt8 }.finish

/-- A character of the arguments. -/
def parseArguments (p : Parser) (c : WChar) : Parser × List Action :=
  if isDigit c then
    (p.setArg p.esArgc (int (int (10 * p.arg p.esArgc) + ((c.toNat : Int) - 0x30))), [])
  else if c = wch ';' then
    let p := if p.esArgc < MAX_ARG - 1 then { p with esArgc := p.esArgc + 1 } else p
    let p := p.setArg p.esArgc 0
    (if p.prefix1 = ch ']' then { p with state := .command } else p, [])
  else if 0x3A ≤ c ∧ c ≤ 0x3F then (p, [])
  else if 0x20 ≤ c ∧ c ≤ 0x2F then ({ p with suffix2 := c.toUInt8 }, [])
  else if p.suffix2 ≠ 0 then ({ p with state := .text }, [])
  else { p with esArgc := p.esArgc + 1, suffix := c.toUInt8 }.finish

/-- A character of a command or of a string; `done` is what happens at its end. -/
def parseString (p : Parser) (c : WChar) (done : Parser → Parser × List Action) :
    Parser × List Action :=
  let close (p : Parser) : Parser × List Action :=
    let (p, actions) := done p
    ({ p with state := .text }, actions)
  if c = BEL then close p
  else if c = wch '\\' ∧ p.osCmdArg.getLast? = some ESC.toUInt8 then
    close { p with osCmdArg := p.osCmdArg.dropLast }
  else ({ p with osCmdArg := p.osCmdArg ++ WideMB.wide2MB [c] }, [])

/-- The characters that have been taken for the end of `crm`, and the one that is none. -/
def parseCrm (p : Parser) (c expected : WChar) (next : State) (taken : WStr) : Parser × List Action :=
  if c = expected then ({ p with state := next }, [])
  else
    let (p, actions) := p.pushAll (taken ++ [c])
    ({ p with state := .text }, actions)

/-- A character that selects a character set. -/
def parseCharset (p : Parser) (c : WChar) : Parser :=
  let p :=
    if p.prefix1 = ch '(' ∨ p.prefix1 = ch '*' then { p with charset0 := c }
    else if p.prefix1 = ch ')' ∨ p.prefix1 = ch '+' then { p with charset1 := c }
    else p
  { p with state := .text }

/-- One character of `ParseAndPrintString`. -/
def parseChar (p : Parser) (c : WChar) : Parser × List Action :=
  match p.state with
  | .text => p.parseText c
  | .escape => p.parseEscape c
  | .introduced => p.parseIntroduced c
  | .arguments => p.parseArguments c
  | .command => p.parseString c interpretEscSeq
  | .string => p.parseString c interpretControlString
  | .crmEscape => p.parseCrm c (wch '[') .crmIntroduced [ESC]
  | .crmIntroduced => p.parseCrm c (wch '3') .crmThree [ESC, wch '[']
  | .crmThree =>
      if c = wch 'l' then ({ p with crm := false, state := .text }, [])
      else p.parseCrm c (wch 'l') .text [ESC, wch '[', wch '3']
  | .charset => (p.parseCharset c, [])

/-- The loop of `ParseAndPrintString`. -/
def parseLoop (p : Parser) : WStr → Parser × List Action
  | [] => (p, [])
  | c :: s =>
      let (p, actions) := p.parseChar c
      let (p, rest) := p.parseLoop s
      (p, actions ++ rest)

/-- `ParseAndPrintString` -/
def parseAndPrintString (p : Parser) (s : WStr) : Parser × List Action :=
  let (p, actions) := p.parseLoop s
  (p, actions ++ [.flushBuffer p.crm])

end Parser

end VT

end Far2l
