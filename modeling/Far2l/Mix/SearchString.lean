/-
Far2l.Mix.SearchString — `SearchString` of `far/src/mix/strmix.cpp`, and
`ReplaceBrackets` and `InsertRegexpQuote`, which it uses.

A result is `none` where the function reads or writes outside what it may, or where an
`int` overflows. What `Upper` makes of characters behind ASCII comes from a table that
is not modelled; what a compiled expression finds is not modelled either.
-/
import Far2l.Filemask.UserDefinedList
import Far2l.Lib.Cells

namespace Far2l

namespace SearchString

/-! ## Characters and numbers -/

/-- `CharUpperBuff` of one character. A character that is none is made of none. -/
structure CaseTable where
  charUpper : WChar → WChar
  charUpper_ne : ∀ ch, ch ≠ 0 → charUpper ch ≠ 0

/-- `Upper`. -/
def upper (U : CaseTable) (ch : WChar) : WChar :=
  if ch.toNat < 0x80 then
    if 0x61 ≤ ch.toNat ∧ ch.toNat ≤ 0x7A then ch - 0x20 else ch
  else U.charUpper ch

/-- An `int`, where it is one. -/
def int (n : Int) : Option Int := if -2 ^ 31 ≤ n ∧ n < 2 ^ 31 then some n else none

/-- An `int` as a `size_t`. -/
def sizeT (n : Int) : Nat := (n % 2 ^ 64).toNat

/-- `Source[i]`: behind the characters there is a NUL. -/
def charAt (source : WStr) (i : Int) : Option WChar :=
  if 0 ≤ i then (source ++ [0])[i.toNat]? else none

/-! ## Whole words -/

/-- What is searched for, and how. -/
structure Sought where
  str : WStr
  noNul : 0 ∉ str
  case : Bool
  wholeWords : Bool
  wordDiv : WStr

variable (U : CaseTable) (q : Sought) (source : WStr)

/-- `IsSpace(Ch) || wcschr(WordDiv, Ch)`; `wcschr` finds the end of the string, too. -/
def isBoundary (ch : WChar) : Bool := Filemask.isSpace ch || ch = 0 || ch ∈ q.wordDiv

/-- `locResultLeft && locResultRight`. -/
def wholeWordAt (I : Int) : Option Bool :=
  (charAt source (I - 1)).bind fun chLeft =>
    (int (I + q.str.length)).bind fun behind =>
      let locResultLeft := if 0 < I then isBoundary q chLeft else true
      if behind < source.length then
        (charAt source behind).map fun chRight => locResultLeft && isBoundary q chRight
      else some locResultLeft

/-! ## Plain search -/

/-- A character of the source is one of the pattern. -/
def same (ch p : WChar) : Bool := if q.case then ch = p else upper U ch = upper U p

/-- The loop over the pattern, which ends at its NUL. -/
def charLoop (I : Int) : (J : Nat) → WStr → Option Bool
  | _, [] => some true
  | J, p :: str =>
      match if q.wholeWords then wholeWordAt q source I else some true with
      | none => none
      | some false => some false
      | some true =>
          match charAt source (I + J) with
          | none => none
          | some ch => if same U q ch p then charLoop I (J + 1) str else some false

/-- The loop over the source. -/
def searchLoop (reverse : Bool) : (n : Nat) → (I : Int) → Option (Option Int)
  | 0, _ => some none
  | n + 1, I =>
      if (reverse = true ∧ 0 ≤ I) ∨ (reverse = false ∧ I < source.length) then
        match charLoop U q source I 0 q.str with
        | none => none
        | some true => some (some I)
        | some false => searchLoop reverse n (if reverse then I - 1 else I + 1)
      else some none

/-- How often the loop can turn. -/
def turns (reverse : Bool) (position : Int) : Nat :=
  (if reverse then position + 1 else source.length - position).toNat

/-! ## Regular expressions -/

/-- `RegExpMatch`. -/
structure RegExpMatch where
  start : Int
  end_ : Int
deriving DecidableEq

/-- What `SearchEx` gives: whether it has found something, and what it has stored in the array. -/
structure SearchExResult where
  found : Bool
  stored : List RegExpMatch

/-- A compiled expression. `SearchEx` stores as many elements as there are brackets, or nothing. When it has
found something, it has stored a match that begins where it had to begin, or behind. -/
structure RegExp where
  bracketsCount : Nat
  searchEx : WStr → Nat → SearchExResult
  brackets_pos : 0 < bracketsCount
  stored_or_not : ∀ text from_, (searchEx text from_).stored = []
    ∨ (searchEx text from_).stored.length = bracketsCount
  found_match : ∀ text from_, (searchEx text from_).found = true →
    ∃ m ms, (searchEx text from_).stored = m :: ms ∧ (from_ : Int) ≤ m.start

/-- `StackHeapArray<RegExpMatch>`: how many elements have a place in the array itself. -/
def THRESHOLD : Nat := 16 + 0x80 / 8

/-- What belongs to the array `m(n)`: the elements it has been made for, or all of its memory. -/
inductive Extent where
  | elements
  | memory

/-- How many elements these are. -/
def Extent.size : Extent → Nat → Nat
  | .elements, n => n
  | .memory, n => if n > THRESHOLD then n else THRESHOLD

/-- `SearchEx(Source, pos, pm + half, n)` into an array of `size` elements. -/
def store (size : Nat) (pm : Cells RegExpMatch) (half : Nat) (stored : List RegExpMatch) :
    Option (Cells RegExpMatch) :=
  if stored = [] ∨ half + stored.length ≤ size then some (pm.write half stored) else none

/-- The loop of a search to the left: `found`, the array, and `half` behind the loop. -/
def reverseLoop (R : RegExp) (size : Nat) (position : Int) :
    (turns : Nat) → (pos : Int) → (half : Nat) → (found : Bool) → Cells RegExpMatch →
      Option (Bool × Nat × Cells RegExpMatch)
  | 0, _, _, _, _ => none
  | turns + 1, pos, half, found, pm =>
      let r := R.searchEx source (sizeT pos)
      match store size pm half r.stored with
      | none => none
      | some pm =>
          if r.found = false then some (found, R.bracketsCount - half, pm)
          else if (pm half).start > position then some (found, R.bracketsCount - half, pm)
          else reverseLoop R size position turns ((pm half).start + 1) (R.bracketsCount - half) true pm

/-- `InsertCustomQuote`. -/
def insertCustomQuote (strStr : WStr) (quoteChar : WChar) : WStr :=
  let str := if strStr.head? ≠ some quoteChar then quoteChar :: strStr else strStr
  if str.length = 1 ∨ str.getLast? ≠ some quoteChar then str ++ [quoteChar] else str

/-- `InsertRegexpQuote`. -/
def insertRegexpQuote (strStr : WStr) : WStr :=
  if strStr.head? ≠ some Filemask.SLASH then insertCustomQuote strStr Filemask.SLASH else strStr

/-- `ReplaceBrackets`: the bracket that a character behind `$` names. -/
def bracketIndex (symbol : WChar) : Option Nat :=
  if 0x30 ≤ symbol.toNat ∧ symbol.toNat ≤ 0x39 then some (symbol.toNat - 0x30)
  else if 0x41 ≤ symbol.toNat ∧ symbol.toNat ≤ 0x5A then some (symbol.toNat - 0x41 + 10)
  else none

/-- `ReplaceBrackets`: what a bracket has matched. -/
def bracketText (m : RegExpMatch) : WStr := (source.drop m.start.toNat).take (m.end_ - m.start).toNat

/-- `ReplaceBrackets`. Behind a `$` at the end there is the NUL. -/
def replaceBrackets (matches_ : List RegExpMatch) : WStr → WStr
  | [] => []
  | [c] => if c = 0x24 then [0] else [c]
  | c :: d :: rest =>
      if c = 0x24 then
        match bracketIndex (upper U d) with
        | some index => ((matches_[index]?).map (bracketText source)).getD [] ++ replaceBrackets matches_ rest
        | none => d :: replaceBrackets matches_ rest
      else c :: replaceBrackets matches_ (d :: rest)

/-! ## `SearchString` -/

/-- What a search that succeeds gives back. -/
structure Found where
  curPos : Int
  searchLength : Int
  replaceStr : WStr
deriving DecidableEq

/-- `CurPos`, `SearchLength` and `ReplaceStr` of the match at `half`. -/
def foundAt (R : RegExp) (replaceStr : WStr) (pm : Cells RegExpMatch) (half : Nat) : Found where
  curPos := (pm half).start
  searchLength := (pm half).end_ - (pm half).start
  replaceStr := replaceBrackets U source (pm.slice half R.bracketsCount) replaceStr

/-- The constructed elements of the array. -/
def noMatches : Cells RegExpMatch := fun _ => ⟨0, 0⟩

/-- The branch for regular expressions. -/
def searchRegexp (R : RegExp) (size : Nat) (replaceStr : WStr) (position : Int) (reverse : Bool) :
    Option (Option Found) :=
  if reverse then
    (reverseLoop source R size position (position + 2).toNat 0 0 false noMatches).map fun (found, half, pm) =>
      if found then some (foundAt U source R replaceStr pm half) else none
  else
    let r := R.searchEx source (sizeT position)
    (store size noMatches 0 r.stored).map fun pm =>
      if r.found then some (foundAt U source R replaceStr pm 0) else none

/-- `SearchString`, behind what it does to `Position` at first. -/
def searchFrom (compile : WStr → Bool → Option RegExp) (extent : Extent) (replaceStr : WStr) (position : Int)
    (reverse regexp : Bool) : Option (Option Found) :=
  if (position < source.length ∨ (position = 0 ∧ source.length = 0)) ∧ q.str ≠ [] then
    if regexp then
      match compile (insertRegexpQuote q.str) q.case with
      | none => some none
      | some R => searchRegexp U source R (extent.size R.bracketsCount) replaceStr position reverse
    else if position = source.length then some none
    else
      (searchLoop U q source reverse (turns source reverse position) position).map fun found =>
        found.map fun I => ⟨I, q.str.length, replaceStr⟩
  else some none

/-- `SearchString`. -/
def searchString (compile : WStr → Bool → Option RegExp) (extent : Extent) (replaceStr : WStr) (position : Int)
    (reverse regexp : Bool) : Option (Option Found) :=
  if reverse then
    (int (position - 1)).bind fun position =>
      let position := if position ≥ source.length then (source.length : Int) - 1 else position
      if position < 0 then some none
      else searchFrom U q source compile extent replaceStr position reverse regexp
  else searchFrom U q source compile extent replaceStr position reverse regexp

end SearchString

end Far2l
