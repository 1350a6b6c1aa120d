/-
Far2l.Mix.ProcessName — `far/src/mix/processname.cpp`: a name is generated from
another one and a mask, and compared with a mask.

Pointers into a string are what is left of it, without the NUL; two of them are the
same when as much is left.
-/
import Far2l.WinPort.Collation

namespace Far2l.ProcessName

def DOT : WChar := 0x2E
def STAR : WChar := 0x2A
def QUESTION : WChar := 0x3F
def SLASH : WChar := 0x2F

/-- `wcsrchr` -/
def wcsrchr (c : WChar) : WStr → Option WStr
  | [] => none
  | x :: s =>
      match wcsrchr c s with
      | some t => some t
      | none => if x = c then some (x :: s) else none

/-- `PointToName` -/
def pointToName (path : WStr) : WStr :=
  match wcsrchr SLASH path with
  | some t => t.tail
  | none => path

/-! ## `ConvertWildcards` -/

/-- Does `case L'*'` stop in front of this character, behind which `src` is left? -/
def starStops (srcNameDot : Option WStr) (curWild : WStr) (x : WChar) (src : WStr) : Bool :=
  match srcNameDot with
  | some dot =>
      if curWild.head? = some DOT ∧ DOT ∉ curWild.tail then src.length + 1 = dot.length
      else curWild.head? = some x
  | none => curWild.head? = some x

/-- `case L'*'`: what is copied, and what is left of the source. -/
def starLoop (srcNameDot : Option WStr) (curWild : WStr) : WStr → WStr × WStr
  | [] => ([], [])
  | x :: src =>
      if starStops srcNameDot curWild x src then ([], x :: src)
      else (x :: (starLoop srcNameDot curWild src).1, (starLoop srcNameDot curWild src).2)

/-- The source behind its next dot. -/
def skipPart : WStr → WStr
  | [] => []
  | x :: src => if x = DOT then src else skipPart src

/-- The source behind a character that is no dot. -/
def skipChar : WStr → WStr
  | [] => []
  | x :: src => if x = DOT then x :: src else src

/-- `while (*CurWildPtr)`: what is written. -/
def wildLoop (srcNameDot : Option WStr) : WStr → WStr → WStr
  | [], _ => []
  | c :: wild, src =>
      if c = QUESTION then src.take 1 ++ wildLoop srcNameDot wild src.tail
      else if c = STAR then
        (starLoop srcNameDot wild src).1 ++ wildLoop srcNameDot wild (starLoop srcNameDot wild src).2
      else if c = DOT then
        c :: wildLoop srcNameDot wild (if STAR ∈ wild ∨ QUESTION ∈ wild then skipPart src else src)
      else c :: wildLoop srcNameDot wild (skipChar src)

/-- What is in the buffer in front of the NUL: the path of the mask, and the name. -/
def generated (src mask : WStr) : WStr :=
  let wildName := pointToName mask
  let srcName := pointToName src
  mask.take (mask.length - wildName.length) ++ wildLoop (wcsrchr DOT srcName) wildName srcName

/-- A dot at the end is taken away. -/
def stripDot (name : WStr) : WStr := if name.getLast? = some DOT then name.dropLast else name

/-- The source as far as the selected folder, and what is behind it. -/
def splitFolder (srcName : WStr) (selectedFolderNameLength : Nat) : WStr × WStr :=
  if selectedFolderNameLength ≠ 0 then srcName.splitAt (min srcName.length selectedFolderNameLength)
  else (srcName, [])

/-- `ConvertWildcards`: whether there are wildcards, and the name. -/
def convertWildcards (srcName dest : WStr) (selectedFolderNameLength : Nat) : Bool × WStr :=
  let wildName := pointToName dest
  if STAR ∉ wildName ∧ QUESTION ∉ wildName then (false, dest)
  else
    let (src, partAfterFolderName) := splitFolder srcName selectedFolderNameLength
    let partBeforeName :=
      if wildName.length = dest.length then src.take (src.length - (pointToName src).length) else []
    (true, partBeforeName ++ stripDot (generated src dest) ++ partAfterFolderName)

/-! ## `CmpName` -/

def LBRACKET : WChar := 0x5B
def RBRACKET : WChar := 0x5D
def HYPHEN : WChar := 0x2D

/-- What `casesens` decides: `UpperCase`, `LowerCase` and how the strings behind a `*` are compared. -/
structure Comparison where
  upper : WChar → WChar
  lower : WChar → WChar
  same : WStr → WStr → Bool

/-- `AsIs` and `wmemcmp` -/
def Comparison.asIs : Comparison := ⟨id, id, fun a b => a = b⟩

/-- `Upper` of `locale.hpp`; `charUpper` is `CharUpperBuff`. -/
def upper (charUpper : WChar → WChar) (ch : WChar) : WChar :=
  if ch &&& 0x7F = ch then if 0x61 ≤ ch ∧ ch ≤ 0x7A then ch - 0x20 else ch else charUpper ch

/-- `Lower` of `locale.hpp`; `charLower` is `CharLowerBuff`. -/
def lower (charLower : WChar → WChar) (ch : WChar) : WChar :=
  if ch &&& 0x7F = ch then if 0x41 ≤ ch ∧ ch ≤ 0x5A then ch + 0x20 else ch else charLower ch

/-- `Upper`, `Lower` and `StrCmpNI` -/
def Comparison.ignoringCase (T : WinPort.CollationTables) (charUpper charLower : WChar → WChar) : Comparison :=
  ⟨ProcessName.upper charUpper, ProcessName.lower charLower, fun a b => T.strCmpNI a b a.length = 0⟩

/-- `<=` of `wchar_t`, which has a sign -/
def wcharLe (a b : WChar) : Bool := a.toInt32 ≤ b.toInt32

/-- `while ((rangec = *pattern++) != 0)`, behind the character `prev`: the pattern behind the set where
it matches; `none` where what is behind the NUL is read. -/
def setLoop (C : Comparison) (stringc : WChar) : Bool → WChar → WStr → Option (Option WStr)
  | _, _, [] => some none
  | found, prev, rangec :: pattern =>
      if rangec = RBRACKET then some (if found then some pattern else none)
      else if found then setLoop C stringc true rangec pattern
      else if rangec = HYPHEN ∧ prev ≠ LBRACKET ∧ pattern.head? ≠ some RBRACKET then
        match pattern with
        | [] => none
        | stop :: pattern =>
            setLoop C stringc (wcharLe stringc (C.upper stop) && wcharLe (C.upper prev) stringc) stop pattern
      else setLoop C stringc (stringc = C.upper rangec) rangec pattern

theorem setLoop_length {C : Comparison} {stringc : WChar} : ∀ {pattern : WStr} {found : Bool} {prev : WChar} {rest : WStr},
    setLoop C stringc found prev pattern = some (some rest) → rest.length < pattern.length
  | [], _, _, _, h => by simp [setLoop] at h
  | rangec :: pattern, found, prev, rest, h => by
    unfold setLoop at h
    split at h
    · cases found with
      | false => simp at h
      | true =>
        obtain rfl : pattern = rest := by simpa using h
        exact Nat.lt_succ_self _
    split at h
    · exact Nat.lt_succ_of_lt (setLoop_length h)
    split at h
    · split at h
      · cases h
      · have := setLoop_length h
        simp only [List.length_cons]
        omega
    · exact Nat.lt_succ_of_lt (setLoop_length h)

/-- `do … while (*str++)` -/
def anyTail (body : WStr → Option Bool) : WStr → Option Bool
  | [] => body []
  | c :: str =>
      match body (c :: str) with
      | none => none
      | some true => some true
      | some false => anyTail body str

/-- `++str` and the next turn of the loop: `none` behind the NUL. -/
def nextTurn (body : WStr → Option Bool) : WStr → Option Bool
  | [] => none
  | _ :: str => body str

/-- The suffix comparison for a pattern without `*`, `?` and `[` -/
def endsLike (C : Comparison) (pattern str : WStr) : Bool :=
  str.length ≥ pattern.length && C.same pattern (str.drop (str.length - pattern.length))

/-- `CmpName_Body`: `none` where a character behind a NUL is read. -/
def cmpNameBody (C : Comparison) (pattern str : WStr) : Option Bool :=
  match pattern with
  | [] => some (str.headD 0 = 0)
  | patternc :: pattern =>
      let stringc := str.headD 0
      if patternc = QUESTION then
        if stringc = 0 then some false else nextTurn (cmpNameBody C pattern) str
      else if patternc = STAR then
        if pattern = [] then some true
        else if STAR ∉ pattern ∧ QUESTION ∉ pattern ∧ LBRACKET ∉ pattern then some (endsLike C pattern str)
        else anyTail (cmpNameBody C pattern) str
      else if patternc = LBRACKET then
        if RBRACKET ∉ pattern then
          if patternc ≠ stringc then some false else nextTurn (cmpNameBody C pattern) str
        else if pattern.tail.head? = some RBRACKET then
          if pattern.headD 0 ≠ stringc then some false
          else nextTurn (cmpNameBody C (pattern.drop 2)) str
        else
          match hset : setLoop C (C.upper stringc) false LBRACKET pattern with
          | none => none
          | some none => some false
          | some (some rest) => nextTurn (cmpNameBody C rest) str
      else if C.upper patternc ≠ stringc ∧ C.lower patternc ≠ stringc then some false
      else nextTurn (cmpNameBody C pattern) str
termination_by pattern.length
decreasing_by
  all_goals simp only [List.length_cons, List.length_drop]
  all_goals try have := setLoop_length ‹_›
  all_goals omega

/-- `CmpName` -/
def cmpName (C : Comparison) (pattern str : WStr) (skippath : Bool) : Option Bool :=
  cmpNameBody C pattern (if skippath then pointToName str else str)

end Far2l.ProcessName
