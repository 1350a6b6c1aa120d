/-
Far2l.Utils.ConfigRW — `ConfigWriter` and `ConfigReader` of `far/src/cfg/ConfigRW.cpp`
for a section of one file, and the values that `KeyFileHelper` writes and reads.

A writer loads the file, changes it and writes it when something has changed; a
reader loads it. Numbers are small enough for their types.
-/
import Far2l.Utils.KeyFile
import Far2l.Utils.WideMB

namespace Far2l.KeyFile

/-- `"..."`, character by character. -/
def A (cs : List Char) : Str := cs.map fun c => UInt8.ofNat c.toNat

/-! ## Numbers and bytes as text -/

def MINUS : Byte := 0x2D

/-- `ToDec`. -/
def toDec (v : Int) : Str :=
  if v < 0 then MINUS :: A (Nat.toDigits 10 v.natAbs) else A (Nat.toDigits 10 v.natAbs)

/-- `ParseHexDigit`. -/
def parseHexDigit (hex : Byte) : Nat :=
  if 0x30 ≤ hex.toNat ∧ hex.toNat ≤ 0x39 then hex.toNat - 0x30
  else if 0x61 ≤ hex.toNat ∧ hex.toNat ≤ 0x66 then 10 + hex.toNat - 0x61
  else if 0x41 ≤ hex.toNat ∧ hex.toNat ≤ 0x46 then 10 + hex.toNat - 0x41
  else 0xff

/-- The digits at the beginning of a string. -/
def digitsValue (base : Nat) (s : Str) : Nat :=
  (s.takeWhile fun c => parseHexDigit c < base).foldl (fun n c => base * n + parseHexDigit c) 0

/-- `strtol`. -/
def strtol (base : Nat) (s : Str) : Int :=
  match s.dropWhile fun c => c = BLANK ∨ (9 ≤ c ∧ c ≤ 13) with
  | [] => 0
  | c :: rest =>
      if c = MINUS then -(digitsValue base rest)
      else if c = 0x2B then digitsValue base rest
      else digitsValue base (c :: rest)

/-- `MakeHexDigit`. -/
def makeHexDigit (c : Nat) : Byte :=
  if c ≤ 9 then UInt8.ofNat (0x30 + c)
  else if c ≤ 0xf then UInt8.ofNat (0x61 + (c - 0xa))
  else 0

/-- `SetBytes`: the text from the byte `i` on. -/
def encodeBytes (spaceInterval : Nat) : Nat → List Byte → Str
  | _, [] => []
  | i, b :: buf =>
      (if i ≠ 0 ∧ spaceInterval ≠ 0 ∧ i % spaceInterval = 0 then [BLANK] else [])
        ++ makeHexDigit (b.toNat >>> 4) :: makeHexDigit (b.toNat &&& 0xf)
          :: encodeBytes spaceInterval (i + 1) buf

/-- `DecodeBytes`: blanks between two digits. -/
def skipBlanks (s : Str) : Str := s.dropWhile fun c => c = BLANK ∨ c = TABULATOR

/-- `DecodeBytes`, at most `len` bytes. -/
def decodeBytes : Nat → Str → List Byte
  | 0, _ => []
  | _ + 1, [] => []
  | len + 1, c :: rest =>
      match skipBlanks rest with
      | [] => []
      | d :: rest =>
          UInt8.ofNat (parseHexDigit c <<< 4 ||| parseHexDigit d) :: decodeBytes len (skipBlanks rest)

/-! ## `ConfigReader` -/

/-- The value of a key of a section. -/
def Sections.value {ci : Bool} (S : Sections ci) (section_ name : Str) : Option Str :=
  (S.find section_).bind fun values => (values.find? name).map Prod.snd

/-- What `c_str()` shows of a string: all up to a terminator. -/
def cStr (s : WStr) : WStr := s.takeWhile (· ≠ 0)

/-- `GetString` of a wide string; it is copied by its `c_str()`. -/
def Sections.getString {ci : Bool} (S : Sections ci) (section_ name : Str) : Option WStr :=
  (S.value section_ name).map fun s => cStr (WideMB.mb2Wide s)

/-- `GetInt`. -/
def Sections.getInt {ci : Bool} (S : Sections ci) (section_ name : Str) (default : Int) : Int :=
  match S.value section_ name with
  | none => default
  | some s => if s.take 2 = A ['0', 'x'] then strtol 16 (s.drop 2) else strtol 10 s

/-- `GetBytes` of a vector. -/
def Sections.getBytes {ci : Bool} (S : Sections ci) (section_ name : Str) : List Byte :=
  match S.value section_ name with
  | none => []
  | some s => decodeBytes (s.length / 2 + 1) s

/-! ## `ConfigWriter` -/

/-- `IsSectionOrSubsection`. -/
def isSectionOrSubsection (haystack needle : Str) : Bool :=
  needle.isPrefixOf haystack
    && (haystack.length = needle.length || haystack[needle.length]? = some 0x2F)

/-- The sections of the histories. -/
def historySections : List Str :=
  [A ['S', 'a', 'v', 'e', 'd', 'H', 'i', 's', 't', 'o', 'r', 'y'],
   A ['S', 'a', 'v', 'e', 'd', 'D', 'i', 'a', 'l', 'o', 'g', 'H', 'i', 's', 't', 'o', 'r', 'y'],
   A ['S', 'a', 'v', 'e', 'd', 'F', 'o', 'l', 'd', 'e', 'r', 'H', 'i', 's', 't', 'o', 'r', 'y'],
   A ['S', 'a', 'v', 'e', 'd', 'V', 'i', 'e', 'w', 'H', 'i', 's', 't', 'o', 'r', 'y']]

/-- `_bytes_space_interval`. -/
def bytesSpaceInterval (section_ : Str) : Nat :=
  if isSectionOrSubsection section_ (A ['C', 'o', 'l', 'o', 'r', 's']) then 1
  else if historySections.any (isSectionOrSubsection section_) then 8
  else 0

/-- The helper of a writer. -/
def configWriter (file : Str) : KeyFileHelper false := { kf := loadKeyFile false file }

namespace KeyFileHelper

/-- `SetString` of a wide string that is passed by its `c_str()`. -/
def setWide (K : KeyFileHelper false) (section_ name : Str) (value : WStr) : KeyFileHelper false :=
  K.setString section_ name (WideMB.wide2MB (cStr value))

/-- `SetInt`. -/
def setInt (K : KeyFileHelper false) (section_ name : Str) (value : Int) : KeyFileHelper false :=
  K.setString section_ name (toDec value)

/-- `SetBytes`. -/
def setBytes (K : KeyFileHelper false) (section_ name : Str) (buf : List Byte) :
    KeyFileHelper false :=
  K.setString section_ name (encodeBytes (bytesSpaceInterval section_) 0 buf)

/-- `ConfigWriter::Save`: what is in the file then. -/
def saved (K : KeyFileHelper false) (file : Str) : Str := (K.save true).getD file

end KeyFileHelper

end Far2l.KeyFile
