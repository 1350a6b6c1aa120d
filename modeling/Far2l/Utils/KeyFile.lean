/-
Far2l.Utils.KeyFile — `KeyFileReadHelper` and `KeyFileHelper` of
`utils/src/KeyFileHelper.cpp`: sections of keys and values, kept in the order
they were made in, and the file they are saved to.

`Sections` holds a map from names to values and a vector of iterators into it.
An iterator is the identity of the node it points to; a node that is erased
leaves its identity unused. The helper is modelled without `load_only_section`.
-/
import Far2l.Lib.SortedMap
import Far2l.Utils.Chars

namespace Far2l.KeyFile

abbrev Str := List Byte

/-! ## Comparison of names -/

/-- The lower case letters of ASCII become upper case ones. -/
def upCase (c : Byte) : Byte := if 0x61 ≤ c ∧ c ≤ 0x7A then c - 0x20 else c

/-- The value of a `char`, which is signed. -/
def charValue (c : Byte) : Int := if c.toNat < 128 then c.toNat else c.toNat - 256

/-- `KeyFileCmp::operator()`. -/
def keyFileCmp (caseInsensitive : Bool) : Str → Str → Bool
  | [], b => 0 < b.length
  | _ :: _, [] => false
  | ca :: a, cb :: b =>
      if ca ≠ cb then
        if !caseInsensitive then charValue ca < charValue cb
        else if upCase ca ≠ upCase cb then charValue (upCase ca) < charValue (upCase cb)
        else keyFileCmp caseInsensitive a b
      else keyFileCmp caseInsensitive a b

/-- What `KeyFileCmp` compares of a name. -/
def cmpKey (caseInsensitive : Bool) (s : Str) : List Int :=
  s.map fun c => charValue (if caseInsensitive then upCase c else c)

theorem charValue_inj {ca cb : Byte} : charValue ca = charValue cb ↔ ca = cb := by
  refine ⟨fun h => UInt8.toNat_inj.mp ?_, fun h => by rw [h]⟩
  have hca := ca.toNat_lt
  have hcb := cb.toNat_lt
  simp only [charValue] at h
  split at h <;> split at h <;> omega

/-- Names are compared by their values, character by character. -/
theorem keyFileCmp_iff (ci : Bool) : ∀ a b : Str,
    keyFileCmp ci a b = true ↔ cmpKey ci a < cmpKey ci b
  | [], [] => by simp [keyFileCmp, cmpKey]
  | [], cb :: b => by simp [keyFileCmp, cmpKey]
  | ca :: a, [] => by simp [keyFileCmp, cmpKey]
  | ca :: a, cb :: b => by
    have ih := keyFileCmp_iff ci a b
    simp only [cmpKey, List.map_cons, List.cons_lt_cons_iff] at ih ⊢
    rw [keyFileCmp]
    by_cases hc : ca = cb
    · subst hc
      simp [ih]
    · cases ci with
      | false => simp [hc, charValue_inj]
      | true =>
        by_cases hu : upCase ca = upCase cb
        · simp [hc, hu, ih]
        · simp [hc, hu, charValue_inj]

instance (ci : Bool) : StrictWeak (keyFileCmp ci) where
  irrefl a := by
    refine Bool.eq_false_iff.mpr fun h => ?_
    exact List.lt_irrefl _ ((keyFileCmp_iff ci a a).mp h)
  trans hab hbc := by
    rw [keyFileCmp_iff] at hab hbc ⊢
    exact List.lt_trans hab hbc
  cotrans {a b} hab c := by
    rw [keyFileCmp_iff] at hab ⊢
    rw [keyFileCmp_iff]
    by_cases hac : cmpKey ci a < cmpKey ci c
    · exact .inl hac
    · exact .inr (List.lt_of_le_of_lt (List.not_lt.mp hac) hab)

/-- Names the comparison does not tell apart. -/
abbrev sameName (ci : Bool) (a b : Str) : Bool := equivKeys (keyFileCmp ci) a b

/-! ## Sections -/

/-- `KeyFileValues`: keys are compared with case in every section. -/
abbrev KeyFileValues := SortedMap Str Str (keyFileCmp false)

/-- A node of `Sections::_map`; `id` stands for its address. -/
structure Node where
  id : Nat
  values : KeyFileValues

/-- `Sections`; `fresh` is the next address. -/
structure Sections (ci : Bool) where
  map : SortedMap Str Node (keyFileCmp ci) := .empty
  ordered : List Nat := []
  fresh : Nat := 0

namespace Sections

variable {ci : Bool}

/-- What an iterator points to. -/
def deref (S : Sections ci) (it : Nat) : Option (Str × Node) :=
  S.map.entries.find? fun e => e.2.id = it

/-- The nodes in the order of `Enumeration`. -/
def nodes (S : Sections ci) : List (Str × Node) := S.ordered.filterMap S.deref

/-- The sections in the order of `Enumeration`, with their values. -/
def enumeration (S : Sections ci) : List (Str × KeyFileValues) :=
  S.nodes.map fun e => (e.1, e.2.values)

/-- `Find`. -/
def find (S : Sections ci) (name : Str) : Option KeyFileValues :=
  (S.map.find? name).map fun e => e.2.values

/-- The values of a node are changed. -/
def modifyValues (S : Sections ci) (it : Nat) (f : KeyFileValues → KeyFileValues) : Sections ci :=
  { S with
    map := S.map.mapValues fun _ n => if n.id = it then { n with values := f n.values } else n }

/-- `_map.emplace(name, KeyFileValues())`: the map, and an iterator to the section. -/
def emplace (S : Sections ci) (name : Str) : Sections ci × Nat :=
  match S.map.find? name with
  | some e => (S, e.2.id)
  | none =>
      ({ S with map := S.map.emplace name ⟨S.fresh, .empty⟩, fresh := S.fresh + 1 }, S.fresh)

/-- `Ensure`; with an iterator to the section. -/
def ensure (S : Sections ci) (name : Str) : Sections ci × Nat :=
  let (S1, it) := S.emplace name
  if S.map.find? name = none then ({ S1 with ordered := S1.ordered ++ [it] }, it) else (S1, it)

/-- A node is erased from the map. -/
def eraseNode (S : Sections ci) (it : Nat) : Sections ci :=
  { S with map := S.map.filter fun e => e.2.id ≠ it }

/-- An iterator and the node it points to are erased. -/
def removeNode (S : Sections ci) (it : Nat) : Sections ci :=
  { S with ordered := S.ordered.erase it }.eraseNode it

/-- `Remove`. -/
def remove (S : Sections ci) (name : Str) : Sections ci × Bool :=
  match S.map.find? name with
  | none => (S, false)
  | some e => (S.removeNode e.2.id, true)

/-- `RemoveAt`, over the entries still ahead. -/
def removeAtLoop (prefix_ : Str) : List (Str × Node) → Sections ci → Sections ci × Nat
  | [], S => (S, 0)
  | e :: rest, S =>
      if e.1.length > prefix_.length ∧ prefix_.isPrefixOf e.1 then
        let (S, out) := removeAtLoop prefix_ rest (S.removeNode e.2.id)
        (S, out + 1)
      else removeAtLoop prefix_ rest S

/-- `RemoveAt`. -/
def removeAt (S : Sections ci) (prefix_ : Str) : Sections ci × Nat :=
  removeAtLoop prefix_ S.map.entries S

/-- `*oit = it`, where `oit` is the first place of `old`. -/
def replaceIt (old it : Nat) : List Nat → List Nat
  | [] => []
  | x :: xs => if x = old then it :: xs else x :: replaceIt old it xs

/-- `Rename`. When the new name is the section itself, its values are moved onto themselves; they
are erased with it. -/
def rename (S : Sections ci) (section_ newName : Str) : Sections ci × Bool :=
  match S.map.find? section_ with
  | none => (S, false)
  | some e =>
      let (S1, it) := S.emplace newName
      let S2 := { S1 with ordered := replaceIt e.2.id it S1.ordered }
      let S3 := S2.modifyValues it fun _ => e.2.values
      (S3.eraseNode e.2.id, true)

end Sections

/-! ## Escaping -/

def DQUOTE : Byte := 0x22
def BACKSLASH : Byte := 0x5C
def EQUALS : Byte := 0x3D
def CARRIAGE : Byte := 0x0D
def NEWLINE : Byte := 0x0A
def TABULATOR : Byte := 0x09
def BLANK : Byte := 0x20
def SEMICOLON : Byte := 0x3B
def HASH : Byte := 0x23
def LBRACKET : Byte := 0x5B
def RBRACKET : Byte := 0x5D

/-- `KFEscaping::Encode`, one character. -/
def encodeChar (keyName : Bool) (c : Byte) : Str :=
  if c = CARRIAGE then [BACKSLASH, 0x72]
  else if c = NEWLINE then [BACKSLASH, 0x6E]
  else if c = TABULATOR then [BACKSLASH, 0x74]
  else if c = 0 then [BACKSLASH, 0x30]
  else if c = BACKSLASH then [BACKSLASH, BACKSLASH]
  else if c = EQUALS ∧ keyName then [BACKSLASH, 0x45]
  else [c]

/-- `KFEscaping::Encode`. -/
def encode (keyName : Bool) (s : Str) : Str := DQUOTE :: s.flatMap (encodeChar keyName) ++ [DQUOTE]

/-- `ContainsEscRequiringChars`. -/
def containsEscRequiringChars (s : Str) (keyName : Bool) : Bool :=
  s.any fun c => c = CARRIAGE ∨ c = NEWLINE ∨ c = 0 ∨ (keyName ∧ c = EQUALS)

/-- The string begins and ends with a double quote. -/
def quoted (s : Str) : Bool := s.head? = some DQUOTE ∧ s.getLast? = some DQUOTE

/-- The string begins or ends with one of these. -/
def touches (s : Str) (first last : List Byte) : Bool :=
  (∃ c ∈ first, s.head? = some c) ∨ (∃ c ∈ last, s.getLast? = some c)

/-- `EncodeSection`. -/
def encodeSection (s : Str) : Str :=
  if s = [] ∨ (!quoted s ∧ !containsEscRequiringChars s false) then s else encode false s

/-- `EncodeKey`. -/
def encodeKey (s : Str) : Str :=
  if s = [] ∨ (!quoted s ∧ !containsEscRequiringChars s true
      ∧ !touches s [SEMICOLON, HASH, LBRACKET, BLANK, TABULATOR] [BLANK, TABULATOR]) then s
  else encode true s

/-- `EncodeValue`. -/
def encodeValue (s : Str) : Str :=
  if s = [] ∨ (!quoted s ∧ !containsEscRequiringChars s false
      ∧ !touches s [BLANK, TABULATOR] [BLANK, TABULATOR]) then s
  else encode false s

/-- `KFEscaping::Decode`: the character behind a backslash. -/
def decodeEscape (c : Byte) : Str :=
  if c = 0x45 then [EQUALS]
  else if c = 0x72 then [CARRIAGE]
  else if c = 0x6E then [NEWLINE]
  else if c = 0x74 then [TABULATOR]
  else if c = 0x30 then [0]
  else if c = BACKSLASH then [BACKSLASH]
  else [BACKSLASH, c]

/-- The loop of `Decode`, up to the last character. -/
def decodeLoop : Str → Str
  | [] => []
  | [_] => []
  | c :: d :: rest =>
      if c = BACKSLASH then decodeEscape d ++ decodeLoop rest else c :: decodeLoop (d :: rest)

/-- `KFEscaping::Decode`. -/
def decode (s : Str) : Str :=
  if s.length < 2 ∨ !quoted s then s else decodeLoop (s.drop 1)

/-! ## Loading -/

/-- A character `StrTrim` takes away; `strchr` finds the terminator as well. -/
def isTrimmed (spaces : List Byte) (c : Byte) : Bool := c.toNat ≤ 0x7F ∧ (c ∈ spaces ∨ c = 0)

/-- `StrTrimLeft`. -/
def strTrimLeft (spaces : List Byte) (s : Str) : Str := s.dropWhile (isTrimmed spaces)

/-- `StrTrimRight`. -/
def strTrimRight (spaces : List Byte) (s : Str) : Str :=
  (s.reverse.dropWhile (isTrimmed spaces)).reverse

/-- `StrTrim`. -/
def strTrim (spaces : List Byte) (s : Str) : Str := strTrimLeft spaces (strTrimRight spaces s)

/-- The content of a file cut at `'\n'`; behind the last one a line follows only where there is
something left. -/
def contentLines : Str → List Str
  | [] => []
  | c :: content =>
      if c = NEWLINE then [] :: contentLines content
      else
        match contentLines content with
        | [] => [[c]]
        | line :: lines => (c :: line) :: lines

/-- The variables of `LoadKeyFile`; `values` is the section that is being read. -/
structure Loader (ci : Bool) where
  kf : Sections ci := {}
  values : Option Nat := none
  reachedNamedSection : Bool := false

/-- `values = values_provider(section)`. -/
def Loader.enter {ci : Bool} (R : Loader ci) (section_ : Str) (named : Bool) : Loader ci :=
  let (kf, it) := R.kf.ensure section_
  { kf := kf, values := some it, reachedNamedSection := R.reachedNamedSection || named }

/-- `LoadKeyFile`: a line of the form `key=value`. -/
def Loader.assign {ci : Bool} (R : Loader ci) (key value : Str) : Loader ci :=
  let R := if R.values = none ∧ !R.reachedNamedSection then R.enter [] false else R
  match R.values with
  | none => R
  | some it =>
      { R with kf := R.kf.modifyValues it fun values => values.set (decode key) (decode value) }

/-- `LoadKeyFile`: a line. -/
def Loader.line {ci : Bool} (R : Loader ci) (line : Str) : Loader ci :=
  let line := strTrim [BLANK, TABULATOR, CARRIAGE] line
  match line with
  | [] => R
  | c :: rest =>
      if c = LBRACKET then
        if line.getLast? = some RBRACKET then R.enter (decode rest.dropLast) true else R
      else if c ≠ SEMICOLON ∧ c ≠ HASH then
        if EQUALS ∈ line then
          R.assign (strTrimRight [BLANK, TABULATOR] (line.takeWhile (· ≠ EQUALS)))
            (strTrimLeft [BLANK, TABULATOR] ((line.dropWhile (· ≠ EQUALS)).drop 1))
        else R
      else R

/-- `LoadKeyFile`, into sections without any. -/
def loadKeyFile (ci : Bool) (content : Str) : Sections ci :=
  ((contentLines content).foldl Loader.line ({} : Loader ci)).kf

/-! ## Saving -/

/-- `Save`: a line with a key. -/
def saveKey (e : Str × Str) : Str := encodeKey e.1 ++ EQUALS :: encodeValue e.2 ++ [NEWLINE]

/-- `Save`: a section. -/
def saveSection (e : Str × KeyFileValues) : Str :=
  LBRACKET :: encodeSection e.1 ++ [RBRACKET, NEWLINE] ++ e.2.entries.flatMap saveKey ++ [NEWLINE]

/-- What `Save` writes, piece by piece. -/
def saveContent {ci : Bool} (S : Sections ci) : Str := S.enumeration.flatMap saveSection

/-! ## `KeyFileHelper` -/

/-- The members of `KeyFileHelper`. -/
structure KeyFileHelper (ci : Bool) where
  kf : Sections ci := {}
  dirty : Bool := false

namespace KeyFileHelper

variable {ci : Bool}

/-- `Save`: what is written, if anything is. -/
def save (K : KeyFileHelper ci) (onlyIfDirty : Bool) : Option Str :=
  if onlyIfDirty ∧ !K.dirty then none else some (saveContent K.kf)

/-- `EnumSections`. -/
def enumSections (K : KeyFileHelper ci) : List Str := K.kf.enumeration.map Prod.fst

/-- `'/'`. -/
def SLASH : Byte := 0x2F

/-- What the names of the sections at `parent_section` begin with. -/
def sectionPrefix (parentSection : Str) : Str :=
  if parentSection = [SLASH] then []
  else if parentSection ≠ [] ∧ parentSection.getLast? ≠ some SLASH then parentSection ++ [SLASH]
  else parentSection

/-- Is the section below `prefix`? -/
def isAt (ci : Bool) (prefix_ name : Str) : Bool :=
  name.length > prefix_.length
    ∧ if ci then (name.take prefix_.length).map upCase = prefix_.map upCase
      else name.take prefix_.length = prefix_

/-- `EnumSectionsAt`. -/
def enumSectionsAt (K : KeyFileHelper ci) (parentSection : Str) (recursed : Bool) : List Str :=
  let prefix_ := sectionPrefix parentSection
  K.enumSections.filter fun name =>
    isAt ci prefix_ name
      && (recursed || !(SLASH ∈ ((name.drop prefix_.length).takeWhile (· ≠ 0))))

/-- `SetString`. -/
def setString (K : KeyFileHelper ci) (section_ name value : Str) : KeyFileHelper ci :=
  let (kf, it) := K.kf.ensure section_
  let old := ((kf.deref it).bind fun e => e.2.values.find? name).map Prod.snd
  if old = some value then { K with kf := kf }
  else { kf := kf.modifyValues it fun values => values.set name value, dirty := true }

/-- `RemoveKey`. -/
def removeKey (K : KeyFileHelper ci) (section_ name : Str) : KeyFileHelper ci :=
  match K.kf.map.find? section_ with
  | none => K
  | some e =>
      if e.2.values.find? name = none then K
      else { kf := K.kf.modifyValues e.2.id fun values => values.erase name, dirty := true }

/-- `RemoveSection`. -/
def removeSection (K : KeyFileHelper ci) (section_ : Str) : KeyFileHelper ci :=
  let (kf, found) := K.kf.remove section_
  { kf := kf, dirty := K.dirty || found }

/-- `RemoveSectionsAt`. -/
def removeSectionsAt (K : KeyFileHelper ci) (parentSection : Str) : KeyFileHelper ci :=
  let (kf, out) := K.kf.removeAt (sectionPrefix parentSection)
  { kf := kf, dirty := K.dirty || out ≠ 0 }

/-- `_kf.Rename`, and `_dirty` when the section was there. -/
def rename (K : KeyFileHelper ci) (src dst : Str) : KeyFileHelper ci :=
  let (kf, found) := K.kf.rename src dst
  { kf := kf, dirty := K.dirty || found }

/-- `subname.replace(0, src.size(), dst)`. -/
def subname (src dst subsection : Str) : Str := dst ++ subsection.drop src.length

/-- The loop of `RenameSection` over the subsections. -/
def renameSubsections (src dst : Str) : List Str → KeyFileHelper ci → KeyFileHelper ci
  | [], K => K
  | sub :: subs, K => renameSubsections src dst subs (K.rename sub (subname src dst sub))

/-- `RenameSection`. -/
def renameSection (K : KeyFileHelper ci) (src dst : Str) (recursed : Bool) : KeyFileHelper ci :=
  if src = dst then K
  else
    let K := K.rename src dst
    if recursed then renameSubsections src dst (K.enumSectionsAt src true) K else K

end KeyFileHelper

end Far2l.KeyFile
