/-
Far2l.Utils.KeyFileValues — the typed values of `utils/src/KeyFileHelper.cpp`:
numbers of the widths of their types, and bytes with blanks between groups.

They are texts under a key. A number is read in base 16 where its text begins with
`0x`; bytes are read into the caller's buffer or into a vector.
-/
import Far2l.Utils.IntStrConv
import Far2l.Utils.ConfigRWTheorems
import Mathlib.Data.List.TakeWhile

namespace Far2l.KeyFileTyped

open KeyFile IntStrConv

/-! ## Texts -/

/-- The two loops of `AppendHex`: the string gets as many characters as there are digits, and is
filled from its end. A number of 64 bits has at most 16 digits. -/
def hexLoop : Nat → UInt64 → Str → Str
  | 0, _, digits => digits
  | turns + 1, tmp, digits =>
      if tmp = 0 then digits else hexLoop turns (tmp / 16) (makeHexDigit (tmp % 16).toNat :: digits)

/-- `AppendHex` -/
def appendHex (s : Str) (v : UInt64) : Str :=
  if v = 0 then s ++ [0x30] else s ++ hexLoop 16 v []

/-- `ToPrefixedHex`, with the prefix of its declaration. -/
def toPrefixedHex (v : UInt64) : Str := appendHex [0x30, 0x78] v

/-- What `c_str()` shows of a value. -/
def codes (s : Str) : List Nat := (s.takeWhile (· ≠ 0)).map UInt8.toNat

/-- The value as a number, read in the base that its text tells. -/
def numberOf {α : Type} (strto : Nat → List Nat → α) (s : Str) : α :=
  if (codes s).take 2 = [0x30, 0x78] then strto 16 ((codes s).drop 2) else strto 10 (codes s)

/-- A digit and the next one. The first one alone is written too, where the text ends behind it. -/
def twoDigits (c d : Byte) : Byte := UInt8.ofNat (parseHexDigit c <<< 4 ||| parseHexDigit d)

/-- `DecodeBytes`: the buffer of `len` bytes, and how many of them have been read. -/
def decodeInto : List Byte → Str → List Byte × Nat
  | [], _ => ([], 0)
  | out, [] => (out, 0)
  | o :: out, c :: rest =>
      match skipBlanks rest with
      | [] => (UInt8.ofNat (parseHexDigit c <<< 4) :: out, 0)
      | d :: rest =>
          let r := decodeInto out (skipBlanks rest)
          (twoDigits c d :: r.1, r.2 + 1)

/-! ## `KeyFileReadHelper`, `KeyFileHelper` -/

variable {ci : Bool} (K : KeyFileHelper ci) (section_ name : Str)

/-- `GetInt` -/
def getInt (def_ : Int32) : Int32 :=
  match K.kf.value section_ name with
  | none => def_
  | some s => (numberOf IntStrConv.strtol s).toInt32

/-- `GetUInt` -/
def getUInt (def_ : UInt32) : UInt32 :=
  match K.kf.value section_ name with
  | none => def_
  | some s => (numberOf strtoul s).toUInt32

/-- `GetULL` -/
def getULL (def_ : UInt64) : UInt64 :=
  match K.kf.value section_ name with
  | none => def_
  | some s => numberOf strtoul s

/-- `GetBytes` into a buffer: what it holds then, and what is returned. The default is used only
where the section is missing. -/
def getBytes (out : List Byte) (def_ : Option (List Byte)) : List Byte × Nat :=
  match K.kf.find section_ with
  | none =>
      match def_ with
      | none => (out, 0)
      | some bytes => (bytes.take out.length, out.length)
  | some values =>
      match values.find? name with
      | none => (out, 0)
      | some e => decodeInto out e.2

/-- `std::vector::resize` -/
def resize (out : List Byte) (n : Nat) : List Byte := out.take n ++ List.replicate (n - out.length) 0

/-- `GetBytes` into a vector. -/
def getBytesVector (out : List Byte) : Bool × List Byte :=
  match K.kf.value section_ name with
  | none => (false, out)
  | some s =>
      let r := decodeInto (resize out (s.length / 2 + 1)) s
      (true, resize r.1 r.2)

/-- `SetInt` -/
def setInt (value : Int32) : KeyFileHelper ci := K.setString section_ name (toDec value.toInt)

/-- `SetUInt` -/
def setUInt (value : UInt32) : KeyFileHelper ci :=
  K.setString section_ name (toPrefixedHex value.toUInt64)

/-- `SetULL` -/
def setULL (value : UInt64) : KeyFileHelper ci := K.setString section_ name (toPrefixedHex value)

/-- `SetBytes` -/
def setBytes (buf : List Byte) (spaceInterval : Nat) : KeyFileHelper ci :=
  K.setString section_ name (encodeBytes spaceInterval 0 buf)

end Far2l.KeyFileTyped

/-! # The typed values of a key file round trip.

What has been set under a key is its value, in every state that a helper comes to:
that needs only that the nodes of the map are told apart, which also the renaming
of a section to one that is there leaves so. -/

namespace Far2l.KeyFileTyped

open KeyFile IntStrConv Numerals

/-! ## Texts of numbers -/

/-- A digit as a byte. -/
theorem codes_digit {d : Nat} (h : d < 16) :
    (makeHexDigit d).toNat = digitCode d ∧ makeHexDigit d ≠ 0 := by
  revert d
  decide

theorem codes_of_forall {s : Str} (h : ∀ c ∈ s, c ≠ 0) : codes s = s.map UInt8.toNat := by
  rw [codes, List.takeWhile_eq_self_iff.mpr fun c hc => by simpa using h c hc]

theorem map_hexNumeral {b : Nat} (hbase : 1 < b) (hle : b ≤ 16) (n : Nat) :
    (numeral makeHexDigit b n).map UInt8.toNat = numeral digitCode b n := by
  rw [map_numeral]
  exact numeral_congr hbase fun d hd => (codes_digit (Nat.lt_of_lt_of_le hd hle)).1

theorem hexNumeral_ne_zero {b : Nat} (hbase : 1 < b) (hle : b ≤ 16) (n : Nat) :
    ∀ c ∈ numeral makeHexDigit b n, c ≠ 0 := by
  intro c hc
  obtain ⟨d, hd, rfl⟩ := mem_numeral hbase hc
  exact (codes_digit (Nat.lt_of_lt_of_le hd hle)).2

theorem codes_toDec (v : Int) : codes (toDec v)
    = if v < 0 then 0x2D :: numeral digitCode 10 v.natAbs else numeral digitCode 10 v.natAbs := by
  have hmap := map_hexNumeral (b := 10) (by decide) (by decide) v.natAbs
  have hne := hexNumeral_ne_zero (b := 10) (by decide) (by decide) v.natAbs
  rw [toDec, A_toDigits]
  split
  · rw [codes_of_forall, List.map_cons, hmap]
    · rfl
    · intro c hc
      rcases List.mem_cons.mp hc with rfl | hc
      · decide
      · exact hne c hc
  · rw [codes_of_forall hne, hmap]

/-- The digits that the second loop of `AppendHex` writes. -/
theorem hexLoop_eq {turns : Nat} {tmp : UInt64} (digits : Str) (h : tmp.toNat < 16 ^ turns) :
    hexLoop turns tmp digits = ((Nat.digits 16 tmp.toNat).map makeHexDigit).reverse ++ digits := by
  induction turns generalizing tmp digits with
  | zero =>
    have hzero : tmp.toNat = 0 := by omega
    rw [hexLoop, hzero]
    rfl
  | succ turns ih =>
    rw [hexLoop]
    split
    · next hzero =>
      rw [hzero]
      rfl
    · next hzero =>
      have hpos : 0 < tmp.toNat := Nat.pos_of_ne_zero fun h => hzero (UInt64.toNat_inj.mp h)
      have hdiv : (tmp / 16).toNat = tmp.toNat / 16 := UInt64.toNat_div tmp 16
      have hmod : (tmp % 16).toNat = tmp.toNat % 16 := UInt64.toNat_mod tmp 16
      rw [ih _ (by rw [hdiv]; omega), hdiv, hmod, Nat.digits_def' (by decide) hpos, List.map_cons,
        List.reverse_cons, List.append_assoc, List.singleton_append]

theorem toPrefixedHex_eq (v : UInt64) :
    toPrefixedHex v = 0x30 :: 0x78 :: numeral makeHexDigit 16 v.toNat := by
  rw [toPrefixedHex, appendHex]
  split
  · next hzero =>
    rw [hzero]
    rfl
  · next hzero =>
    have hne : v.toNat ≠ 0 := fun h => hzero (UInt64.toNat_inj.mp h)
    rw [hexLoop_eq [] v.toNat_lt, List.append_nil, numeral_of_ne_zero hne]
    rfl

theorem codes_toPrefixedHex (v : UInt64) :
    codes (toPrefixedHex v) = 0x30 :: 0x78 :: numeral digitCode 16 v.toNat := by
  have hne := hexNumeral_ne_zero (b := 16) (by decide) (by decide) v.toNat
  rw [toPrefixedHex_eq, codes_of_forall]
  · rw [List.map_cons, List.map_cons, map_hexNumeral (by decide) (by decide)]
    rfl
  · intro c hc
    rcases List.mem_cons.mp hc with rfl | hc
    · decide
    rcases List.mem_cons.mp hc with rfl | hc
    · decide
    exact hne c hc

/-- A number of 64 bits is read from its text. -/
theorem numberOf_toPrefixedHex (v : UInt64) : numberOf strtoul (toPrefixedHex v) = v := by
  have hlt := v.toNat_lt
  have hmark : (codes (toPrefixedHex v)).take 2 = [0x30, 0x78] := by
    rw [codes_toPrefixedHex]
    rfl
  rw [numberOf, if_pos hmark, codes_toPrefixedHex]
  show strtoul 16 (numeral digitCode 16 v.toNat) = v
  rw [strtoul, scanNumber_numeral (by decide) (by decide)]
  simp only [Bool.false_eq_true, if_false]
  rw [if_neg (by omega)]
  exact UInt64.ofNat_toNat

/-- No decimal number begins like a hexadecimal one. -/
theorem codes_toDec_take (v : Int) : (codes (toDec v)).take 2 ≠ [0x30, 0x78] := by
  rw [codes_toDec]
  split
  · intro h
    cases h
  · intro h
    have hmem : (0x78 : Nat) ∈ numeral digitCode 10 v.natAbs :=
      List.mem_of_mem_take (h ▸ by decide : _ ∈ (numeral digitCode 10 v.natAbs).take 2)
    obtain ⟨d, hd, hx⟩ := mem_numeral (by decide) hmem
    exact (digitCode_plain (by omega : d < 16)).2.2.2.1 hx.symm

/-- An `int` is read from its text. -/
theorem numberOf_toDec (i : Int32) : (numberOf IntStrConv.strtol (toDec i.toInt)).toInt32 = i := by
  have hlow := i.le_toInt
  have hhigh := i.toInt_lt
  rw [numberOf, if_neg (codes_toDec_take _), codes_toDec, IntStrConv.strtol]
  have hcut : ∀ v : Int, v = i.toInt → (Int64.ofInt v).toInt32 = i := by
    rintro v rfl
    apply Int32.toInt_inj.mp
    rw [Int64.toInt_toInt32, Int64.toInt_ofInt_of_le (by omega) (by omega)]
    exact Int.bmod_eq_of_le (by omega) (by omega)
  split
  · rw [scanNumber_minus (by decide) (by decide), if_pos rfl]
    exact hcut _ (by omega)
  · rw [scanNumber_numeral (by decide) (by decide), if_neg Bool.false_ne_true]
    exact hcut _ (by omega)

/-! ## Bytes -/

/-- **`DecodeBytes` reads what `SetBytes` writes**, and leaves the buffer behind it. -/
theorem decodeInto_encodeBytes (interval : Nat) : ∀ (buf out : List Byte) (i : Nat),
    buf.length ≤ out.length →
    decodeInto out (skipBlanks (encodeBytes interval i buf)) = (buf ++ out.drop buf.length, buf.length)
  | [], [], _, _ => rfl
  | [], _ :: _, _, _ => rfl
  | _ :: _, [], _, h => absurd h (Nat.not_succ_le_zero _)
  | b :: buf, o :: out, i, h => by
    obtain ⟨hhigh, hlow, hbyte⟩ := nibbles b
    have ih := decodeInto_encodeBytes interval buf out (i + 1) (Nat.le_of_succ_le_succ h)
    rw [skipBlanks_encodeBytes, decodeInto, skipBlanks_digit hlow]
    dsimp only
    rw [ih, twoDigits, (makeHexDigit_spec hhigh).1, (makeHexDigit_spec hlow).1, hbyte]
    rfl

theorem decodeInto_encoded (interval : Nat) {buf out : List Byte} (h : buf.length ≤ out.length) :
    decodeInto out (encodeBytes interval 0 buf) = (buf ++ out.drop buf.length, buf.length) := by
  rw [← skipBlanks_encodeBytes_zero]
  exact decodeInto_encodeBytes interval buf out 0 h

/-! ## The nodes of the map -/

section Nodes

variable {ci : Bool} {S : Sections ci} {K : KeyFileHelper ci}

/-- The nodes are told apart by their numbers. -/
structure Distinct (S : Sections ci) : Prop where
  nodup : S.ids.Nodup
  fresh : ∀ it ∈ S.ids, it < S.fresh

theorem Distinct.of_sublist {T : Sections ci} (h : Distinct S) (hids : T.ids.Sublist S.ids)
    (hfresh : T.fresh = S.fresh) : Distinct T :=
  ⟨h.nodup.sublist hids, fun it hit => hfresh ▸ h.fresh it (hids.subset hit)⟩

theorem Distinct.modifyValues (h : Distinct S) (it : Nat) (f : KeyFileValues → KeyFileValues) :
    Distinct (S.modifyValues it f) :=
  h.of_sublist (by rw [Sections.ids_modifyValues]) rfl

theorem Distinct.eraseNode (h : Distinct S) (it : Nat) : Distinct (S.eraseNode it) :=
  h.of_sublist (by rw [Sections.ids_eraseNode]; exact List.filter_sublist) rfl

theorem Distinct.removeNode (h : Distinct S) (it : Nat) : Distinct (S.removeNode it) :=
  Distinct.eraseNode (S := { S with ordered := S.ordered.erase it }) ⟨h.nodup, h.fresh⟩ it

theorem Distinct.removeAtLoop (prefix_ : Str) : ∀ (rest : List (Str × KeyFile.Node)) {S : Sections ci},
    Distinct S → Distinct (Sections.removeAtLoop prefix_ rest S).1
  | [], _, h => h
  | e :: rest, S, h => by
    rw [Sections.removeAtLoop]
    split
    · exact Distinct.removeAtLoop prefix_ rest (h.removeNode e.2.id)
    · exact Distinct.removeAtLoop prefix_ rest h

theorem Distinct.emplace (h : Distinct S) (name : Str) : Distinct (S.emplace name).1 := by
  cases hname : S.map.find? name with
  | some e =>
    rw [Sections.emplace_some hname]
    exact h
  | none =>
    have hperm := Sections.ids_emplace hname
    have hnew : S.fresh ∉ S.ids := fun hmem => Nat.lt_irrefl _ (h.fresh _ hmem)
    refine ⟨hperm.nodup_iff.mpr (List.nodup_cons.mpr ⟨hnew, h.nodup⟩), fun it hit => ?_⟩
    have hfresh : (S.emplace name).1.fresh = S.fresh + 1 := by rw [Sections.emplace_none hname]
    rcases List.mem_cons.mp (hperm.mem_iff.mp hit) with rfl | hit
    · omega
    · have := h.fresh it hit
      omega

theorem Distinct.ensure (h : Distinct S) (name : Str) : Distinct (S.ensure name).1 := by
  have hemplace := h.emplace name
  rw [Sections.ensure]
  dsimp only
  split
  · exact ⟨hemplace.nodup, hemplace.fresh⟩
  · exact hemplace

theorem Distinct.rename (h : Distinct S) (section_ newName : Str) : Distinct (S.rename section_ newName).1 := by
  rw [Sections.rename]
  cases S.map.find? section_ with
  | none => exact h
  | some e =>
    have hemplace := h.emplace newName
    have hvector : Distinct { (S.emplace newName).1 with
        ordered := Sections.replaceIt e.2.id (S.emplace newName).2 (S.emplace newName).1.ordered } :=
      ⟨hemplace.nodup, hemplace.fresh⟩
    exact (hvector.modifyValues (S.emplace newName).2 fun _ => e.2.values).eraseNode e.2.id

theorem Distinct.renameSubsections (src dst : Str) : ∀ (subs : List Str) {K : KeyFileHelper ci},
    Distinct K.kf → Distinct (KeyFileHelper.renameSubsections src dst subs K).kf
  | [], _, h => h
  | sub :: subs, K, h =>
    Distinct.renameSubsections src dst subs (K := K.rename sub (KeyFileHelper.subname src dst sub)) (h.rename _ _)

/-- Every operation leaves them so. -/
theorem Distinct.perform (h : Distinct K.kf) (op : KeyFileHelper.Op) : Distinct (K.perform op).kf := by
  cases op with
  | setString section_ name value =>
    show Distinct (K.setString section_ name value).kf
    simp only [KeyFileHelper.setString]
    split
    · exact h.ensure section_
    · exact (h.ensure section_).modifyValues _ fun values => values.set name value
  | removeKey section_ name =>
    show Distinct (K.removeKey section_ name).kf
    rw [KeyFileHelper.removeKey]
    cases K.kf.map.find? section_ with
    | none => exact h
    | some e =>
      dsimp only
      split
      · exact h
      · exact h.modifyValues e.2.id fun values => values.erase name
  | removeSection section_ =>
    show Distinct (K.kf.remove section_).1
    rw [Sections.remove]
    cases K.kf.map.find? section_ with
    | none => exact h
    | some e => exact h.removeNode e.2.id
  | removeSectionsAt parentSection => exact Distinct.removeAtLoop _ _ h
  | renameSection src dst recursed =>
    show Distinct (K.renameSection src dst recursed).kf
    rw [KeyFileHelper.renameSection]
    split
    · exact h
    · dsimp only
      split
      · exact Distinct.renameSubsections _ _ _ (h.rename src dst)
      · exact h.rename src dst

/-- The iterator of a section that is entered points to it. -/
theorem Distinct.deref_ensure (h : Distinct S) (name : Str) :
    ∃ e, (S.ensure name).1.map.find? name = some e ∧ (S.ensure name).2 = e.2.id
      ∧ (S.ensure name).1.deref (S.ensure name).2 = some e := by
  obtain ⟨e, he, hit⟩ : ∃ e, (S.ensure name).1.map.find? name = some e ∧ (S.ensure name).2 = e.2.id := by
    cases hname : S.map.find? name with
    | some e =>
      rw [Sections.ensure_some hname]
      exact ⟨e, hname, rfl⟩
    | none =>
      rw [Sections.ensure_none hname, Sections.emplace_none hname]
      refine ⟨(name, ⟨S.fresh, .empty⟩), ?_, rfl⟩
      show (S.map.emplace name _).find? name = _
      rw [SortedMap.find?_emplace hname, if_pos (SortedMap.equiv_refl name)]
  refine ⟨e, he, hit, ?_⟩
  have hmem := (SortedMap.find?_some he).1
  have hnodup := (h.ensure name).nodup
  cases hderef : (S.ensure name).1.deref (S.ensure name).2 with
  | none =>
    rw [Sections.deref, List.find?_eq_none] at hderef
    exact absurd (decide_eq_true hit.symm) (hderef e hmem)
  | some x =>
    have hid : x.2.id = e.2.id := by
      have := List.find?_some hderef
      rw [← hit]
      exact of_decide_eq_true this
    exact congrArg some (List.inj_on_of_nodup_map hnodup (List.mem_of_find?_eq_some hderef) hmem hid)

/-- **What has been set is the value.** -/
theorem Distinct.value_setString (h : Distinct K.kf) (section_ name value : Str) :
    (K.setString section_ name value).kf.value section_ name = some value := by
  obtain ⟨e, he, hit, hderef⟩ := h.deref_ensure section_
  simp only [KeyFileHelper.setString, hderef, Option.bind_some]
  split
  · next hsame =>
    rw [Sections.value, Sections.find, he]
    exact hsame
  · have hfind : ((K.kf.ensure section_).1.modifyValues (K.kf.ensure section_).2
        fun values => values.set name value).find section_ = some (e.2.values.set name value) := by
      rw [Sections.find, Sections.modifyValues, SortedMap.find?_mapValues, he, hit]
      simp
    rw [Sections.value, hfind, Option.bind_some]
    show (e.2.values.set name value).value? name = some value
    rw [SortedMap.value?_set, if_pos (SortedMap.equiv_refl name)]

theorem Distinct.find_setString (h : Distinct K.kf) (section_ name value : Str) :
    ∃ values e, (K.setString section_ name value).kf.find section_ = some values
      ∧ values.find? name = some e ∧ e.2 = value := by
  have hvalue := h.value_setString section_ name value
  rw [Sections.value, Option.bind_eq_some_iff] at hvalue
  obtain ⟨values, hfind, hmap⟩ := hvalue
  obtain ⟨e, he, hval⟩ := Option.map_eq_some_iff.mp hmap
  exact ⟨values, e, hfind, he, hval⟩

end Nodes

/-! ## Round trips -/

theorem length_resize (out : List Byte) (n : Nat) : (resize out n).length = n := by
  simp only [resize, List.length_append, List.length_take, List.length_replicate]
  omega

theorem resize_append (b rest : List Byte) : resize (b ++ rest) b.length = b := by
  have hnone : b.length - (b ++ rest).length = 0 := by
    rw [List.length_append]
    omega
  rw [resize, List.take_left, hnone, List.replicate_zero, List.append_nil]

/-- **Typed values round trip** in every state that a helper of a file comes to: numbers of each
width, and bytes in groups of any size, whatever has been under the key. -/
theorem reach_typed (ci : Bool) (content : Str) (dirty : Bool) {K : KeyFileHelper ci}
    (h : Reach KeyFileHelper.perform (fun _ _ => True) ⟨loadKeyFile ci content, dirty⟩ K) (section_ name : Str) :
    (∀ i def_, getInt (setInt K section_ name i) section_ name def_ = i)
    ∧ (∀ u def_, getUInt (setUInt K section_ name u) section_ name def_ = u)
    ∧ (∀ v def_, getULL (setULL K section_ name v) section_ name def_ = v)
    ∧ ∀ (b : List Byte) (spaceInterval : Nat),
      (∀ out def_, b.length ≤ out.length →
        getBytes (setBytes K section_ name b spaceInterval) section_ name out def_
          = (b ++ out.drop b.length, b.length))
      ∧ ∀ out, getBytesVector (setBytes K section_ name b spaceInterval) section_ name out = (true, b) := by
  have hstart : Distinct (loadKeyFile ci content) :=
    ⟨(ordered_loadKeyFile ci content).nodup, (ordered_loadKeyFile ci content).fresh⟩
  have hdistinct : Distinct K.kf :=
    Reach.invariant (I := fun K : KeyFileHelper ci => Distinct K.kf) h hstart fun K op hK _ => Distinct.perform hK op
  have hvalue := fun value => hdistinct.value_setString section_ name value
  refine ⟨fun i def_ => ?_, fun u def_ => ?_, fun v def_ => ?_, fun b interval =>
    ⟨fun out def_ hout => ?_, fun out => ?_⟩⟩
  · rw [getInt, setInt, hvalue]
    exact numberOf_toDec i
  · rw [getUInt, setUInt, hvalue]
    show (numberOf strtoul (toPrefixedHex u.toUInt64)).toUInt32 = u
    rw [numberOf_toPrefixedHex]
    exact UInt32.toUInt32_toUInt64 u
  · rw [getULL, setULL, hvalue]
    exact numberOf_toPrefixedHex v
  · obtain ⟨values, e, hfind, he, hval⟩ :=
      hdistinct.find_setString section_ name (encodeBytes interval 0 b)
    have hread : getBytes (setBytes K section_ name b interval) section_ name out def_ = decodeInto out e.2 := by
      simp only [getBytes, setBytes, hfind, he]
    rw [hread, hval, decodeInto_encoded interval hout]
  · have hlength := length_encodeBytes interval b 0
    have hfits : b.length ≤ (resize out ((encodeBytes interval 0 b).length / 2 + 1)).length := by
      rw [length_resize]
      omega
    rw [getBytesVector, setBytes, hvalue]
    dsimp only
    rw [decodeInto_encoded interval hfits, resize_append]

/-- Bytes in groups of two under the key of a number. -/
theorem reach_typed_overwritten :
    let K := (⟨loadKeyFile false [], false⟩ : KeyFileHelper false).perform (.setString [0x61] [0x6B] (toDec 5))
    getBytesVector (setBytes K [0x61] [0x6B] [1, 2, 0xFF] 2) [0x61] [0x6B] [] = (true, [1, 2, 0xFF]) := by
  intro K
  have hreach : Reach KeyFileHelper.perform (fun _ _ => True) ⟨loadKeyFile false [], false⟩ K :=
    .step (KeyFileHelper.Op.setString [0x61] [0x6B] (toDec 5)) .start trivial
  exact ((reach_typed false [] false hreach [0x61] [0x6B]).2.2.2 [1, 2, 0xFF] 2).2 []

end Far2l.KeyFileTyped
