/-
Far2l.WinPort.StringCodepagesTheorems — conversions to a Unicode code page and
back.

A string is followed through one pair of templates for all code pages: how its
characters are spelled in the elements of the page, how these lie in memory, and
what is reversed on the way.
-/
import Mathlib.Data.List.Basic
import Far2l.WinPort.StringCodepages

namespace Far2l.WinPort

open Utf

variable {α β : Type}

/-! ## Arrays -/

namespace BytesType

variable (T : BytesType α)

theorem memory_length : ∀ vs : List α, (T.memory vs).length = vs.length * T.size
  | [] => by rw [memory, List.flatMap_nil, List.length_nil, List.length_nil, Nat.zero_mul]
  | v :: vs => by
    have hrest := memory_length vs
    rw [memory] at hrest ⊢
    rw [List.flatMap_cons, List.length_append, hrest, T.store_length, List.length_cons,
      Nat.succ_mul, Nat.add_comm]

/-- An array is its first element and the array behind it. -/
theorem array_succ (bytes : List Byte) (n : Nat) :
    T.array bytes (n + 1) = T.load (bytes.take T.size) :: T.array (bytes.drop T.size) n := by
  rw [array, array, List.range_succ_eq_map, List.map_cons, List.map_map, Nat.zero_mul, List.drop_zero]
  congr 1
  refine List.map_congr_left fun i _ => ?_
  rw [Function.comp_apply, List.drop_drop, Nat.succ_mul, Nat.add_comm]

/-- **What is stored is read back.** -/
theorem array_memory (beyond : List Byte) :
    ∀ vs : List α, T.array (T.memory vs ++ beyond) vs.length = vs
  | [] => rfl
  | v :: vs => by
    have hsplit : T.memory (v :: vs) ++ beyond = T.store v ++ (T.memory vs ++ beyond) := by
      rw [memory, memory, List.flatMap_cons, List.append_assoc]
    rw [hsplit, List.length_cons, array_succ, ← T.store_length v, List.take_left, List.drop_left,
      T.load_store, array_memory beyond vs]

theorem store_revBytes (v : α) : T.store (T.revBytes v) = (T.store v).reverse := by
  rw [revBytes, T.store_load]
  rw [List.length_reverse, T.store_length]

theorem revBytes_revBytes (v : α) : T.revBytes (T.revBytes v) = v := by
  rw [revBytes, store_revBytes, List.reverse_reverse, T.load_store]

theorem map_revBytes_twice (vs : List α) : (vs.map T.revBytes).map T.revBytes = vs := by
  rw [List.map_map]
  refine (List.map_congr_left fun v _ => ?_).trans (List.map_id vs)
  exact T.revBytes_revBytes v

theorem memory_flatMap (w : List Char) (chs : Char → List α) :
    T.memory (w.flatMap chs) = w.flatMap fun c => T.memory (chs c) := by
  rw [memory, List.flatMap_assoc]
  rfl

end BytesType

/-! ## The templates -/

section Templates

variable {T : BytesType α} {chs : Char → List α} {w : List Char} {byterev : Bool} {flags : Nat}

/-- The elements as they are stored. -/
def arranged (T : BytesType α) (byterev : Bool) (vs : List α) : List α :=
  if byterev then vs.map T.revBytes else vs

theorem arranged_length (vs : List α) : (arranged T byterev vs).length = vs.length := by
  rw [arranged]
  split
  · exact List.length_map _
  · rfl

theorem arranged_twice (vs : List α) : arranged T byterev (arranged T byterev vs) = vs := by
  cases byterev with
  | true => exact T.map_revBytes_twice vs
  | false => rfl

/-- A wide string is spelled by its characters. -/
theorem L_eq_flatMap (w : List Char) : L w = w.flatMap fun c => [c.val] :=
  List.map_eq_flatMap

theorem flatMap_length_pos (hw : w ≠ []) (hne : ∀ c, chs c ≠ []) :
    0 < (w.flatMap chs).length := by
  cases w with
  | nil => exact absurd rfl hw
  | cons c w =>
    have hpos := List.length_pos_iff.mpr (hne c)
    rw [List.flatMap_cons, List.length_append]
    omega

/-- `TranscodeUTF` from one spelling to the other. -/
theorem transcodeUTF_spelled {S : BytesType α} {T : BytesType β} {chs : Char → List α}
    {chs' : Char → List β} (hS : ∀ c, Spelled S.codec c.toNat (chs c))
    (hT : ∀ c, Spelled T.codec c.toNat (chs' c)) {dstlen : Nat} (hpos : dstlen ≠ 0)
    (hfits : (w.flatMap chs').length ≤ dstlen) :
    transcodeUTF S T flags (w.flatMap chs) dstlen
      = { ret := (w.flatMap chs').length, stored := w.flatMap chs' } := by
  have hroom : ∀ n ∈ some dstlen, (w.flatMap chs').length ≤ n := by
    intro n hn
    rw [← Option.some.inj hn]
    exact hfits
  rw [transcodeUTF]
  dsimp only
  rw [if_neg hpos, utfConvert_spelled hS hT hroom]
  rfl

/-- `Wide2Bytes` -/
theorem wide2Bytes_spelled (hT : ∀ c, Spelled T.codec c.toNat (chs c)) (hsize : T.size ≠ uint32.size)
    (hw : w ≠ []) {beyond : List WChar} {dstlen : Int} {bytes : List Byte}
    (hbytes : T.memory (arranged T byterev (w.flatMap chs)) = bytes) (hfits : bytes.length ≤ dstlen) :
    wide2Bytes T byterev flags (L w ++ beyond) w.length dstlen
      = { ret := bytes.length, stored := bytes } := by
  have hlength : bytes.length = (w.flatMap chs).length * T.size := by
    rw [← hbytes, T.memory_length, arranged_length]
  have hpos := flatMap_length_pos hw fun c => (hT c).ne_nil
  have hcount : (w.flatMap chs).length ≤ dstlen.toNat / T.size := by
    rw [Nat.le_div_iff_mul_le T.size_pos]
    omega
  have htake : (L w ++ beyond).take w.length = w.flatMap fun c => [c.val] := by
    have hlen : (L w).length = w.length := List.length_map _
    rw [← hlen, List.take_left, L_eq_flatMap]
  rw [wide2Bytes]
  dsimp only
  have hlen : ¬ (w.length : Int) < 0 := by omega
  rw [if_neg hlen, Int.toNat_natCast, if_neg (by omega), if_neg hsize, htake,
    transcodeUTF_spelled spelled32 hT (by omega) hcount]
  have hret : ((w.flatMap chs).length : Int) > 0 := by omega
  have hne : dstlen.toNat / T.size ≠ 0 := by omega
  rw [if_pos hret]
  have hsum : ((w.flatMap chs).length : Int) * T.size = bytes.length := by
    rw [hlength, Int.natCast_mul]
  rw [hsum]
  cases byterev with
  | true =>
    rw [if_pos ⟨hret, rfl, hne⟩]
    exact congrArg (fun stored => ({ ret := bytes.length, stored } : Converted Byte)) hbytes
  | false =>
    rw [if_neg fun h => Bool.false_ne_true h.2.1]
    exact congrArg (fun stored => ({ ret := bytes.length, stored } : Converted Byte)) hbytes

/-- `Wide2Bytes`, the shortcut -/
theorem wide2Bytes_noop (hw : w ≠ []) {beyond : List WChar} {dstlen : Int} {bytes : List Byte}
    (hbytes : uint32.memory (arranged uint32 byterev (L w)) = bytes) (hfits : bytes.length ≤ dstlen) :
    wide2Bytes uint32 byterev flags (L w ++ beyond) w.length dstlen
      = { ret := bytes.length, stored := bytes } := by
  have hwlen : (L w).length = w.length := List.length_map _
  have hlength : bytes.length = w.length * uint32.size := by
    rw [← hbytes, uint32.memory_length, arranged_length, hwlen]
  have hpos := List.length_pos_iff.mpr hw
  have hcount : w.length ≤ dstlen.toNat / uint32.size := by
    rw [Nat.le_div_iff_mul_le uint32.size_pos]
    omega
  have hload : uint32.array (uint32.memory (L w)) w.length = L w := by
    have hback := uint32.array_memory [] (L w)
    rwa [List.append_nil, hwlen] at hback
  rw [wide2Bytes]
  dsimp only
  have hlen : ¬ (w.length : Int) < 0 := by omega
  have hne : dstlen.toNat / uint32.size ≠ 0 := by omega
  rw [if_neg hlen, Int.toNat_natCast, if_neg (by omega), if_pos rfl]
  have hret : (w.length : Int) > 0 := by omega
  rw [if_pos hret, if_pos hne, ← hwlen, List.take_left, hwlen, hload]
  have hsum : (w.length : Int) * uint32.size = bytes.length := by
    rw [hlength, Int.natCast_mul]
  rw [hsum]
  cases byterev with
  | true =>
    rw [if_pos ⟨hret, rfl, hne⟩]
    exact congrArg (fun stored => ({ ret := bytes.length, stored } : Converted Byte)) hbytes
  | false =>
    rw [if_neg fun h => Bool.false_ne_true h.2.1]
    exact congrArg (fun stored => ({ ret := bytes.length, stored } : Converted Byte)) hbytes

/-- `Bytes2Wide` -/
theorem bytes2Wide_spelled (hT : ∀ c, Spelled T.codec c.toNat (chs c)) (hsize : T.size ≠ uint32.size)
    (hw : w ≠ []) {beyond bytes : List Byte} {dstlen : Int}
    (hbytes : T.memory (arranged T byterev (w.flatMap chs)) = bytes) (hfits : w.length ≤ dstlen) :
    bytes2Wide T byterev flags (bytes ++ beyond) bytes.length dstlen
      = { ret := w.length, stored := L w } := by
  subst hbytes
  have hpos := flatMap_length_pos hw fun c => (hT c).ne_nil
  have hwpos := List.length_pos_iff.mpr hw
  have hcount : (T.memory (arranged T byterev (w.flatMap chs))).length / T.size
      = (arranged T byterev (w.flatMap chs)).length := by
    rw [T.memory_length, Nat.mul_div_cancel _ T.size_pos]
  have hwide : (w.flatMap fun c => [c.val]).length ≤ dstlen.toNat := by
    have hlen : (L w).length = w.length := List.length_map _
    rw [← L_eq_flatMap, hlen]
    omega
  have hlen : (L w).length = w.length := List.length_map _
  have htrans : transcodeUTF T uint32 flags (w.flatMap chs) dstlen.toNat
      = { ret := w.length, stored := L w } := by
    rw [transcodeUTF_spelled hT spelled32 (by omega) hwide, ← L_eq_flatMap, hlen]
  rw [bytes2Wide]
  have hnonneg : ¬ ((T.memory (arranged T byterev (w.flatMap chs))).length : Int) < 0 := by omega
  rw [if_neg hnonneg, Int.toNat_natCast, hcount, if_neg hsize, T.array_memory]
  have helements : (arranged T byterev (w.flatMap chs)).length > 0 := by
    rw [arranged_length]
    exact hpos
  cases byterev with
  | true =>
    have hback : arranged T true (arranged T true (w.flatMap chs)) = w.flatMap chs :=
      arranged_twice _
    rw [if_pos ⟨rfl, helements⟩]
    exact (congrArg (fun vs => transcodeUTF T uint32 flags vs dstlen.toNat) hback).trans htrans
  | false =>
    rw [if_neg fun h => Bool.false_ne_true h.1]
    exact htrans

/-- `Bytes2Wide`, the shortcut: what the bytes were reversed for is not undone. -/
theorem bytes2Wide_noop (hw : w ≠ []) {beyond bytes : List Byte} {dstlen : Int}
    (hbytes : uint32.memory (arranged uint32 byterev (L w)) = bytes) (hfits : w.length ≤ dstlen) :
    bytes2Wide uint32 byterev flags (bytes ++ beyond) bytes.length dstlen
      = { ret := w.length, stored := arranged uint32 byterev (L w) } := by
  subst hbytes
  have hwpos := List.length_pos_iff.mpr hw
  have hlen : (arranged uint32 byterev (L w)).length = w.length := by
    rw [arranged_length]
    exact List.length_map _
  have hcount : (uint32.memory (arranged uint32 byterev (L w))).length / uint32.size
      = (arranged uint32 byterev (L w)).length := by
    rw [uint32.memory_length, Nat.mul_div_cancel _ uint32.size_pos]
  rw [bytes2Wide]
  have hnonneg : ¬ ((uint32.memory (arranged uint32 byterev (L w))).length : Int) < 0 := by omega
  rw [if_neg hnonneg, Int.toNat_natCast, hcount, if_pos rfl, if_pos (by omega),
    if_neg (by omega), uint32.array_memory, hlen]

end Templates

/-! ## The code pages -/

section Pages

variable {w : List Char} {flags : Nat}

/-- The bytes of one character, reversed or not. -/
theorem memory_arranged (T : BytesType α) (byterev : Bool) (w : List Char) (chs : Char → List α) :
    T.memory (arranged T byterev (w.flatMap chs))
      = w.flatMap fun c => (chs c).flatMap fun v =>
          if byterev then (T.store v).reverse else T.store v := by
  have harranged : arranged T byterev (w.flatMap chs) = w.flatMap fun c => arranged T byterev (chs c) := by
    cases byterev with
    | true => exact List.map_flatMap
    | false => rfl
  rw [harranged, T.memory_flatMap]
  refine congrArg (fun f => List.flatMap f w) (funext fun c => ?_)
  cases byterev with
  | true =>
    show (List.map T.revBytes (chs c)).flatMap T.store = (chs c).flatMap fun v => (T.store v).reverse
    rw [List.flatMap_map]
    exact congrArg (fun f => List.flatMap f (chs c)) (funext T.store_revBytes)
  | false => rfl

theorem encode_utf8 (w : List Char) :
    uint8.memory (arranged uint8 false (w.flatMap String.utf8EncodeChar)) = encode .CP_UTF8 w := by
  rw [memory_arranged, encode]
  refine congrArg (fun f => List.flatMap f w) (funext fun c => ?_)
  have hstore : (fun v : Byte => if false = true then (uint8.store v).reverse else uint8.store v)
      = fun v => [v] := by
    funext v
    show [UInt8.ofNat (v.toNat % 256)] = [v]
    rw [Nat.mod_eq_of_lt v.toNat_lt, UInt8.ofNat_toNat]
  rw [hstore, List.flatMap_singleton']
  rfl

theorem store_unit {c : Char} {unit : Nat} (h : unit ∈ utf16Units c) :
    uint16.store (UInt16.ofNat unit) = bytesOf 2 unit := by
  have hunit : (UInt16.ofNat unit).toNat = unit := UInt16.toNat_ofNat_of_lt' (utf16Units_lt h)
  show bytesOf 2 (UInt16.ofNat unit).toNat = _
  rw [hunit]

theorem encode_utf16 (w : List Char) (byterev : Bool) :
    uint16.memory (arranged uint16 byterev (w.flatMap fun c => (utf16Units c).map UInt16.ofNat))
      = encode (if byterev then .CP_UTF16BE else .CP_UTF16LE) w := by
  rw [memory_arranged, encode]
  refine congrArg (fun f => List.flatMap f w) (funext fun c => ?_)
  rw [List.flatMap_map]
  cases byterev with
  | true =>
    refine List.flatMap_congr fun unit hunit => ?_
    show (uint16.store (UInt16.ofNat unit)).reverse = _
    rw [store_unit hunit]
  | false =>
    refine List.flatMap_congr fun unit hunit => ?_
    exact store_unit hunit

theorem encode_utf32 (w : List Char) (byterev : Bool) :
    uint32.memory (arranged uint32 byterev (L w))
      = encode (if byterev then .CP_UTF32BE else .CP_UTF32LE) w := by
  rw [L_eq_flatMap, memory_arranged, encode]
  refine congrArg (fun f => List.flatMap f w) (funext fun c => ?_)
  rw [List.flatMap_singleton]
  cases byterev with
  | true => rfl
  | false => rfl

theorem encode_length_pos (page : CodePage) (hw : w ≠ []) : 0 < (encode page w).length := by
  refine flatMap_length_pos hw fun c => ?_
  cases page with
  | CP_UTF8 => exact (spelled8 c).ne_nil
  | CP_UTF16LE =>
    rw [encodeChar, utf16Units]
    split
    · exact List.cons_ne_nil _ _
    · exact List.cons_ne_nil _ _
  | CP_UTF16BE =>
    rw [encodeChar, utf16Units]
    split
    · exact List.cons_ne_nil _ _
    · exact List.cons_ne_nil _ _
  | CP_UTF32LE => exact List.cons_ne_nil _ _
  | CP_UTF32BE => exact List.cons_ne_nil _ _

/-- The templates are chosen for the page. -/
theorem toPage_encode (page : CodePage) (hw : w ≠ []) {beyond : List WChar} {dstlen : Int}
    (hfits : (encode page w).length ≤ dstlen) :
    toPage page flags (L w ++ beyond) w.length dstlen false false
      = { ret := (encode page w).length, stored := encode page w } := by
  cases page with
  | CP_UTF8 => exact wide2Bytes_spelled spelled8 (by decide) hw (encode_utf8 w) hfits
  | CP_UTF16LE => exact wide2Bytes_spelled spelled16 (by decide) hw (encode_utf16 w false) hfits
  | CP_UTF16BE => exact wide2Bytes_spelled spelled16 (by decide) hw (encode_utf16 w true) hfits
  | CP_UTF32LE => exact wide2Bytes_noop hw (encode_utf32 w false) hfits
  | CP_UTF32BE => exact wide2Bytes_noop hw (encode_utf32 w true) hfits

/-- **`WideCharToMultiByte` writes the standard encoding.** -/
theorem wideCharToMultiByte_encode (page : CodePage) (hw : w ≠ []) {beyond : List WChar} {dstlen : Int}
    (hfits : (encode page w).length ≤ dstlen) :
    wideCharToMultiByte page flags (L w ++ beyond) w.length dstlen false false
      = { ret := (encode page w).length, stored := encode page w } := by
  have hwpos := List.length_pos_iff.mpr hw
  have hlen : ¬ (w.length : Int) < 0 := by omega
  rw [wideCharToMultiByte, if_neg (by omega), if_neg hlen]
  dsimp only
  rw [toPage_encode page hw hfits]
  exact if_neg (by dsimp only; omega)

/-- `TranscodeUTF` where the spelling does not fit in. -/
theorem transcodeUTF_overflow {S : BytesType α} {T : BytesType β} {chs : Char → List α}
    {chs' : Char → List β} (hS : ∀ c, Spelled S.codec c.toNat (chs c))
    (hT : ∀ c, Spelled T.codec c.toNat (chs' c)) {dstlen : Nat} (hpos : dstlen ≠ 0)
    (hlt : dstlen < (w.flatMap chs').length) :
    (transcodeUTF S T flags (w.flatMap chs) dstlen).ret = 0 := by
  obtain ⟨filled, hconv⟩ := utfConvert_overflow hS hT hlt T.replacement
    (decide (flags &&& MB_ERR_INVALID_CHARS ≠ 0))
  rw [transcodeUTF]
  dsimp only
  rw [if_neg hpos, hconv]
  rfl

/-- **UTF-8 that does not fit in**: nothing is said to have been written. -/
theorem wideCharToMultiByte_utf8_overflow (hw : w ≠ []) {beyond : List WChar} {dstlen : Nat}
    (hpos : dstlen ≠ 0) (hlt : dstlen < (encode .CP_UTF8 w).length) :
    (wideCharToMultiByte .CP_UTF8 flags (L w ++ beyond) w.length dstlen false false).ret = 0 := by
  have hwpos := List.length_pos_iff.mpr hw
  have hlen : ¬ (w.length : Int) < 0 := by omega
  have htake : (L w ++ beyond).take w.length = w.flatMap fun c => [c.val] := by
    have hlength : (L w).length = w.length := List.length_map _
    rw [← hlength, List.take_left, L_eq_flatMap]
  have hdone : (transcodeUTF uint32 uint8 flags (w.flatMap fun c => [c.val]) dstlen).ret = 0 :=
    transcodeUTF_overflow spelled32 spelled8 hpos hlt
  have hcount : dstlen / uint8.size = dstlen := Nat.div_one dstlen
  have hsize : ¬ uint8.size = uint32.size := by decide
  have hwide : (wide2Bytes uint8 false flags (L w ++ beyond) w.length dstlen).ret = 0 := by
    rw [wide2Bytes]
    dsimp only
    rw [if_neg hlen, Int.toNat_natCast, Int.toNat_natCast, hcount,
      if_neg (fun h => h.2.elim hpos fun h => hsize h.1), if_neg hsize, htake, hdone]
    rfl
  have hpage : toPage .CP_UTF8 flags (L w ++ beyond) w.length dstlen false false
      = wide2Bytes uint8 false flags (L w ++ beyond) w.length dstlen := rfl
  have hneg : ¬ (toPage .CP_UTF8 flags (L w ++ beyond) w.length dstlen false false).ret < 0 := by
    rw [hpage, hwide]
    exact Int.lt_irrefl 0
  rw [wideCharToMultiByte, if_neg (by omega), if_neg hlen]
  dsimp only
  rw [if_neg hneg, hpage, hwide]

/-- What comes back: for one page it is what is stored, in the other order. -/
def decoded (page : CodePage) (w : List Char) : List WChar :=
  arranged uint32 (page = .CP_UTF32BE) (L w)

theorem fromPage_encode (page : CodePage) (hw : w ≠ []) {beyond : List Byte} {dstlen : Int}
    (hfits : w.length ≤ dstlen) :
    fromPage page flags (encode page w ++ beyond) (encode page w).length dstlen
      = { ret := w.length, stored := decoded page w } := by
  cases page with
  | CP_UTF8 => exact bytes2Wide_spelled spelled8 (by decide) hw (encode_utf8 w) hfits
  | CP_UTF16LE => exact bytes2Wide_spelled spelled16 (by decide) hw (encode_utf16 w false) hfits
  | CP_UTF16BE => exact bytes2Wide_spelled spelled16 (by decide) hw (encode_utf16 w true) hfits
  | CP_UTF32LE =>
    show bytes2Wide uint32 false flags _ _ _ = _
    exact bytes2Wide_noop hw (encode_utf32 w false) hfits
  | CP_UTF32BE =>
    show bytes2Wide uint32 true flags _ _ _ = _
    exact bytes2Wide_noop hw (encode_utf32 w true) hfits

/-- `MultiByteToWideChar` of a standard encoding. -/
theorem multiByteToWideChar_encode (page : CodePage) (hw : w ≠ []) {beyond : List Byte} {dstlen : Int}
    (hfits : w.length ≤ dstlen) :
    multiByteToWideChar page flags (encode page w ++ beyond) (encode page w).length dstlen
      = { ret := w.length, stored := decoded page w } := by
  have hwpos := List.length_pos_iff.mpr hw
  have hpos := encode_length_pos page hw
  have hlen : ¬ ((encode page w).length : Int) < 0 := by omega
  rw [multiByteToWideChar, if_neg (by omega), if_neg hlen]
  dsimp only
  rw [fromPage_encode page hw hfits]
  exact if_neg (by dsimp only; omega)

theorem decoded_iff (page : CodePage) (w : List Char) :
    decoded page w = L w ↔ page ≠ .CP_UTF32BE ∨ ∀ c ∈ w, uint32.revBytes c.val = c.val := by
  by_cases hpage : page = .CP_UTF32BE
  · rw [decoded, arranged, if_pos (decide_eq_true hpage)]
    constructor
    · intro h
      refine .inr fun c hc => ?_
      exact List.map_inj_left.mp (h.trans (List.map_id _).symm) c.val (List.mem_map_of_mem hc)
    · rintro (h | h)
      · exact absurd hpage h
      · refine (List.map_congr_left fun v hv => ?_).trans (List.map_id _)
        obtain ⟨c, hc, rfl⟩ := List.mem_map.mp hv
        exact h c hc
  · rw [decoded, arranged, if_neg (by rw [decide_eq_false hpage]; exact Bool.false_ne_true)]
    exact ⟨fun _ => .inl hpage, fun _ => rfl⟩

/-- **The conversions are inverse**: a string becomes its standard encoding, and this becomes the
string again, if and only if the page is not `CP_UTF32BE` or every character reads the same with its
bytes reversed. -/
theorem codePages_inverse_iff (page : CodePage) {w : List Char} (hw : w ≠ []) {flags flags' : Nat}
    {beyond : List WChar} {beyond' : List Byte} {dstlen dstlen' : Int}
    (hfits : (encode page w).length ≤ dstlen) (hfits' : w.length ≤ dstlen') :
    (wideCharToMultiByte page flags (L w ++ beyond) w.length dstlen false false
        = { ret := (encode page w).length, stored := encode page w }
      ∧ multiByteToWideChar page flags' (encode page w ++ beyond') (encode page w).length dstlen'
        = { ret := w.length, stored := L w })
    ↔ page ≠ .CP_UTF32BE ∨ ∀ c ∈ w, uint32.revBytes c.val = c.val := by
  rw [multiByteToWideChar_encode page hw hfits', ← decoded_iff]
  constructor
  · exact fun h => congrArg Converted.stored h.2
  · intro h
    rw [h]
    exact ⟨wideCharToMultiByte_encode page hw hfits, rfl⟩

/-- One letter in UTF-16. -/
theorem codePages_inverse_iff_letter :
    (wideCharToMultiByte .CP_UTF16BE 0 (L ['a'] ++ []) 1 2 false false
        = { ret := 2, stored := [0, 0x61] }
      ∧ multiByteToWideChar .CP_UTF16BE 0 (encode .CP_UTF16BE ['a'] ++ []) 2 1
        = { ret := 1, stored := L ['a'] })
    ↔ CodePage.CP_UTF16BE ≠ .CP_UTF32BE ∨ ∀ c ∈ ['a'], uint32.revBytes c.val = c.val :=
  codePages_inverse_iff .CP_UTF16BE (List.cons_ne_nil _ _) (by decide) (by decide)

/-- **A letter does not come back from `CP_UTF32BE`**: its bytes stay reversed. -/
theorem letter_not_decoded :
    encode .CP_UTF32BE ['a'] = [0, 0, 0, 0x61]
    ∧ (multiByteToWideChar .CP_UTF32BE 0 [0, 0, 0, 0x61] 4 1).stored = [0x61000000]
    ∧ (multiByteToWideChar .CP_UTF32BE 0 [0, 0, 0, 0x61] 4 1).stored ≠ L ['a'] := by
  decide

end Pages

/-! ## Code pages with a table -/

/-- The loop of `wcstombs_dbcs` where the room suffices, and where it does not. -/
theorem wcstombsDbcsLoop_eq (uni2cp : WChar → UInt16) :
    ∀ (src : List WChar) (len : Nat),
      ((src.flatMap fun c => dbcsBytes (uni2cp c)).length ≤ len →
        wcstombsDbcsLoop uni2cp src len = (src.flatMap fun c => dbcsBytes (uni2cp c),
          len - (src.flatMap fun c => dbcsBytes (uni2cp c)).length, true))
      ∧ (len < (src.flatMap fun c => dbcsBytes (uni2cp c)).length →
        (wcstombsDbcsLoop uni2cp src len).2.2 = false)
  | [], len => ⟨fun _ => rfl, fun h => absurd h (Nat.not_lt_zero _)⟩
  | c :: src, 0 => by
    refine ⟨fun h => ?_, fun _ => rfl⟩
    have hpos : 0 < (dbcsBytes (uni2cp c)).length := by
      rw [dbcsBytes]
      split <;> exact Nat.succ_pos _
    rw [List.flatMap_cons, List.length_append] at h
    omega
  | c :: src, len + 1 => by
    rw [List.flatMap_cons, List.length_append]
    have hlength : (dbcsBytes (uni2cp c)).length = if uni2cp c &&& 0xFF00 ≠ 0 then 2 else 1 := by
      rw [dbcsBytes]
      split <;> rfl
    by_cases hpartial : uni2cp c &&& 0xFF00 ≠ 0 ∧ len = 0
    · rw [if_pos hpartial.1] at hlength
      refine ⟨fun h => by omega, fun _ => ?_⟩
      rw [wcstombsDbcsLoop, if_pos hpartial]
    have hrest : (if uni2cp c &&& 0xFF00 ≠ 0 then len - 1 else len)
        = len + 1 - (dbcsBytes (uni2cp c)).length := by
      rw [hlength]
      split <;> omega
    have hle : (dbcsBytes (uni2cp c)).length ≤ len + 1 := by
      rw [hlength]
      split
      · next hres => exact Nat.succ_le_succ (Nat.pos_of_ne_zero fun h => hpartial ⟨hres, h⟩)
      · exact Nat.succ_le_succ (Nat.zero_le len)
    obtain ⟨hfits, hover⟩ := wcstombsDbcsLoop_eq uni2cp src (len + 1 - (dbcsBytes (uni2cp c)).length)
    rw [wcstombsDbcsLoop]
    dsimp only
    rw [if_neg hpartial, hrest]
    refine ⟨fun h => ?_, fun h => hover (by omega)⟩
    rw [hfits (by omega), Nat.sub_sub]

theorem CpTable.encode_sbcs (uni2cp : WChar → Byte) :
    ∀ src : WStr, CpTable.encode (.sbcs uni2cp) src = src.map uni2cp
  | [] => rfl
  | c :: src => congrArg (uni2cp c :: ·) (encode_sbcs uni2cp src)

/-- What is converted through a table is its encoding, if that fits in. -/
theorem CpTable.wcstombs_fits (table : CpTable) {src : List WChar} {dstlen : Nat} (hpos : dstlen ≠ 0)
    (hfits : (table.encode src).length ≤ dstlen) :
    table.wcstombs src dstlen = { ret := (table.encode src).length, stored := table.encode src } := by
  cases table with
  | sbcs uni2cp =>
    rw [wcstombs, if_neg hpos]
    rw [encode_sbcs] at hfits ⊢
    rw [List.length_map] at hfits ⊢
    rw [wcstombsSbcs, if_neg (by omega)]
  | dbcs uni2cp =>
    rw [wcstombs, if_neg hpos]
    rw [wcstombsDbcs, (wcstombsDbcsLoop_eq uni2cp src dstlen).1 hfits]
    refine congrArg (fun ret => ({ ret, stored := _ } : Converted Byte)) ?_
    have hle : (src.flatMap fun c => dbcsBytes (uni2cp c)).length ≤ dstlen := hfits
    show (dstlen : Int) - ((dstlen - (src.flatMap fun c => dbcsBytes (uni2cp c)).length : Nat) : Int)
      = ((src.flatMap fun c => dbcsBytes (uni2cp c)).length : Int)
    omega

/-- If it does not, the conversion fails. -/
theorem CpTable.wcstombs_overflow (table : CpTable) {src : List WChar} {dstlen : Nat}
    (hpos : dstlen ≠ 0) (hlt : dstlen < (table.encode src).length) :
    (table.wcstombs src dstlen).ret = -1 := by
  cases table with
  | sbcs uni2cp =>
    rw [wcstombs, if_neg hpos]
    rw [encode_sbcs, List.length_map] at hlt
    rw [wcstombsSbcs, if_pos hlt]
  | dbcs uni2cp =>
    rw [wcstombs, if_neg hpos]
    have hover := (wcstombsDbcsLoop_eq uni2cp src dstlen).2 hlt
    rw [wcstombsDbcs]
    rcases hloop : wcstombsDbcsLoop uni2cp src dstlen with ⟨stored, len, done⟩
    rw [hloop] at hover
    cases hover
    rfl

end Far2l.WinPort
