/-
Far2l.WinPort.StringCodepages — `WideCharToMultiByte` and `MultiByteToWideChar`
of `WinPort/src/APIStringCodepages.cpp` for the Unicode code pages.

The host is little-endian and `WCHAR` has four bytes. Pointers that may not be
null are not; a source is what memory holds from its pointer on, a destination
what has been stored from its pointer on. The other code pages are left out.
-/
import Far2l.Utils.UtfConvert

namespace Far2l.WinPort

open Utf

/-! ## Elements in memory -/

/-- `BYTES_TYPE`: what its elements are in memory. -/
structure BytesType (α : Type) where
  /-- `sizeof` -/
  size : Nat
  codec : Codec α
  /-- `CHAR_REPLACEMENT` -/
  replacement : α
  store : α → List Byte
  load : List Byte → α
  size_pos : 0 < size
  store_length : ∀ v, (store v).length = size
  load_store : ∀ v, load (store v) = v
  store_load : ∀ bytes, bytes.length = size → store (load bytes) = bytes

/-- The bytes of a number, the lowest one first. -/
def bytesOf : Nat → Nat → List Byte
  | 0, _ => []
  | n + 1, v => UInt8.ofNat (v % 256) :: bytesOf n (v / 256)

/-- The number of some bytes, the lowest one first. -/
def numberOf : List Byte → Nat
  | [] => 0
  | b :: bytes => b.toNat + 256 * numberOf bytes

theorem bytesOf_length : ∀ n v : Nat, (bytesOf n v).length = n
  | 0, _ => rfl
  | n + 1, v => congrArg (· + 1) (bytesOf_length n (v / 256))

theorem numberOf_bytesOf : ∀ {n v : Nat}, v < 256 ^ n → numberOf (bytesOf n v) = v
  | 0, v, h => by
    rw [Nat.pow_zero] at h
    rw [bytesOf, numberOf]
    omega
  | n + 1, v, h => by
    have hdiv : v / 256 < 256 ^ n := by
      rw [Nat.div_lt_iff_lt_mul (by decide)]
      rwa [Nat.pow_succ] at h
    have hbyte : (UInt8.ofNat (v % 256)).toNat = v % 256 :=
      UInt8.toNat_ofNat_of_lt' (Nat.mod_lt _ (by decide))
    rw [bytesOf, numberOf, numberOf_bytesOf hdiv, hbyte]
    omega

theorem numberOf_lt : ∀ bytes : List Byte, numberOf bytes < 256 ^ bytes.length
  | [] => by rw [numberOf, List.length_nil, Nat.pow_zero]; exact Nat.one_pos
  | b :: bytes => by
    have hb := b.toNat_lt
    have hrest := numberOf_lt bytes
    rw [numberOf, List.length_cons, Nat.pow_succ]
    omega

theorem bytesOf_numberOf : ∀ bytes : List Byte, bytesOf bytes.length (numberOf bytes) = bytes
  | [] => rfl
  | b :: bytes => by
    have hb := b.toNat_lt
    have hmod : (b.toNat + 256 * numberOf bytes) % 256 = b.toNat := by omega
    have hdiv : (b.toNat + 256 * numberOf bytes) / 256 = numberOf bytes := by omega
    rw [numberOf, List.length_cons, bytesOf, hmod, hdiv, bytesOf_numberOf bytes, UInt8.ofNat_toNat]

/-- `uint8_t` -/
def uint8 : BytesType Byte where
  size := 1
  codec := utf8
  replacement := 7
  store v := bytesOf 1 v.toNat
  load bytes := UInt8.ofNat (numberOf bytes)
  size_pos := by decide
  store_length v := bytesOf_length 1 v.toNat
  load_store v := by rw [numberOf_bytesOf v.toNat_lt, UInt8.ofNat_toNat]
  store_load bytes h := by
    have hlt : numberOf bytes < 256 ^ 1 := h ▸ numberOf_lt bytes
    rw [UInt8.toNat_ofNat_of_lt' hlt, ← h, bytesOf_numberOf]

/-- `uint16_t` -/
def uint16 : BytesType UInt16 where
  size := 2
  codec := utf16
  replacement := 7
  store v := bytesOf 2 v.toNat
  load bytes := UInt16.ofNat (numberOf bytes)
  size_pos := Nat.two_pos
  store_length v := bytesOf_length 2 v.toNat
  load_store v := by rw [numberOf_bytesOf v.toNat_lt, UInt16.ofNat_toNat]
  store_load bytes h := by
    have hlt : numberOf bytes < 256 ^ 2 := h ▸ numberOf_lt bytes
    rw [UInt16.toNat_ofNat_of_lt' hlt, ← h, bytesOf_numberOf]

/-- `uint32_t`, and `WCHAR` -/
def uint32 : BytesType UInt32 where
  size := 4
  codec := utf32
  replacement := 7
  store v := bytesOf 4 v.toNat
  load bytes := UInt32.ofNat (numberOf bytes)
  size_pos := by decide
  store_length v := bytesOf_length 4 v.toNat
  load_store v := by rw [numberOf_bytesOf v.toNat_lt, UInt32.ofNat_toNat]
  store_load bytes h := by
    have hlt : numberOf bytes < 256 ^ 4 := h ▸ numberOf_lt bytes
    rw [UInt32.toNat_ofNat_of_lt' hlt, ← h, bytesOf_numberOf]

namespace BytesType

variable {α : Type} (T : BytesType α)

/-- The memory of an array. -/
def memory (elements : List α) : List Byte := elements.flatMap T.store

/-- `count` elements from a pointer on. -/
def array (memory : List Byte) (count : Nat) : List α :=
  (List.range count).map fun i => T.load ((memory.drop (i * T.size)).take T.size)

/-- `RevBytes` -/
def revBytes (v : α) : α := T.load (T.store v).reverse

end BytesType

/-! ## Conversions -/

/-- `SetLastError` -/
inductive LastError where
  | ERROR_SUCCESS
  | ERROR_INVALID_PARAMETER
  | ERROR_INSUFFICIENT_BUFFER
  | ERROR_NO_UNICODE_TRANSLATION
deriving DecidableEq

/-- What a conversion returns and what it has stored. -/
structure Converted (β : Type) where
  ret : Int
  stored : List β := []
  lastError : LastError := .ERROR_SUCCESS

/-- `MB_ERR_INVALID_CHARS` -/
def MB_ERR_INVALID_CHARS : Nat := 0x00000008

variable {α β : Type}

/-- `TranscodeUTF` -/
def transcodeUTF (S : BytesType α) (T : BytesType β) (flags : Nat) (src : List α) (dstlen : Nat) :
    Converted β :=
  let failOnIllformed := flags &&& MB_ERR_INVALID_CHARS ≠ 0
  if dstlen = 0 then
    let (ucr, pb) := utfConvert S.codec T.codec T.replacement failOnIllformed src ⟨none, []⟩
    { ret := pb.pushed.length
      lastError := if ucr.illformedChars ∨ ucr.needMoreSrc then .ERROR_NO_UNICODE_TRANSLATION
        else .ERROR_SUCCESS }
  else
    let (ucr, pb) := utfConvert S.codec T.codec T.replacement failOnIllformed src ⟨some dstlen, []⟩
    if ucr.illformedChars ∨ ucr.needMoreSrc then
      { ret := pb.pushed.length, stored := pb.pushed, lastError := .ERROR_NO_UNICODE_TRANSLATION }
    else if ucr.needMoreDst then
      { ret := 0, stored := pb.pushed, lastError := .ERROR_INSUFFICIENT_BUFFER }
    else { ret := pb.pushed.length, stored := pb.pushed }

/-- `Wide2Bytes<BYTES_TYPE, BYTEREV>` -/
def wide2Bytes (T : BytesType α) (byterev : Bool) (flags : Nat) (src : List WChar)
    (srclen dstlen : Int) : Converted Byte :=
  let srclen : Nat := if srclen < 0 then src.findIdx (· == 0) + 1 else srclen.toNat
  let count : Nat := dstlen.toNat / T.size
  if dstlen > 0 ∧ (count = 0 ∨ (T.size = uint32.size ∧ count < srclen)) then
    { ret := 0, lastError := .ERROR_INSUFFICIENT_BUFFER }
  else
    let done : Converted α :=
      if T.size = uint32.size then -- noop shortcut
        { ret := srclen
          stored := if count ≠ 0 then T.array (uint32.memory (src.take srclen)) srclen else [] }
      else transcodeUTF uint32 T flags (src.take srclen) count
    let stored := if done.ret > 0 ∧ byterev ∧ count ≠ 0 then done.stored.map T.revBytes
      else done.stored
    { ret := if done.ret > 0 then done.ret * T.size else done.ret
      stored := T.memory stored
      lastError := done.lastError }

/-- `Bytes2Wide<BYTES_TYPE, BYTEREV>` -/
def bytes2Wide (T : BytesType α) (byterev : Bool) (flags : Nat) (src : List Byte)
    (srclen dstlen : Int) : Converted WChar :=
  let srclen : Nat :=
    if srclen < 0 then (T.array src (src.length / T.size)).findIdx
      (fun v => T.store v == List.replicate T.size 0) + 1
    else srclen.toNat / T.size
  let count : Nat := dstlen.toNat
  if T.size = uint32.size then -- noop shortcut
    if count ≠ 0 then
      if count < srclen then { ret := 0, lastError := .ERROR_INSUFFICIENT_BUFFER }
      else { ret := srclen, stored := uint32.array src srclen }
    else { ret := srclen }
  else if byterev ∧ srclen > 0 then
    transcodeUTF T uint32 flags ((T.array src srclen).map T.revBytes) count
  else transcodeUTF T uint32 flags (T.array src srclen) count

/-- The Unicode code pages. -/
inductive CodePage where
  | CP_UTF8
  | CP_UTF16LE
  | CP_UTF16BE
  | CP_UTF32LE
  | CP_UTF32BE
deriving DecidableEq

/-- The last error where a conversion has failed. -/
def failed (done : Converted β) : Converted β :=
  { done with
    ret := 0
    lastError := if done.ret = -1 then .ERROR_INSUFFICIENT_BUFFER
      else if done.ret = -2 then .ERROR_NO_UNICODE_TRANSLATION else done.lastError }

/-- The `switch` of `WideCharToMultiByte` -/
def toPage (page : CodePage) (flags : Nat) (src : List WChar) (srclen dstlen : Int)
    (defchar used : Bool) : Converted Byte :=
  match page with
  | .CP_UTF16LE => wide2Bytes uint16 false flags src srclen dstlen
  | .CP_UTF16BE => wide2Bytes uint16 true flags src srclen dstlen
  | .CP_UTF32LE => wide2Bytes uint32 false flags src srclen dstlen
  | .CP_UTF32BE => wide2Bytes uint32 true flags src srclen dstlen
  | .CP_UTF8 =>
      if defchar ∨ used then { ret := 0, lastError := .ERROR_INVALID_PARAMETER }
      else wide2Bytes uint8 false flags src srclen dstlen

/-- `WideCharToMultiByte`; `defchar` and `used` tell whether these pointers are given. -/
def wideCharToMultiByte (page : CodePage) (flags : Nat) (src : List WChar) (srclen dstlen : Int)
    (defchar used : Bool) : Converted Byte :=
  if srclen = 0 ∨ dstlen < 0 then { ret := 0, lastError := .ERROR_INVALID_PARAMETER }
  else
    let srclen : Int := if srclen < 0 then (src.findIdx (· == 0) + 1 : Nat) else srclen
    let done := toPage page flags src srclen dstlen defchar used
    if done.ret < 0 then failed done else done

/-- The `switch` of `MultiByteToWideChar` -/
def fromPage (page : CodePage) (flags : Nat) (src : List Byte) (srclen dstlen : Int) :
    Converted WChar :=
  match page with
  | .CP_UTF16LE => bytes2Wide uint16 false flags src srclen dstlen
  | .CP_UTF16BE => bytes2Wide uint16 true flags src srclen dstlen
  | .CP_UTF32LE => bytes2Wide uint32 false flags src srclen dstlen
  | .CP_UTF32BE => bytes2Wide uint32 true flags src srclen dstlen
  | .CP_UTF8 => bytes2Wide uint8 false flags src srclen dstlen

/-- `MultiByteToWideChar` -/
def multiByteToWideChar (page : CodePage) (flags : Nat) (src : List Byte) (srclen dstlen : Int) :
    Converted WChar :=
  if srclen = 0 ∨ dstlen < 0 then { ret := 0, lastError := .ERROR_INVALID_PARAMETER }
  else
    let srclen : Int := if srclen < 0 then (src.findIdx (· == 0) + 1 : Nat) else srclen
    let done := fromPage page flags src srclen dstlen
    if done.ret ≤ 0 then failed done else done

/-! ## The tables of the other code pages -/

/-- `wcstombs_sbcs` -/
def wcstombsSbcs (uni2cp : WChar → Byte) (src : List WChar) (dstlen : Nat) : Converted Byte :=
  if dstlen < src.length then { ret := -1, stored := (src.take dstlen).map uni2cp }
  else { ret := src.length, stored := src.map uni2cp }

/-- What `wcstombs_dbcs` stores for a character. -/
def dbcsBytes (res : UInt16) : List Byte :=
  if res &&& 0xFF00 ≠ 0 then [(res >>> 8).toUInt8, res.toUInt8] else [res.toUInt8]

/-- The loop of `wcstombs_dbcs`: what it has stored, `len`, and whether the source is at its end. -/
def wcstombsDbcsLoop (uni2cp : WChar → UInt16) : List WChar → Nat → List Byte × Nat × Bool
  | [], len => ([], len, true)
  | _ :: _, 0 => ([], 0, false)
  | c :: src, len + 1 =>
      let res := uni2cp c
      if res &&& 0xFF00 ≠ 0 ∧ len = 0 then ([], 1, false) -- do not output a partial char
      else
        let r := wcstombsDbcsLoop uni2cp src (if res &&& 0xFF00 ≠ 0 then len - 1 else len)
        (dbcsBytes res ++ r.1, r.2)

/-- `wcstombs_dbcs` -/
def wcstombsDbcs (uni2cp : WChar → UInt16) (src : List WChar) (dstlen : Nat) : Converted Byte :=
  match wcstombsDbcsLoop uni2cp src dstlen with
  | (stored, len, true) => { ret := (dstlen : Int) - len, stored }
  | (stored, _, false) => { ret := -1, stored } -- overflow

/-- `union cptable`: a page of one byte a character, or of one or two. -/
inductive CpTable where
  | sbcs (uni2cp : WChar → Byte)
  | dbcs (uni2cp : WChar → UInt16)

/-- What a character is written as. -/
def CpTable.encodeChar : CpTable → WChar → List Byte
  | .sbcs uni2cp, c => [uni2cp c]
  | .dbcs uni2cp, c => dbcsBytes (uni2cp c)

/-- The encoding of a string. -/
def CpTable.encode (table : CpTable) (s : WStr) : List Byte := s.flatMap table.encodeChar

/-- `wine_cp_wcstombs` without `flags`, `defchar` and `used`. -/
def CpTable.wcstombs (table : CpTable) (src : List WChar) (dstlen : Nat) : Converted Byte :=
  if dstlen = 0 then { ret := (table.encode src).length }
  else
    match table with
    | .sbcs uni2cp => wcstombsSbcs uni2cp src dstlen
    | .dbcs uni2cp => wcstombsDbcs uni2cp src dstlen

/-- The `default` of `WideCharToMultiByte`. -/
def wideCharToTable (table : CpTable) (src : List WChar) (srclen dstlen : Int) : Converted Byte :=
  if srclen = 0 ∨ dstlen < 0 then { ret := 0, lastError := .ERROR_INVALID_PARAMETER }
  else
    let srclen : Nat := if srclen < 0 then src.findIdx (· == 0) + 1 else srclen.toNat
    let done := table.wcstombs (src.take srclen) dstlen.toNat
    if done.ret < 0 then failed done else done

/-! ## The standard encodings -/

/-- The encoding of a scalar value. -/
def encodeChar : CodePage → Char → List Byte
  | .CP_UTF8, c => String.utf8EncodeChar c
  | .CP_UTF16LE, c => (utf16Units c).flatMap (bytesOf 2)
  | .CP_UTF16BE, c => (utf16Units c).flatMap fun unit => (bytesOf 2 unit).reverse
  | .CP_UTF32LE, c => bytesOf 4 c.toNat
  | .CP_UTF32BE, c => (bytesOf 4 c.toNat).reverse

/-- The encoding of a string. -/
def encode (page : CodePage) (w : List Char) : List Byte := w.flatMap (encodeChar page)

end Far2l.WinPort
