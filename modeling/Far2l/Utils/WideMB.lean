/-
Far2l.Utils.WideMB — the escaping conversions between bytes and wide strings
of `utils/src/WideMB.cpp`, over `UtfConvert` of `utils/include/UtfConvert.hpp`.

`MB2Wide` never fails: a byte it cannot decode becomes `WCHAR_ESCAPING` and two
hexadecimal digits, and a decoded `WCHAR_ESCAPING` is doubled. `Wide2MB` reads
both forms back. `Wide2MB` treats a run without `WCHAR_ESCAPING` as one piece,
and gives up on the piece when an invalid character stands close to its end.
-/
import Far2l.Utils.Utf8

namespace Far2l.WideMB

/-- `WCHAR_ESCAPING`, from the Unicode private area. -/
def WCHAR_ESCAPING : WChar := 0xE5CA

/-- `CHAR_REPLACEMENT`. -/
def CHAR_REPLACEMENT : Byte := 0x07

/-- `MAX_MB_CHARS_PER_WCHAR`. -/
def MAX_MB_CHARS_PER_WCHAR : Nat := 6

/-! ## Hexadecimal digits (`IntStrConv`) -/

/-- `MakeHexDigit`. -/
def makeHexDigit (c : Nat) : WChar :=
  if c ≤ 9 then UInt32.ofNat (0x30 + c)
  else if c ≤ 0xf then UInt32.ofNat (0x61 + (c - 0xa))
  else 0

/-- `ParseHexDigit`; `0xff` in case of error. -/
def parseHexDigit (hex : WChar) : Nat :=
  if 0x30 ≤ hex.toNat ∧ hex.toNat ≤ 0x39 then hex.toNat - 0x30
  else if 0x61 ≤ hex.toNat ∧ hex.toNat ≤ 0x66 then 10 + hex.toNat - 0x61
  else if 0x41 ≤ hex.toNat ∧ hex.toNat ≤ 0x46 then 10 + hex.toNat - 0x41
  else 0xff

/-- `ParseHexByte`; `0` in case of error. -/
def parseHexByte (hex0 hex1 : WChar) : Byte :=
  let rh := parseHexDigit hex0
  let rl := parseHexDigit hex1
  if rh = 0xff ∨ rl = 0xff then 0 else UInt8.ofNat (rh <<< 4 ||| rl)

/-- `IsLowCaseHexDigit`. -/
def isLowCaseHexDigit (c : WChar) : Bool :=
  (0x30 ≤ c.toNat && c.toNat ≤ 0x39) || (0x61 ≤ c.toNat && c.toNat ≤ 0x66)

/-! ## `MB2Wide` -/

/-- `EscapedStringPushBack::push_back`. -/
def escapedPushBack (dst : WStr) (v : WChar) : WStr :=
  if v = WCHAR_ESCAPING then dst ++ [v, WCHAR_ESCAPING] else dst ++ [v]

/-- `UtfConvert` from bytes with `fail_on_illformed`: what was pushed, and the source from the
first sequence that could not be read. It reports success exactly when nothing is left. -/
def utfConvertMB (dst : WStr) (src : List Byte) : WStr × List Byte :=
  match _h : Utf8.read src with
  | some (cp, rest) => utfConvertMB (escapedPushBack dst (UInt32.ofNat cp)) rest
  | none => (dst, src)
termination_by src.length
decreasing_by exact Utf8.read_length _h

theorem utfConvertMB_none {dst : WStr} {src : List Byte} (h : Utf8.read src = none) :
    utfConvertMB dst src = (dst, src) := by
  rw [utfConvertMB]
  split
  · next hr => rw [h] at hr; simp at hr
  · rfl

/-- `UtfConvert` never goes back in its source. -/
theorem utfConvertMB_length (dst : WStr) (src : List Byte) :
    (utfConvertMB dst src).2.length ≤ src.length := by
  fun_induction utfConvertMB dst src with
  | case1 dst src cp rest h ih => exact Nat.le_trans ih (Nat.le_of_lt (Utf8.read_length h))
  | case2 dst src h => exact Nat.le_refl _

/-- What `MB2Wide_Internal` leaves behind: the text, the updated `src_len`, and the returned
size (`none` is `std::string::npos`). -/
structure MB2WideResult where
  dst : WStr
  srcLen : Nat
  ret : Option Nat
deriving DecidableEq, Repr

/-- `dst_incomplete_tail_pos` and `src_incomplete_tail`: set by the first unreadable byte close
enough to the end of the source. -/
def incompleteTail (tail : Option (Nat × Nat)) (dst : WStr) (srcPos remain : Nat) :
    Option (Nat × Nat) :=
  if tail = none ∧ remain < MAX_MB_CHARS_PER_WCHAR then some (dst.length, srcPos) else tail

/-- The three characters pushed for a byte that cannot be decoded. -/
def escapedByte (uc : Byte) : WStr :=
  [WCHAR_ESCAPING, makeHexDigit (uc.toNat >>> 4), makeHexDigit (uc.toNat &&& 0xf)]

/-- The loop of `MB2Wide_Internal`. `len` is the `src_len` it was called with, `src` what is
still to be read, `tail` the two `*_incomplete_tail` variables once they are set. -/
def mb2WideLoop (len : Nat) (tail : Option (Nat × Nat)) (dst : WStr) (src : List Byte) :
    MB2WideResult :=
  match _h : utfConvertMB dst src with
  | (dst1, []) => { dst := dst1, srcLen := len, ret := some dst1.length }
  | (dst1, uc :: rest) =>
      let remain := rest.length + 1
      let tail1 := incompleteTail tail dst1 (len - remain) remain
      let dst2 := dst1 ++ escapedByte uc
      if remain ≤ 1 then
        match tail1 with
        | some (dstPos, srcPos) => { dst := dst2, srcLen := srcPos, ret := some dstPos }
        | none => { dst := dst2, srcLen := len - remain, ret := some dst2.length }
      else mb2WideLoop len tail1 dst2 rest
termination_by src.length
decreasing_by
  have hle := utfConvertMB_length dst src
  rw [_h, List.length_cons] at hle
  omega

/-- `MB2Wide_Internal`; without `append` the destination starts out empty. -/
def mb2WideInternal (src : List Byte) (dst : WStr) (append : Bool) : MB2WideResult :=
  let dst := if append then dst else []
  if src = [] then { dst := dst, srcLen := 0, ret := none }
  else mb2WideLoop src.length none dst src

/-- `MB2Wide`, without `append`. -/
def mb2Wide (src : List Byte) : WStr := (mb2WideInternal src [] false).dst

/-- `MB2Wide_HonorIncomplete`: the text, and how many bytes of the source are in it. -/
def mb2WideHonorIncomplete (src : List Byte) (dst : WStr) (append : Bool) : WStr × Nat :=
  let r := mb2WideInternal src dst append
  match r.ret with
  | some dstIncompleteTailPos => (r.dst.take dstIncompleteTailPos, r.srcLen)
  | none => (r.dst, r.srcLen)

/-! ## `Wide2MB` -/

/-- `Wide2MB_UnescapedAppend`: `UtfConvert` from wide characters without `fail_on_illformed`.
A character from `0x80000000` on is replaced, or ends the conversion when fewer than
`MAX_MB_CHARS_PER_WCHAR` characters are left. -/
def wide2MBUnescapedAppend (dst : List Byte) : WStr → List Byte
  | [] => dst
  | wc :: src =>
      if wc.toNat < 0x80000000 then wide2MBUnescapedAppend (dst ++ Utf8.write wc.toNat) src
      else if src.length + 1 < MAX_MB_CHARS_PER_WCHAR then dst
      else wide2MBUnescapedAppend (dst ++ [CHAR_REPLACEMENT]) src

/-- `if (src_end != src && *src == WCHAR_ESCAPING) ++src`. -/
def skipEscaping : WStr → WStr
  | [] => []
  | wc :: src => if wc = WCHAR_ESCAPING then src else wc :: src

theorem skipEscaping_length : ∀ src : WStr, (skipEscaping src).length ≤ src.length
  | [] => Nat.le_refl _
  | wc :: src => by
    simp only [skipEscaping]
    split
    · exact Nat.le_succ _
    · exact Nat.le_refl _

/-- The byte behind a `WCHAR_ESCAPING`, when two lower case digits follow
(`src_end - src >= 3 && IsLowCaseHexDigit(src[1]) && IsLowCaseHexDigit(src[2])`). -/
def escapedHexByte : WStr → Option (Byte × WStr)
  | hex0 :: hex1 :: rest =>
      if isLowCaseHexDigit hex0 && isLowCaseHexDigit hex1 then
        some (parseHexByte hex0 hex1, rest)
      else none
  | _ => none

theorem escapedHexByte_length {src rest : WStr} {b : Byte}
    (h : escapedHexByte src = some (b, rest)) : rest.length < src.length := by
  match src, h with
  | hex0 :: hex1 :: src, h =>
    simp only [escapedHexByte, Option.ite_none_right_eq_some, Option.some.injEq,
      Prod.mk.injEq] at h
    rw [← h.2.2, List.length_cons, List.length_cons]
    omega

/-- The loop of `Wide2MB`; `seg` is the piece from `src_begin` to `src`. -/
def wide2MBLoop (seg : WStr) (dst : List Byte) : WStr → List Byte
  | [] => wide2MBUnescapedAppend dst seg
  | wc :: rest =>
      if wc ≠ WCHAR_ESCAPING then wide2MBLoop (seg ++ [wc]) dst rest
      else
        match _h : escapedHexByte rest with
        | some (b, rest') => wide2MBLoop [] (wide2MBUnescapedAppend dst seg ++ [b]) rest'
        | none =>
            wide2MBLoop [] (wide2MBUnescapedAppend (wide2MBUnescapedAppend dst seg) [wc])
              (skipEscaping rest)
termination_by src => src.length
decreasing_by
  all_goals simp only [List.length_cons]
  · omega
  · have := escapedHexByte_length _h
    omega
  · have := skipEscaping_length rest
    omega

/-- `Wide2MB`, without `append`. -/
def wide2MB (src : WStr) : List Byte := wide2MBLoop [] [] src

end Far2l.WideMB
