/-
Far2l.Utils.Utf8 — `utf8::read` and `utf8::write` of
`utils/include/ww898/cp_utf8.hpp`, and the proof that writing a code point
gives back the bytes it was read from.

The decoder accepts the historical five and six byte forms, so a code point
is any value below `0x80000000`; it refuses overlong forms and surrogates.
`read` answers `none` where the C++ returns `-1` and also where the reading
lambda runs off the end of the buffer: `conv_strategy` treats both alike
(`if (read_ended || cp == (uint32_t)-1) return false`).
-/
import Far2l.Utils.Chars

namespace Far2l.Utf8

/-! ## `utf8::read` -/

/-- `ch >> 6 == 2`: the byte continues a sequence. -/
def isTail (ch : Byte) : Bool := ch.toNat >>> 6 == 2

/-- Two byte sequences: `(ch0 << 6) + ch1 - 0x3080`. -/
def read2 (ch0 : Byte) : List Byte → Option (Nat × List Byte)
  | ch1 :: rest =>
      if isTail ch1 then some ((ch0.toNat <<< 6) + ch1.toNat - 0x3080, rest) else none
  | _ => none

/-- Three byte sequences, with the `0xE0` and `0xED` restrictions. -/
def read3 (ch0 : Byte) : List Byte → Option (Nat × List Byte)
  | ch1 :: ch2 :: rest =>
      if isTail ch1 ∧ ¬ (ch0 = 0xE0 ∧ ch1 < 0xA0) ∧ ¬ (ch0 = 0xED ∧ ch1 > 0x9F) ∧ isTail ch2 then
        some ((ch0.toNat <<< 12) + (ch1.toNat <<< 6) + ch2.toNat - 0xE2080, rest)
      else none
  | _ => none

/-- Four byte sequences, with the `0xF0` and `0xF4` restrictions. -/
def read4 (ch0 : Byte) : List Byte → Option (Nat × List Byte)
  | ch1 :: ch2 :: ch3 :: rest =>
      if isTail ch1 ∧ ¬ (ch0 = 0xF0 ∧ ch1 < 0x90) ∧ ¬ (ch0 = 0xF4 ∧ ch1 > 0x8F)
          ∧ isTail ch2 ∧ isTail ch3 then
        some ((ch0.toNat <<< 18) + (ch1.toNat <<< 12) + (ch2.toNat <<< 6) + ch3.toNat
          - 0x3C82080, rest)
      else none
  | _ => none

/-- Five byte sequences; `0xF8` itself is refused. -/
def read5 (ch0 : Byte) : List Byte → Option (Nat × List Byte)
  | ch1 :: ch2 :: ch3 :: ch4 :: rest =>
      if ¬ ch0.toNat &&& 3 = 0 ∧ isTail ch1 ∧ isTail ch2 ∧ isTail ch3 ∧ isTail ch4 then
        some ((ch0.toNat <<< 24) + (ch1.toNat <<< 18) + (ch2.toNat <<< 12) + (ch3.toNat <<< 6)
          + ch4.toNat - 0xFA082080, rest)
      else none
  | _ => none

/-- Six byte sequences; `0xFC` itself is refused. The sum wraps at 32 bits. -/
def read6 (ch0 : Byte) : List Byte → Option (Nat × List Byte)
  | ch1 :: ch2 :: ch3 :: ch4 :: ch5 :: rest =>
      if ¬ ch0.toNat &&& 1 = 0 ∧ isTail ch1 ∧ isTail ch2 ∧ isTail ch3 ∧ isTail ch4
          ∧ isTail ch5 then
        some (((ch0.toNat <<< 30) + (ch1.toNat <<< 24) + (ch2.toNat <<< 18) + (ch3.toNat <<< 12)
          + (ch4.toNat <<< 6) + ch5.toNat + (2 ^ 32 - 0x82082080)) % 2 ^ 32, rest)
      else none
  | _ => none

/-- `utf8::read`: the code point at the front of the buffer and what follows it. -/
def read : List Byte → Option (Nat × List Byte)
  | [] => none
  | ch0 :: rest =>
      if ch0 < 0x80 then some (ch0.toNat, rest)
      else if ch0 < 0xC2 then none
      else if ch0 < 0xE0 then read2 ch0 rest
      else if ch0 < 0xF0 then read3 ch0 rest
      else if ch0 < 0xF8 then read4 ch0 rest
      else if ch0 < 0xFC then read5 ch0 rest
      else if ch0 < 0xFE then read6 ch0 rest
      else none

/-! ## `utf8::write` -/

/-- `0x80 | (cp >> shift & 0x3F)`. -/
def tailByte (cp shift : Nat) : Byte := UInt8.ofNat (0x80 ||| ((cp >>> shift) &&& 0x3F))

/-- `utf8::write`; callers never pass `0x80000000` or above, where the C++ throws. -/
def write (cp : Nat) : List Byte :=
  if cp < 0x80 then [UInt8.ofNat cp]
  else if cp < 0x800 then [UInt8.ofNat (0xC0 ||| cp >>> 6), tailByte cp 0]
  else if cp < 0x10000 then
    [UInt8.ofNat (0xE0 ||| cp >>> 12), tailByte cp 6, tailByte cp 0]
  else if cp < 0x200000 then
    [UInt8.ofNat (0xF0 ||| cp >>> 18), tailByte cp 12, tailByte cp 6, tailByte cp 0]
  else if cp < 0x4000000 then
    [UInt8.ofNat (0xF8 ||| cp >>> 24), tailByte cp 18, tailByte cp 12, tailByte cp 6,
     tailByte cp 0]
  else
    [UInt8.ofNat (0xFC ||| cp >>> 30), tailByte cp 24, tailByte cp 18, tailByte cp 12,
     tailByte cp 6, tailByte cp 0]

/-! ## Arithmetic of the byte patterns -/

theorem isTail_iff (ch : Byte) : isTail ch = true ↔ 0x80 ≤ ch.toNat ∧ ch.toNat < 0xC0 := by
  have hlt := ch.toNat_lt
  simp only [isTail, beq_iff_eq, Nat.shiftRight_eq_div_pow]
  omega

/-- A lead marker above `b` bits is added, not merged, to a payload below them. -/
theorem or_eq_add (a b i : Nat) (hb : b < 2 ^ i) : 2 ^ i * a ||| b = 2 ^ i * a + b :=
  (Nat.two_pow_add_eq_or_of_lt hb a).symm

theorem tailByte_eq (cp shift : Nat) :
    tailByte cp shift = UInt8.ofNat (0x80 + cp / 2 ^ shift % 64) := by
  have hmask : (cp >>> shift) &&& 0x3F = cp / 2 ^ shift % 64 := by
    rw [Nat.shiftRight_eq_div_pow]
    exact Nat.and_two_pow_sub_one_eq_mod _ 6
  have hor : 0x80 ||| (cp / 2 ^ shift % 64) = 0x80 + cp / 2 ^ shift % 64 :=
    or_eq_add 2 _ 6 (Nat.mod_lt _ (by decide))
  rw [tailByte, hmask, hor]

/-- A byte is the byte of its own value. -/
theorem ofNat_eq_of_toNat {n : Nat} {ch : Byte} (h : n = ch.toNat) : UInt8.ofNat n = ch := by
  subst h; simp

/-- A tail byte is rebuilt from the six bits it carries. -/
theorem tailByte_eq_of (cp shift : Nat) (ch : Byte) (hch : 0x80 ≤ ch.toNat ∧ ch.toNat < 0xC0)
    (hbits : cp / 2 ^ shift % 64 = ch.toNat - 0x80) : tailByte cp shift = ch := by
  rw [tailByte_eq]
  exact ofNat_eq_of_toNat (by omega)

/-- The lead byte is rebuilt from the marker and the bits above the tails. -/
theorem leadByte_eq_of (a k cp shift : Nat) (ch : Byte) (hch : 2 ^ k * a ≤ ch.toNat)
    (hlt : ch.toNat < 2 ^ k * a + 2 ^ k) (hbits : cp / 2 ^ shift = ch.toNat - 2 ^ k * a) :
    UInt8.ofNat (2 ^ k * a ||| cp >>> shift) = ch := by
  rw [Nat.shiftRight_eq_div_pow, or_eq_add a _ k (by omega)]
  exact ofNat_eq_of_toNat (by omega)

/-! ## Reading is inverted by writing -/

theorem read2_inv (ch0 : Byte) (bs rest : List Byte) (cp : Nat) (h0 : 0xC2 ≤ ch0.toNat)
    (h1 : ch0.toNat < 0xE0) (h : read2 ch0 bs = some (cp, rest)) :
    cp < 2 ^ 31 ∧ write cp ++ rest = ch0 :: bs := by
  match bs, h with
  | ch1 :: bs, h =>
    simp only [read2, isTail_iff, Option.ite_none_right_eq_some, Option.some.injEq, Prod.mk.injEq,
      Nat.shiftLeft_eq] at h
    obtain ⟨ht1, hcp, rfl⟩ := h
    have e0 := leadByte_eq_of 6 5 cp 6 ch0 (by omega) (by omega) (by omega)
    have e1 := tailByte_eq_of cp 0 ch1 ht1 (by omega)
    refine ⟨by omega, ?_⟩
    rw [write, if_neg (by omega), if_pos (by omega), e1]
    exact congrArg (· :: _) e0

theorem read3_inv (ch0 : Byte) (bs rest : List Byte) (cp : Nat) (h0 : 0xE0 ≤ ch0.toNat)
    (h1 : ch0.toNat < 0xF0) (h : read3 ch0 bs = some (cp, rest)) :
    cp < 2 ^ 31 ∧ write cp ++ rest = ch0 :: bs := by
  match bs, h with
  | ch1 :: ch2 :: bs, h =>
    simp only [read3, isTail_iff, Option.ite_none_right_eq_some, Option.some.injEq, Prod.mk.injEq,
      Nat.shiftLeft_eq, UInt8.lt_iff_toNat_lt, ← UInt8.toNat_inj] at h
    obtain ⟨⟨ht1, hE0, _, ht2⟩, hcp, rfl⟩ := h
    simp at hE0
    have e0 := leadByte_eq_of 14 4 cp 12 ch0 (by omega) (by omega) (by omega)
    have e1 := tailByte_eq_of cp 6 ch1 ht1 (by omega)
    have e2 := tailByte_eq_of cp 0 ch2 ht2 (by omega)
    refine ⟨by omega, ?_⟩
    rw [write, if_neg (by omega), if_neg (by omega), if_pos (by omega), e1, e2]
    exact congrArg (· :: _) e0

theorem read4_inv (ch0 : Byte) (bs rest : List Byte) (cp : Nat) (h0 : 0xF0 ≤ ch0.toNat)
    (h1 : ch0.toNat < 0xF8) (h : read4 ch0 bs = some (cp, rest)) :
    cp < 2 ^ 31 ∧ write cp ++ rest = ch0 :: bs := by
  match bs, h with
  | ch1 :: ch2 :: ch3 :: bs, h =>
    simp only [read4, isTail_iff, Option.ite_none_right_eq_some, Option.some.injEq, Prod.mk.injEq,
      Nat.shiftLeft_eq, UInt8.lt_iff_toNat_lt, ← UInt8.toNat_inj] at h
    obtain ⟨⟨ht1, hF0, _, ht2, ht3⟩, hcp, rfl⟩ := h
    simp at hF0
    have e0 := leadByte_eq_of 30 3 cp 18 ch0 (by omega) (by omega) (by omega)
    have e1 := tailByte_eq_of cp 12 ch1 ht1 (by omega)
    have e2 := tailByte_eq_of cp 6 ch2 ht2 (by omega)
    have e3 := tailByte_eq_of cp 0 ch3 ht3 (by omega)
    refine ⟨by omega, ?_⟩
    rw [write, if_neg (by omega), if_neg (by omega), if_neg (by omega), if_pos (by omega),
      e1, e2, e3]
    exact congrArg (· :: _) e0

/-- `ch0 & 3` of a five byte lead is its payload. -/
theorem and_three_eq (n : Nat) : n &&& 3 = n % 4 := Nat.and_two_pow_sub_one_eq_mod n 2

theorem read5_inv (ch0 : Byte) (bs rest : List Byte) (cp : Nat) (h0 : 0xF8 ≤ ch0.toNat)
    (h1 : ch0.toNat < 0xFC) (h : read5 ch0 bs = some (cp, rest)) :
    cp < 2 ^ 31 ∧ write cp ++ rest = ch0 :: bs := by
  match bs, h with
  | ch1 :: ch2 :: ch3 :: ch4 :: bs, h =>
    simp only [read5, isTail_iff, Option.ite_none_right_eq_some, Option.some.injEq, Prod.mk.injEq,
      Nat.shiftLeft_eq, and_three_eq] at h
    obtain ⟨⟨hlead, ht1, ht2, ht3, ht4⟩, hcp, rfl⟩ := h
    have e0 := leadByte_eq_of 62 2 cp 24 ch0 (by omega) (by omega) (by omega)
    have e1 := tailByte_eq_of cp 18 ch1 ht1 (by omega)
    have e2 := tailByte_eq_of cp 12 ch2 ht2 (by omega)
    have e3 := tailByte_eq_of cp 6 ch3 ht3 (by omega)
    have e4 := tailByte_eq_of cp 0 ch4 ht4 (by omega)
    refine ⟨by omega, ?_⟩
    rw [write, if_neg (by omega), if_neg (by omega), if_neg (by omega), if_neg (by omega),
      if_pos (by omega), e1, e2, e3, e4]
    exact congrArg (· :: _) e0

theorem read6_inv (ch0 : Byte) (bs rest : List Byte) (cp : Nat) (h0 : 0xFC ≤ ch0.toNat)
    (h1 : ch0.toNat < 0xFE) (h : read6 ch0 bs = some (cp, rest)) :
    cp < 2 ^ 31 ∧ write cp ++ rest = ch0 :: bs := by
  match bs, h with
  | ch1 :: ch2 :: ch3 :: ch4 :: ch5 :: bs, h =>
    simp only [read6, isTail_iff, Option.ite_none_right_eq_some, Option.some.injEq, Prod.mk.injEq,
      Nat.shiftLeft_eq, Nat.and_one_is_mod] at h
    obtain ⟨⟨hlead, ht1, ht2, ht3, ht4, ht5⟩, hcp, rfl⟩ := h
    -- the lead is 0xFD, and the wrapped sum is the payload itself
    have hFD : ch0.toNat = 0xFD := by omega
    rw [hFD] at hcp
    have e0 := leadByte_eq_of 126 1 cp 30 ch0 (by omega) (by omega) (by omega)
    have e1 := tailByte_eq_of cp 24 ch1 ht1 (by omega)
    have e2 := tailByte_eq_of cp 18 ch2 ht2 (by omega)
    have e3 := tailByte_eq_of cp 12 ch3 ht3 (by omega)
    have e4 := tailByte_eq_of cp 6 ch4 ht4 (by omega)
    have e5 := tailByte_eq_of cp 0 ch5 ht5 (by omega)
    refine ⟨by omega, ?_⟩
    rw [write, if_neg (by omega), if_neg (by omega), if_neg (by omega), if_neg (by omega),
      if_neg (by omega), e1, e2, e3, e4, e5]
    exact congrArg (· :: _) e0

/-- **Writing a code point gives back the bytes it was read from**, so no byte of a well-formed
sequence is lost by the decoder. -/
theorem read_inv {bs rest : List Byte} {cp : Nat} (h : read bs = some (cp, rest)) :
    cp < 2 ^ 31 ∧ write cp ++ rest = bs := by
  match bs, h with
  | ch0 :: bs, h =>
    simp only [read, UInt8.lt_iff_toNat_lt] at h
    simp only [show (0x80 : Byte).toNat = 0x80 from rfl, show (0xC2 : Byte).toNat = 0xC2 from rfl,
      show (0xE0 : Byte).toNat = 0xE0 from rfl, show (0xF0 : Byte).toNat = 0xF0 from rfl,
      show (0xF8 : Byte).toNat = 0xF8 from rfl, show (0xFC : Byte).toNat = 0xFC from rfl,
      show (0xFE : Byte).toNat = 0xFE from rfl] at h
    by_cases h80 : ch0.toNat < 0x80
    · simp only [h80, if_true, Option.some.injEq, Prod.mk.injEq] at h
      obtain ⟨rfl, rfl⟩ := h
      exact ⟨by omega, by rw [write, if_pos h80]; simp⟩
    by_cases hC2 : ch0.toNat < 0xC2
    · simp [h80, hC2] at h
    by_cases hE0 : ch0.toNat < 0xE0
    · simp only [h80, hC2, hE0, if_true, if_false] at h
      exact read2_inv ch0 bs rest cp (by omega) hE0 h
    by_cases hF0 : ch0.toNat < 0xF0
    · simp only [h80, hC2, hE0, hF0, if_true, if_false] at h
      exact read3_inv ch0 bs rest cp (by omega) hF0 h
    by_cases hF8 : ch0.toNat < 0xF8
    · simp only [h80, hC2, hE0, hF0, hF8, if_true, if_false] at h
      exact read4_inv ch0 bs rest cp (by omega) hF8 h
    by_cases hFC : ch0.toNat < 0xFC
    · simp only [h80, hC2, hE0, hF0, hF8, hFC, if_true, if_false] at h
      exact read5_inv ch0 bs rest cp (by omega) hFC h
    by_cases hFE : ch0.toNat < 0xFE
    · simp only [h80, hC2, hE0, hF0, hF8, hFC, hFE, if_true, if_false] at h
      exact read6_inv ch0 bs rest cp (by omega) hFE h
    · simp [h80, hC2, hE0, hF0, hF8, hFC, hFE] at h

/-- Every code point takes at least one byte. -/
theorem write_ne_nil (cp : Nat) : write cp ≠ [] := by
  simp only [write]
  repeat' split
  all_goals simp

/-- Reading makes progress. -/
theorem read_length {bs rest : List Byte} {cp : Nat} (h : read bs = some (cp, rest)) :
    rest.length < bs.length := by
  have hbs := (read_inv h).2
  have hpos := List.length_pos_iff.mpr (write_ne_nil cp)
  rw [← hbs, List.length_append]
  omega

end Far2l.Utf8
