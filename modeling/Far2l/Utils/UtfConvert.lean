/-
Far2l.Utils.UtfConvert — `UtfConvert` of `utils/include/UtfConvert.hpp` over
`conv` and the codecs of `utils/include/ww898`.

`conv_strategy` has a loop without bounds checks for the part of the source that
is far from its end and one with checks for the rest; both read the same, so
there is one loop here. A codec's `read` answers `none` where the C++ returns
`-1` or runs off the end, its `write` where the C++ throws.
-/
import Far2l.Utils.Utf8

namespace Far2l.Utf

/-! ## The codecs -/

/-- `Utf::read` and `Utf::write`. -/
structure Codec (α : Type) where
  read : List α → Option (Nat × List α)
  write : Nat → Option (List α)

/-- `utf8` -/
def utf8 : Codec Byte where
  read := Utf8.read
  write cp := if cp < 0x80000000 then some (Utf8.write cp) else none

/-- `utf16::read` -/
def read16 : List UInt16 → Option (Nat × List UInt16)
  | [] => none
  | ch0 :: rest =>
      if ch0.toNat < 0xD800 then some (ch0.toNat, rest)
      else if ch0.toNat < 0xDC00 then
        match rest with
        | [] => none
        | ch1 :: rest =>
            if ch1.toNat >>> 10 = 0x37 then
              some ((ch0.toNat <<< 10) + ch1.toNat - 0x35FDC00, rest)
            else none
      else if ch0.toNat < 0xE000 then none
      else some (ch0.toNat, rest)

/-- `utf16::write` -/
def write16 (cp : Nat) : Option (List UInt16) :=
  if cp < 0xD800 then some [UInt16.ofNat cp]
  else if cp < 0x10000 then
    if cp < 0xE000 then none else some [UInt16.ofNat cp]
  else if cp < 0x110000 then
    some [UInt16.ofNat (0xD7C0 + cp >>> 10), UInt16.ofNat (0xDC00 + (cp &&& 0x3FF))]
  else none

/-- `utf16` -/
def utf16 : Codec UInt16 := ⟨read16, write16⟩

/-- `utf32::read` -/
def read32 : List UInt32 → Option (Nat × List UInt32)
  | [] => none
  | ch :: rest => if ch.toNat < 0x80000000 then some (ch.toNat, rest) else none

/-- `utf32::write` -/
def write32 (cp : Nat) : Option (List UInt32) :=
  if cp < 0x80000000 then some [UInt32.ofNat cp] else none

/-- `utf32` -/
def utf32 : Codec UInt32 := ⟨read32, write32⟩

/-! ## `conv` -/

/-- `ArrayPushBack`, and `DummyPushBack` where there is no end. -/
structure PushBack (β : Type) where
  capacity : Option Nat
  pushed : List β := []

namespace PushBack

variable {β : Type}

/-- `fully_filled` -/
def fullyFilled (pb : PushBack β) : Bool := pb.capacity = some pb.pushed.length

/-- `push_back`, `none` where it throws. -/
def pushBack (pb : PushBack β) (v : β) : Option (PushBack β) :=
  if pb.fullyFilled then none else some { pb with pushed := pb.pushed ++ [v] }

/-- What a `write` pushes; `false` where one of it throws. -/
def pushAll (pb : PushBack β) : List β → Bool × PushBack β
  | [] => (true, pb)
  | v :: vs =>
      match pb.pushBack v with
      | some pb => pb.pushAll vs
      | none => (false, pb)

end PushBack

variable {α β : Type}

/-- `conv`: whether the source has been read to its end, and what is left of it. -/
def conv (src : Codec α) (dst : Codec β) : Nat → List α → PushBack β →
    Bool × List α × PushBack β
  | 0, it, pb => (it.isEmpty, it, pb)
  | fuel + 1, it, pb =>
      if it.isEmpty then (true, it, pb)
      else if pb.fullyFilled then (false, it, pb)
      else
        match src.read it with
        | none => (false, it, pb)
        | some (cp, rest) =>
            match dst.write cp with
            | none => (false, it, pb)
            | some chs =>
                match pb.pushAll chs with
                | (true, pb) => conv src dst fuel rest pb
                | (false, pb) => (false, it, pb)

/-! ## `UtfConvert` -/

/-- The bits of `CONV_…` -/
structure Flags where
  needMoreSrc : Bool := false
  needMoreDst : Bool := false
  illformedChars : Bool := false

/-- `MAX_MB_CHARS_PER_WCHAR` -/
def MAX_MB_CHARS_PER_WCHAR : Nat := 6

/-- The loop of `UtfConvert`; `replacement` is `CHAR_REPLACEMENT`. -/
def utfConvertLoop (src : Codec α) (dst : Codec β) (replacement : β) (failOnIllformed : Bool) :
    Nat → List α → PushBack β → Flags → Flags × PushBack β
  | 0, _, pb, out => (out, pb)
  | fuel + 1, it, pb, out =>
      match conv src dst it.length it pb with
      | (true, _, pb) => (out, pb)
      | (false, it, pb) =>
          if pb.fullyFilled then ({ out with needMoreDst := true }, pb)
          else if failOnIllformed ∨ it.length < MAX_MB_CHARS_PER_WCHAR then
            (if it.length < MAX_MB_CHARS_PER_WCHAR then { out with needMoreSrc := true }
              else { out with illformedChars := true }, pb)
          else
            match pb.pushBack replacement with
            | none => ({ out with needMoreDst := true }, pb)
            | some pb =>
                utfConvertLoop src dst replacement failOnIllformed fuel it.tail pb
                  { out with illformedChars := true }

/-- `UtfConvert` -/
def utfConvert (src : Codec α) (dst : Codec β) (replacement : β) (failOnIllformed : Bool)
    (it : List α) (pb : PushBack β) : Flags × PushBack β :=
  utfConvertLoop src dst replacement failOnIllformed (it.length + 1) it pb {}

/-! ## Conversions that succeed -/

/-- The elements of one character fit in. -/
theorem PushBack.pushAll_fits {capacity : Option Nat} {pushed : List β} :
    ∀ {vs : List β}, (∀ n ∈ capacity, pushed.length + vs.length ≤ n) →
      PushBack.pushAll ⟨capacity, pushed⟩ vs = (true, ⟨capacity, pushed ++ vs⟩)
  | [], _ => by rw [pushAll, List.append_nil]
  | v :: vs, hfits => by
    have hroom : fullyFilled (⟨capacity, pushed⟩ : PushBack β) = false := by
      refine decide_eq_false fun hfull => ?_
      have hle := hfits _ hfull
      rw [List.length_cons] at hle
      dsimp only at hle
      omega
    have hrest : ∀ n ∈ capacity, (pushed ++ [v]).length + vs.length ≤ n := by
      intro n hn
      have hle := hfits n hn
      rw [List.length_cons] at hle
      rw [List.length_append, List.length_singleton]
      omega
    rw [pushAll, pushBack, hroom, if_neg Bool.false_ne_true]
    dsimp only
    rw [pushAll_fits hrest, List.append_assoc, List.singleton_append]

/-- How a character is spelled in a codec. -/
structure Spelled (codec : Codec α) (cp : Nat) (chs : List α) : Prop where
  ne_nil : chs ≠ []
  read : ∀ rest, codec.read (chs ++ rest) = some (cp, rest)
  write : codec.write cp = some chs

/-- **A source that is spelled in one codec is converted to how it is spelled in the other**, if that
fits in. -/
theorem conv_spelled {γ : Type} {src : Codec α} {dst : Codec β} {cp : γ → Nat} {chs : γ → List α}
    {chs' : γ → List β} (hsrc : ∀ c, Spelled src (cp c) (chs c))
    (hdst : ∀ c, Spelled dst (cp c) (chs' c)) {capacity : Option Nat} :
    ∀ {w : List γ} {fuel : Nat} {pushed : List β}, (w.flatMap chs).length ≤ fuel →
      (∀ n ∈ capacity, pushed.length + (w.flatMap chs').length ≤ n) →
      conv src dst fuel (w.flatMap chs) ⟨capacity, pushed⟩
        = (true, [], ⟨capacity, pushed ++ w.flatMap chs'⟩)
  | [], 0, pushed, _, _ => by
    rw [List.flatMap_nil, List.flatMap_nil, List.append_nil, conv, List.isEmpty_nil]
  | [], fuel + 1, pushed, _, _ => by
    rw [List.flatMap_nil, List.flatMap_nil, List.append_nil, conv, List.isEmpty_nil, if_pos rfl]
  | c :: w, 0, pushed, hfuel, _ => by
    have hpos := List.length_pos_iff.mpr (hsrc c).ne_nil
    rw [List.flatMap_cons, List.length_append] at hfuel
    omega
  | c :: w, fuel + 1, pushed, hfuel, hfits => by
    have hpos := List.length_pos_iff.mpr (hsrc c).ne_nil
    have hpos' := List.length_pos_iff.mpr (hdst c).ne_nil
    rw [List.flatMap_cons, List.length_append] at hfuel
    have hne : (chs c ++ w.flatMap chs).isEmpty = false := by
      rw [List.isEmpty_eq_false_iff]
      exact List.append_ne_nil_of_left_ne_nil (hsrc c).ne_nil _
    have hroom : PushBack.fullyFilled (⟨capacity, pushed⟩ : PushBack β) = false := by
      refine decide_eq_false fun hfull => ?_
      have hle := hfits _ hfull
      rw [List.flatMap_cons, List.length_append] at hle
      dsimp only at hle
      omega
    have hfirst : ∀ n ∈ capacity, pushed.length + (chs' c).length ≤ n := by
      intro n hn
      have hle := hfits n hn
      rw [List.flatMap_cons, List.length_append] at hle
      omega
    have hrest : ∀ n ∈ capacity, (pushed ++ chs' c).length + (w.flatMap chs').length ≤ n := by
      intro n hn
      have hle := hfits n hn
      rw [List.flatMap_cons, List.length_append] at hle
      rw [List.length_append]
      omega
    rw [List.flatMap_cons, List.flatMap_cons, conv, hne, if_neg Bool.false_ne_true, hroom,
      if_neg Bool.false_ne_true, (hsrc c).read]
    dsimp only
    rw [(hdst c).write]
    dsimp only
    rw [PushBack.pushAll_fits hfirst]
    dsimp only
    rw [conv_spelled hsrc hdst (by omega) hrest, List.append_assoc]

theorem utfConvert_spelled {γ : Type} {src : Codec α} {dst : Codec β} {cp : γ → Nat}
    {chs : γ → List α} {chs' : γ → List β} (hsrc : ∀ c, Spelled src (cp c) (chs c))
    (hdst : ∀ c, Spelled dst (cp c) (chs' c)) {capacity : Option Nat} {w : List γ}
    (hfits : ∀ n ∈ capacity, (w.flatMap chs').length ≤ n) {replacement : β}
    {failOnIllformed : Bool} :
    utfConvert src dst replacement failOnIllformed (w.flatMap chs) ⟨capacity, []⟩
      = ({}, ⟨capacity, w.flatMap chs'⟩) := by
  have hroom : ∀ n ∈ capacity, ([] : List β).length + (w.flatMap chs').length ≤ n := by
    intro n hn
    rw [List.length_nil, Nat.zero_add]
    exact hfits n hn
  rw [utfConvert, utfConvertLoop, conv_spelled hsrc hdst (Nat.le_refl _) hroom, List.nil_append]

/-! ## Conversions that run out of room -/

/-- The elements of one character that do not fit in fill what room there is. -/
theorem PushBack.pushAll_overflow {n : Nat} {pushed : List β} :
    ∀ {vs : List β}, pushed.length ≤ n → n < pushed.length + vs.length →
      ∃ filled, PushBack.pushAll ⟨some n, pushed⟩ vs = (false, ⟨some n, filled⟩)
        ∧ filled.length = n
  | [], hle, hlt => absurd hlt (Nat.not_lt.mpr hle)
  | v :: vs, hle, hlt => by
    by_cases hfull : n = pushed.length
    · refine ⟨pushed, ?_, hfull.symm⟩
      have hroom : fullyFilled (⟨some n, pushed⟩ : PushBack β) = true :=
        decide_eq_true (congrArg some hfull)
      rw [pushAll, pushBack, hroom, if_pos rfl]
    · have hroom : fullyFilled (⟨some n, pushed⟩ : PushBack β) = false :=
        decide_eq_false fun h => hfull (Option.some.inj h)
      have hlen : (pushed ++ [v]).length = pushed.length + 1 := List.length_append
      rw [List.length_cons] at hlt
      have hle' : (pushed ++ [v]).length ≤ n := by omega
      have hlt' : n < (pushed ++ [v]).length + vs.length := by omega
      obtain ⟨filled, hpush, hfilled⟩ := pushAll_overflow hle' hlt'
      refine ⟨filled, ?_, hfilled⟩
      rw [pushAll, pushBack, hroom, if_neg Bool.false_ne_true]
      exact hpush

/-- A source whose spelling in the other codec does not fit in: the room is filled. -/
theorem conv_overflow {γ : Type} {src : Codec α} {dst : Codec β} {cp : γ → Nat} {chs : γ → List α}
    {chs' : γ → List β} (hsrc : ∀ c, Spelled src (cp c) (chs c))
    (hdst : ∀ c, Spelled dst (cp c) (chs' c)) {n : Nat} :
    ∀ {w : List γ} {fuel : Nat} {pushed : List β}, (w.flatMap chs).length ≤ fuel →
      pushed.length ≤ n → n < pushed.length + (w.flatMap chs').length →
      ∃ it filled, conv src dst fuel (w.flatMap chs) ⟨some n, pushed⟩
          = (false, it, ⟨some n, filled⟩) ∧ filled.length = n
  | [], _, _, _, hle, hlt => absurd hlt (Nat.not_lt.mpr hle)
  | c :: w, 0, pushed, hfuel, _, _ => by
    have hpos := List.length_pos_iff.mpr (hsrc c).ne_nil
    rw [List.flatMap_cons, List.length_append] at hfuel
    omega
  | c :: w, fuel + 1, pushed, hfuel, hle, hlt => by
    have hpos := List.length_pos_iff.mpr (hsrc c).ne_nil
    rw [List.flatMap_cons, List.length_append] at hfuel hlt
    have hne : (chs c ++ w.flatMap chs).isEmpty = false := by
      rw [List.isEmpty_eq_false_iff]
      exact List.append_ne_nil_of_left_ne_nil (hsrc c).ne_nil _
    rw [List.flatMap_cons, conv, hne, if_neg Bool.false_ne_true]
    by_cases hfull : n = pushed.length
    · have hroom : PushBack.fullyFilled (⟨some n, pushed⟩ : PushBack β) = true :=
        decide_eq_true (congrArg some hfull)
      rw [hroom, if_pos rfl]
      exact ⟨_, pushed, rfl, hfull.symm⟩
    have hroom : PushBack.fullyFilled (⟨some n, pushed⟩ : PushBack β) = false :=
      decide_eq_false fun h => hfull (Option.some.inj h)
    rw [hroom, if_neg Bool.false_ne_true, (hsrc c).read]
    dsimp only
    rw [(hdst c).write]
    dsimp only
    by_cases hfits : pushed.length + (chs' c).length ≤ n
    · have hroom' : ∀ m ∈ some n, pushed.length + (chs' c).length ≤ m :=
        fun m hm => Option.some.inj hm ▸ hfits
      rw [PushBack.pushAll_fits hroom']
      have hlen : (pushed ++ chs' c).length = pushed.length + (chs' c).length := List.length_append
      exact conv_overflow hsrc hdst (by omega) (by omega) (by omega)
    · obtain ⟨filled, hpush, hfilled⟩ := PushBack.pushAll_overflow hle (Nat.lt_of_not_le hfits)
      rw [hpush]
      exact ⟨_, filled, rfl, hfilled⟩

theorem utfConvert_overflow {γ : Type} {src : Codec α} {dst : Codec β} {cp : γ → Nat}
    {chs : γ → List α} {chs' : γ → List β} (hsrc : ∀ c, Spelled src (cp c) (chs c))
    (hdst : ∀ c, Spelled dst (cp c) (chs' c)) {n : Nat} {w : List γ}
    (hlt : n < (w.flatMap chs').length) (replacement : β) (failOnIllformed : Bool) :
    ∃ filled, utfConvert src dst replacement failOnIllformed (w.flatMap chs) ⟨some n, []⟩
      = ({ needMoreDst := true }, ⟨some n, filled⟩) := by
  obtain ⟨it, filled, hconv, hfilled⟩ := conv_overflow hsrc hdst (Nat.le_refl _)
    (Nat.zero_le n : ([] : List β).length ≤ n) (by rw [List.length_nil, Nat.zero_add]; exact hlt)
  have hfull : PushBack.fullyFilled (⟨some n, filled⟩ : PushBack β) = true :=
    decide_eq_true (congrArg some hfilled.symm)
  refine ⟨filled, ?_⟩
  rw [utfConvert, utfConvertLoop, hconv]
  dsimp only
  rw [hfull, if_pos rfl]

/-! ## Scalar values -/

/-- A scalar value is outside the surrogates. -/
theorem scalar_cases (c : Char) :
    c.toNat < 0xD800 ∨ (0xE000 ≤ c.toNat ∧ c.toNat < 0x110000) := by
  have h := c.valid
  rw [UInt32.isValidChar, Nat.isValidChar] at h
  have hval : c.toNat = c.val.toNat := rfl
  omega

theorem scalar_lt (c : Char) : c.toNat < 0x110000 := by
  have h := scalar_cases c
  omega

/-- UTF-32 -/
theorem spelled32 (c : Char) : Spelled utf32 c.toNat [c.val] where
  ne_nil := List.cons_ne_nil _ _
  read rest := by
    have hlt : c.val.toNat < 0x80000000 := by
      have h := scalar_lt c
      have hval : c.toNat = c.val.toNat := rfl
      omega
    show read32 (c.val :: rest) = _
    rw [read32, if_pos hlt]
    rfl
  write := by
    have hlt : c.toNat < 0x80000000 := by
      have h := scalar_lt c
      omega
    have hval : UInt32.ofNat c.toNat = c.val := UInt32.ofNat_toNat
    show write32 c.toNat = _
    rw [write32, if_pos hlt, hval]

/-- UTF-8 -/
theorem write_eq_utf8EncodeChar (c : Char) : Utf8.write c.toNat = String.utf8EncodeChar c := by
  have hlt := scalar_lt c
  have hval : c.val.toNat = c.toNat := rfl
  rw [String.utf8EncodeChar, hval]
  generalize c.toNat = v at hlt
  have htail : ∀ shift, Utf8.tailByte v shift = UInt8.ofNat (v / 2 ^ shift % 0x40 + 0x80) := by
    intro shift
    rw [Utf8.tailByte_eq, Nat.add_comm]
  have htail0 : Utf8.tailByte v 0 = UInt8.ofNat (v % 0x40 + 0x80) := by
    rw [htail, Nat.pow_zero, Nat.div_one]
  have htail6 : Utf8.tailByte v 6 = UInt8.ofNat (v / 64 % 0x40 + 0x80) := htail 6
  have htail12 : Utf8.tailByte v 12 = UInt8.ofNat (v / 4096 % 0x40 + 0x80) := htail 12
  rw [Utf8.write, htail0, htail6, htail12]
  by_cases h1 : v < 0x80
  · rw [if_pos h1, if_pos (by omega)]
  by_cases h2 : v < 0x800
  · have hlead : 0xC0 ||| v >>> 6 = v / 64 % 0x20 + 0xC0 := by
      have hor : 2 ^ 5 * 6 ||| v / 2 ^ 6 = 2 ^ 5 * 6 + v / 2 ^ 6 :=
        Utf8.or_eq_add 6 _ 5 (by omega)
      rw [Nat.shiftRight_eq_div_pow]
      exact hor.trans (by omega)
    rw [if_neg h1, if_pos h2, if_neg (by omega), if_pos (by omega), hlead]
  by_cases h3 : v < 0x10000
  · have hlead : 0xE0 ||| v >>> 12 = v / 4096 % 0x10 + 0xE0 := by
      have hor : 2 ^ 4 * 14 ||| v / 2 ^ 12 = 2 ^ 4 * 14 + v / 2 ^ 12 :=
        Utf8.or_eq_add 14 _ 4 (by omega)
      rw [Nat.shiftRight_eq_div_pow]
      exact hor.trans (by omega)
    rw [if_neg h1, if_neg h2, if_pos h3, if_neg (by omega), if_neg (by omega), if_pos (by omega),
      hlead]
  · have hlead : 0xF0 ||| v >>> 18 = v / 262144 % 0x08 + 0xF0 := by
      have hor : 2 ^ 3 * 30 ||| v / 2 ^ 18 = 2 ^ 3 * 30 + v / 2 ^ 18 :=
        Utf8.or_eq_add 30 _ 3 (by omega)
      rw [Nat.shiftRight_eq_div_pow]
      exact hor.trans (by omega)
    rw [if_neg h1, if_neg h2, if_neg h3, if_pos (by omega), if_neg (by omega), if_neg (by omega),
      if_neg (by omega), hlead]

/-- A byte of a sequence, as a number. -/
theorem toNat_ofNat_byte {n : Nat} (h : n < 256) : (UInt8.ofNat n).toNat = n :=
  UInt8.toNat_ofNat_of_lt' h

theorem isTail_ofNat {n : Nat} (h : n < 64) : Utf8.isTail (UInt8.ofNat (n + 0x80)) = true := by
  rw [Utf8.isTail_iff, toNat_ofNat_byte (by omega)]
  omega

/-- Which form the first byte tells. -/
theorem read_cons (ch0 : Byte) (rest : List Byte) :
    Utf8.read (ch0 :: rest) =
      if ch0.toNat < 0x80 then some (ch0.toNat, rest)
      else if ch0.toNat < 0xC2 then none
      else if ch0.toNat < 0xE0 then Utf8.read2 ch0 rest
      else if ch0.toNat < 0xF0 then Utf8.read3 ch0 rest
      else if ch0.toNat < 0xF8 then Utf8.read4 ch0 rest
      else if ch0.toNat < 0xFC then Utf8.read5 ch0 rest
      else if ch0.toNat < 0xFE then Utf8.read6 ch0 rest
      else none := by
  simp only [Utf8.read, UInt8.lt_iff_toNat_lt]
  rfl

theorem read2_encoded {v : Nat} (h1 : 0x80 ≤ v) (h2 : v < 0x800) (rest : List Byte) :
    Utf8.read (UInt8.ofNat (v / 64 % 0x20 + 0xC0) :: UInt8.ofNat (v % 0x40 + 0x80) :: rest)
      = some (v, rest) := by
  have hlead : (UInt8.ofNat (v / 64 % 0x20 + 0xC0)).toNat = v / 64 % 0x20 + 0xC0 :=
    toNat_ofNat_byte (by omega)
  have htail : (UInt8.ofNat (v % 0x40 + 0x80)).toNat = v % 0x40 + 0x80 :=
    toNat_ofNat_byte (by omega)
  rw [read_cons, hlead, if_neg (by omega), if_neg (by omega), if_pos (by omega), Utf8.read2,
    if_pos (isTail_ofNat (Nat.mod_lt _ (by decide))),
    hlead, htail, Nat.shiftLeft_eq]
  refine congrArg (fun cp => some (cp, rest)) ?_
  omega

theorem read3_encoded {v : Nat} (h1 : 0x800 ≤ v) (h2 : v < 0x10000)
    (hscalar : v < 0xD800 ∨ 0xE000 ≤ v) (rest : List Byte) :
    Utf8.read (UInt8.ofNat (v / 4096 % 0x10 + 0xE0) :: UInt8.ofNat (v / 64 % 0x40 + 0x80)
      :: UInt8.ofNat (v % 0x40 + 0x80) :: rest) = some (v, rest) := by
  have hlead : (UInt8.ofNat (v / 4096 % 0x10 + 0xE0)).toNat = v / 4096 % 0x10 + 0xE0 :=
    toNat_ofNat_byte (by omega)
  have hmid : (UInt8.ofNat (v / 64 % 0x40 + 0x80)).toNat = v / 64 % 0x40 + 0x80 :=
    toNat_ofNat_byte (by omega)
  have htail : (UInt8.ofNat (v % 0x40 + 0x80)).toNat = v % 0x40 + 0x80 :=
    toNat_ofNat_byte (by omega)
  have hoverlong : ¬ (UInt8.ofNat (v / 4096 % 0x10 + 0xE0) = 0xE0
      ∧ UInt8.ofNat (v / 64 % 0x40 + 0x80) < 0xA0) := by
    rw [← UInt8.toNat_inj, UInt8.lt_iff_toNat_lt, hlead, hmid]
    simp only [UInt8.reduceToNat]
    omega
  have hsurrogate : ¬ (UInt8.ofNat (v / 4096 % 0x10 + 0xE0) = 0xED
      ∧ UInt8.ofNat (v / 64 % 0x40 + 0x80) > 0x9F) := by
    rw [← UInt8.toNat_inj, gt_iff_lt, UInt8.lt_iff_toNat_lt, hlead, hmid]
    simp only [UInt8.reduceToNat]
    omega
  rw [read_cons, hlead, if_neg (by omega), if_neg (by omega), if_neg (by omega),
    if_pos (by omega), Utf8.read3,
    if_pos ⟨isTail_ofNat (Nat.mod_lt _ (by decide)), hoverlong, hsurrogate,
      isTail_ofNat (Nat.mod_lt _ (by decide))⟩, hlead, hmid, htail, Nat.shiftLeft_eq,
    Nat.shiftLeft_eq]
  refine congrArg (fun cp => some (cp, rest)) ?_
  omega

theorem read4_encoded {v : Nat} (h1 : 0x10000 ≤ v) (h2 : v < 0x110000) (rest : List Byte) :
    Utf8.read (UInt8.ofNat (v / 262144 % 0x08 + 0xF0) :: UInt8.ofNat (v / 4096 % 0x40 + 0x80)
      :: UInt8.ofNat (v / 64 % 0x40 + 0x80) :: UInt8.ofNat (v % 0x40 + 0x80) :: rest)
      = some (v, rest) := by
  have hlead : (UInt8.ofNat (v / 262144 % 0x08 + 0xF0)).toNat = v / 262144 % 0x08 + 0xF0 :=
    toNat_ofNat_byte (by omega)
  have hfirst : (UInt8.ofNat (v / 4096 % 0x40 + 0x80)).toNat = v / 4096 % 0x40 + 0x80 :=
    toNat_ofNat_byte (by omega)
  have hmid : (UInt8.ofNat (v / 64 % 0x40 + 0x80)).toNat = v / 64 % 0x40 + 0x80 :=
    toNat_ofNat_byte (by omega)
  have htail : (UInt8.ofNat (v % 0x40 + 0x80)).toNat = v % 0x40 + 0x80 :=
    toNat_ofNat_byte (by omega)
  have hoverlong : ¬ (UInt8.ofNat (v / 262144 % 0x08 + 0xF0) = 0xF0
      ∧ UInt8.ofNat (v / 4096 % 0x40 + 0x80) < 0x90) := by
    rw [← UInt8.toNat_inj, UInt8.lt_iff_toNat_lt, hlead, hfirst]
    simp only [UInt8.reduceToNat]
    omega
  have hlarge : ¬ (UInt8.ofNat (v / 262144 % 0x08 + 0xF0) = 0xF4
      ∧ UInt8.ofNat (v / 4096 % 0x40 + 0x80) > 0x8F) := by
    rw [← UInt8.toNat_inj, gt_iff_lt, UInt8.lt_iff_toNat_lt, hlead, hfirst]
    simp only [UInt8.reduceToNat]
    omega
  rw [read_cons, hlead, if_neg (by omega), if_neg (by omega), if_neg (by omega),
    if_neg (by omega), if_pos (by omega), Utf8.read4,
    if_pos ⟨isTail_ofNat (Nat.mod_lt _ (by decide)), hoverlong, hlarge,
      isTail_ofNat (Nat.mod_lt _ (by decide)), isTail_ofNat (Nat.mod_lt _ (by decide))⟩,
    hlead, hfirst, hmid, htail, Nat.shiftLeft_eq, Nat.shiftLeft_eq, Nat.shiftLeft_eq]
  refine congrArg (fun cp => some (cp, rest)) ?_
  omega

theorem read_utf8EncodeChar (c : Char) (rest : List Byte) :
    Utf8.read (String.utf8EncodeChar c ++ rest) = some (c.toNat, rest) := by
  have hcases := scalar_cases c
  have hval : c.val.toNat = c.toNat := rfl
  rw [String.utf8EncodeChar, hval]
  generalize c.toNat = v at hcases
  by_cases h1 : v ≤ 0x7F
  · have hbyte : (UInt8.ofNat v).toNat = v := toNat_ofNat_byte (by omega)
    rw [if_pos h1, List.singleton_append, read_cons, hbyte, if_pos (by omega)]
  by_cases h2 : v ≤ 0x7FF
  · rw [if_neg h1, if_pos h2]
    exact read2_encoded (by omega) (by omega) rest
  by_cases h3 : v ≤ 0xFFFF
  · rw [if_neg h1, if_neg h2, if_pos h3]
    exact read3_encoded (by omega) (by omega) (by omega) rest
  · rw [if_neg h1, if_neg h2, if_neg h3]
    exact read4_encoded (by omega) (by omega) rest

/-- UTF-8 -/
theorem spelled8 (c : Char) : Spelled utf8 c.toNat (String.utf8EncodeChar c) where
  ne_nil := by
    rw [← write_eq_utf8EncodeChar]
    exact Utf8.write_ne_nil _
  read rest := read_utf8EncodeChar c rest
  write := by
    have hlt := scalar_lt c
    show (if c.toNat < 0x80000000 then some (Utf8.write c.toNat) else none) = _
    rw [if_pos (by omega), write_eq_utf8EncodeChar]

/-- The UTF-16 code units of a scalar value. -/
def utf16Units (c : Char) : List Nat :=
  if c.toNat < 0x10000 then [c.toNat]
  else [0xD800 + (c.toNat - 0x10000) / 0x400, 0xDC00 + (c.toNat - 0x10000) % 0x400]

theorem utf16Units_lt {c : Char} {unit : Nat} (h : unit ∈ utf16Units c) : unit < 0x10000 := by
  have hlt := scalar_lt c
  rw [utf16Units] at h
  split at h
  · next hsmall =>
    rw [List.mem_singleton] at h
    rw [h]
    exact hsmall
  · rw [List.mem_cons, List.mem_singleton] at h
    omega

/-- UTF-16 -/
theorem spelled16 (c : Char) : Spelled utf16 c.toNat ((utf16Units c).map UInt16.ofNat) := by
  have hcases := scalar_cases c
  have hunit : ∀ n : Nat, n < 0x10000 → (UInt16.ofNat n).toNat = n := fun n h =>
    UInt16.toNat_ofNat_of_lt' h
  rw [utf16Units]
  generalize c.toNat = v at hcases
  by_cases hsmall : v < 0x10000
  · rw [if_pos hsmall, List.map_singleton]
    refine ⟨List.cons_ne_nil _ _, fun rest => ?_, ?_⟩
    · show read16 (UInt16.ofNat v :: rest) = _
      rw [read16.eq_def]
      dsimp only
      rw [hunit v hsmall]
      by_cases hlow : v < 0xD800
      · rw [if_pos hlow]
      · rw [if_neg hlow, if_neg (by omega), if_neg (by omega)]
    · show write16 v = _
      rw [write16]
      by_cases hlow : v < 0xD800
      · rw [if_pos hlow]
      · rw [if_neg hlow, if_pos hsmall, if_neg (by omega)]
  · rw [if_neg hsmall, List.map_cons, List.map_singleton]
    have hhigh : 0xD7C0 + v >>> 10 = 0xD800 + (v - 0x10000) / 0x400 := by
      rw [Nat.shiftRight_eq_div_pow]
      omega
    have hlow : 0xDC00 + (v &&& 0x3FF) = 0xDC00 + (v - 0x10000) % 0x400 := by
      rw [show v &&& 0x3FF = v % 1024 from Nat.and_two_pow_sub_one_eq_mod v 10]
      omega
    refine ⟨List.cons_ne_nil _ _, fun rest => ?_, ?_⟩
    · show read16 (UInt16.ofNat _ :: UInt16.ofNat _ :: rest) = _
      have hhighNat := hunit (0xD800 + (v - 0x10000) / 0x400) (by omega)
      have hlowNat := hunit (0xDC00 + (v - 0x10000) % 0x400) (by omega)
      rw [read16.eq_def]
      dsimp only
      rw [hhighNat, hlowNat, if_neg (by omega), if_pos (by omega), Nat.shiftRight_eq_div_pow,
        if_pos (by omega), Nat.shiftLeft_eq]
      refine congrArg (fun cp => some (cp, rest)) ?_
      omega
    · show write16 v = _
      rw [write16, if_neg (by omega), if_neg hsmall, if_pos (by omega), hhigh, hlow]

end Far2l.Utf
