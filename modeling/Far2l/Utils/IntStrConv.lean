/-
Far2l.Utils.IntStrConv — `utils/src/IntStrConv.cpp`: integers as text, and the
readers of the C library that undo it.

`_itow` and `_i64tow` write into the caller's buffer, whose characters are a
function of their place; they end only when the turns suffice for the digits, and
not at all when the radix is 0 or 1.
-/
import Far2l.Lib.Numerals
import Far2l.Utils.Chars

namespace Far2l.IntStrConv

open Numerals

/-! ## The readers of the C library, on the codes of the characters -/

def isSpace (c : Nat) : Bool := c = 0x20 || (9 ≤ c && c ≤ 13)

/-- What a character stands for as a digit; a large number where it is none. -/
def digitOf (c : Nat) : Nat :=
  if 0x30 ≤ c ∧ c ≤ 0x39 then c - 0x30
  else if 0x61 ≤ c ∧ c ≤ 0x7A then 10 + c - 0x61
  else if 0x41 ≤ c ∧ c ≤ 0x5A then 10 + c - 0x41
  else 0xff

/-- What follows the `0x` that a hexadecimal number may begin with. -/
def afterMark : List Nat → List Nat
  | 0x30 :: x :: d :: s =>
      if (x = 0x78 ∨ x = 0x58) ∧ digitOf d < 16 then d :: s else 0x30 :: x :: d :: s
  | s => s

/-- Whether there is a minus, and the number behind the sign. -/
def scanNumber (base : Nat) (s : List Nat) : Bool × Nat :=
  let t := s.dropWhile isSpace
  let u := if t.head? = some 0x2D ∨ t.head? = some 0x2B then t.tail else t
  (t.head? = some 0x2D, leadingValue digitOf base (if base = 16 then afterMark u else u))

/-- `strtol`, `wcstoll`: what is too large is cut. -/
def strtol (base : Nat) (s : List Nat) : Int64 :=
  let r := scanNumber base s
  Int64.ofInt (if r.1 then max (-2 ^ 63) (-r.2) else min (2 ^ 63 - 1) r.2)

/-- `strtoul`, `strtoull`: what is too large is cut, and a minus is taken modulo 2^64. -/
def strtoul (base : Nat) (s : List Nat) : UInt64 :=
  let r := scanNumber base s
  if 2 ^ 64 ≤ r.2 then UInt64.ofNat (2 ^ 64 - 1)
  else if r.1 then -UInt64.ofNat r.2
  else UInt64.ofNat r.2

/-- `wcstoll` of base 10. -/
def wcstoll (s : WStr) : Int64 := strtol 10 (s.map UInt32.toNat)

/-! ## `_i64tow`, `_itow` -/

/-- The caller's characters. -/
abbrev Buffer := Int → WChar

def Buffer.put (b : Buffer) (w : Int) (c : WChar) : Buffer := fun k => if k = w then c else b k

/-- `if (d<=9) *w = d + '0'; else *w = d - 10 + 'a'` -/
def digitChar (d : UInt32) : WChar := if d ≤ 9 then d + 0x30 else d - 10 + 0x61

section Loops

variable {bits : Nat} (radix : BitVec bits)

/-- `for (int j = i; j; j/= radix) ++w` -/
def countLoop : Nat → BitVec bits → Int → Option Int
  | 0, _, _ => none
  | turns + 1, j, w =>
      if j = 0 then some w
      else if radix = 0 then none
      else countLoop turns (j.sdiv radix) (w + 1)

/-- `for (; i; i/= radix)` -/
def writeLoop : Nat → BitVec bits → Int → Buffer → Option (Int × Buffer)
  | 0, _, _, _ => none
  | turns + 1, i, w, b =>
      if i = 0 then some (w, b)
      else if radix = 0 then none
      else
        let d := UInt32.ofBitVec ((i.srem radix).setWidth 32)
        writeLoop turns (i.sdiv radix) (w - 1) (b.put (w - 1) (digitChar d))

/-- The bodies of `_i64tow` and `_itow`: what is returned, and what the buffer holds. -/
def tow (i : BitVec bits) (b : Buffer) : Option (Int × Buffer) :=
  if i = 0 then some (0, (b.put 0 0x30).put 1 0)
  else
    let neg := i.slt 0
    let b := if neg then b.put 0 0x2D else b
    let w : Int := if neg then 1 else 0
    let i := if neg then -i else i
    (countLoop radix (bits + 1) i w).bind fun w =>
      (writeLoop radix (bits + 1) i w (b.put w 0)).map fun r => (if neg then r.1 - 1 else r.1, r.2)

end Loops

/-- `_i64tow` -/
def i64tow (i : Int64) (w : Buffer) (radix : Int32) : Option (Int × Buffer) :=
  tow radix.toInt64.toBitVec i.toBitVec w

/-- `_itow` -/
def itow (i : Int32) (w : Buffer) (radix : Int32) : Option (Int × Buffer) :=
  tow radix.toBitVec i.toBitVec w

end Far2l.IntStrConv

/-! # `_itow` and `_i64tow` at radix 10.

Both loops are followed on the list of the digits from the lowest one on: the
first counts them, and the second writes them from their end. The smallest number
of the type is its own negation, and its digits are taken from negative remainders. -/

namespace Far2l.IntStrConv

open Numerals

/-! ## The readers on numerals -/

/-- A digit below 16 in the alphabet of the writers. -/
def digitCode (d : Nat) : Nat := if d ≤ 9 then d + 0x30 else d - 10 + 0x61

theorem digitOf_digitCode {d : Nat} (h : d < 16) : digitOf (digitCode d) = d := by
  revert d
  decide

theorem digitCode_plain {d : Nat} (h : d < 16) :
    isSpace (digitCode d) = false ∧ digitCode d ≠ 0x2D ∧ digitCode d ≠ 0x2B ∧ digitCode d ≠ 0x78
      ∧ digitCode d ≠ 0x58 ∧ digitCode d < 256 := by
  revert d
  decide

/-- A text in which no `x` stands has no mark. -/
theorem afterMark_of_forall {s : List Nat} (h : ∀ c ∈ s, c ≠ 0x78 ∧ c ≠ 0x58) : afterMark s = s := by
  rw [afterMark.eq_def]
  split
  · next x d s =>
    obtain ⟨hx, hX⟩ := h x (by simp)
    rw [if_neg fun hmark => hmark.1.elim hx hX]
  · rfl

section Scan

variable {base : Nat} (hbase : 1 < base) (hle : base ≤ 16) (n : Nat)

include hbase hle

theorem leadingValue_marked :
    leadingValue digitOf base (if base = 16 then afterMark (numeral digitCode base n) else numeral digitCode base n)
      = n := by
  have hmark : afterMark (numeral digitCode base n) = numeral digitCode base n := by
    refine afterMark_of_forall fun c hc => ?_
    obtain ⟨d, hd, rfl⟩ := mem_numeral hbase hc
    have hplain := digitCode_plain (Nat.lt_of_lt_of_le hd hle)
    exact ⟨hplain.2.2.2.1, hplain.2.2.2.2.1⟩
  have hvalue : leadingValue digitOf base (numeral digitCode base n ++ []) = n :=
    leadingValue_numeral hbase (fun d hd => digitOf_digitCode (Nat.lt_of_lt_of_le hd hle)) (by simp)
  rw [List.append_nil] at hvalue
  rw [hmark, ite_self, hvalue]

/-- A numeral is scanned as its number. -/
theorem scanNumber_numeral : scanNumber base (numeral digitCode base n) = (false, n) := by
  obtain ⟨c, rest, hcons⟩ := List.exists_cons_of_ne_nil (@numeral_ne_nil _ digitCode base n)
  obtain ⟨d, hd, rfl⟩ := mem_numeral hbase (hcons ▸ List.mem_cons_self : c ∈ numeral digitCode base n)
  obtain ⟨hspace, hminus, hplus, -⟩ := digitCode_plain (Nat.lt_of_lt_of_le hd hle)
  have hvalue := leadingValue_marked hbase hle n
  have hdrop : (numeral digitCode base n).dropWhile isSpace = numeral digitCode base n := by
    rw [hcons]
    exact List.dropWhile_cons_of_neg (by rw [hspace]; exact Bool.false_ne_true)
  have hhead : (numeral digitCode base n).head? = some (digitCode d) := by rw [hcons]; rfl
  have hsign : ¬(some (digitCode d) = some 0x2D ∨ some (digitCode d) = some 0x2B) := by
    simp [hminus, hplus]
  rw [scanNumber, hdrop, hhead, if_neg hsign, hvalue]
  simp [hminus]

/-- With a minus in front of it. -/
theorem scanNumber_minus : scanNumber base (0x2D :: numeral digitCode base n) = (true, n) := by
  have hvalue := leadingValue_marked hbase hle n
  have hdrop : (0x2D :: numeral digitCode base n).dropWhile isSpace = 0x2D :: numeral digitCode base n :=
    List.dropWhile_cons_of_neg (by decide)
  have hsign : (0x2D :: numeral digitCode base n).head? = some 0x2D
      ∨ (0x2D :: numeral digitCode base n).head? = some 0x2B := .inl rfl
  rw [scanNumber, hdrop, if_pos hsign, List.tail_cons, hvalue]
  rfl

end Scan

/-! ## Decimal numerals -/

/-- The text of a number: an optional minus and its digits. -/
def decimal (v : Int) : WStr :=
  if v < 0 then 0x2D :: numeral (fun d => UInt32.ofNat (digitCode d)) 10 v.natAbs
  else numeral (fun d => UInt32.ofNat (digitCode d)) 10 v.natAbs

theorem map_decimal (v : Int) : (decimal v).map UInt32.toNat
    = if v < 0 then 0x2D :: numeral digitCode 10 v.natAbs else numeral digitCode 10 v.natAbs := by
  have hmap : (numeral (fun d => UInt32.ofNat (digitCode d)) 10 v.natAbs).map UInt32.toNat
      = numeral digitCode 10 v.natAbs := by
    rw [map_numeral]
    refine numeral_congr (by decide) fun d hd => ?_
    revert d
    decide
  rw [decimal]
  split
  · rw [List.map_cons, hmap]
    rfl
  · exact hmap

/-- **`wcstoll` reads it.** -/
theorem wcstoll_decimal {v : Int} (hlow : -2 ^ 63 ≤ v) (hhigh : v < 2 ^ 63) : (wcstoll (decimal v)).toInt = v := by
  rw [wcstoll, map_decimal, strtol]
  split
  · next hneg =>
    have hcut : max (-2 ^ 63) (-(v.natAbs : Int)) = v := by omega
    rw [scanNumber_minus (by decide) (by decide), if_pos rfl, hcut]
    exact Int64.toInt_ofInt_of_le hlow hhigh
  · next hpos =>
    have hcut : min (2 ^ 63 - 1) (v.natAbs : Int) = v := by omega
    rw [scanNumber_numeral (by decide) (by decide), if_neg Bool.false_ne_true, hcut]
    exact Int64.toInt_ofInt_of_le hlow hhigh

/-! ## A string in the buffer -/

/-- The buffer with a string written at a place. -/
def Buffer.write (b : Buffer) (p : Int) (s : WStr) : Buffer :=
  fun k => if p ≤ k then s[(k - p).toNat]?.getD (b k) else b k

@[simp] theorem Buffer.write_nil (b : Buffer) (p : Int) : b.write p [] = b := by
  funext k
  simp [Buffer.write]

/-- The last character first. -/
theorem Buffer.write_concat (b : Buffer) (p : Int) (s : WStr) (c : WChar) :
    (b.put (p + s.length) c).write p s = b.write p (s ++ [c]) := by
  funext k
  simp only [Buffer.write, Buffer.put]
  split
  · next hle =>
    rcases Nat.lt_trichotomy (k - p).toNat s.length with hlt | heq | hgt
    · rw [List.getElem?_append_left hlt, List.getElem?_eq_getElem hlt]
      rfl
    · rw [List.getElem?_append_right heq.ge, heq, List.getElem?_eq_none (Nat.le_refl _), if_pos (by omega),
        Nat.sub_self]
      rfl
    · rw [List.getElem?_eq_none (by omega), List.getElem?_eq_none (by simp; omega), if_neg (by omega)]
  · next hgt => rw [if_neg (by omega)]

/-- The first character first. -/
theorem Buffer.write_cons (b : Buffer) (p : Int) (s : WStr) (c : WChar) :
    (b.put p c).write (p + 1) s = b.write p (c :: s) := by
  funext k
  simp only [Buffer.write, Buffer.put]
  rcases Int.lt_trichotomy k p with hlt | heq | hgt
  · rw [if_neg (by omega), if_neg (by omega), if_neg (by omega)]
  · rw [if_neg (by omega), if_pos (by omega), if_pos (by omega), heq, Int.sub_self]
    rfl
  · have hplace : (k - p).toNat = (k - (p + 1)).toNat + 1 := by omega
    rw [if_pos (show p + 1 ≤ k by omega), if_neg (show ¬k = p by omega), if_pos (show p ≤ k by omega), hplace,
      List.getElem?_cons_succ]

theorem Buffer.put_comm (b : Buffer) {p q : Int} (h : p ≠ q) (c d : WChar) :
    (b.put p c).put q d = (b.put q d).put p c := by
  funext k
  simp only [Buffer.put]
  by_cases hq : k = q
  · rw [if_pos hq, if_neg (by omega), if_pos hq]
  · rw [if_neg hq, if_neg hq]

/-- A string stands at a place, and the NUL behind it. -/
structure Shows (b : Buffer) (p : Int) (s : WStr) : Prop where
  chars : ∀ k (h : k < s.length), b (p + k) = s[k]
  nul : b (p + s.length) = 0

/-- What is written: a string with its NUL. -/
def Buffer.finish (b : Buffer) (s : WStr) : Buffer := (b.put s.length 0).write 0 s

theorem shows_finish (b : Buffer) (s : WStr) : Shows (b.finish s) 0 s where
  chars k h := by
    have hplace : ((0 : Int) + (k : Int) - 0).toNat = k := by omega
    rw [Buffer.finish, Buffer.write, if_pos (by omega), hplace, List.getElem?_eq_getElem h]
    rfl
  nul := by
    have hplace : ((0 : Int) + (s.length : Int) - 0).toNat = s.length := by omega
    rw [Buffer.finish, Buffer.write, if_pos (by omega), hplace, List.getElem?_eq_none (Nat.le_refl _),
      Option.getD_none, Buffer.put, if_pos (by omega)]

theorem finish_kept (b : Buffer) (s : WStr) {k : Int} (h : k < 0 ∨ (s.length : Int) < k) : b.finish s k = b k := by
  rw [Buffer.finish, Buffer.write]
  split
  · next hle =>
    rw [List.getElem?_eq_none (by omega), Option.getD_none, Buffer.put, if_neg (by omega)]
  · rw [Buffer.put, if_neg (by omega)]

/-! ## The loops -/

section Loops

variable {bits m : Nat} {radix j : BitVec bits}

theorem toNat_of_toInt (h : j.toInt = m) : j.toNat = m := by
  rw [BitVec.toInt_eq_toNat_cond] at h
  have := j.isLt
  split at h <;> omega

theorem sdiv_toInt (hradix : radix.toInt = 10) (h : j.toInt = m) : (j.sdiv radix).toInt = (m / 10 : Nat) := by
  have hlt : 2 * j.toInt < 2 ^ bits := BitVec.two_mul_toInt_lt
  have hpos : (0 : Int) < 2 ^ bits := Int.pow_pos (by decide)
  have hdiv : (m : Int).tdiv 10 = (m / 10 : Nat) := rfl
  rw [BitVec.toInt_sdiv, h, hradix, hdiv]
  refine Int.bmod_eq_of_le ?_ ?_ <;> push_cast <;> omega

/-- The digit that `i % radix` gives. -/
theorem srem_digitChar (hradix : radix.toInt = 10) (h : j.toInt = m) :
    digitChar (UInt32.ofBitVec ((j.srem radix).setWidth 32)) = UInt32.ofNat (digitCode (m % 10)) := by
  have hrem : (j.srem radix).toInt = (m % 10 : Nat) := by
    rw [BitVec.toInt_srem, h, hradix]
    rfl
  have hd : UInt32.ofBitVec ((j.srem radix).setWidth 32) = UInt32.ofNat (m % 10) := by
    apply UInt32.toNat_inj.mp
    rw [UInt32.toNat_ofBitVec, BitVec.toNat_setWidth, toNat_of_toInt hrem]
    rfl
  have hlt : m % 10 < 10 := Nat.mod_lt _ (by decide)
  rw [hd]
  generalize m % 10 = d at hlt
  revert d
  decide

theorem eq_zero_iff (h : j.toInt = m) : j = 0 ↔ m = 0 := by
  constructor
  · rintro rfl
    rw [BitVec.ofNat_eq_ofNat, BitVec.toInt_zero] at h
    omega
  · rintro rfl
    exact BitVec.eq_of_toInt_eq (h.trans BitVec.toInt_zero.symm)

theorem ne_zero_of_radix (hradix : radix.toInt = 10) : ¬radix = 0 := by
  rintro rfl
  rw [BitVec.ofNat_eq_ofNat, BitVec.toInt_zero] at hradix
  exact absurd hradix (by decide)

/-- The first loop counts the digits. -/
theorem countLoop_spec (hradix : radix.toInt = 10) {turns : Nat} (w : Int) (h : j.toInt = m)
    (hturns : (Nat.digits 10 m).length < turns) :
    countLoop radix turns j w = some (w + (Nat.digits 10 m).length) := by
  induction turns generalizing j m w with
  | zero => exact absurd hturns (Nat.not_lt_zero _)
  | succ turns ih =>
    rw [countLoop]
    by_cases hm : m = 0
    · rw [if_pos ((eq_zero_iff h).mpr hm), hm]
      simp
    · have hdigits := Nat.digits_def' (b := 10) (by decide) (Nat.pos_of_ne_zero hm)
      rw [hdigits, List.length_cons] at hturns
      rw [if_neg ((eq_zero_iff h).not.mpr hm), if_neg (ne_zero_of_radix hradix),
        ih (w + 1) (sdiv_toInt hradix h) (by omega), hdigits, List.length_cons]
      push_cast
      rw [Int.add_assoc, Int.add_comm 1]

/-- The digits as they are written, the lowest one last. -/
def digitText (m : Nat) : WStr := ((Nat.digits 10 m).map fun d => UInt32.ofNat (digitCode d)).reverse

@[simp] theorem length_digitText (m : Nat) : (digitText m).length = (Nat.digits 10 m).length := by
  rw [digitText, List.length_reverse, List.length_map]

/-- The second one writes them from their end. -/
theorem writeLoop_spec (hradix : radix.toInt = 10) {turns : Nat} {p w : Int} (b : Buffer) (h : j.toInt = m)
    (hturns : (Nat.digits 10 m).length < turns) (hw : w = p + (Nat.digits 10 m).length) :
    writeLoop radix turns j w b = some (p, b.write p (digitText m)) := by
  induction turns generalizing j m w b with
  | zero => exact absurd hturns (Nat.not_lt_zero _)
  | succ turns ih =>
    rw [writeLoop]
    by_cases hm : m = 0
    · rw [if_pos ((eq_zero_iff h).mpr hm)]
      rw [hm] at hw ⊢
      simp [digitText, hw]
    · have hdigits := Nat.digits_def' (b := 10) (by decide) (Nat.pos_of_ne_zero hm)
      rw [hdigits, List.length_cons] at hturns hw
      have htext : digitText m = digitText (m / 10) ++ [UInt32.ofNat (digitCode (m % 10))] := by
        rw [digitText, hdigits, List.map_cons, List.reverse_cons]
        rfl
      have hlast : w - 1 = p + (digitText (m / 10)).length := by
        rw [length_digitText]
        omega
      rw [if_neg ((eq_zero_iff h).not.mpr hm), if_neg (ne_zero_of_radix hradix)]
      dsimp only
      rw [ih _ (sdiv_toInt hradix h) (by omega) (by omega), srem_digitChar hradix h, hlast, Buffer.write_concat,
        ← htext]

/-- **`tow` writes the numeral**, but for the smallest number. -/
theorem tow_eq (hradix : radix.toInt = 10) (hj : j ≠ BitVec.intMin bits) (b : Buffer) :
    tow radix j b = some (0, b.finish (decimal j.toInt)) := by
  have hlow : -2 ^ bits ≤ 2 * j.toInt := BitVec.le_two_mul_toInt
  have hhigh : 2 * j.toInt < 2 ^ bits := BitVec.two_mul_toInt_lt
  have hlength : ∀ m : Nat, 2 * m ≤ 2 ^ bits → (Nat.digits 10 m).length < bits + 1 := by
    intro m hm
    have hten : 2 ^ bits ≤ 10 ^ bits := Nat.pow_le_pow_left (by decide) bits
    have hpos : 0 < 10 ^ bits := Nat.pow_pos (by decide)
    exact Nat.lt_succ_of_le ((Nat.digits_length_le_iff (by decide) m).mpr (by omega))
  rw [tow]
  by_cases hzero : j = 0
  · rw [if_pos hzero, hzero, BitVec.ofNat_eq_ofNat, BitVec.toInt_zero, Buffer.put_comm _ (by decide)]
    have hcons := Buffer.write_cons (b.put 1 0) 0 [] 0x30
    rw [Buffer.write_nil] at hcons
    rw [hcons]
    rfl
  · rw [if_neg hzero]
    dsimp only
    have hne : j.toInt ≠ 0 := fun h => hzero (BitVec.eq_of_toInt_eq (h.trans BitVec.toInt_zero.symm))
    have hnumeral : numeral (fun d => UInt32.ofNat (digitCode d)) 10 j.toInt.natAbs = digitText j.toInt.natAbs :=
      numeral_of_ne_zero (by omega)
    have habs : 2 * (j.toInt.natAbs : Int) ≤ 2 ^ bits := by omega
    have hturns := hlength j.toInt.natAbs (by exact_mod_cast habs)
    by_cases hneg : j.toInt < 0
    · have hslt : j.slt 0 = true := BitVec.slt_iff_toInt_lt.mpr (by simpa using hneg)
      have habs : (-j).toInt = (j.toInt.natAbs : Nat) := by
        rw [BitVec.toInt_neg_of_ne_intMin hj]
        omega
      rw [hslt]
      simp only [if_true]
      rw [countLoop_spec hradix 1 habs hturns, Option.bind_some, writeLoop_spec hradix _ habs hturns rfl]
      rw [Option.map_some, Buffer.finish, decimal, if_pos hneg, hnumeral, Buffer.put_comm _ (by omega)]
      have hcons := Buffer.write_cons (b.put (1 + (Nat.digits 10 j.toInt.natAbs).length) 0) 0
        (digitText j.toInt.natAbs) 0x2D
      rw [Int.zero_add] at hcons
      rw [hcons, List.length_cons, length_digitText]
      push_cast
      rw [Int.add_comm 1]
    · have hslt : j.slt 0 = false := by
        rw [Bool.eq_false_iff, ne_eq, BitVec.slt_iff_toInt_lt]
        simpa using hneg
      have habs : j.toInt = (j.toInt.natAbs : Nat) := by omega
      rw [hslt]
      simp only [Bool.false_eq_true, if_false]
      rw [countLoop_spec hradix 0 habs hturns, Option.bind_some, writeLoop_spec hradix _ habs hturns rfl,
        Option.map_some, Buffer.finish, decimal, if_neg hneg, hnumeral, length_digitText, Int.zero_add]

end Loops

/-! ## What is returned -/

/-- The digits of a decimal numeral. -/
def digitsOf (s : WStr) : WStr := if s.head? = some 0x2D then s.tail else s

/-- The canonical decimal numeral of a number. -/
structure Canonical (s : WStr) (v : Int) : Prop where
  sign : s.head? = some 0x2D ↔ v < 0
  digits : ∀ c ∈ digitsOf s, 0x30 ≤ c.toNat ∧ c.toNat ≤ 0x39
  leading : (digitsOf s).head? = some 0x30 → digitsOf s = [0x30]
  value : (wcstoll s).toInt = v

/-- **A conversion that is correct**: the string that is returned is the canonical numeral of the
number, and nothing is written but it and its NUL. -/
def Converts (v : Int) (before : Buffer) (res : Option (Int × Buffer)) : Prop :=
  ∃ p after s, res = some (p, after) ∧ Shows after p s ∧ Canonical s v
    ∧ ∀ k, k < p ∨ p + s.length < k → after k = before k

theorem wideDigit {d : Nat} (h : d < 10) : 0x30 ≤ (UInt32.ofNat (digitCode d)).toNat
    ∧ (UInt32.ofNat (digitCode d)).toNat ≤ 0x39 ∧ UInt32.ofNat (digitCode d) ≠ 0x2D
    ∧ (UInt32.ofNat (digitCode d) = 0x30 → d = 0) := by
  revert d
  decide

theorem digitsOf_decimal (v : Int) :
    digitsOf (decimal v) = numeral (fun d => UInt32.ofNat (digitCode d)) 10 v.natAbs
      ∧ ((decimal v).head? = some 0x2D ↔ v < 0) := by
  obtain ⟨c, rest, hcons⟩ := List.exists_cons_of_ne_nil
    (@numeral_ne_nil _ (fun d => UInt32.ofNat (digitCode d)) 10 v.natAbs)
  obtain ⟨d, hd, rfl⟩ := mem_numeral (by decide) (hcons ▸ List.mem_cons_self : c ∈ numeral _ 10 v.natAbs)
  have hplain := (wideDigit hd).2.2.1
  rw [decimal]
  split
  · next hneg => exact ⟨if_pos rfl, iff_of_true rfl hneg⟩
  · next hpos =>
    rw [hcons, digitsOf]
    exact ⟨if_neg (by simpa using hplain), iff_of_false (by simpa using hplain) hpos⟩

theorem canonical_decimal {v : Int} (hlow : -2 ^ 63 ≤ v) (hhigh : v < 2 ^ 63) : Canonical (decimal v) v where
  sign := (digitsOf_decimal v).2
  digits c hc := by
    rw [(digitsOf_decimal v).1] at hc
    obtain ⟨d, hd, rfl⟩ := mem_numeral (by decide) hc
    exact ⟨(wideDigit hd).1, (wideDigit hd).2.1⟩
  leading h := by
    rw [(digitsOf_decimal v).1] at h ⊢
    by_cases hv : v.natAbs = 0
    · rw [hv]
      exact numeral_zero
    · obtain ⟨d, rest, hpos, hd, hcons⟩ := @numeral_eq_cons _ (fun d => UInt32.ofNat (digitCode d))
        10 _ (by decide) hv
      rw [hcons] at h
      have := (wideDigit hd).2.2.2 (Option.some.inj h)
      omega
  value := wcstoll_decimal hlow hhigh

/-- But for the smallest number every conversion is correct. -/
theorem converts_of_ne {bits : Nat} {radix j : BitVec bits} (hbits : bits ≤ 64) (hradix : radix.toInt = 10)
    (hj : j ≠ BitVec.intMin bits) (b : Buffer) : Converts j.toInt b (tow radix j b) := by
  have hlow : -2 ^ bits ≤ 2 * j.toInt := BitVec.le_two_mul_toInt
  have hhigh : 2 * j.toInt < 2 ^ bits := BitVec.two_mul_toInt_lt
  have hpow : (2 : Int) ^ bits ≤ 2 ^ 64 := pow_le_pow_right₀ (by decide) hbits
  refine ⟨0, b.finish (decimal j.toInt), decimal j.toInt, tow_eq hradix hj b, shows_finish b _,
    canonical_decimal (by omega) (by omega), fun k hk => finish_kept b _ (by omega)⟩

/-- The second character that is written for the smallest number is a letter. -/
theorem not_converts {v : Int} (hv : v < 0) {before after : Buffer}
    (hletter : 0x39 < (after 1).toNat) : ¬Converts v before (some (0, after)) := by
  rintro ⟨p, after', s, hres, hshows, hcanonical, -⟩
  cases hres
  have hhead := hcanonical.sign.mpr hv
  obtain ⟨rest, rfl⟩ : ∃ rest, s = 0x2D :: rest := ⟨s.tail, (List.cons_head?_tail hhead).symm⟩
  have hvalue := hcanonical.value
  have hdigits := hcanonical.digits
  rw [digitsOf, if_pos hhead, List.tail_cons] at hdigits
  cases rest with
  | nil =>
    rw [show (wcstoll [0x2D]).toInt = 0 by decide] at hvalue
    omega
  | cons c rest =>
    have hc := hshows.chars 1 (by simp)
    have hdigit := hdigits c List.mem_cons_self
    have hsame : after 1 = c := hc
    rw [hsame] at hletter
    omega

/-- **`_itow` and `_i64tow` convert every number but the smallest one** of their type. -/
theorem conversions_iff (i : Int32) (j : Int64) (w : Buffer) :
    (Converts i.toInt w (itow i w 10) ↔ i ≠ Int32.minValue)
    ∧ (Converts j.toInt w (i64tow j w 10) ↔ j ≠ Int64.minValue) := by
  refine ⟨⟨?_, fun hi => ?_⟩, ⟨?_, fun hj => ?_⟩⟩
  · rintro hconverts rfl
    have hres : ∃ after, itow Int32.minValue w 10 = some (0, after) ∧ after 0 = 0x2D ∧ after 1 = 0x55 :=
      ⟨_, rfl, rfl, rfl⟩
    obtain ⟨after, hres, hminus, hletter⟩ := hres
    exact not_converts (by decide) (by rw [hletter]; decide) (hres ▸ hconverts)
  · exact converts_of_ne (by decide) (by decide) (fun h => hi (Int32.toBitVec_inj.mp h)) w
  · rintro hconverts rfl
    have hres : ∃ after, i64tow Int64.minValue w 10 = some (0, after) ∧ after 0 = 0x2D ∧ after 1 = 0x4E :=
      ⟨_, rfl, rfl, rfl⟩
    obtain ⟨after, hres, hminus, hletter⟩ := hres
    exact not_converts (by decide) (by rw [hletter]; decide) (hres ▸ hconverts)
  · exact converts_of_ne (by decide) (by decide) (fun h => hj (Int64.toBitVec_inj.mp h)) w

/-- `INT_MIN`: the remainder -2 is the digit 4294967294, and `U` is written for it. -/
theorem itow_minValue : ¬Converts Int32.minValue.toInt (fun _ => 0) (itow Int32.minValue (fun _ => 0) 10) := by
  have hres : ∃ after, itow Int32.minValue (fun _ => 0) 10 = some (0, after) ∧ after 0 = 0x2D ∧ after 1 = 0x55 :=
    ⟨_, rfl, rfl, rfl⟩
  obtain ⟨after, hres, hminus, hletter⟩ := hres
  rw [hres]
  exact not_converts (by decide) (by rw [hletter]; decide)

end Far2l.IntStrConv
