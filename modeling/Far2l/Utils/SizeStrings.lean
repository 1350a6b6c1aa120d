/-
Far2l.Utils.SizeStrings — `ThousandSeparatedString` of
`utils/src/utils.cpp`.
-/
import Far2l.Utils.Chars
import Mathlib.Data.Nat.Digits.Lemmas

namespace Far2l

/-- The separator of `ThousandSeparatedString`, a backtick. -/
def SEPARATOR : WChar := 0x60

/-- `L'0' + (value % 10)`. -/
def digitChar (value : Nat) : WChar := UInt32.ofNat (0x30 + value % 10)

/-- The loop of `ThousandSeparatedString`: what is appended to `str`, whose end is the front of the
number. -/
def separatedLoop (thSep value : Nat) : WStr :=
  if h : value = 0 then []
  else if thSep = 3 then
    SEPARATOR :: digitChar value :: separatedLoop 0 (value / 10)
  else
    digitChar value :: separatedLoop (thSep + 1) (value / 10)
termination_by value
decreasing_by all_goals exact Nat.div_lt_self (Nat.pos_of_ne_zero h) (by decide)

/-- `ThousandSeparatedString`. -/
def thousandSeparatedString (value : UInt64) : WStr :=
  let str := separatedLoop 0 value.toNat
  if str = [] then L ['0'] else str.reverse

end Far2l

/-! # The digits of `ThousandSeparatedString`, and

where the separators stand.

The digit that follows a separator is not counted, so that every group but the
last has four digits. A number of seven digits is the first for which this shows. -/

namespace Far2l

/-- The decimal representation. -/
def decimal (value : Nat) : WStr :=
  if value = 0 then L ['0'] else ((Nat.digits 10 value).map digitChar).reverse

/-- Counted from the right, the separators stand after every third digit and nowhere else. -/
def Grouped (str : WStr) : Prop :=
  str.head? ≠ some SEPARATOR
    ∧ ∀ i, (hi : i < str.reverse.length) → (str.reverse[i] = SEPARATOR ↔ i % 4 = 3)

/-! ## The loop -/

theorem digitChar_ne (value : Nat) : digitChar value ≠ SEPARATOR := by
  have hlt : value % 10 < 10 := Nat.mod_lt _ (by decide)
  intro h
  have hcode := congrArg UInt32.toNat h
  rw [digitChar, UInt32.toNat_ofNat', SEPARATOR] at hcode
  change (0x30 + value % 10) % 2 ^ 32 = 0x60 at hcode
  omega

theorem digitChar_mod (value : Nat) : digitChar (value % 10) = digitChar value := by
  rw [digitChar, digitChar, Nat.mod_mod]

theorem separatedLoop_zero (thSep : Nat) : separatedLoop thSep 0 = [] := by
  rw [separatedLoop, dif_pos rfl]

theorem separatedLoop_sep {value : Nat} (h : value ≠ 0) :
    separatedLoop 3 value = SEPARATOR :: digitChar value :: separatedLoop 0 (value / 10) := by
  rw [separatedLoop, dif_neg h, if_pos rfl]

theorem separatedLoop_digit {thSep value : Nat} (h : value ≠ 0) (hsep : thSep ≠ 3) :
    separatedLoop thSep value = digitChar value :: separatedLoop (thSep + 1) (value / 10) := by
  rw [separatedLoop, dif_neg h, if_neg hsep]

theorem digits_step {value : Nat} (h : value ≠ 0) :
    Nat.digits 10 value = value % 10 :: Nat.digits 10 (value / 10) :=
  Nat.digits_def' (by decide) (Nat.pos_of_ne_zero h)

/-- Without the separators the digits are left. -/
theorem separatedLoop_digits (thSep value : Nat) :
    (separatedLoop thSep value).filter (· ≠ SEPARATOR) = (Nat.digits 10 value).map digitChar := by
  induction value using Nat.strongRecOn generalizing thSep with
  | ind value ih =>
    by_cases h : value = 0
    · rw [h, separatedLoop_zero, Nat.digits_zero]
      rfl
    · have hlt : value / 10 < value := Nat.div_lt_self (Nat.pos_of_ne_zero h) (by decide)
      have hdigit (str : WStr) : (digitChar value :: str).filter (· ≠ SEPARATOR)
          = digitChar value :: str.filter (· ≠ SEPARATOR) :=
        List.filter_cons_of_pos (decide_eq_true (digitChar_ne value))
      rw [digits_step h, List.map_cons, digitChar_mod]
      by_cases hsep : thSep = 3
      · rw [hsep, separatedLoop_sep h, List.filter_cons_of_neg (by simp), hdigit, ih _ hlt]
      · rw [separatedLoop_digit h hsep, hdigit, ih _ hlt]

/-- The separators stand behind three digits first, and then behind every four. -/
theorem separatedLoop_separators (thSep value : Nat) (hsep : thSep ≤ 3) (i : Nat)
    (hi : i < (separatedLoop thSep value).length) :
    (separatedLoop thSep value)[i] = SEPARATOR ↔ (i + thSep) % 5 = 3 := by
  induction value using Nat.strongRecOn generalizing thSep i with
  | ind value ih =>
    by_cases h : value = 0
    · subst h
      simp only [separatedLoop_zero, List.length_nil, Nat.not_lt_zero] at hi
    · have hlt : value / 10 < value := Nat.div_lt_self (Nat.pos_of_ne_zero h) (by decide)
      have hne := digitChar_ne value
      by_cases hthree : thSep = 3
      · subst hthree
        simp only [separatedLoop_sep h] at hi ⊢
        match i, hi with
        | 0, _ => simp
        | 1, _ => simpa using hne
        | i + 2, hi =>
          have hi' : i < (separatedLoop 0 (value / 10)).length := by simpa using hi
          have hrest := ih _ hlt 0 (by decide) i hi'
          simp only [List.getElem_cons_succ]
          rw [hrest]
          omega
      · simp only [separatedLoop_digit h hthree] at hi ⊢
        match i, hi with
        | 0, _ =>
          simp only [List.getElem_cons_zero, hne, false_iff]
          omega
        | i + 1, hi =>
          have hi' : i < (separatedLoop (thSep + 1) (value / 10)).length := by simpa using hi
          have hrest := ih _ hlt (thSep + 1) (by omega) i hi'
          simp only [List.getElem_cons_succ]
          rw [hrest]
          omega

theorem separatedLoop_length (thSep value : Nat) (hsep : thSep ≤ 3) :
    (separatedLoop thSep value).length
      = (Nat.digits 10 value).length + ((Nat.digits 10 value).length + thSep) / 4 := by
  induction value using Nat.strongRecOn generalizing thSep with
  | ind value ih =>
    by_cases h : value = 0
    · simp only [h, separatedLoop_zero, Nat.digits_zero, List.length_nil]
      omega
    · have hlt : value / 10 < value := Nat.div_lt_self (Nat.pos_of_ne_zero h) (by decide)
      rw [digits_step h, List.length_cons]
      by_cases hthree : thSep = 3
      · rw [hthree, separatedLoop_sep h, List.length_cons, List.length_cons, ih _ hlt 0 (by decide)]
        omega
      · rw [separatedLoop_digit h hthree, List.length_cons, ih _ hlt (thSep + 1) (by omega)]
        omega

/-! ## The string -/

theorem thousandSeparatedString_zero : thousandSeparatedString 0 = L ['0'] := by
  have hloop : separatedLoop 0 (UInt64.toNat 0) = [] := separatedLoop_zero 0
  rw [thousandSeparatedString, hloop]
  rfl

theorem thousandSeparatedString_pos {value : UInt64} (h : value.toNat ≠ 0) :
    thousandSeparatedString value = (separatedLoop 0 value.toNat).reverse := by
  rw [thousandSeparatedString]
  exact if_neg (by rw [separatedLoop_digit h (by decide)]; exact List.cons_ne_nil _ _)

/-- **The digits are those of the number.** -/
theorem thousandSeparatedString_digits (value : UInt64) :
    (thousandSeparatedString value).filter (· ≠ SEPARATOR) = decimal value.toNat := by
  by_cases h : value.toNat = 0
  · obtain rfl : value = 0 := UInt64.toNat_inj.mp h
    rw [thousandSeparatedString_zero]
    decide
  · rw [thousandSeparatedString_pos h, List.filter_reverse, separatedLoop_digits, decimal, if_neg h]

/-- The first character is a digit. -/
theorem thousandSeparatedString_head (value : UInt64) :
    (thousandSeparatedString value).head? ≠ some SEPARATOR := by
  by_cases h : value.toNat = 0
  · obtain rfl : value = 0 := UInt64.toNat_inj.mp h
    rw [thousandSeparatedString_zero]
    decide
  · have hlen := separatedLoop_length 0 value.toNat (by decide)
    rw [digits_step h, List.length_cons] at hlen
    rw [thousandSeparatedString_pos h, List.head?_reverse, List.getLast?_eq_getElem?]
    intro hlast
    obtain ⟨hlt, hlast⟩ := List.getElem?_eq_some_iff.mp hlast
    have hsep := (separatedLoop_separators 0 value.toNat (by decide) _ hlt).mp hlast
    omega

/-- **The separators are where they belong** up to six digits, and never with more. -/
theorem thousandSeparatedString_grouped_iff (value : UInt64) :
    Grouped (thousandSeparatedString value) ↔ value.toNat < 10 ^ 6 := by
  by_cases h : value.toNat = 0
  · obtain rfl : value = 0 := UInt64.toNat_inj.mp h
    rw [thousandSeparatedString_zero]
    exact ⟨fun _ => by decide, fun _ => ⟨by decide, by decide⟩⟩
  · have hlen := separatedLoop_length 0 value.toNat (by decide)
    have hdigits := Nat.digits_length_le_iff (k := 6) (b := 10) (by decide) value.toNat
    have hsep := separatedLoop_separators 0 value.toNat (by decide)
    rw [← hdigits, Grouped]
    simp only [thousandSeparatedString_pos h, List.reverse_reverse]
    constructor
    · rintro ⟨-, hgrouped⟩
      by_contra hmore
      have hseven : 7 < (separatedLoop 0 value.toNat).length := by omega
      have hbad := (hsep 7 hseven).mp ((hgrouped 7 hseven).mpr rfl)
      exact absurd hbad (by decide)
    · intro hsix
      refine ⟨?_, fun i hi => ?_⟩
      · rw [← thousandSeparatedString_pos h]
        exact thousandSeparatedString_head value
      · rw [hsep i hi]
        omega

/-- **`ThousandSeparatedString` is right** exactly below a million. -/
theorem thousandSeparatedString_right_iff (value : UInt64) :
    ((thousandSeparatedString value).filter (· ≠ SEPARATOR) = decimal value.toNat
      ∧ Grouped (thousandSeparatedString value)) ↔ value < 1000000 := by
  rw [thousandSeparatedString_grouped_iff, UInt64.lt_iff_toNat_lt]
  exact ⟨fun h => h.2, fun h => ⟨thousandSeparatedString_digits value, h⟩⟩

/-- The second separator of a number of seven digits is missing. -/
theorem thousandSeparatedString_seven :
    thousandSeparatedString 1234567 = L ['1', '2', '3', '4', '\x60', '5', '6', '7']
      ∧ ¬Grouped (thousandSeparatedString 1234567) := by
  constructor
  · rw [thousandSeparatedString_pos (by decide)]
    have hloop : separatedLoop 0 (UInt64.toNat 1234567)
        = L ['7', '6', '5', '\x60', '4', '3', '2', '1'] := by
      change separatedLoop 0 1234567 = _
      iterate 3 rw [separatedLoop_digit (by decide) (by decide)]
      rw [separatedLoop_sep (by decide)]
      iterate 3 rw [separatedLoop_digit (by decide) (by decide)]
      rw [separatedLoop_zero]
      decide
    rw [hloop]
    decide
  · rw [thousandSeparatedString_grouped_iff]
    decide

end Far2l
