/-
Far2l.Lib.Numerals — numbers as text, apart from any alphabet.

A numeral has the digits of a number with the highest one first, and a zero alone
for nothing. Programs come to the digits from the lowest one on, in the order in
which `Nat.digits` lists them.
-/
import Mathlib.Data.Nat.Digits.Lemmas
import Mathlib.Data.List.TakeWhile

namespace Far2l.Numerals

variable {α β : Type} {charOf charOf' : Nat → α} {digitOf : α → Nat} {base n : Nat}

/-- The numeral of a number. -/
def numeral (charOf : Nat → α) (base n : Nat) : List α :=
  if n = 0 then [charOf 0] else ((Nat.digits base n).map charOf).reverse

/-- The number that digits stand for. -/
def value (digitOf : α → Nat) (base : Nat) (s : List α) : Nat :=
  s.foldl (fun n c => base * n + digitOf c) 0

/-- The number at the beginning of a text, as far as there are digits. -/
def leadingValue (digitOf : α → Nat) (base : Nat) (s : List α) : Nat :=
  value digitOf base (s.takeWhile fun c => digitOf c < base)

theorem numeral_zero : numeral charOf base 0 = [charOf 0] := if_pos rfl

theorem numeral_of_ne_zero (h : n ≠ 0) :
    numeral charOf base n = ((Nat.digits base n).map charOf).reverse := if_neg h

/-- A numeral has digits of its base only. -/
theorem mem_numeral (hbase : 1 < base) {c : α} (h : c ∈ numeral charOf base n) :
    ∃ d, d < base ∧ c = charOf d := by
  by_cases hn : n = 0
  · rw [hn, numeral_zero] at h
    exact ⟨0, by omega, List.mem_singleton.mp h⟩
  · rw [numeral_of_ne_zero hn, List.mem_reverse] at h
    obtain ⟨d, hd, rfl⟩ := List.mem_map.mp h
    exact ⟨d, Nat.digits_lt_base hbase hd, rfl⟩

theorem numeral_ne_nil : numeral charOf base n ≠ [] := by
  by_cases hn : n = 0
  · rw [hn, numeral_zero]
    exact List.cons_ne_nil _ _
  · rw [numeral_of_ne_zero hn]
    intro h
    rw [List.reverse_eq_nil_iff, List.map_eq_nil_iff] at h
    exact Nat.digits_ne_nil_iff_ne_zero.mpr hn h

/-- The first digit is no zero, but for the number 0. -/
theorem numeral_eq_cons (hbase : 1 < base) (hn : n ≠ 0) :
    ∃ d rest, 0 < d ∧ d < base ∧ numeral charOf base n = charOf d :: rest := by
  have hne := Nat.digits_ne_nil_iff_ne_zero (b := base).mpr hn
  obtain ⟨low, d, hdigits⟩ : ∃ low d, Nat.digits base n = low ++ [d] :=
    ⟨_, _, (List.dropLast_append_getLast hne).symm⟩
  have hpos := Nat.getLast_digit_ne_zero base hn
  have hlt : d < base := Nat.digits_lt_base hbase (by rw [hdigits]; simp)
  refine ⟨d, (low.map charOf).reverse, Nat.pos_of_ne_zero ?_, hlt, ?_⟩
  · simpa [hdigits] using hpos
  · rw [numeral_of_ne_zero hn, hdigits, List.map_append, List.reverse_append]
    rfl

/-- In another alphabet. -/
theorem map_numeral (f : α → β) :
    (numeral charOf base n).map f = numeral (fun d => f (charOf d)) base n := by
  by_cases hn : n = 0
  · rw [hn, numeral_zero, numeral_zero]
    rfl
  · rw [numeral_of_ne_zero hn, numeral_of_ne_zero hn, List.map_reverse, List.map_map]
    rfl

theorem numeral_congr (hbase : 1 < base) (h : ∀ d, d < base → charOf d = charOf' d) :
    numeral charOf base n = numeral charOf' base n := by
  by_cases hn : n = 0
  · rw [hn, numeral_zero, numeral_zero, h 0 (by omega)]
  · rw [numeral_of_ne_zero hn, numeral_of_ne_zero hn]
    exact congrArg List.reverse (List.map_congr_left fun d hd => h d (Nat.digits_lt_base hbase hd))

/-- **A numeral is read back.** -/
theorem value_numeral (hbase : 1 < base) (h : ∀ d, d < base → digitOf (charOf d) = d) :
    value digitOf base (numeral charOf base n) = n := by
  by_cases hn : n = 0
  · rw [hn, numeral_zero]
    show base * 0 + digitOf (charOf 0) = 0
    rw [h 0 (by omega), Nat.mul_zero, Nat.zero_add]
  · have hdigits : ∀ d ∈ Nat.digits base n, digitOf (charOf d) + base * 0 = d := fun d hd => by
      rw [h d (Nat.digits_lt_base hbase hd), Nat.mul_zero, Nat.add_zero]
    rw [numeral_of_ne_zero hn, value, List.foldl_reverse, List.foldr_map]
    calc (Nat.digits base n).foldr (fun d m => base * m + digitOf (charOf d)) 0
        = (Nat.digits base n).foldr (fun d m => d + base * m) 0 := by
          refine List.foldr_ext _ _ _ fun d hd m => ?_
          have := hdigits d hd
          omega
      _ = Nat.ofDigits base (Nat.digits base n) := (Nat.ofDigits_eq_foldr base _).symm
      _ = n := Nat.ofDigits_digits base n

/-- A numeral is read as far as it goes. -/
theorem leadingValue_numeral (hbase : 1 < base) (h : ∀ d, d < base → digitOf (charOf d) = d) {rest : List α}
    (hrest : ∀ c ∈ rest.head?, base ≤ digitOf c) :
    leadingValue digitOf base (numeral charOf base n ++ rest) = n := by
  have hall : ∀ c ∈ numeral charOf base n, decide (digitOf c < base) = true := by
    intro c hc
    obtain ⟨d, hd, rfl⟩ := mem_numeral hbase hc
    rw [h d hd]
    exact decide_eq_true hd
  have hnone : rest.takeWhile (fun c => decide (digitOf c < base)) = [] := by
    cases rest with
    | nil => rfl
    | cons c rest =>
      have := hrest c rfl
      exact List.takeWhile_cons_of_neg (by simpa using this)
  rw [leadingValue, List.takeWhile_append_of_pos hall, hnone, List.append_nil, value_numeral hbase h]

/-! ## Numerals of a width -/

/-- A numeral with zeros in front of it, up to a width. -/
def padded (charOf : Nat → α) (base width n : Nat) : List α :=
  List.replicate (width - (numeral charOf base n).length) (charOf 0) ++ numeral charOf base n

/-- Zeros in front of digits add nothing. -/
theorem value_zeros {zero : α} (hzero : digitOf zero = 0) (k : Nat) (s : List α) :
    value digitOf base (List.replicate k zero ++ s) = value digitOf base s := by
  induction k with
  | zero => rfl
  | succ k ih =>
    rw [List.replicate_succ, List.cons_append, value, List.foldl_cons, hzero, Nat.mul_zero, Nat.add_zero]
    exact ih

/-- Where there are only digits, all of them are read. -/
theorem leadingValue_of_digits {s : List α} (h : ∀ c ∈ s, digitOf c < base) :
    leadingValue digitOf base s = value digitOf base s := by
  rw [leadingValue, List.takeWhile_eq_self_iff.mpr fun c hc => decide_eq_true (h c hc)]

/-- **A numeral of a width is read back.** -/
theorem value_padded {width : Nat} (hbase : 1 < base) (h : ∀ d, d < base → digitOf (charOf d) = d) :
    value digitOf base (padded charOf base width n) = n := by
  rw [padded, value_zeros (h 0 (by omega)), value_numeral hbase h]

end Far2l.Numerals
