/-
Far2l.WinPort.Collation — how strings are compared: `StrCmpNI`, `StrCmpI` and
`StrCmp` of `far/src/locale/locale.hpp`, down to `compare_weights` of
`WinPort/wineguts/sortkey.c`.

The tables of `collation.c`, `decompose.c`, `wctype.c` and `casemap.c` are
parameters. Of the flags only `NORM_IGNORECASE` matters here: the strings hold no
NUL, symbols are not ignored, and hyphens sort as other symbols do.
-/
import Far2l.Utils.Chars
import Mathlib.Data.List.Basic

namespace Far2l.WinPort

/-- The tables. -/
structure CollationTables where
  /-- `collation_table[collation_table[ch >> 8] + (ch & 0xff)]` -/
  entry : WChar → UInt32
  /-- `get_char_typeW` -/
  charType : WChar → UInt16
  /-- `wine_decompose` -/
  decompose : WChar → List WChar
  /-- `tolowerW` -/
  tolower : WChar → WChar

def C1_UPPER : UInt16 := 0x0001
def C1_DIGIT : UInt16 := 0x0004
def C1_SPACE : UInt16 := 0x0008
def C1_PUNCT : UInt16 := 0x0010
def C1_CNTRL : UInt16 := 0x0020
def C1_BLANK : UInt16 := 0x0040

namespace CollationTables

/-- `eval_weight` with the diacritic weight and without the case weight. -/
def evalWeight (T : CollationTables) (ch : WChar) : UInt32 :=
  let w : UInt32 := if T.entry ch = 0xFFFFFFFF then ch else T.entry ch
  let unicode : UInt32 := w >>> 16
  let diacritic : UInt32 := (w >>> 8) &&& 0xFF
  let out : UInt32 := unicode ||| (diacritic <<< 16)
  if ch = 0x2E then out -- dot is first
  else
    let t := T.charType ch
    if t &&& C1_DIGIT ≠ 0 then out ||| 0x40000000
    else if t &&& (C1_PUNCT ||| C1_SPACE ||| C1_CNTRL ||| C1_BLANK) = 0 then out ||| 0x60000000
    else if t &&& C1_PUNCT = 0 then out ||| 0x20000000
    else out ||| 0x10000000

/-- The weights of a string, in the order in which `inc_str_pos` goes through it. -/
def weights (T : CollationTables) (s : WStr) : List UInt32 :=
  s.flatMap fun ch => (T.decompose ch).map T.evalWeight

/-- The loops of `compare_weights`: a weight of zero is passed over. -/
def compareLoop : Nat → List UInt32 → List UInt32 → Int
  | _, [], [] => 0
  | 0, _, _ => 0
  | n + 1, [], ce2 :: str2 => if ce2 ≠ 0 then -1 else compareLoop n [] str2
  | n + 1, ce1 :: str1, [] => if ce1 ≠ 0 then 1 else compareLoop n str1 []
  | n + 1, ce1 :: str1, ce2 :: str2 =>
      if ce1 ≠ 0 ∧ ce2 ≠ 0 ∧ ce1 ≠ ce2 then if ce1 > ce2 then 1 else -1
      else if ce1 = 0 ∧ ce2 ≠ 0 then compareLoop n str1 (ce2 :: str2)
      else if ce1 ≠ 0 ∧ ce2 = 0 then compareLoop n (ce1 :: str1) str2
      else compareLoop n str1 str2

/-- `compare_weights` -/
def compareWeights (str1 str2 : List UInt32) : Int :=
  compareLoop (str1.length + str2.length) str1 str2

/-- `StrCmpNI` -/
def strCmpNI (T : CollationTables) (s1 s2 : WStr) (n : Nat) : Int :=
  compareWeights (T.weights (s1.take n)) (T.weights (s2.take n))

/-! ## With regard to case -/

/-- `eval_weight` with both weights. -/
def evalWeightCase (T : CollationTables) (ch : WChar) : UInt32 :=
  if ch ≠ 0x2E ∧ T.charType ch &&& C1_UPPER = 0 then T.evalWeight ch ||| 0x08000000 else T.evalWeight ch

/-- `StrCmp` -/
def strCmp (T : CollationTables) (s1 s2 : WStr) : Int :=
  compareWeights (s1.flatMap fun ch => (T.decompose ch).map T.evalWeightCase)
    (s2.flatMap fun ch => (T.decompose ch).map T.evalWeightCase)

/-- `StrCmpI` -/
def strCmpI (T : CollationTables) (s1 s2 : WStr) : Int := compareWeights (T.weights s1) (T.weights s2)

/-- A name as it is read without regard to case. -/
def fold (T : CollationTables) (name : WStr) : WStr := name.map T.tolower

end CollationTables

end Far2l.WinPort

/-! # When strings compare as equal.

The loops pass over weights of zero, so that two strings are equal when the other
weights are the same: an equivalence, whatever the tables are. -/

namespace Far2l.WinPort.CollationTables

/-- The weights that are compared. -/
def significant (ws : List UInt32) : List UInt32 := ws.filter (· ≠ 0)

@[simp] theorem significant_nil : significant [] = [] := rfl

@[simp] theorem significant_zero (ws : List UInt32) : significant (0 :: ws) = significant ws := rfl

theorem significant_cons {w : UInt32} (h : w ≠ 0) (ws : List UInt32) : significant (w :: ws) = w :: significant ws :=
  List.filter_cons_of_pos (by simpa using h)

theorem significant_eq_self {ws : List UInt32} (h : ∀ w ∈ ws, w ≠ 0) : significant ws = ws :=
  List.filter_eq_self.mpr fun w hw => by simpa using h w hw

theorem compareLoop_eq_zero : ∀ {fuel : Nat} {xs ys : List UInt32}, xs.length + ys.length ≤ fuel →
    (compareLoop fuel xs ys = 0 ↔ significant xs = significant ys)
  | _, [], [], _ => by rw [compareLoop]; simp
  | 0, x :: xs, ys, hfuel => by
    rw [List.length_cons] at hfuel
    omega
  | 0, [], y :: ys, hfuel => absurd hfuel (by simp)
  | fuel + 1, [], y :: ys, hfuel => by
    rw [List.length_cons] at hfuel
    rw [compareLoop]
    by_cases hy : y = 0
    · rw [if_neg (not_not.mpr hy), hy, significant_zero]
      exact compareLoop_eq_zero (by omega)
    · rw [if_pos hy, significant_cons hy]
      simp
  | fuel + 1, x :: xs, [], hfuel => by
    rw [List.length_cons] at hfuel
    rw [compareLoop]
    by_cases hx : x = 0
    · rw [if_neg (not_not.mpr hx), hx, significant_zero]
      exact compareLoop_eq_zero (by omega)
    · rw [if_pos hx, significant_cons hx]
      simp
  | fuel + 1, x :: xs, y :: ys, hfuel => by
    rw [List.length_cons, List.length_cons] at hfuel
    rw [compareLoop]
    by_cases hx : x = 0
    · by_cases hy : y = 0
      · rw [if_neg fun h => h.1 hx, if_neg fun h => h.2 hy, if_neg fun h => h.1 hx, hx, hy, significant_zero,
          significant_zero]
        exact compareLoop_eq_zero (by omega)
      · rw [if_neg fun h => h.1 hx, if_pos ⟨hx, hy⟩, hx, significant_zero]
        exact compareLoop_eq_zero (by rw [List.length_cons]; omega)
    · by_cases hy : y = 0
      · rw [if_neg fun h => h.2.1 hy, if_neg fun h => hx h.1, if_pos ⟨hx, hy⟩, hy, significant_zero]
        exact compareLoop_eq_zero (by rw [List.length_cons]; omega)
      · rw [significant_cons hx, significant_cons hy]
        by_cases heq : x = y
        · rw [if_neg fun h => h.2.2 heq, if_neg fun h => hx h.1, if_neg fun h => hy h.2, heq, List.cons_inj_right]
          exact compareLoop_eq_zero (by omega)
        · rw [if_pos ⟨hx, hy, heq⟩]
          refine iff_of_false ?_ fun h => heq (List.cons.inj h).1
          split <;> decide

theorem compareWeights_eq_zero {xs ys : List UInt32} :
    compareWeights xs ys = 0 ↔ significant xs = significant ys := compareLoop_eq_zero (Nat.le_refl _)

end Far2l.WinPort.CollationTables
