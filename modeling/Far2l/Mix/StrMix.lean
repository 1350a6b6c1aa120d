/-
Far2l.Mix.StrMix — texts that are coded and decoded in `far/src/mix/strmix.cpp`:
`EscapeSpace`, `Transform` and `EscapeUnprintable`, and what undoes them.

A pointer into a text is what is behind it, up to the NUL. Digits and numbers are
those of `printf` and `strtoul` with base sixteen.
-/
import Mathlib.Data.Nat.Digits.Defs
import Far2l.Filemask.UserDefinedList
import Far2l.Utils.Escaping
import Mathlib.Data.List.TakeWhile
import Mathlib.Data.Nat.Digits.Lemmas

namespace Far2l

namespace StrMix

open Filemask (Ctype)

/-! ## `EscapeSpace` -/

/-- `L'\\'`. -/
def WBACKSLASH : WChar := 0x5C

/-- The loop of `escapeSpace`. -/
def escapeSpaceLoop (quotedSymbols : WStr) : WStr → WStr
  | [] => []
  | c :: str =>
      if c ∈ quotedSymbols then WBACKSLASH :: c :: escapeSpaceLoop quotedSymbols str
      else c :: escapeSpaceLoop quotedSymbols str

/-- `EscapeSpace`. -/
def escapeSpace (quotedSymbols str : WStr) : WStr :=
  if str = [] then L ['\'', '\'']
  else if str.any (· ∈ quotedSymbols) then escapeSpaceLoop quotedSymbols str
  else str

/-- The loop of `unEscapeSpace`. -/
def unEscapeSpaceLoop : WStr → WStr
  | [] => []
  | c :: str =>
      if c = WBACKSLASH ∧ str.head? ≠ some WBACKSLASH then unEscapeSpaceLoop str
      else c :: unEscapeSpaceLoop str

/-- `UnEscapeSpace`. -/
def unEscapeSpace (str : WStr) : WStr :=
  if str = [] then L ['\'', '\'']
  else if str.any (· = WBACKSLASH) then unEscapeSpaceLoop str
  else str

/-! ## Hexadecimal numbers -/

/-- A digit of `%X` or of `%x`. -/
def hexDigit (upper : Bool) (d : Nat) : Nat :=
  if d < 10 then 0x30 + d else (if upper then 0x41 else 0x61) + (d - 10)

/-- `%02X` or `%02x`. -/
def formatHex (upper : Bool) (n : Nat) : List Nat :=
  let digits := (Nat.digits 16 n).reverse.map (hexDigit upper)
  List.replicate (2 - digits.length) 0x30 ++ digits

/-- The value of a digit. -/
def hexValue (code : Nat) : Option Nat :=
  if 0x30 ≤ code ∧ code ≤ 0x39 then some (code - 0x30)
  else if 0x41 ≤ code ∧ code ≤ 0x46 then some (code - 0x41 + 10)
  else if 0x61 ≤ code ∧ code ≤ 0x66 then some (code - 0x61 + 10)
  else none

/-- The digits in front of a text. -/
def scanDigits : (n : Nat) → List Nat → Nat
  | n, [] => n
  | n, code :: rest =>
      match hexValue code with
      | some d => scanDigits (16 * n + d) rest
      | none => n

/-- `strtoul` with base sixteen. There is nothing behind `0x` in two characters. -/
def scanHex (isSpace : Nat → Bool) (codes : List Nat) : Int :=
  match codes.dropWhile isSpace with
  | [] => 0
  | code :: rest =>
      if code = 0x2B then scanDigits 0 rest
      else if code = 0x2D then -(scanDigits 0 rest : Int)
      else scanDigits 0 (code :: rest)

/-! ## `Transform` -/

/-- `Transform(..., 'X')`. -/
def transformX (convStr : WStr) : WStr :=
  convStr.flatMap fun c => (formatHex true c.toNat).map UInt32.ofNat

/-- `wcstoul(Hex, nullptr, 16)` of two characters. -/
def hexPair (T : Ctype) (c d : WChar) : WChar :=
  UInt32.ofInt (scanHex (fun code => T.iswspace (UInt32.ofNat code)) [c.toNat, d.toNat])

/-- `Transform(..., 'S')`; `none` where the pointer goes past the NUL. -/
def transformS (T : Ctype) : WStr → Option WStr
  | [] => some []
  | c :: rest =>
      if c = SPACE then transformS T rest
      else
        match rest with
        | [] => none
        | d :: rest => (transformS T rest).map (hexPair T c d :: ·)

/-! ## `EscapeUnprintable` -/

/-- `isspace`. -/
def isspace (code : Nat) : Bool := 0x09 ≤ code ∧ code ≤ 0x0D ∨ code = 0x20

/-- `EscapeUnprintable`. -/
def escapeUnprintable (str : List Byte) : List Byte :=
  str.flatMap fun c =>
    if c ≤ 0x20 ∨ c > 0x7E ∨ c = BACKSLASH then
      BACKSLASH :: 0x78 :: (formatHex false c.toNat).map UInt8.ofNat
    else [c]

/-- `sscanf(tmp, "%x", &x)` of two characters, up to a NUL, and the conversion of `x`. -/
def scanByte (h l : Byte) : Byte :=
  UInt8.ofInt (scanHex isspace (([h, l].takeWhile (· ≠ 0)).map UInt8.toNat))

/-- `UnescapeUnprintable`. -/
def unescapeUnprintable : List Byte → List Byte
  | c :: x :: h :: l :: rest =>
      if c = BACKSLASH ∧ x = 0x78 then scanByte h l :: unescapeUnprintable rest
      else c :: unescapeUnprintable (x :: h :: l :: rest)
  | c :: rest => c :: unescapeUnprintable rest
  | [] => []

end StrMix

end Far2l

/-! # Which texts come back when they have been coded and

decoded.

`EscapeUnprintable` gives a backslash only as the beginning of an escape, and every
text comes back. `EscapeSpace` doubles a backslash, and what undoes it keeps one too
many where a quoted character follows. `Transform` gives a character of more than
eight bits more than the two digits that are read back. -/

namespace Far2l

namespace StrMix

open Filemask (Ctype)

/-! ## Hexadecimal numbers -/

theorem hexDigit_bounds (upper : Bool) {d : Nat} (h : d < 16) :
    0x30 ≤ hexDigit upper d ∧ hexDigit upper d < 0x7F := by
  rw [hexDigit]
  cases upper
  · split <;> simp <;> omega
  · split <;> simp <;> omega

theorem hexValue_digit (upper : Bool) {d : Nat} (h : d < 16) :
    hexValue (hexDigit upper d) = some d := by
  have hall : ∀ e < 16, hexValue (hexDigit false e) = some e ∧ hexValue (hexDigit true e) = some e := by
    decide
  cases upper
  · exact (hall d h).1
  · exact (hall d h).2

/-- Up to eight bits there are two digits. -/
theorem formatHex_byte (upper : Bool) {n : Nat} (h : n < 256) :
    formatHex upper n = [hexDigit upper (n / 16), hexDigit upper (n % 16)] := by
  rw [formatHex]
  rcases Nat.eq_zero_or_pos n with rfl | hpos
  · cases upper <;> rfl
  · rcases Nat.lt_or_ge n 16 with hlt | hge
    · rw [Nat.digits_of_lt 16 n (Nat.ne_of_gt hpos) hlt, Nat.div_eq_of_lt hlt, Nat.mod_eq_of_lt hlt]
      cases upper <;> rfl
    · rw [Nat.digits_def' (by decide) hpos,
        Nat.digits_of_lt 16 (n / 16) (by omega) (by omega)]
      rfl

theorem formatHex_digits (upper : Bool) (n : Nat) :
    ∀ code ∈ formatHex upper n, ∃ d < 16, code = hexDigit upper d := by
  intro code hcode
  rcases List.mem_append.mp hcode with hzero | hdigit
  · exact ⟨0, by decide, by rw [List.eq_of_mem_replicate hzero]; cases upper <;> rfl⟩
  · obtain ⟨d, hd, rfl⟩ := List.mem_map.mp hdigit
    exact ⟨d, Nat.digits_lt_base (by decide) (List.mem_reverse.mp hd), rfl⟩

/-- Two digits are read back. -/
theorem scanHex_digits (upper : Bool) {isSpace : Nat → Bool}
    (hspace : ∀ code, 0x30 ≤ code → code < 0x7F → isSpace code = false) {d e : Nat} (hd : d < 16)
    (he : e < 16) : scanHex isSpace [hexDigit upper d, hexDigit upper e] = ↑(16 * d + e) := by
  obtain ⟨hlo, hhi⟩ := hexDigit_bounds upper hd
  have hnot : ¬isSpace (hexDigit upper d) = true := by
    rw [hspace _ hlo hhi]
    exact Bool.false_ne_true
  rw [scanHex, List.dropWhile_cons_of_neg hnot]
  dsimp only
  rw [if_neg (by omega), if_neg (by omega), scanDigits, hexValue_digit upper hd]
  dsimp only
  rw [scanDigits, hexValue_digit upper he, Nat.mul_zero, Nat.zero_add]
  rfl

/-! ## `EscapeUnprintable` -/

theorem scanByte_digits (c : Byte) :
    scanByte (UInt8.ofNat (hexDigit false (c.toNat / 16))) (UInt8.ofNat (hexDigit false (c.toNat % 16)))
      = c := by
  have hc := c.toNat_lt
  have hhigh : c.toNat / 16 < 16 := by omega
  have hlow : c.toNat % 16 < 16 := Nat.mod_lt _ (by decide)
  have hcode : ∀ {d : Nat}, d < 16 → (UInt8.ofNat (hexDigit false d)).toNat = hexDigit false d := by
    intro d hd
    have hbounds := hexDigit_bounds false hd
    rw [UInt8.toNat_ofNat']
    omega
  have hne : ∀ {d : Nat}, d < 16 → decide (UInt8.ofNat (hexDigit false d) ≠ 0) = true := by
    intro d hd
    refine decide_eq_true fun hzero => ?_
    have hbounds := hexDigit_bounds false hd
    have heq := congrArg UInt8.toNat hzero
    rw [hcode hd] at heq
    change hexDigit false d = 0 at heq
    omega
  have hspace : ∀ code, 0x30 ≤ code → code < 0x7F → isspace code = false := fun code hlo hhi =>
    decide_eq_false (by omega)
  have hall : ∀ b ∈ [UInt8.ofNat (hexDigit false (c.toNat / 16)), UInt8.ofNat (hexDigit false (c.toNat % 16))],
      decide (b ≠ 0) = true := by
    intro b hb
    rcases List.mem_pair.mp hb with rfl | rfl
    · exact hne hhigh
    · exact hne hlow
  rw [scanByte, List.takeWhile_eq_self_iff.mpr hall, List.map_cons, List.map_cons, List.map_nil, hcode hhigh, hcode hlow,
    scanHex_digits false hspace hhigh hlow, Nat.div_add_mod]
  have hint : UInt8.ofInt (c.toNat : Int) = UInt8.ofNat c.toNat := by
    rw [UInt8.ofInt]
    congr 1
    omega
  rw [hint, UInt8.ofNat_toNat]

theorem unescape_cons {c : Byte} (hc : c ≠ BACKSLASH) (rest : List Byte) :
    unescapeUnprintable (c :: rest) = c :: unescapeUnprintable rest := by
  match rest with
  | [] => rfl
  | [_] => rfl
  | [_, _] => rfl
  | x :: h :: l :: rest => rw [unescapeUnprintable, if_neg fun h => hc h.1]

/-- **`UnescapeUnprintable` undoes `EscapeUnprintable`.** -/
theorem unescape_escapeUnprintable (str : List Byte) :
    unescapeUnprintable (escapeUnprintable str) = str := by
  induction str with
  | nil => rfl
  | cons c str ih =>
    rw [escapeUnprintable, List.flatMap_cons]
    split
    · rw [formatHex_byte false c.toNat_lt]
      show unescapeUnprintable (BACKSLASH :: 0x78 :: UInt8.ofNat _ :: UInt8.ofNat _ :: escapeUnprintable str)
        = c :: str
      rw [unescapeUnprintable, if_pos ⟨rfl, rfl⟩, scanByte_digits, ih]
    · next hplain =>
      have hc : c ≠ BACKSLASH := fun heq => hplain (.inr (.inr heq))
      rw [List.singleton_append, unescape_cons hc]
      exact congrArg (c :: ·) ih

/-! ## `EscapeSpace` -/

variable {quotedSymbols : WStr}

/-- No backslash stands directly in front of a character that is quoted. -/
def Reversible (quotedSymbols str : WStr) : Prop :=
  str.IsChain fun c d => c = WBACKSLASH → d ∉ quotedSymbols

theorem escapeSpaceLoop_head (hback : WBACKSLASH ∈ quotedSymbols) (str : WStr) :
    (escapeSpaceLoop quotedSymbols str).head? = some WBACKSLASH
      ↔ ∃ c, str.head? = some c ∧ c ∈ quotedSymbols := by
  cases str with
  | nil => simp [escapeSpaceLoop]
  | cons c str =>
    rw [escapeSpaceLoop]
    split
    · next hc => simp [hc]
    · next hc =>
      have hne : c ≠ WBACKSLASH := fun heq => hc (heq ▸ hback)
      simp [hc, hne]

/-- What comes back of a text, from its first character on: a backslash in front of a quoted character
comes back twice. -/
theorem unEscape_escape_cons (hback : WBACKSLASH ∈ quotedSymbols) (c : WChar) (str : WStr) :
    unEscapeSpaceLoop (escapeSpaceLoop quotedSymbols (c :: str)) =
      (if c = WBACKSLASH ∧ ∃ d, str.head? = some d ∧ d ∈ quotedSymbols then [c, c] else [c])
        ++ unEscapeSpaceLoop (escapeSpaceLoop quotedSymbols str) := by
  have hnext := escapeSpaceLoop_head hback str
  rw [escapeSpaceLoop]
  by_cases hc : c = WBACKSLASH
  · subst hc
    rw [if_pos hback, unEscapeSpaceLoop, if_neg (fun h => h.2 rfl), unEscapeSpaceLoop]
    by_cases hhead : (escapeSpaceLoop quotedSymbols str).head? = some WBACKSLASH
    · rw [if_neg (fun h => h.2 hhead), if_pos ⟨rfl, hnext.mp hhead⟩]
      rfl
    · rw [if_pos ⟨rfl, hhead⟩, if_neg (fun h => hhead (hnext.mpr h.2))]
      rfl
  · have hnot : ¬(c = WBACKSLASH ∧ ∃ d, str.head? = some d ∧ d ∈ quotedSymbols) := fun h => hc h.1
    by_cases hq : c ∈ quotedSymbols
    · rw [if_pos hq, if_neg hnot, unEscapeSpaceLoop,
        if_pos ⟨rfl, fun h => hc (Option.some.inj h)⟩, unEscapeSpaceLoop, if_neg (fun h => hc h.1)]
      rfl
    · rw [if_neg hq, if_neg hnot, unEscapeSpaceLoop, if_neg (fun h => hc h.1)]
      rfl

/-- Nothing gets lost. -/
theorem length_unEscape_escape (hback : WBACKSLASH ∈ quotedSymbols) (str : WStr) :
    str.length ≤ (unEscapeSpaceLoop (escapeSpaceLoop quotedSymbols str)).length := by
  induction str with
  | nil => exact Nat.zero_le _
  | cons c str ih =>
    rw [unEscape_escape_cons hback, List.length_append, List.length_cons]
    split
    · simp only [List.length_cons, List.length_nil]
      omega
    · simp only [List.length_cons, List.length_nil]
      omega

theorem unEscape_escapeLoop_iff (hback : WBACKSLASH ∈ quotedSymbols) (str : WStr) :
    unEscapeSpaceLoop (escapeSpaceLoop quotedSymbols str) = str ↔ Reversible quotedSymbols str := by
  induction str with
  | nil => exact ⟨fun _ => .nil, fun _ => rfl⟩
  | cons c str ih =>
    have hchain : Reversible quotedSymbols (c :: str) ↔
        ¬(c = WBACKSLASH ∧ ∃ d, str.head? = some d ∧ d ∈ quotedSymbols) ∧ Reversible quotedSymbols str := by
      cases str with
      | nil => simp [Reversible]
      | cons d str =>
        rw [Reversible, List.isChain_cons_cons]
        simp [Reversible]
    rw [unEscape_escape_cons hback, hchain, ← ih]
    split
    · next hbad =>
      refine iff_of_false (fun heq => ?_) (fun h => h.1 hbad)
      have hlen := congrArg List.length heq
      have hle := length_unEscape_escape hback str
      simp only [List.length_append, List.length_cons, List.length_nil] at hlen
      omega
    · next hgood =>
      rw [List.singleton_append, List.cons_inj_right]
      exact (and_iff_right hgood).symm

/-- **`UnEscapeSpace` undoes `EscapeSpace`** exactly for the texts in which no backslash stands in front of
a quoted character. -/
theorem unEscape_escapeSpace_iff (hback : WBACKSLASH ∈ quotedSymbols) {str : WStr} (hne : str ≠ []) :
    unEscapeSpace (escapeSpace quotedSymbols str) = str ↔ Reversible quotedSymbols str := by
  rw [← unEscape_escapeLoop_iff hback, escapeSpace, if_neg hne]
  by_cases hany : str.any (· ∈ quotedSymbols) = true
  · obtain ⟨c, hc, hquoted⟩ := List.any_eq_true.mp hany
    have hmem : ∀ s : WStr, c ∈ s → WBACKSLASH ∈ escapeSpaceLoop quotedSymbols s := by
      intro s hs
      induction s with
      | nil => exact absurd hs List.not_mem_nil
      | cons d s ih =>
        rw [escapeSpaceLoop]
        split
        · exact List.mem_cons_self
        · next hd =>
          rcases List.mem_cons.mp hs with rfl | hs
          · exact absurd (of_decide_eq_true hquoted) hd
          · exact List.mem_cons_of_mem _ (ih hs)
    have hback' := hmem str hc
    rw [if_pos hany, unEscapeSpace, if_neg (List.ne_nil_of_mem hback'),
      if_pos (List.any_eq_true.mpr ⟨_, hback', decide_eq_true rfl⟩)]
  · have hnone : ∀ c ∈ str, c ∉ quotedSymbols := fun c hc hq =>
      hany (List.any_eq_true.mpr ⟨c, hc, decide_eq_true hq⟩)
    have hplain : ¬str.any (· = WBACKSLASH) = true := by
      intro h
      obtain ⟨c, hc, heq⟩ := List.any_eq_true.mp h
      exact hnone c hc (of_decide_eq_true heq ▸ hback)
    rw [if_neg hany, unEscapeSpace, if_neg hne, if_neg hplain]
    refine iff_of_true rfl ((unEscape_escapeLoop_iff hback str).mpr ?_)
    rw [Reversible, List.isChain_iff_getElem]
    exact fun i hi _ => hnone _ (List.getElem_mem _)

/-- The default of `Opt.strQuotedSymbols`. -/
def defaultQuotedSymbols : WStr :=
  L [' ', '$', '&', '(', ')', '[', ']', '{', '}', ';', '|', '*', '?', '!', '\'', '\x60', '"', '\\', '\xA0']

theorem unEscape_escapeSpace_iff_letters :
    unEscapeSpace (escapeSpace defaultQuotedSymbols (L ['a', ' ', 'b'])) = L ['a', ' ', 'b']
      ↔ Reversible defaultQuotedSymbols (L ['a', ' ', 'b']) :=
  unEscape_escapeSpace_iff (by decide) (by decide)

/-- Two backslashes become three. -/
theorem unEscape_escapeSpace_two :
    WBACKSLASH ∈ defaultQuotedSymbols
      ∧ unEscapeSpace (escapeSpace defaultQuotedSymbols [WBACKSLASH, WBACKSLASH])
        = [WBACKSLASH, WBACKSLASH, WBACKSLASH] := by
  decide

/-! ## `Transform` -/

variable {T : Ctype}

/-- A digit of `%X`, as a character. -/
def IsHexDigit (c : WChar) : Prop := ∃ d < 16, c = UInt32.ofNat (hexDigit true d)

theorem toNat_hexDigit {d : Nat} (h : d < 16) :
    (UInt32.ofNat (hexDigit true d)).toNat = hexDigit true d := by
  have hbounds := hexDigit_bounds true h
  rw [UInt32.toNat_ofNat']
  omega

theorem hexPair_digits (T : Ctype) {d e : Nat} (hd : d < 16) (he : e < 16) :
    hexPair T (UInt32.ofNat (hexDigit true d)) (UInt32.ofNat (hexDigit true e))
      = UInt32.ofNat (16 * d + e) := by
  have hspace : ∀ code, 0x30 ≤ code → code < 0x7F → T.iswspace (UInt32.ofNat code) = false := by
    intro code hlo hhi
    have hcode : (UInt32.ofNat code).toNat = code := by
      rw [UInt32.toNat_ofNat']
      omega
    exact T.printing _ (by omega) (by omega)
  rw [hexPair, toNat_hexDigit hd, toNat_hexDigit he, scanHex_digits true hspace hd he]
  rw [UInt32.ofInt]
  congr 1
  omega

theorem hexDigit_ne_space {d : Nat} (h : d < 16) : UInt32.ofNat (hexDigit true d) ≠ SPACE := by
  intro heq
  have hbounds := hexDigit_bounds true h
  have hcode := congrArg UInt32.toNat heq
  rw [toNat_hexDigit h] at hcode
  change hexDigit true d = 0x20 at hcode
  omega

theorem transformS_digits (T : Ctype) {d e : Nat} (hd : d < 16) (he : e < 16) (rest : WStr) :
    transformS T (UInt32.ofNat (hexDigit true d) :: UInt32.ofNat (hexDigit true e) :: rest)
      = (transformS T rest).map (UInt32.ofNat (16 * d + e) :: ·) := by
  rw [transformS, if_neg (hexDigit_ne_space hd), hexPair_digits T hd he]

theorem transformX_digits (s : WStr) : ∀ c ∈ transformX s, IsHexDigit c := by
  intro c hc
  obtain ⟨d, -, hmem⟩ := List.mem_flatMap.mp hc
  obtain ⟨code, hcode, rfl⟩ := List.mem_map.mp hmem
  obtain ⟨e, he, rfl⟩ := formatHex_digits true _ code hcode
  exact ⟨e, he, rfl⟩

/-- Two digits are a character of eight bits. -/
theorem transformS_byte {t r : WStr} (ht : ∀ c ∈ t, IsHexDigit c) (h : transformS T t = some r) :
    ∀ c ∈ r, c.toNat ≤ 0xFF := by
  fun_induction transformS T t generalizing r with
  | case1 =>
    cases h
    exact nofun
  | case2 rest ih => exact ih (fun c hc => ht c (List.mem_cons_of_mem _ hc)) h
  | case3 => cases h
  | case4 c hspace d rest ih =>
    obtain ⟨r, hr, rfl⟩ := Option.map_eq_some_iff.mp h
    obtain ⟨n, hn, rfl⟩ := ht c List.mem_cons_self
    obtain ⟨m, hm, rfl⟩ := ht d (List.mem_cons_of_mem _ List.mem_cons_self)
    intro b hb
    rcases List.mem_cons.mp hb with rfl | hb
    · rw [hexPair_digits T hn hm, UInt32.toNat_ofNat']
      omega
    · exact ih (fun c hc => ht c (List.mem_cons_of_mem _ (List.mem_cons_of_mem _ hc))) hr b hb

theorem transform_back_iff (T : Ctype) (s : WStr) :
    transformS T (transformX s) = some s ↔ ∀ c ∈ s, c.toNat ≤ 0xFF := by
  refine ⟨transformS_byte (transformX_digits s), fun hs => ?_⟩
  induction s with
  | nil => rfl
  | cons c s ih =>
    have hc : c.toNat < 256 := Nat.lt_succ_of_le (hs c List.mem_cons_self)
    have hx : transformX (c :: s) = UInt32.ofNat (hexDigit true (c.toNat / 16))
        :: UInt32.ofNat (hexDigit true (c.toNat % 16)) :: transformX s := by
      rw [transformX, List.flatMap_cons, formatHex_byte true hc]
      rfl
    rw [hx, transformS_digits T (by omega) (Nat.mod_lt _ (by decide)), Nat.div_add_mod,
      ih fun d hd => hs d (List.mem_cons_of_mem _ hd), UInt32.ofNat_toNat]
    rfl

/-- How many characters follow the last space. -/
def lastRun (t : WStr) : Nat := (t.reverse.takeWhile (· ≠ SPACE)).length

theorem lastRun_cons (c : WChar) (t : WStr) :
    lastRun (c :: t) = if SPACE ∉ t ∧ c ≠ SPACE then t.length + 1 else lastRun t := by
  have hall : SPACE ∉ t → t.reverse.takeWhile (· ≠ SPACE) = t.reverse := fun ht =>
    List.takeWhile_eq_self_iff.mpr fun d hd => decide_eq_true fun heq =>
      ht (heq ▸ List.mem_reverse.mp hd)
  rw [lastRun, lastRun, List.reverse_cons, List.takeWhile_append]
  by_cases ht : SPACE ∈ t
  · have hless : (t.reverse.takeWhile (· ≠ SPACE)).length ≠ t.reverse.length := by
      intro hlen
      have heq := (List.takeWhile_prefix (fun d => decide (d ≠ SPACE)) (l := t.reverse)).eq_of_length hlen
      have hne := List.takeWhile_eq_self_iff.mp heq SPACE (List.mem_reverse.mpr ht)
      exact of_decide_eq_true hne rfl
    rw [if_neg hless, if_neg fun h => h.1 ht]
  · rw [hall ht, if_pos rfl, List.length_append, List.length_reverse]
    by_cases hc : c = SPACE
    · rw [if_neg fun h => h.2 hc, List.takeWhile_cons_of_neg (by simp [hc])]
      rfl
    · rw [if_pos ⟨ht, hc⟩, List.takeWhile_cons_of_pos (by simp [hc])]
      rfl

theorem lastRun_full {t : WStr} (ht : SPACE ∉ t) : lastRun t = t.length := by
  cases t with
  | nil => rfl
  | cons c t =>
    rw [lastRun_cons, if_pos ⟨fun h => ht (List.mem_cons_of_mem _ h), fun h => ht (h ▸ List.mem_cons_self)⟩]
    rfl

/-- A pair of characters leaves the parity of the run at the end as it is. -/
theorem transformS_isSome_iff (T : Ctype) (t : WStr) :
    (transformS T t).isSome = true ↔ lastRun t % 2 = 0 := by
  fun_induction transformS T t with
  | case1 => decide
  | case2 rest ih => rw [ih, lastRun_cons, if_neg fun h => h.2 rfl]
  | case3 c hspace =>
    rw [lastRun_cons, if_pos ⟨List.not_mem_nil, hspace⟩]
    decide
  | case4 c hspace d rest ih =>
    rw [Option.isSome_map, ih, lastRun_cons, lastRun_cons]
    by_cases hrest : SPACE ∈ rest
    · rw [if_neg fun h => h.1 (List.mem_cons_of_mem _ hrest), if_neg fun h => h.1 hrest]
    · rw [lastRun_full hrest]
      by_cases hd : d = SPACE
      · rw [if_neg fun h => h.1 (hd ▸ List.mem_cons_self), if_neg fun h => h.2 hd]
      · rw [if_pos ⟨fun h => (List.mem_cons.mp h).elim (fun h => hd h.symm) hrest, hspace⟩, List.length_cons]
        omega

/-- **`Transform` undoes itself** exactly for texts of characters of eight bits, and **stays in a text of digits** exactly
when an even number of characters follow the last space. -/
theorem transform_iff (T : Ctype) :
    (∀ s : WStr, transformS T (transformX s) = some s ↔ ∀ c ∈ s, c.toNat ≤ 0xFF)
      ∧ ∀ t : WStr, (transformS T t).isSome = true ↔ lastRun t % 2 = 0 :=
  ⟨transform_back_iff T, transformS_isSome_iff T⟩

/-- A character of nine bits has three digits; of a single digit nothing is left for the second one. -/
theorem transform_fails :
    transformX [0x100] = L ['1', '0', '0']
      ∧ (∀ T : Ctype, transformS T (transformX [0x100]) ≠ some [0x100])
      ∧ ∀ T : Ctype, transformS T (L ['A']) = none := by
  refine ⟨?_, fun T h => ?_, fun T => rfl⟩
  · rw [transformX, List.flatMap_singleton, formatHex]
    show (List.replicate (2 - ((Nat.digits 16 256).reverse.map (hexDigit true)).length) 0x30
      ++ (Nat.digits 16 256).reverse.map (hexDigit true)).map UInt32.ofNat = _
    rw [Nat.digits_def' (by decide) (by decide), Nat.digits_def' (by decide) (by decide),
      Nat.digits_of_lt 16 1 (by decide) (by decide)]
    rfl
  · exact absurd ((transform_back_iff T [0x100]).mp h 0x100 List.mem_cons_self) (by decide)

end StrMix

end Far2l
