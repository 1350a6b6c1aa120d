/-
Far2l.VT.VTLogTheorems — which lines `VTLog::EncodeLine` writes so that their colours
are read back.

A sequence is read as the numbers it has been made of, and what they do to the font state
is all that changes between two cells. A code of an indexed colour ends the true one, and
there is no new code for a true colour that is the same as before, or that is white in
the first cell, which is compared with `(DWORD64)-1`.
-/
import Far2l.Console.AnsiEscTheorems
import Far2l.Utils.WideMBTheorems
import Far2l.VT.VTLog

namespace Far2l

namespace VTLog

open AnsiEsc VT BitFields WideMB

/-! ## Numbers of a sequence -/

/-- Numbers with a `;` behind each. -/
def argBytes (args : List Nat) : List Byte := args.flatMap fun n => decimal n ++ [ch ';']

theorem argBytes_append (args args' : List Nat) : argBytes (args ++ args') = argBytes args ++ argBytes args' :=
  List.flatMap_append

theorem argBytes_ne_nil {ns : List Nat} (hne : ns ≠ []) : argBytes ns ≠ [] := by
  obtain ⟨n, ns, rfl⟩ := List.exists_cons_of_ne_nil hne
  simp [argBytes]

theorem argBytes_ite (c : Prop) [Decidable c] (args : List Nat) :
    argBytes (if c then args else []) = if c then argBytes args else [] := by
  split <;> rfl

section
variable (prev now : UInt64)

/-- The number of the intensity. -/
def boldArg : Nat := if now &&& FOREGROUND_INTENSITY ≠ 0 then 1 else 22

/-- The number of the foreground. -/
def foreArg : Nat := (if now &&& FOREGROUND_INTENSITY ≠ 0 then 90 else 30) + (translateForegroundColor now).toNat

/-- The number of the background. -/
def backArg : Nat := (if now &&& BACKGROUND_INTENSITY ≠ 0 then 100 else 40) + (translateBackgroundColor now).toNat

/-- The numbers of a true colour. -/
def rgbArgs (kind : Nat) (rgb : UInt32) : List Nat :=
  [kind, 2, (rgb &&& 0xff).toNat, (rgb >>> 8 &&& 0xff).toNat, (rgb >>> 16 &&& 0xff).toNat]

/-- The numbers between two cells. -/
def attrArgs : List Nat :=
  (if BoldDiffers prev now then [boldArg now] else []) ++ (if ForeDiffers prev now then [foreArg now] else [])
    ++ (if BackDiffers prev now then [backArg now] else [])
    ++ (if ForeRgbDiffers prev now then rgbArgs 38 (getRgbFore now) else [])
    ++ (if BackRgbDiffers prev now then rgbArgs 48 (getRgbBack now) else [])

end

theorem translate_lt (a : UInt64) : (translateForegroundColor a).toNat < 8 ∧ (translateBackgroundColor a).toNat < 8 := by
  constructor
  · rw [translateForegroundColor]
    split <;> split <;> split <;> decide
  · rw [translateBackgroundColor]
    split <;> split <;> split <;> decide

/-- A digit behind the tens of a colour. -/
theorem decimal_digit : ∀ d : Fin 8, [ch '3', ch '0' + UInt8.ofNat d] = decimal (30 + d)
    ∧ [ch '9', ch '0' + UInt8.ofNat d] = decimal (90 + d) ∧ [ch '4', ch '0' + UInt8.ofNat d] = decimal (40 + d)
    ∧ [ch '1', ch '0', ch '0' + UInt8.ofNat d] = decimal (100 + d) := by
  decide

theorem foreCode_eq (now : UInt64) : foreCode now = argBytes [foreArg now] := by
  obtain ⟨h3, h9, -, -⟩ := decimal_digit ⟨(translateForegroundColor now).toNat, (translate_lt now).1⟩
  rw [UInt8.ofNat_toNat] at h3 h9
  rw [foreCode, foreArg, argBytes, List.flatMap_singleton]
  split
  · exact congrArg (· ++ [ch ';']) h9
  · exact congrArg (· ++ [ch ';']) h3

theorem backCode_eq (now : UInt64) : backCode now = argBytes [backArg now] := by
  obtain ⟨-, -, h4, h10⟩ := decimal_digit ⟨(translateBackgroundColor now).toNat, (translate_lt now).2⟩
  rw [UInt8.ofNat_toNat] at h4 h10
  rw [backCode, backArg, argBytes, List.flatMap_singleton]
  split
  · exact congrArg (· ++ [ch ';']) h10
  · exact congrArg (· ++ [ch ';']) h4

theorem boldCode_eq (now : UInt64) : boldCode now = argBytes [boldArg now] := by
  rw [boldCode, boldArg]
  split <;> decide

theorem rgbCode_eq (kind : Nat) (code : List Byte) (hcode : code = argBytes [kind, 2]) (rgb : UInt32) :
    rgbCode code rgb = argBytes (rgbArgs kind rgb) := by
  rw [rgbCode, hcode]
  simp [argBytes, rgbArgs]

/-- **The codes are the numbers.** -/
theorem attrCodes_eq (prev now : UInt64) : attrCodes prev now = argBytes (attrArgs prev now) := by
  rw [attrCodes, attrArgs]
  simp only [argBytes_append, argBytes_ite]
  rw [boldCode_eq, foreCode_eq, backCode_eq, rgbCode_eq 38 _ (by decide), rgbCode_eq 48 _ (by decide)]

/-! ## Reading a sequence -/

theorem chars_append (s t : List Byte) : chars (s ++ t) = chars s ++ chars t := List.map_append

/-- A digit is read. -/
theorem parseLoop_digit (args : List Int) (a : Int) (str : WStr) : ∀ d : Fin 10,
    parseLoop args a ((ch (Nat.digitChar d)).toUInt32 :: str) = parseLoop args (int (int (a * 10) + d)) str := by
  intro d
  have hnot : ∀ d : Fin 10, (ch (Nat.digitChar d)).toUInt32 ≠ wch ';'
      ∧ ¬(wch 'a' ≤ (ch (Nat.digitChar d)).toUInt32 ∧ (ch (Nat.digitChar d)).toUInt32 ≤ wch 'z'
        ∨ wch 'A' ≤ (ch (Nat.digitChar d)).toUInt32 ∧ (ch (Nat.digitChar d)).toUInt32 ≤ wch 'Z')
      ∧ (wch '0' ≤ (ch (Nat.digitChar d)).toUInt32 ∧ (ch (Nat.digitChar d)).toUInt32 ≤ wch '9')
      ∧ ((ch (Nat.digitChar d)).toUInt32.toNat : Int) - 48 = d := by decide
  obtain ⟨hsemi, hletter, hdigit, hvalue⟩ := hnot d
  rw [parseLoop, if_neg hsemi, if_neg hletter, if_pos hdigit, hvalue]

/-- A number is read. -/
theorem parseLoop_decimal (args : List Int) (n : Nat) : n < 1000 → ∀ str : WStr,
    parseLoop args 0 (chars (decimal n) ++ str) = parseLoop args n str := by
  induction n using Nat.strongRecOn with
  | ind n ih =>
    intro hn str
    by_cases hlt : n < 10
    · have hdecimal : chars (decimal n) = [(ch (Nat.digitChar n)).toUInt32] := by
        rw [decimal, Nat.toDigits_of_lt_base hlt]
        rfl
      have hvalue : int (int (0 * 10) + (n : Int)) = n := by
        simp only [int]
        omega
      rw [hdecimal, List.singleton_append, parseLoop_digit args 0 str ⟨n, hlt⟩, hvalue]
    · have hdecimal : chars (decimal n) = chars (decimal (n / 10)) ++ [(ch (Nat.digitChar (n % 10))).toUInt32] := by
        rw [decimal, Nat.toDigits_of_base_le (by decide) (Nat.le_of_not_lt hlt), List.map_append, chars_append]
        rfl
      have hdigit := parseLoop_digit args ((n / 10 : Nat) : Int) str ⟨n % 10, Nat.mod_lt _ (by decide)⟩
      have hvalue : int (int (((n / 10 : Nat) : Int) * 10) + ((n % 10 : Nat) : Int)) = n := by
        simp only [int]
        omega
      rw [hdecimal, List.append_assoc, List.singleton_append, ih (n / 10) (by omega) (by omega)]
      exact hdigit.trans (congrArg (fun a => parseLoop args a str) hvalue)

/-- Numbers up to the suffix are read. -/
theorem parseLoop_args (str : WStr) : ∀ (ns : List Nat) (args : List Int), ns ≠ [] → (∀ n ∈ ns, n < 1000) →
    parseLoop args 0 (chars ((argBytes ns).dropLast ++ [ch 'm']) ++ str)
      = some (args ++ ns.map Int.ofNat, wch 'm', str)
  | [], _, hne, _ => absurd rfl hne
  | [n], args, _, hall => by
    have hn : (argBytes [n]).dropLast = decimal n := by
      rw [argBytes, List.flatMap_singleton, List.dropLast_concat]
    rw [hn, chars_append, List.append_assoc, parseLoop_decimal args n (hall n List.mem_cons_self)]
    show parseLoop args n ((ch 'm').toUInt32 :: str) = _
    rw [parseLoop, if_neg (by decide), if_pos (by decide)]
    rfl
  | n :: n' :: ns, args, _, hall => by
    have hrest : argBytes (n' :: ns) ≠ [] := argBytes_ne_nil (by simp)
    have hsplit : (argBytes (n :: n' :: ns)).dropLast = decimal n ++ [ch ';'] ++ (argBytes (n' :: ns)).dropLast := by
      rw [argBytes, List.flatMap_cons, ← argBytes, List.dropLast_append_of_ne_nil hrest]
    rw [hsplit, List.append_assoc, List.append_assoc, chars_append, List.append_assoc,
      parseLoop_decimal args n (hall n List.mem_cons_self)]
    show parseLoop args n ((ch ';').toUInt32 :: (chars ((argBytes (n' :: ns)).dropLast ++ [ch 'm']) ++ str)) = _
    rw [parseLoop, if_pos (by decide),
      parseLoop_args str (n' :: ns) (args ++ [(n : Int)]) (by simp) fun m hm => hall m (List.mem_cons_of_mem _ hm)]
    simp

/-! ## Feeding -/

theorem feed_skip (f : FontState) : ∀ (s t : WStr), feed f s.length (s ++ t) = feed f 0 t
  | [], _ => rfl
  | _ :: s, t => feed_skip f s t

/-- **A sequence changes the font state**, and prints nothing. -/
theorem feed_sequence (f : FontState) (str : WStr) {ns : List Nat} (hne : ns ≠ []) (hall : ∀ n ∈ ns, n < 1000) :
    feed f 0 (chars (sequence (argBytes ns)) ++ str) = feed (f.parseArgs 0 (ns.map Int.ofNat)) 0 str := by
  have hbytes := argBytes_ne_nil hne
  have hseq : chars (sequence (argBytes ns)) ++ str
      = VT.ESC :: (wch '[' :: (chars ((argBytes ns).dropLast ++ [ch 'm']) ++ str)) := by
    rw [sequence, if_neg hbytes, List.append_assoc, chars_append, List.append_assoc]
    rfl
  have hparse := parseLoop_args str ns [] hne hall
  rw [hseq, feed]
  have hread : parse (VT.ESC :: (wch '[' :: (chars ((argBytes ns).dropLast ++ [ch 'm']) ++ str)))
      = some (ns.map Int.ofNat, wch 'm', str) := by
    rw [parse, if_pos ⟨rfl, rfl⟩]
    exact hparse
  rw [hread]
  dsimp only
  have hargs : f.parseSuffixM (ns.map Int.ofNat) (ns.map Int.ofNat).length = f.parseArgs 0 (ns.map Int.ofNat) := by
    rw [FontState.parseSuffixM, if_neg (by simpa using hne), List.take_length]
  rw [if_pos rfl, hargs]
  refine Eq.trans (congrArg (fun n => feed _ n _) ?_) (feed_skip (f.parseArgs 0 (ns.map Int.ofNat))
    (wch '[' :: chars ((argBytes ns).dropLast ++ [ch 'm'])) str)
  rw [List.length_cons, List.length_append, List.length_cons]
  omega

/-- **Text without `ESC` is printed** as it is. -/
theorem feed_text (f : FontState) (str : WStr) : ∀ text : List Byte, VT.ESC.toUInt8 ∉ text →
    feed f 0 (chars text ++ str) = (chars text).map (fun c => (c, f.toConsoleAttributes)) ++ feed f 0 str
  | [], _ => rfl
  | b :: text, hesc => by
    obtain ⟨hb, htext⟩ := not_or.mp fun h => hesc (List.mem_cons.mpr h)
    have hne : b.toUInt32 ≠ VT.ESC := fun h => hb (by rw [← h, UInt8.toUInt8_toUInt32])
    have hnone : parse (b.toUInt32 :: (chars text ++ str)) = none := by
      rw [parse.eq_def]
      split
      · next heq =>
        rw [if_neg]
        rintro ⟨rfl, -⟩
        exact hne (List.cons.inj heq).1
      · rfl
    show feed f 0 (b.toUInt32 :: (chars text ++ str)) = _
    rw [feed, hnone, feed_text f str text htext]
    rfl

/-! ## What the numbers do -/

/-- The indexed foreground of attributes, as a sequence has it. -/
def ansiFore (a : UInt64) : UInt8 := (if a &&& FOREGROUND_INTENSITY ≠ 0 then 8 else 0) + translateForegroundColor a

/-- The indexed background of attributes, as a sequence has it. -/
def ansiBack (a : UInt64) : UInt8 := (if a &&& BACKGROUND_INTENSITY ≠ 0 then 8 else 0) + translateBackgroundColor a

/-- The font state behind the sequence between two cells. -/
def recolor (prev now : UInt64) (f : FontState) : FontState :=
  let f := if BoldDiffers prev now then { f with bold := now &&& FOREGROUND_INTENSITY ≠ 0 } else f
  let f := if ForeDiffers prev now then f.setForeground (ansiFore now) else f
  let f := if BackDiffers prev now then f.setBackground (ansiBack now) else f
  let f := if ForeRgbDiffers prev now then { f with useRgbForeground := true, rgbForeground := getRgbFore now } else f
  if BackRgbDiffers prev now then { f with useRgbBackground := true, rgbBackground := getRgbBack now } else f

/-- Numbers that do something, where there are any. -/
theorem parseArgs_ite (c : Prop) [Decidable c] {ns : List Nat} {g : FontState → FontState} (f : FontState) (rest : List Nat)
    (h : ∀ f : FontState, f.parseArgs 0 ((ns ++ rest).map Int.ofNat) = (g f).parseArgs 0 (rest.map Int.ofNat)) :
    f.parseArgs 0 (((if c then ns else []) ++ rest).map Int.ofNat)
      = (if c then g f else f).parseArgs 0 (rest.map Int.ofNat) := by
  split
  · exact h f
  · rfl

theorem parseArgs_one {n : Nat} {g : FontState} (f : FontState) (rest : List Nat)
    (h : ∀ rest, f.parseArg (n : Int) rest = (g, 0)) :
    f.parseArgs 0 (([n] ++ rest).map Int.ofNat) = g.parseArgs 0 (rest.map Int.ofNat) := by
  show f.parseArgs 0 ((n : Int) :: rest.map Int.ofNat) = _
  rw [FontState.parseArgs, h]

theorem parseArg_bold (f : FontState) (now : UInt64) (rest : List Int) :
    f.parseArg (boldArg now : Nat) rest = ({ f with bold := now &&& FOREGROUND_INTENSITY ≠ 0 }, 0) := by
  rw [boldArg]
  split
  · next h => simp [FontState.parseArg, FontState.setStyle, h]
  · next h => simp [FontState.parseArg, FontState.setStyle, h]

/-- An indexed colour, by its number. -/
theorem parseArg_index (f : FontState) (rest : List Int) : ∀ d : Fin 8,
    f.parseArg (30 + d : Nat) rest = (f.setForeground (UInt8.ofNat d), 0)
    ∧ f.parseArg (90 + d : Nat) rest = (f.setForeground (8 + UInt8.ofNat d), 0)
    ∧ f.parseArg (40 + d : Nat) rest = (f.setBackground (UInt8.ofNat d), 0)
    ∧ f.parseArg (100 + d : Nat) rest = (f.setBackground (8 + UInt8.ofNat d), 0) := by
  intro d
  have hadd : ((d : Nat) + 8).toUInt8 = 8 + UInt8.ofNat d := by
    rw [Nat.toUInt8_eq, UInt8.ofNat_add, UInt8.add_comm]
    rfl
  refine ⟨?_, ?_, ?_, ?_⟩
  · rw [FontState.parseArg, if_pos (by omega), show ((30 + d : Nat) - 30 : Int).toNat = d by omega]
  · rw [FontState.parseArg, if_neg (by omega), if_pos (by omega), show ((90 + d : Nat) - 90 : Int).toNat = d by omega, hadd]
  · rw [FontState.parseArg, if_neg (by omega), if_neg (by omega), if_pos (by omega),
      show ((40 + d : Nat) - 40 : Int).toNat = d by omega]
  · rw [FontState.parseArg, if_neg (by omega), if_neg (by omega), if_neg (by omega), if_pos (by omega),
      show ((100 + d : Nat) - 100 : Int).toNat = d by omega, hadd]

theorem parseArg_fore (f : FontState) (now : UInt64) (rest : List Int) :
    f.parseArg (foreArg now : Nat) rest = (f.setForeground (ansiFore now), 0) := by
  obtain ⟨h3, h9, -, -⟩ := parseArg_index f rest ⟨(translateForegroundColor now).toNat, (translate_lt now).1⟩
  rw [UInt8.ofNat_toNat] at h3 h9
  rw [foreArg, ansiFore]
  split
  · exact h9
  · rw [UInt8.zero_add]
    exact h3

theorem parseArg_back (f : FontState) (now : UInt64) (rest : List Int) :
    f.parseArg (backArg now : Nat) rest = (f.setBackground (ansiBack now), 0) := by
  obtain ⟨-, -, h4, h10⟩ := parseArg_index f rest ⟨(translateBackgroundColor now).toNat, (translate_lt now).2⟩
  rw [UInt8.ofNat_toNat] at h4 h10
  rw [backArg, ansiBack]
  split
  · exact h10
  · rw [UInt8.zero_add]
    exact h4

/-- A part of a true colour, shifted to its place. -/
theorem toNat_part {n k : Nat} {s : UInt32} (hs : s.toNat = k) (hk : k ≤ 16) (hn : n < 256) :
    (dwordArg (n : Int) <<< s).toNat = n <<< k := by
  have harg : (dwordArg (n : Int)).toNat = n := by
    rw [dwordArg, UInt32.toNat_ofNat']
    omega
  have hpow : 2 ^ k ≤ 2 ^ 16 := Nat.pow_le_pow_right (by decide) hk
  have hlt : n * 2 ^ k < 2 ^ 32 := by
    have hmul := Nat.mul_le_mul (Nat.le_of_lt_succ hn) hpow
    omega
  rw [UInt32.toNat_shiftLeft, harg, hs, Nat.mod_eq_of_lt (show k < 32 by omega), Nat.shiftLeft_eq, Nat.mod_eq_of_lt hlt]

/-- The parts of a true colour, put together. -/
theorem rgb_parts {rgb : UInt32} (hrgb : rgb.toNat < 16777216) :
    dwordArg ((rgb &&& 0xff).toNat : Int) ||| dwordArg ((rgb >>> 8 &&& 0xff).toNat : Int) <<< 8
      ||| dwordArg ((rgb >>> 16 &&& 0xff).toNat : Int) <<< 16 = rgb := by
  have hr : (rgb &&& 0xff).toNat = rgb.toNat % 256 := by
    rw [UInt32.toNat_and]
    exact Nat.and_two_pow_sub_one_eq_mod rgb.toNat 8
  have hg : (rgb >>> 8 &&& 0xff).toNat = rgb.toNat / 256 % 256 := by
    rw [UInt32.toNat_and, UInt32.toNat_shiftRight]
    exact shiftRight_and rgb.toNat 8 8
  have hb : (rgb >>> 16 &&& 0xff).toNat = rgb.toNat / 65536 % 256 := by
    rw [UInt32.toNat_and, UInt32.toNat_shiftRight]
    exact shiftRight_and rgb.toNat 16 8
  have hlow := toNat_part (n := rgb.toNat % 256) (k := 0) (s := 0) rfl (by decide) (Nat.mod_lt _ (by decide))
  rw [UInt32.shiftLeft_zero, Nat.shiftLeft_zero] at hlow
  rw [hr, hg, hb, ← UInt32.toNat_inj, UInt32.toNat_or, UInt32.toNat_or, hlow,
    toNat_part (k := 8) rfl (by decide) (Nat.mod_lt _ (by decide)),
    toNat_part (k := 16) rfl (by decide) (Nat.mod_lt _ (by decide)),
    or_shiftLeft (k := 8) (by omega), or_shiftLeft (by omega)]
  omega

/-- The numbers of a true colour. -/
theorem parseArgs_rgb {kind : Nat} (hkind : kind = 38 ∨ kind = 48) {rgb : UInt32} (hrgb : rgb.toNat < 16777216)
    (f : FontState) (rest : List Nat) :
    f.parseArgs 0 ((rgbArgs kind rgb ++ rest).map Int.ofNat)
      = (if kind = 38 then { f with useRgbForeground := true, rgbForeground := rgb }
          else { f with useRgbBackground := true, rgbBackground := rgb }).parseArgs 0 (rest.map Int.ofNat) := by
  have hne : rgb ≠ 0xffffffff := by
    rintro rfl
    exact absurd hrgb (by decide)
  have harg : f.parseArg (kind : Int) ((2 : Int) :: (((rgb &&& 0xff).toNat : Int) :: ((rgb >>> 8 &&& 0xff).toNat : Int)
      :: ((rgb >>> 16 &&& 0xff).toNat : Int) :: rest.map Int.ofNat)) = (f.setRgb kind rgb, 4) := by
    rw [FontState.parseArg, if_neg (by omega), if_neg (by omega), if_neg (by omega), if_neg (by omega),
      if_pos (by omega), if_pos ⟨by simp, rfl⟩]
    exact congrArg (fun c => (f.setRgb kind c, 4)) (rgb_parts hrgb)
  have hset : f.setRgb kind rgb = if kind = 38 then { f with useRgbForeground := true, rgbForeground := rgb }
      else { f with useRgbBackground := true, rgbBackground := rgb } := by
    rw [FontState.setRgb, if_neg hne]
    rcases hkind with rfl | rfl <;> rfl
  rw [← hset]
  show f.parseArgs 0 ((kind : Int) :: ((2 : Int) :: (((rgb &&& 0xff).toNat : Int)
    :: ((rgb >>> 8 &&& 0xff).toNat : Int) :: ((rgb >>> 16 &&& 0xff).toNat : Int) :: rest.map Int.ofNat))) = _
  rw [FontState.parseArgs, harg]
  rfl

theorem getRgb_lt (a : UInt64) : (getRgbFore a).toNat < 16777216 ∧ (getRgbBack a).toNat < 16777216 := by
  rw [toNat_getRgbFore, toNat_getRgbBack]
  exact ⟨Nat.mod_lt _ (by decide), Nat.mod_lt _ (by decide)⟩

/-- **What a sequence does between two cells.** -/
theorem parseArgs_attrArgs (prev now : UInt64) (f : FontState) :
    f.parseArgs 0 ((attrArgs prev now).map Int.ofNat) = recolor prev now f := by
  rw [attrArgs, ← List.append_nil (_ ++ _)]
  simp only [List.append_assoc]
  rw [parseArgs_ite (g := fun f => { f with bold := now &&& FOREGROUND_INTENSITY ≠ 0 }) _ f _
      (fun f => parseArgs_one f _ fun rest => parseArg_bold f now rest),
    parseArgs_ite (g := fun f => f.setForeground (ansiFore now)) _ _ _
      (fun f => parseArgs_one f _ fun rest => parseArg_fore f now rest),
    parseArgs_ite (g := fun f => f.setBackground (ansiBack now)) _ _ _
      (fun f => parseArgs_one f _ fun rest => parseArg_back f now rest),
    parseArgs_ite (g := fun f => { f with useRgbForeground := true, rgbForeground := getRgbFore now }) _ _ _
      (fun f => parseArgs_rgb (.inl rfl) (getRgb_lt now).1 f _),
    parseArgs_ite (g := fun f => { f with useRgbBackground := true, rgbBackground := getRgbBack now }) _ _ _
      (fun f => parseArgs_rgb (.inr rfl) (getRgb_lt now).2 f _)]
  rfl

/-! ## Colours -/

/-- A colour of text: an index of sixteen, or a true colour. -/
inductive Color where
  | index (i : Nat)
  | rgb (value : Nat)
  deriving DecidableEq, Repr

/-- The foreground of attributes: the true colour if they have one, else the index. -/
def foreColor (a : UInt64) : Color :=
  if a &&& FOREGROUND_TRUECOLOR ≠ 0 then .rgb (getRgbFore a).toNat else .index (a.toNat % 16)

/-- The background of attributes. -/
def backColor (a : UInt64) : Color :=
  if a &&& BACKGROUND_TRUECOLOR ≠ 0 then .rgb (getRgbBack a).toNat else .index (a.toNat / 16 % 16)

/-- The colours of attributes, and nothing else of them. -/
def colorsOf (a : UInt64) : Look where
  ink := ⟨a.toNat % 8, Nat.mod_lt _ (by decide)⟩
  bright := decide (a.toNat / 8 % 2 = 1)
  paper := ⟨a.toNat / 16 % 16, Nat.mod_lt _ (by decide)⟩
  foreRgb := rgbOf (decide (a &&& FOREGROUND_TRUECOLOR ≠ 0)) (getRgbFore a)
  backRgb := rgbOf (decide (a &&& BACKGROUND_TRUECOLOR ≠ 0)) (getRgbBack a)
  strikeout := false
  rvideo := false
  underline := false

/-- Attributes that are two colours. -/
def Plain (a : UInt64) : Prop := (colorsOf a).value = a.toNat

instance (a : UInt64) : Decidable (Plain a) := inferInstanceAs (Decidable (_ = _))

theorem Plain.ne_noAttr {a : UInt64} (ha : Plain a) : a ≠ noAttr := by
  rintro rfl
  exact absurd ha (by decide)

/-- The foreground of a look. -/
def lookFore (l : Look) : Color :=
  match l.foreRgb with
  | some rgb => .rgb rgb
  | none => .index (l.ink + 8 * l.bright.toNat)

/-- The background of a look. -/
def lookBack (l : Look) : Color :=
  match l.backRgb with
  | some rgb => .rgb rgb
  | none => .index l.paper

/-- Attributes that stand for a look have its colours. -/
theorem color_of_look {a : UInt64} {l : Look} (h : l.value = a.toNat) :
    foreColor a = lookFore l ∧ backColor a = lookBack l := by
  have hparts := l.parts
  rw [h] at hparts
  have hfore := flag_iff (F := FOREGROUND_TRUECOLOR) (k := 8) rfl a
  have hback := flag_iff (F := BACKGROUND_TRUECOLOR) (k := 9) rfl a
  have hforeSome := hparts.foreSome
  have hbackSome := hparts.backSome
  constructor
  · rw [foreColor, lookFore]
    cases hrgb : l.foreRgb with
    | some rgb =>
      rw [if_pos (hfore.mpr (by simpa [hrgb] using hforeSome)), toNat_getRgbFore, hparts.foreRgb, hrgb]
      rfl
    | none =>
      rw [if_neg fun hset => absurd (hfore.mp hset) (by simp [hrgb] at hforeSome; omega)]
      have hink := hparts.ink
      have hbright := hparts.bright
      exact congrArg Color.index (by omega)
  · rw [backColor, lookBack]
    cases hrgb : l.backRgb with
    | some rgb =>
      rw [if_pos (hback.mpr (by simpa [hrgb] using hbackSome)), toNat_getRgbBack, hparts.backRgb, hrgb]
      rfl
    | none =>
      rw [if_neg fun hset => absurd (hback.mp hset) (by simp [hrgb] at hbackSome; omega)]
      exact congrArg Color.index hparts.paper

/-! ## What a font state keeps of the cell before -/

/-- The foreground of a cell is right behind the cell before: a true colour that is the same as
before is not written again, so that no index may be written either. -/
def ForeKept (prev now : UInt64) : Prop :=
  prev &&& FOREGROUND_TRUECOLOR ≠ 0 → now &&& FOREGROUND_TRUECOLOR ≠ 0 → getRgbFore prev = getRgbFore now →
    prev ≠ noAttr
      ∧ prev &&& (FOREGROUND_INTENSITY ||| FOREGROUND_RGB) = now &&& (FOREGROUND_INTENSITY ||| FOREGROUND_RGB)

/-- The background of a cell is right behind the cell before. -/
def BackKept (prev now : UInt64) : Prop :=
  prev &&& BACKGROUND_TRUECOLOR ≠ 0 → now &&& BACKGROUND_TRUECOLOR ≠ 0 → getRgbBack prev = getRgbBack now →
    prev ≠ noAttr
      ∧ prev &&& (BACKGROUND_INTENSITY ||| BACKGROUND_RGB) = now &&& (BACKGROUND_INTENSITY ||| BACKGROUND_RGB)

instance (prev now : UInt64) : Decidable (ForeKept prev now) := inferInstanceAs (Decidable (_ → _ → _ → _))
instance (prev now : UInt64) : Decidable (BackKept prev now) := inferInstanceAs (Decidable (_ → _ → _ → _))

/-- A font state that shows the colours of the cell before; without one, any that shows no true colour. -/
structure Pen (f : FontState) (prev : UInt64) : Prop where
  shown : f.concealed = false
  strikeout : f.strikeout = false
  rvideo : f.rvideo = false
  underline : f.underline = false
  plain : prev ≠ noAttr → Plain prev
  colors : prev ≠ noAttr → f.look = colorsOf prev

theorem pen_fresh : Pen {} noAttr :=
  ⟨rfl, rfl, rfl, rfl, fun h => absurd rfl h, fun h => absurd rfl h⟩

/-- The true colour behind a sequence. `first` is that there is no cell before, `same` that its index is
the same, `index` and `rgbs` that such codes are written. -/
theorem rgbOf_recolor {first same tc tc' index rgbs : Prop} [Decidable first] [Decidable same] [Decidable tc]
    [Decidable tc'] [Decidable index] [Decidable rgbs] {rgb rgb' value : UInt32} {use : Bool}
    (hindex : index ↔ first ∨ (tc ∧ ¬tc') ∨ ¬same) (hrgbs : rgbs ↔ tc' ∧ (¬tc ∨ rgb ≠ rgb'))
    (hprev : ¬first → rgbOf use value = rgbOf (decide tc) rgb) :
    rgbOf (if rgbs then true else if index then false else use) (if rgbs then rgb' else value)
      = if tc → tc' → rgb = rgb' → ¬first ∧ same then rgbOf (decide tc') rgb' else none := by
  by_cases hwrite : rgbs
  · obtain ⟨htc', hor⟩ := hrgbs.mp hwrite
    rw [if_pos hwrite, if_pos hwrite, if_pos fun htc _ hrgb => absurd hor (by simp [htc, hrgb]), decide_eq_true htc']
  · rw [if_neg hwrite, if_neg hwrite]
    rw [hrgbs] at hwrite
    by_cases htc' : tc'
    · obtain ⟨htc, hrgb⟩ : tc ∧ rgb = rgb' := by
        simpa [htc'] using hwrite
      by_cases hkeep : ¬first ∧ same
      · rw [if_neg (by simp [hindex, hkeep, htc']), if_pos fun _ _ _ => hkeep, hprev hkeep.1, ← hrgb,
          decide_eq_true htc, decide_eq_true htc']
      · rw [if_pos (hindex.mpr (by tauto)), if_neg fun h => hkeep (h htc htc' hrgb)]
        rfl
    · rw [if_pos fun _ h => absurd h htc', decide_eq_false htc']
      by_cases hdrop : index
      · rw [if_pos hdrop]
        rfl
      · rw [if_neg hdrop]
        rw [hindex] at hdrop
        obtain ⟨hfirst, htc⟩ : ¬first ∧ ¬tc := by tauto
        rw [hprev hfirst, decide_eq_false htc]
        rfl

/-! ### The members of the font state -/

section
variable (prev now : UInt64) (f : FontState)

theorem recolor_style : (recolor prev now f).concealed = f.concealed ∧ (recolor prev now f).strikeout = f.strikeout
    ∧ (recolor prev now f).rvideo = f.rvideo ∧ (recolor prev now f).underline = f.underline := by
  refine ⟨?_, ?_, ?_, ?_⟩
  · simp only [recolor, FontState.setForeground, FontState.setBackground, apply_ite FontState.concealed, ite_self]
  · simp only [recolor, FontState.setForeground, FontState.setBackground, apply_ite FontState.strikeout, ite_self]
  · simp only [recolor, FontState.setForeground, FontState.setBackground, apply_ite FontState.rvideo, ite_self]
  · simp only [recolor, FontState.setForeground, FontState.setBackground, apply_ite FontState.underline, ite_self]

theorem recolor_bold :
    (recolor prev now f).bold = if BoldDiffers prev now then decide (now &&& FOREGROUND_INTENSITY ≠ 0) else f.bold := by
  simp only [recolor, FontState.setForeground, FontState.setBackground, apply_ite FontState.bold, ite_self]

theorem recolor_foreground :
    (recolor prev now f).foreground = if ForeDiffers prev now then ansiFore now else f.foreground := by
  simp only [recolor, FontState.setForeground, FontState.setBackground, apply_ite FontState.foreground, ite_self]

theorem recolor_background :
    (recolor prev now f).background = if BackDiffers prev now then ansiBack now else f.background := by
  simp only [recolor, FontState.setForeground, FontState.setBackground, apply_ite FontState.background, ite_self]

theorem recolor_foreRgb :
    (recolor prev now f).useRgbForeground
        = (if ForeRgbDiffers prev now then true else if ForeDiffers prev now then false else f.useRgbForeground)
      ∧ (recolor prev now f).rgbForeground
        = if ForeRgbDiffers prev now then getRgbFore now else f.rgbForeground := by
  constructor
  · simp only [recolor, FontState.setForeground, FontState.setBackground, apply_ite FontState.useRgbForeground, ite_self]
  · simp only [recolor, FontState.setForeground, FontState.setBackground, apply_ite FontState.rgbForeground, ite_self]

theorem recolor_backRgb :
    (recolor prev now f).useRgbBackground
        = (if BackRgbDiffers prev now then true else if BackDiffers prev now then false else f.useRgbBackground)
      ∧ (recolor prev now f).rgbBackground
        = if BackRgbDiffers prev now then getRgbBack now else f.rgbBackground := by
  constructor
  · simp only [recolor, FontState.setForeground, FontState.setBackground, apply_ite FontState.useRgbBackground, ite_self]
  · simp only [recolor, FontState.setForeground, FontState.setBackground, apply_ite FontState.rgbBackground, ite_self]

end

/-! ### The indexed colours -/

/-- The sixteen colours of a sequence are those of the console. -/
theorem ansi_index : ∀ n : Fin 16,
    foreIndex ((if n.val / 2 ^ 3 % 2 = 1 then 8 else 0) + ((if n.val / 2 ^ 2 % 2 = 1 then 1 else 0)
      ||| (if n.val / 2 ^ 1 % 2 = 1 then 2 else 0) ||| (if n.val / 2 ^ 0 % 2 = 1 then 4 else 0))) = n
    ∧ backIndex ((if n.val / 2 ^ 3 % 2 = 1 then 8 else 0) + ((if n.val / 2 ^ 2 % 2 = 1 then 1 else 0)
      ||| (if n.val / 2 ^ 1 % 2 = 1 then 2 else 0) ||| (if n.val / 2 ^ 0 % 2 = 1 then 4 else 0))) = n := by
  decide

theorem foreIndex_ansiFore (now : UInt64) : foreIndex (ansiFore now) = now.toNat % 16 := by
  have hbit : ∀ {F : UInt64} {k : Nat}, F.toNat = 2 ^ k → k < 4 →
      (now &&& F ≠ 0 ↔ now.toNat % 16 / 2 ^ k % 2 = 1) := by
    intro F k hF hk
    rw [flag_iff hF]
    obtain rfl | rfl | rfl | rfl : k = 0 ∨ k = 1 ∨ k = 2 ∨ k = 3 := by omega
    all_goals omega
  rw [ansiFore, translateForegroundColor]
  simp only [hbit (F := FOREGROUND_INTENSITY) (k := 3) rfl (by decide), hbit (F := 0x0004) (k := 2) rfl (by decide),
    hbit (F := 0x0002) (k := 1) rfl (by decide), hbit (F := 0x0001) (k := 0) rfl (by decide)]
  exact (ansi_index ⟨now.toNat % 16, Nat.mod_lt _ (by decide)⟩).1

theorem backIndex_ansiBack (now : UInt64) : backIndex (ansiBack now) = now.toNat / 16 % 16 := by
  have hbit : ∀ {F : UInt64} {k : Nat}, F.toNat = 2 ^ (k + 4) → k < 4 →
      (now &&& F ≠ 0 ↔ now.toNat / 16 % 16 / 2 ^ k % 2 = 1) := by
    intro F k hF hk
    rw [flag_iff hF]
    obtain rfl | rfl | rfl | rfl : k = 0 ∨ k = 1 ∨ k = 2 ∨ k = 3 := by omega
    all_goals omega
  rw [ansiBack, translateBackgroundColor]
  simp only [hbit (F := BACKGROUND_INTENSITY) (k := 3) rfl (by decide), hbit (F := 0x0040) (k := 2) rfl (by decide),
    hbit (F := 0x0020) (k := 1) rfl (by decide), hbit (F := 0x0010) (k := 0) rfl (by decide)]
  exact (ansi_index ⟨now.toNat / 16 % 16, Nat.mod_lt _ (by decide)⟩).2

/-- A field of attributes, compared under its mask. -/
theorem field_iff {F : UInt64} {k n : Nat} (hF : F.toNat = (2 ^ n - 1) <<< k) (a b : UInt64) :
    a &&& F = b &&& F ↔ a.toNat / 2 ^ k % 2 ^ n = b.toNat / 2 ^ k % 2 ^ n := by
  rw [← UInt64.toNat_inj, UInt64.toNat_and, UInt64.toNat_and, hF, and_field, and_field, Nat.shiftLeft_eq, Nat.shiftLeft_eq,
    Nat.mul_left_inj (Nat.ne_of_gt (Nat.two_pow_pos k))]

/-! ## One cell -/

/-- **The look behind a sequence** is that of the cell, but for a true colour that is lost. -/
theorem Pen.look_recolor {f : FontState} {prev : UInt64} (hpen : Pen f prev) (now : UInt64) :
    (recolor prev now f).look = { colorsOf now with
      foreRgb := if ForeKept prev now then (colorsOf now).foreRgb else none
      backRgb := if BackKept prev now then (colorsOf now).backRgb else none } := by
  obtain ⟨hconcealed, hstrikeout, hrvideo, hunderline⟩ := recolor_style prev now f
  obtain ⟨hforeUse, hforeRgb⟩ := recolor_foreRgb prev now f
  obtain ⟨hbackUse, hbackRgb⟩ := recolor_backRgb prev now f
  have hlook : prev ≠ noAttr → f.lookIn f.foreground f.useRgbForeground f.rgbForeground = colorsOf prev := fun hne => by
    rw [← hpen.colors hne, FontState.look, if_neg (by simp [hpen.shown])]
  have hlook' : (recolor prev now f).look = (recolor prev now f).lookIn (recolor prev now f).foreground
      (recolor prev now f).useRgbForeground (recolor prev now f).rgbForeground := by
    rw [FontState.look, if_neg (by simp [hconcealed, hpen.shown])]
  have hforeIndex : ForeDiffers prev now ↔ prev = noAttr
      ∨ (prev &&& FOREGROUND_TRUECOLOR ≠ 0 ∧ ¬now &&& FOREGROUND_TRUECOLOR ≠ 0)
      ∨ ¬prev &&& (FOREGROUND_INTENSITY ||| FOREGROUND_RGB) = now &&& (FOREGROUND_INTENSITY ||| FOREGROUND_RGB) := by
    simp only [ForeDiffers, ne_eq, not_not]
  have hforeRgbs : ForeRgbDiffers prev now ↔ now &&& FOREGROUND_TRUECOLOR ≠ 0
      ∧ (¬prev &&& FOREGROUND_TRUECOLOR ≠ 0 ∨ getRgbFore prev ≠ getRgbFore now) := by
    simp only [ForeRgbDiffers, ne_eq, not_not]
  have hfore := rgbOf_recolor hforeIndex hforeRgbs fun hne => congrArg Look.foreRgb (hlook hne)
  have hbackIndex : BackDiffers prev now ↔ prev = noAttr
      ∨ (prev &&& BACKGROUND_TRUECOLOR ≠ 0 ∧ ¬now &&& BACKGROUND_TRUECOLOR ≠ 0)
      ∨ ¬prev &&& (BACKGROUND_INTENSITY ||| BACKGROUND_RGB) = now &&& (BACKGROUND_INTENSITY ||| BACKGROUND_RGB) := by
    simp only [BackDiffers, ne_eq, not_not]
  have hbackRgbs : BackRgbDiffers prev now ↔ now &&& BACKGROUND_TRUECOLOR ≠ 0
      ∧ (¬prev &&& BACKGROUND_TRUECOLOR ≠ 0 ∨ getRgbBack prev ≠ getRgbBack now) := by
    simp only [BackRgbDiffers, ne_eq, not_not]
  have hback := rgbOf_recolor hbackIndex hbackRgbs fun hne => congrArg Look.backRgb (hlook hne)
  have hforeSame : ¬ForeDiffers prev now → prev ≠ noAttr ∧ prev.toNat % 16 = now.toNat % 16 := fun hsame => by
    obtain ⟨hne, hlow⟩ := not_or.mp hsame
    have hfield := (field_iff (k := 0) (n := 4) rfl prev now).mp (not_not.mp (not_or.mp hlow).2)
    exact ⟨hne, by omega⟩
  have hink : foreIndex (recolor prev now f).foreground % 8 = now.toNat % 8 := by
    rw [recolor_foreground]
    by_cases hdiffers : ForeDiffers prev now
    · rw [if_pos hdiffers, foreIndex_ansiFore]
      omega
    · obtain ⟨hne, hlow⟩ := hforeSame hdiffers
      have hprev : foreIndex f.foreground % 8 = prev.toNat % 8 := congrArg (fun l => (Look.ink l).val) (hlook hne)
      rw [if_neg hdiffers, hprev]
      omega
  have hbright : ((recolor prev now f).bold || decide (8 ≤ foreIndex (recolor prev now f).foreground))
      = decide (now.toNat / 8 % 2 = 1) := by
    have hprev : prev ≠ noAttr → (f.bold || decide (8 ≤ foreIndex f.foreground)) = decide (prev.toNat / 8 % 2 = 1) :=
      fun hne => congrArg Look.bright (hlook hne)
    have hbold := flag_iff (F := FOREGROUND_INTENSITY) (k := 3) rfl now
    have hnowIndex : decide (8 ≤ now.toNat % 16) = decide (now.toNat / 8 % 2 = 1) := decide_eq_decide.mpr (by omega)
    rw [recolor_foreground, recolor_bold]
    by_cases hdiffers : ForeDiffers prev now
    · rw [if_pos hdiffers, foreIndex_ansiFore, hnowIndex]
      by_cases hboldDiffers : BoldDiffers prev now
      · rw [if_pos hboldDiffers, decide_eq_decide.mpr hbold]
        exact Bool.or_self _
      · -- the state is bold only if the cell before is bright, and so this one
        obtain ⟨hne, hsame⟩ := not_or.mp hboldDiffers
        have hfield := (field_iff (k := 3) (n := 1) rfl prev now).mp (not_not.mp hsame)
        have hbefore : (f.bold || decide (8 ≤ foreIndex f.foreground)) = decide (now.toNat / 8 % 2 = 1) :=
          (hprev hne).trans (decide_eq_decide.mpr (iff_of_eq (congrArg (· = 1) hfield)))
        rw [if_neg hboldDiffers, ← hbefore, ← Bool.or_assoc, Bool.or_self]
    · obtain ⟨hne, hlow⟩ := hforeSame hdiffers
      have hboldSame : ¬BoldDiffers prev now :=
        not_or.mpr ⟨hne, not_not.mpr ((field_iff (k := 3) (n := 1) rfl prev now).mpr (by omega))⟩
      rw [if_neg hdiffers, if_neg hboldSame, hprev hne]
      exact decide_eq_decide.mpr (by omega)
  have hpaper : backIndex (recolor prev now f).background = now.toNat / 16 % 16 := by
    rw [recolor_background]
    by_cases hdiffers : BackDiffers prev now
    · rw [if_pos hdiffers, backIndex_ansiBack]
    · obtain ⟨hne, hlow⟩ := not_or.mp hdiffers
      have hprev : backIndex f.background = prev.toNat / 16 % 16 := congrArg (fun l => (Look.paper l).val) (hlook hne)
      rw [if_neg hdiffers, hprev]
      exact (field_iff (k := 4) (n := 4) rfl prev now).mp (not_not.mp (not_or.mp hlow).2)
  rw [hlook', FontState.lookIn, hstrikeout, hrvideo, hunderline, hpen.strikeout, hpen.rvideo, hpen.underline,
    hforeUse, hforeRgb, hbackUse, hbackRgb, hfore, hback, hbright]
  rw [Look.mk.injEq]
  exact ⟨Fin.ext hink, rfl, Fin.ext hpaper, rfl, rfl, rfl, rfl, rfl⟩

/-- The font state is right again behind a cell whose colours are kept. -/
theorem Pen.step {f : FontState} {prev : UInt64} (hpen : Pen f prev) {now : UInt64} (hnow : Plain now)
    (hfore : ForeKept prev now) (hback : BackKept prev now) : Pen (recolor prev now f) now := by
  obtain ⟨hconcealed, hstrikeout, hrvideo, hunderline⟩ := recolor_style prev now f
  refine ⟨hconcealed.trans hpen.shown, hstrikeout.trans hpen.strikeout, hrvideo.trans hpen.rvideo,
    hunderline.trans hpen.underline, fun _ => hnow, fun _ => ?_⟩
  rw [hpen.look_recolor, if_pos hfore, if_pos hback]

theorem Pen.foreColor_iff {f : FontState} {prev : UInt64} (hpen : Pen f prev) {now : UInt64} (hnow : Plain now) :
    (foreColor (recolor prev now f).toConsoleAttributes = foreColor now ↔ ForeKept prev now)
      ∧ (backColor (recolor prev now f).toConsoleAttributes = backColor now ↔ BackKept prev now) := by
  have hread := color_of_look (toNat_toConsoleAttributes (recolor prev now f)).symm
  have hcell := color_of_look hnow
  rw [hread.1, hread.2, hcell.1, hcell.2, hpen.look_recolor]
  constructor
  · by_cases hkept : ForeKept prev now
    · simp only [iff_true_intro hkept, if_true]
      exact iff_true_intro rfl
    · have htc : now &&& FOREGROUND_TRUECOLOR ≠ 0 := fun hzero => hkept fun _ hne => absurd hzero hne
      simp [hkept, lookFore, colorsOf, rgbOf, htc]
  · by_cases hkept : BackKept prev now
    · simp only [iff_true_intro hkept, if_true]
      exact iff_true_intro rfl
    · have htc : now &&& BACKGROUND_TRUECOLOR ≠ 0 := fun hzero => hkept fun _ hne => absurd hzero hne
      simp [hkept, lookBack, colorsOf, rgbOf, htc]

theorem attrArgs_lt (prev now : UInt64) : ∀ n ∈ attrArgs prev now, n < 1000 := by
  have hite : ∀ {c : Prop} [Decidable c] {ns : List Nat}, (∀ n ∈ ns, n < 1000) → ∀ n ∈ (if c then ns else []), n < 1000 :=
    fun h n hn => by
      split at hn
      · exact h n hn
      · exact absurd hn List.not_mem_nil
  have hbyte : ∀ x : UInt32, (x &&& 0xff).toNat < 1000 := fun x => by
    rw [UInt32.toNat_and]
    exact Nat.lt_of_le_of_lt Nat.and_le_right (by decide)
  have hrgb : ∀ kind < 1000, ∀ rgb, ∀ n ∈ rgbArgs kind rgb, n < 1000 := fun kind hkind rgb n hn => by
    simp only [rgbArgs, List.mem_cons, List.not_mem_nil, or_false] at hn
    obtain rfl | rfl | rfl | rfl | rfl := hn
    · exact hkind
    · decide
    · exact hbyte _
    · exact hbyte _
    · exact hbyte _
  have hone : ∀ {m : Nat}, m < 1000 → ∀ n ∈ [m], n < 1000 := fun hm n hn => List.mem_singleton.mp hn ▸ hm
  obtain ⟨hfore, hback⟩ := translate_lt now
  intro n hn
  rw [attrArgs] at hn
  simp only [List.mem_append] at hn
  obtain (((hn | hn) | hn) | hn) | hn := hn
  · exact hite (hone (by rw [boldArg]; split <;> decide)) n hn
  · exact hite (hone (by rw [foreArg]; split <;> omega)) n hn
  · exact hite (hone (by rw [backArg]; split <;> omega)) n hn
  · exact hite (hrgb 38 (by decide) _) n hn
  · exact hite (hrgb 48 (by decide) _) n hn

/-- Without a code nothing differs. -/
theorem attrArgs_eq_nil {prev now : UInt64} : attrArgs prev now = [] ↔ ¬BoldDiffers prev now ∧ ¬ForeDiffers prev now
    ∧ ¬BackDiffers prev now ∧ ¬ForeRgbDiffers prev now ∧ ¬BackRgbDiffers prev now := by
  simp [attrArgs, rgbArgs, and_assoc]

theorem attrArgs_self {a : UInt64} (ha : a ≠ noAttr) : attrArgs a a = [] := by
  rw [attrArgs_eq_nil]
  refine ⟨?_, ?_, ?_, ?_, ?_⟩
  · simp [BoldDiffers, ha]
  · simp [ForeDiffers, ha]
  · simp [BackDiffers, ha]
  · simp only [ForeRgbDiffers]
    tauto
  · simp only [BackRgbDiffers]
    tauto

/-- Without a code the cells have the same attributes, and the font state is left alone. -/
theorem Pen.eq_of_nil {f : FontState} {prev : UInt64} (hpen : Pen f prev) {now : UInt64} (hnow : Plain now)
    (hnil : attrArgs prev now = []) : now = prev ∧ recolor prev now f = f := by
  obtain ⟨hbold, hfore, hback, hforeRgb, hbackRgb⟩ := attrArgs_eq_nil.mp hnil
  have hf : recolor prev now f = f := by
    simp only [recolor, if_neg hbold, if_neg hfore, if_neg hback, if_neg hforeRgb, if_neg hbackRgb]
  obtain ⟨hne, hlow⟩ := not_or.mp hfore
  have hlow' := (not_or.mp (not_or.mp hback).2).2
  have hkept : ForeKept prev now := fun _ _ _ => ⟨hne, not_not.mp (not_or.mp hlow).2⟩
  have hkept' : BackKept prev now := fun _ _ _ => ⟨hne, not_not.mp hlow'⟩
  have hlook := hpen.look_recolor now
  rw [hf, hpen.colors hne, if_pos hkept, if_pos hkept'] at hlook
  have hvalue : (colorsOf prev).value = (colorsOf now).value := congrArg Look.value hlook
  exact ⟨UInt64.toNat_inj.mp (hnow.symm.trans (hvalue.symm.trans (hpen.plain hne))), hf⟩

/-- The codes of a cell do to the font state what `recolor` says, also where there are none; and the loop
goes on with the attributes of the cell. -/
theorem Pen.feed_codes {f : FontState} {prev : UInt64} (hpen : Pen f prev) {now : UInt64} (hnow : Plain now) (str : WStr) :
    let codes := if true ∧ now ≠ prev then attrCodes prev now else []
    feed f 0 (chars (sequence codes) ++ str) = feed (recolor prev now f) 0 str
      ∧ (if codes = [] then prev else now) = now := by
  by_cases hnil : attrArgs prev now = []
  · obtain ⟨rfl, hf⟩ := hpen.eq_of_nil hnow hnil
    rw [hf]
    simp [sequence, chars]
  · have hne : now ≠ prev := by
      rintro rfl
      exact hnil (attrArgs_self hnow.ne_noAttr)
    dsimp only
    rw [if_pos ⟨rfl, hne⟩, attrCodes_eq, if_neg (argBytes_ne_nil hnil), feed_sequence f str hnil (attrArgs_lt prev now),
      parseArgs_attrArgs]
    exact ⟨rfl, rfl⟩

/-! ## Faithful lines -/

/-- A character with its two colours. -/
abbrev Shown := WChar × Color × Color

/-- What is read back from a line. -/
def readBack (composites : List WStr) (cells : List CharInfo) : List Shown :=
  (feed {} 0 (chars (encodeLine composites cells true))).map fun p => (p.1, foreColor p.2, backColor p.2)

/-- The characters of a cell, each with the colours of the cell. -/
def cellShown (composites : List WStr) (c : CharInfo) : List Shown :=
  if c.unicodeChar = 0 then []
  else (chars (cellText composites c)).map fun wc => (wc, foreColor c.attributes, backColor c.attributes)

/-- Every visible cell has its colours kept behind the one before. -/
def KeptAll (prev : UInt64) : List CharInfo → Prop
  | [] => True
  | c :: cells =>
      if c.unicodeChar = 0 then KeptAll prev cells
      else ForeKept prev c.attributes ∧ BackKept prev c.attributes ∧ KeptAll c.attributes cells

/-- Deciding `KeptAll`, cell by cell. -/
def decKeptAll : ∀ (prev : UInt64) (cells : List CharInfo), Decidable (KeptAll prev cells)
  | _, [] => .isTrue trivial
  | prev, c :: cells =>
      have := decKeptAll prev cells
      have := decKeptAll c.attributes cells
      inferInstanceAs (Decidable (if c.unicodeChar = 0 then KeptAll prev cells
        else ForeKept prev c.attributes ∧ BackKept prev c.attributes ∧ KeptAll c.attributes cells))

instance (prev : UInt64) (cells : List CharInfo) : Decidable (KeptAll prev cells) := decKeptAll prev cells

/-- The wide characters of a cell. -/
def cellChars (composites : List WStr) (c : CharInfo) : WStr :=
  if c.unicodeChar &&& COMPOSITE_CHAR_MARK ≠ 0 then compositeCharLookup composites c.unicodeChar
  else [c.unicodeChar.toUInt32]

/-- A cell whose attributes are two colours, and that prints characters. -/
def Printed (composites : List WStr) (c : CharInfo) : Prop :=
  c.unicodeChar ≠ 0 → Plain c.attributes ∧ cellChars composites c ≠ []
    ∧ ∀ wc ∈ cellChars composites c, ValidChar wc ∧ wc ≠ VT.ESC

/-- A byte with a lead or a tail marker. -/
theorem high_of_mark {m : Nat} (hm : m.testBit 7) (x : Nat) : 128 ≤ (UInt8.ofNat (m ||| x)).toNat := by
  have hbit : (m ||| x).testBit 7 := by
    rw [Nat.testBit_or, hm, Bool.true_or]
  rw [Nat.testBit_eq_decide_div_mod_eq, decide_eq_true_eq] at hbit
  rw [UInt8.toNat_ofNat']
  omega

/-- The bytes of a character are itself, or from `0x80` on. -/
theorem esc_not_mem_write {wc : WChar} (hesc : wc ≠ VT.ESC) : VT.ESC.toUInt8 ∉ Utf8.write wc.toNat := by
  have hne : ∀ {m : Nat}, m.testBit 7 → ∀ x, VT.ESC.toUInt8 ≠ UInt8.ofNat (m ||| x) := fun hm x heq => by
    have hhigh := high_of_mark hm x
    rw [← heq] at hhigh
    exact absurd hhigh (by decide)
  have htail : ∀ shift, VT.ESC.toUInt8 ≠ Utf8.tailByte wc.toNat shift := fun shift => hne (by decide) _
  rw [Utf8.write]
  split
  · next hlt =>
    rw [List.mem_singleton]
    intro heq
    refine hesc (UInt32.toNat_inj.mp ?_)
    have hbyte := congrArg UInt8.toNat heq
    rw [UInt8.toNat_ofNat', Nat.mod_eq_of_lt (by omega)] at hbyte
    exact hbyte.symm
  all_goals
    repeat' split
    all_goals
      simp only [List.mem_cons, List.not_mem_nil, or_false, not_or]
      refine ⟨hne (by decide) _, ?_⟩
      simp [htail]

/-- Characters that are no `ESC`, as bytes. -/
theorem wide2MB_ne_nil {str : WStr} (hne : str ≠ []) (hall : ∀ wc ∈ str, ValidChar wc ∧ wc ≠ VT.ESC) :
    wide2MBUnescapedAppend [] str ≠ [] ∧ VT.ESC.toUInt8 ∉ wide2MBUnescapedAppend [] str := by
  rw [wide2MBUnescapedAppend_valid [] str fun wc hwc => (hall wc hwc).1, List.nil_append]
  constructor
  · obtain ⟨wc, str, rfl⟩ := List.exists_cons_of_ne_nil hne
    rw [List.flatMap_cons]
    exact List.append_ne_nil_of_left_ne_nil (Utf8.write_ne_nil _) _
  · intro hmem
    obtain ⟨wc, hwc, hbyte⟩ := List.mem_flatMap.mp hmem
    exact esc_not_mem_write (hall wc hwc).2 hbyte

/-- The text of a cell that prints characters. -/
theorem Printed.cellText {composites : List WStr} {c : CharInfo} (h : Printed composites c) (hc : c.unicodeChar ≠ 0) :
    cellText composites c ≠ [] ∧ VT.ESC.toUInt8 ∉ cellText composites c := by
  obtain ⟨-, hne, hall⟩ := h hc
  rw [VTLog.cellText]
  rw [cellChars] at hne hall
  split
  · next hmark =>
    rw [if_pos hmark] at hne hall
    exact wide2MB_ne_nil hne hall
  · next hmark =>
    rw [if_neg hmark] at hne hall
    split
    · exact wide2MB_ne_nil hne hall
    · next hle =>
      refine ⟨List.cons_ne_nil _ _, fun hmem => (hall _ List.mem_cons_self).2 ?_⟩
      have hbyte := congrArg UInt8.toNat (List.mem_singleton.mp hmem)
      have hle : c.unicodeChar.toNat ≤ 0x80 := UInt64.le_iff_toNat_le.mp (UInt64.not_lt.mp hle)
      rw [UInt64.toNat_toUInt8, Nat.mod_eq_of_lt (by omega)] at hbyte
      refine UInt32.toNat_inj.mp ?_
      rw [UInt64.toNat_toUInt32, Nat.mod_eq_of_lt (by omega), ← hbyte]
      rfl

/-- The loop, from a font state that is right for the cell before. -/
theorem encodeLoop_iff (composites : List WStr) : ∀ (cells : List CharInfo) (prev : UInt64) (f : FontState), Pen f prev →
    (∀ c ∈ cells, Printed composites c) →
    ((feed f 0 (chars (encodeLoop composites true prev cells))).map (fun p => (p.1, foreColor p.2, backColor p.2))
      = cells.flatMap (cellShown composites) ↔ KeptAll prev cells)
  | [], prev, f, _, _ => by
    rw [encodeLoop, KeptAll]
    split
    · exact ⟨fun _ => trivial, fun _ => rfl⟩
    · exact ⟨fun _ => trivial, fun _ => rfl⟩
  | c :: cells, prev, f, hpen, hprinted => by
    have hcell := hprinted c List.mem_cons_self
    have hcells : ∀ c ∈ cells, Printed composites c := fun c hc => hprinted c (List.mem_cons_of_mem _ hc)
    rw [encodeLoop, KeptAll, List.flatMap_cons, cellShown]
    by_cases hc : c.unicodeChar = 0
    · rw [if_pos hc, if_pos hc, if_pos hc, List.nil_append]
      exact encodeLoop_iff composites cells prev f hpen hcells
    · obtain ⟨hplain, -, -⟩ := hcell hc
      obtain ⟨hne, hesc⟩ := hcell.cellText hc
      obtain ⟨hfeed, hprev⟩ := hpen.feed_codes hplain
        (chars (cellText composites c) ++ chars (encodeLoop composites true c.attributes cells))
      rw [if_neg hc, if_neg hc, if_neg hc]
      dsimp only at hfeed hprev ⊢
      rw [hprev, chars_append, chars_append, List.append_assoc, hfeed, feed_text _ _ _ hesc, List.map_append, List.map_map]
      obtain ⟨hfore, hback⟩ := hpen.foreColor_iff hplain
      obtain ⟨b, text, htext⟩ := List.exists_cons_of_ne_nil hne
      constructor
      · intro h
        obtain ⟨hhead, htail⟩ := List.append_inj h (by rw [List.length_map, List.length_map])
        rw [htext] at hhead
        have hcolors := (List.cons.inj hhead).1
        have hkept := hfore.mp (congrArg (fun s => s.2.1) hcolors)
        have hkept' := hback.mp (congrArg (fun s => s.2.2) hcolors)
        exact ⟨hkept, hkept', (encodeLoop_iff composites cells _ _ (hpen.step hplain hkept hkept') hcells).mp htail⟩
      · rintro ⟨hkept, hkept', hrest⟩
        have htail := (encodeLoop_iff composites cells _ _ (hpen.step hplain hkept hkept') hcells).mpr hrest
        rw [htail]
        refine congrArg (· ++ _) (List.map_congr_left fun wc _ => ?_)
        exact Prod.ext rfl (Prod.ext (hfore.mpr hkept) (hback.mpr hkept'))

/-- **The colours of a line are read back** exactly when, for each visible cell and each of its two
colours, a true colour that the cell shares with the visible cell before stands over the same
index. White counts as shared in the first one, where it is lost. -/
theorem encodeLine_iff (composites : List WStr) (cells : List CharInfo)
    (hprinted : ∀ c ∈ cells, Printed composites c) :
    readBack composites cells = cells.flatMap (cellShown composites) ↔ KeptAll noAttr cells :=
  encodeLoop_iff composites cells noAttr {} pen_fresh hprinted

/-- A grey cell, and two in a true colour of one index. -/
theorem encodeLine_iff_oneIndex :
    readBack [] [⟨0x41, 0x07⟩, ⟨0x42, 0x0000000302010107⟩, ⟨0x43, 0x0000000302010107⟩]
      = [⟨0x41, 0x07⟩, ⟨0x42, 0x0000000302010107⟩, ⟨0x43, 0x0000000302010107⟩].flatMap (cellShown []) := by
  refine (encodeLine_iff [] _ ?_).mpr (by decide)
  intro c hc _
  simp only [List.mem_cons, List.not_mem_nil, or_false] at hc
  obtain rfl | rfl | rfl := hc
  all_goals
    refine ⟨by decide, by decide, fun wc hwc => ?_⟩
    rw [List.mem_singleton.mp hwc]
    exact ⟨by unfold ValidChar; decide, by decide⟩

/-- A true colour over another index than before is read back as that index, and white in the first cell
as its index. -/
theorem trueColor_lost :
    readBack [] [⟨0x43, 0x0000000302010100⟩, ⟨0x43, 0x0000000302010104⟩]
        = [(0x43, .rgb 0x030201, .index 0), (0x43, .index 4, .index 0)]
      ∧ [⟨0x43, 0x0000000302010100⟩, ⟨0x43, 0x0000000302010104⟩].flatMap (cellShown [])
        = [(0x43, .rgb 0x030201, .index 0), (0x43, .rgb 0x030201, .index 0)]
      ∧ readBack [] [⟨0x41, 0x000000ffffff0107⟩] = [(0x41, .index 7, .index 0)]
      ∧ [⟨0x41, 0x000000ffffff0107⟩].flatMap (cellShown []) = [(0x41, .rgb 0xffffff, .index 0)] := by
  refine ⟨by decide, by decide, by decide, by decide⟩

end VTLog

end Far2l
