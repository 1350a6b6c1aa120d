/-
Far2l.Utils.WideMBTheorems — `Wide2MB` undoes `MB2Wide`.

`unescape` says what `Wide2MB` means on valid characters, without the pieces it
works in. A wide string `Decodes` to bytes when it unescapes to them in front of
any continuation; every step of `MB2Wide` emits such a string.
-/
import Far2l.Utils.WideMB

namespace Far2l.WideMB

/-- The characters `utf32::read` accepts. -/
def ValidChar (wc : WChar) : Prop := wc.toNat < 0x80000000

/-- `Wide2MB` on valid characters. -/
def unescape : WStr → List Byte
  | [] => []
  | wc :: rest =>
      if wc ≠ WCHAR_ESCAPING then Utf8.write wc.toNat ++ unescape rest
      else
        match _h : escapedHexByte rest with
        | some (b, rest') => b :: unescape rest'
        | none => Utf8.write wc.toNat ++ unescape (skipEscaping rest)
termination_by src => src.length
decreasing_by
  all_goals simp only [List.length_cons]
  · omega
  · have := escapedHexByte_length _h
    omega
  · have := skipEscaping_length rest
    omega

/-! ## How `unescape` reads its three forms -/

theorem unescape_cons {wc : WChar} (h : wc ≠ WCHAR_ESCAPING) (rest : WStr) :
    unescape (wc :: rest) = Utf8.write wc.toNat ++ unescape rest := by
  rw [unescape, if_pos h]

theorem unescape_hexByte {rest rest' : WStr} {b : Byte}
    (h : escapedHexByte rest = some (b, rest')) :
    unescape (WCHAR_ESCAPING :: rest) = b :: unescape rest' := by
  rw [unescape, if_neg (fun hne => hne rfl)]
  split
  · next hr => rw [h] at hr
               simp only [Option.some.injEq, Prod.mk.injEq] at hr
               obtain ⟨rfl, rfl⟩ := hr
               rfl
  · next hr => rw [h] at hr; simp at hr

theorem unescape_escaping {rest : WStr} (h : escapedHexByte rest = none) :
    unescape (WCHAR_ESCAPING :: rest)
      = Utf8.write WCHAR_ESCAPING.toNat ++ unescape (skipEscaping rest) := by
  rw [unescape, if_neg (fun hne => hne rfl)]
  split
  · next hr => rw [h] at hr; simp at hr
  · rfl

/-! ## `Wide2MB` is `unescape` on valid characters -/

theorem mem_of_mem_skipEscaping {wc : WChar} : ∀ {src : WStr}, wc ∈ skipEscaping src → wc ∈ src
  | [], h => h
  | c :: src, h => by
    simp only [skipEscaping] at h
    split at h
    · exact List.mem_cons_of_mem c h
    · exact h

theorem mem_of_mem_escapedHexByte {src rest : WStr} {b : Byte}
    (h : escapedHexByte src = some (b, rest)) {wc : WChar} (hwc : wc ∈ rest) : wc ∈ src := by
  match src, h with
  | hex0 :: hex1 :: src, h =>
    simp only [escapedHexByte, Option.ite_none_right_eq_some, Option.some.injEq,
      Prod.mk.injEq] at h
    obtain ⟨_, _, rfl⟩ := h
    exact List.mem_cons_of_mem _ (List.mem_cons_of_mem _ hwc)

/-- A piece of valid characters is converted whole. -/
theorem wide2MBUnescapedAppend_valid : ∀ (dst : List Byte) (src : WStr),
    (∀ wc ∈ src, ValidChar wc) →
    wide2MBUnescapedAppend dst src = dst ++ src.flatMap (fun wc => Utf8.write wc.toNat)
  | dst, [], _ => by simp [wide2MBUnescapedAppend]
  | dst, wc :: src, h => by
    have hwc : wc.toNat < 0x80000000 := h wc List.mem_cons_self
    have ih := wide2MBUnescapedAppend_valid (dst ++ Utf8.write wc.toNat) src
      (fun c hc => h c (List.mem_cons_of_mem _ hc))
    rw [wide2MBUnescapedAppend, if_pos hwc, ih, List.flatMap_cons, List.append_assoc]

theorem wide2MBUnescapedAppend_escaping (dst : List Byte) :
    wide2MBUnescapedAppend dst [WCHAR_ESCAPING] = dst ++ Utf8.write WCHAR_ESCAPING.toNat := rfl

theorem wide2MBLoop_valid (seg : WStr) (dst : List Byte) (src : WStr)
    (hseg : ∀ wc ∈ seg, ValidChar wc) (hsrc : ∀ wc ∈ src, ValidChar wc) :
    wide2MBLoop seg dst src
      = dst ++ seg.flatMap (fun wc => Utf8.write wc.toNat) ++ unescape src := by
  have hnil : ∀ wc ∈ ([] : WStr), ValidChar wc := fun wc hwc => absurd hwc List.not_mem_nil
  fun_induction wide2MBLoop seg dst src with
  | case1 seg dst => rw [wide2MBUnescapedAppend_valid dst seg hseg, unescape, List.append_nil]
  | case2 seg dst wc rest hne ih =>
    have hwc : ValidChar wc := hsrc wc List.mem_cons_self
    have hseg' : ∀ c ∈ seg ++ [wc], ValidChar c := by
      intro c hc
      rcases List.mem_append.mp hc with hc | hc
      · exact hseg c hc
      · rw [List.mem_singleton.mp hc]; exact hwc
    rw [ih hseg' (fun c hc => hsrc c (List.mem_cons_of_mem _ hc)), unescape_cons hne,
      List.flatMap_append, List.flatMap_singleton]
    simp only [List.append_assoc]
  | case3 seg dst wc rest hesc b rest' hhex ih =>
    obtain rfl : wc = WCHAR_ESCAPING := Decidable.not_not.mp hesc
    have hrest : ∀ c ∈ rest', ValidChar c := fun c hc =>
      hsrc c (List.mem_cons_of_mem _ (mem_of_mem_escapedHexByte hhex hc))
    rw [ih hnil hrest, unescape_hexByte hhex, wide2MBUnescapedAppend_valid dst seg hseg]
    simp only [List.flatMap_nil, List.append_nil, List.append_assoc, List.singleton_append]
  | case4 seg dst wc rest hesc hhex ih =>
    obtain rfl : wc = WCHAR_ESCAPING := Decidable.not_not.mp hesc
    have hrest : ∀ c ∈ skipEscaping rest, ValidChar c := fun c hc =>
      hsrc c (List.mem_cons_of_mem _ (mem_of_mem_skipEscaping hc))
    rw [ih hnil hrest, unescape_escaping hhex, wide2MBUnescapedAppend_escaping,
      wide2MBUnescapedAppend_valid dst seg hseg]
    simp only [List.flatMap_nil, List.append_nil, List.append_assoc]

theorem wide2MB_valid (src : WStr) (h : ∀ wc ∈ src, ValidChar wc) :
    wide2MB src = unescape src := by
  rw [wide2MB, wide2MBLoop_valid [] [] src (fun wc hwc => absurd hwc List.not_mem_nil) h]
  rfl

/-- Conversion splits in front of a character that cannot belong to an escape. -/
theorem unescape_append (xs ys : WStr) {wc : WChar} (hesc : wc ≠ WCHAR_ESCAPING)
    (hhex : isLowCaseHexDigit wc = false) :
    unescape (xs ++ wc :: ys) = unescape xs ++ unescape (wc :: ys) := by
  fun_induction unescape xs with
  | case1 => rfl
  | case2 c rest hne ih => rw [List.cons_append, unescape_cons hne, ih, List.append_assoc]
  | case3 c rest hc b rest' hb ih =>
    obtain rfl : c = WCHAR_ESCAPING := Decidable.not_not.mp hc
    have hb' : escapedHexByte (rest ++ wc :: ys) = some (b, rest' ++ wc :: ys) := by
      obtain _ | ⟨hex0, _ | ⟨hex1, rest⟩⟩ := rest
      · cases hb
      · cases hb
      · simp only [escapedHexByte, Option.ite_none_right_eq_some, Option.some.injEq,
          Prod.mk.injEq] at hb
        obtain ⟨hd, rfl, rfl⟩ := hb
        simp only [List.cons_append, escapedHexByte, hd, if_true]
    rw [List.cons_append, unescape_hexByte hb', ih, List.cons_append]
  | case4 c rest hc hb ih =>
    obtain rfl : c = WCHAR_ESCAPING := Decidable.not_not.mp hc
    have hb' : escapedHexByte (rest ++ wc :: ys) = none := by
      obtain _ | ⟨hex0, _ | ⟨hex1, rest⟩⟩ := rest
      · cases ys <;> simp [escapedHexByte, hhex]
      · simp [escapedHexByte, hhex]
      · by_cases hd : (isLowCaseHexDigit hex0 && isLowCaseHexDigit hex1) = true
        · simp [escapedHexByte, hd] at hb
        · simp [escapedHexByte, hd]
    have hskip : skipEscaping (rest ++ wc :: ys) = skipEscaping rest ++ wc :: ys := by
      cases rest with
      | nil => simp [skipEscaping, hesc]
      | cons c rest => simp only [List.cons_append, skipEscaping]; split <;> rfl
    rw [List.cons_append, unescape_escaping hb', hskip, ih, List.append_assoc]

/-! ## What `MB2Wide` emits -/

/-- One step of the decoder: a code point it read, or a byte it could not read. -/
inductive Piece where
  | chr (cp : Nat) (valid : cp < 2 ^ 31)
  | raw (uc : Byte) (high : 0x80 ≤ uc.toNat)

/-- The bytes of the source a piece covers. -/
def Piece.bytes : Piece → List Byte
  | .chr cp _ => Utf8.write cp
  | .raw uc _ => [uc]

/-- The characters `MB2Wide` pushes for a piece. -/
def Piece.wide : Piece → WStr
  | .chr cp _ => escapedPushBack [] (UInt32.ofNat cp)
  | .raw uc _ => escapedByte uc

theorem escapedPushBack_eq (dst : WStr) (v : WChar) :
    escapedPushBack dst v = dst ++ escapedPushBack [] v := by
  simp only [escapedPushBack]
  split <;> rfl

theorem toNat_ofNat_of_valid {cp : Nat} (h : cp < 2 ^ 31) : (UInt32.ofNat cp).toNat = cp := by
  rw [UInt32.toNat_ofNat']
  omega

theorem utfConvertMB_pieces (dst : WStr) (src : List Byte) :
    ∃ ps : List Piece, (utfConvertMB dst src).1 = dst ++ ps.flatMap Piece.wide
      ∧ ps.flatMap Piece.bytes ++ (utfConvertMB dst src).2 = src := by
  fun_induction utfConvertMB dst src with
  | case1 dst src cp rest h ih =>
    obtain ⟨hcp, hsrc⟩ := Utf8.read_inv h
    obtain ⟨ps, hws, hused⟩ := ih
    refine ⟨.chr cp hcp :: ps, ?_, ?_⟩
    · rw [hws, escapedPushBack_eq, List.append_assoc, List.flatMap_cons]
      rfl
    · rw [List.flatMap_cons, List.append_assoc, hused]
      exact hsrc
  | case2 dst src h => exact ⟨[], by simp, rfl⟩

/-- The decoder only stops in front of a byte outside ASCII. -/
theorem utfConvertMB_stop {dst dst1 : WStr} {src rest : List Byte} {uc : Byte}
    (h : utfConvertMB dst src = (dst1, uc :: rest)) : 0x80 ≤ uc.toNat := by
  fun_induction utfConvertMB dst src with
  | case1 dst src cp rest' hr ih => exact ih h
  | case2 dst src hr =>
    obtain ⟨_, rfl⟩ := Prod.mk.inj h
    by_cases huc : uc < 0x80
    · simp [Utf8.read, huc] at hr
    · rw [UInt8.lt_iff_toNat_lt] at huc
      exact Nat.le_of_not_lt huc

/-- One round of the loop that meets an unreadable byte. -/
theorem utfConvertMB_escapedByte {dst dst1 : WStr} {src rest : List Byte} {uc : Byte}
    (h : utfConvertMB dst src = (dst1, uc :: rest)) :
    ∃ ps : List Piece, dst1 ++ escapedByte uc = dst ++ ps.flatMap Piece.wide
      ∧ ps.flatMap Piece.bytes ++ rest = src := by
  obtain ⟨ps, hws, hused⟩ := utfConvertMB_pieces dst src
  have hhigh := utfConvertMB_stop h
  simp only [h] at hws hused
  refine ⟨ps ++ [.raw uc hhigh], ?_, ?_⟩
  · rw [hws, List.flatMap_append, List.append_assoc]
    rfl
  · rw [List.flatMap_append, List.append_assoc]
    exact hused

theorem mb2WideLoop_pieces (len : Nat) (tail : Option (Nat × Nat)) (dst : WStr)
    (src : List Byte) :
    ∃ ps : List Piece, (mb2WideLoop len tail dst src).dst = dst ++ ps.flatMap Piece.wide
      ∧ ps.flatMap Piece.bytes = src := by
  fun_induction mb2WideLoop len tail dst src with
  | case1 tail dst src dst1 h =>
    obtain ⟨ps, hws, hused⟩ := utfConvertMB_pieces dst src
    simp only [h, List.append_nil] at hws hused
    exact ⟨ps, hws, hused⟩
  | case2 tail dst src dst1 uc rest h remain tail1 dst2 hend dstPos srcPos htail =>
    obtain ⟨ps, hws, hused⟩ := utfConvertMB_escapedByte h
    have hrest : rest = [] := List.length_eq_zero_iff.mp (by omega)
    rw [hrest, List.append_nil] at hused
    exact ⟨ps, hws, hused⟩
  | case3 tail dst src dst1 uc rest h remain tail1 dst2 hend htail =>
    obtain ⟨ps, hws, hused⟩ := utfConvertMB_escapedByte h
    have hrest : rest = [] := List.length_eq_zero_iff.mp (by omega)
    rw [hrest, List.append_nil] at hused
    exact ⟨ps, hws, hused⟩
  | case4 tail dst src dst1 uc rest h remain tail1 dst2 hend ih =>
    obtain ⟨ps, hws, hused⟩ := utfConvertMB_escapedByte h
    obtain ⟨ps', hws', hused'⟩ := ih
    refine ⟨ps ++ ps', ?_, ?_⟩
    · rw [hws', show dst2 = dst ++ ps.flatMap Piece.wide from hws, List.flatMap_append,
        List.append_assoc]
    · rw [List.flatMap_append, hused', hused]

/-- **Every byte string decodes piece by piece**, the pieces covering it without gaps. -/
theorem mb2Wide_pieces (src : List Byte) :
    ∃ ps : List Piece, mb2Wide src = ps.flatMap Piece.wide ∧ ps.flatMap Piece.bytes = src := by
  by_cases hsrc : src = []
  · subst hsrc
    exact ⟨[], rfl, rfl⟩
  · obtain ⟨ps, hws, hused⟩ := mb2WideLoop_pieces src.length none [] src
    refine ⟨ps, ?_, hused⟩
    simp only [mb2Wide, mb2WideInternal, if_neg hsrc]
    exact hws

/-! ## `Wide2MB` after `MB2Wide` -/

/-- An escaped byte is read back: all 256 of them. -/
theorem escapedHexByte_makeHexDigit (uc : Byte) (ys : WStr) :
    escapedHexByte (makeHexDigit (uc.toNat >>> 4) :: makeHexDigit (uc.toNat &&& 0xf) :: ys)
      = some (uc, ys) := by
  have key : ∀ n : Fin 256,
      (isLowCaseHexDigit (makeHexDigit (n.val >>> 4))
        && isLowCaseHexDigit (makeHexDigit (n.val &&& 0xf))) = true
      ∧ parseHexByte (makeHexDigit (n.val >>> 4)) (makeHexDigit (n.val &&& 0xf))
        = UInt8.ofNat n.val := by decide +kernel
  obtain ⟨hd, hb⟩ := key ⟨uc.toNat, uc.toNat_lt⟩
  rw [escapedHexByte, if_pos hd, hb]
  simp

/-- A piece is read back to its own bytes, whatever follows it. -/
theorem unescape_piece : ∀ (p : Piece) (ys : WStr),
    unescape (p.wide ++ ys) = p.bytes ++ unescape ys
  | .chr cp hcp, ys => by
    have hto := toNat_ofNat_of_valid hcp
    by_cases hesc : UInt32.ofNat cp = WCHAR_ESCAPING
    · -- the second `WCHAR_ESCAPING` is no digit, and is skipped
      have hhex : escapedHexByte (WCHAR_ESCAPING :: ys) = none := by
        cases ys with
        | nil => rfl
        | cons c ys => simp [escapedHexByte, show isLowCaseHexDigit WCHAR_ESCAPING = false from rfl]
      have hwide : Piece.wide (.chr cp hcp) = [WCHAR_ESCAPING, WCHAR_ESCAPING] := by
        simp only [Piece.wide, hesc]
        rfl
      rw [hwide, List.cons_append, List.cons_append, List.nil_append, unescape_escaping hhex,
        ← hesc, hto]
      simp [skipEscaping, hesc, Piece.bytes]
    · have hwide : Piece.wide (.chr cp hcp) = [UInt32.ofNat cp] := by
        rw [Piece.wide, escapedPushBack, if_neg hesc, List.nil_append]
      rw [hwide, List.singleton_append, unescape_cons hesc, hto]
      rfl
  | .raw uc _, ys => unescape_hexByte (escapedHexByte_makeHexDigit uc ys)

theorem unescape_pieces : ∀ (ps : List Piece) (ys : WStr),
    unescape (ps.flatMap Piece.wide ++ ys) = ps.flatMap Piece.bytes ++ unescape ys
  | [], ys => rfl
  | p :: ps, ys => by
    rw [List.flatMap_cons, List.append_assoc, unescape_piece, unescape_pieces ps ys,
      List.flatMap_cons, List.append_assoc]

theorem validChar_makeHexDigit (c : Nat) : ValidChar (makeHexDigit c) := by
  simp only [ValidChar, makeHexDigit]
  split
  · rw [UInt32.toNat_ofNat']; omega
  · split
    · rw [UInt32.toNat_ofNat']; omega
    · decide

theorem validChar_piece : ∀ (p : Piece), ∀ wc ∈ p.wide, ValidChar wc
  | .chr cp hcp, wc, hwc => by
    have hvalid : ValidChar (UInt32.ofNat cp) := by
      rw [ValidChar, toNat_ofNat_of_valid hcp]
      exact hcp
    simp only [Piece.wide, escapedPushBack] at hwc
    split at hwc
    · next hesc => rcases (by simpa using hwc : wc = UInt32.ofNat cp ∨ wc = WCHAR_ESCAPING)
                     with rfl | rfl
                   · exact hvalid
                   · exact hesc ▸ hvalid
    · rw [List.mem_singleton.mp hwc]
      exact hvalid
  | .raw uc _, wc, hwc => by
    simp only [Piece.wide, escapedByte, List.mem_cons, List.not_mem_nil, or_false] at hwc
    rcases hwc with rfl | rfl | rfl
    · exact show (0xE5CA : WChar).toNat < 0x80000000 by decide
    · exact validChar_makeHexDigit _
    · exact validChar_makeHexDigit _

/-- `MB2Wide` only produces characters `Wide2MB` accepts. -/
theorem validChar_mb2Wide (src : List Byte) : ∀ wc ∈ mb2Wide src, ValidChar wc := by
  obtain ⟨ps, hws, _⟩ := mb2Wide_pieces src
  rw [hws]
  intro wc hwc
  obtain ⟨p, _, hp⟩ := List.mem_flatMap.mp hwc
  exact validChar_piece p wc hp

/-- **`Wide2MB` gives back the bytes `MB2Wide` was given.** -/
theorem unescape_mb2Wide (src : List Byte) : unescape (mb2Wide src) = src := by
  obtain ⟨ps, hws, hsrc⟩ := mb2Wide_pieces src
  have := unescape_pieces ps []
  rw [List.append_nil] at this
  rw [hws, this, hsrc, unescape, List.append_nil]

/-- **Conversion to wide characters and back loses nothing**, whatever the bytes are. -/
theorem wide2MB_mb2Wide (src : List Byte) : wide2MB (mb2Wide src) = src := by
  rw [wide2MB_valid _ (validChar_mb2Wide src), unescape_mb2Wide]

/-- An escape character in front of digits, a byte that is no UTF-8, and a sequence cut short. -/
example : wide2MB (mb2Wide [0xEE, 0x97, 0x8A, 0x66, 0x66, 0xFF, 0xE2, 0x82])
    = [0xEE, 0x97, 0x8A, 0x66, 0x66, 0xFF, 0xE2, 0x82] := by decide +kernel

/-! ## ASCII passes through `MB2Wide` unchanged -/

theorem toNat_tailByte (cp shift : Nat) : 0x80 ≤ (Utf8.tailByte cp shift).toNat := by
  rw [Utf8.tailByte_eq, UInt8.toNat_ofNat']
  omega

/-- Only an ASCII code point is written with an ASCII byte at the end. -/
theorem write_concat {cp : Nat} {bs : List Byte} {b : Byte} (h : Utf8.write cp = bs ++ [b])
    (hb : b.toNat < 0x80) : cp = b.toNat := by
  have hlast : ∀ (pre : List Byte) (shift : Nat), pre ++ [Utf8.tailByte cp shift] ≠ bs ++ [b] := by
    intro pre shift heq
    have := (List.append_inj' heq rfl).2
    have hge := toNat_tailByte cp shift
    rw [List.cons.inj this |>.1] at hge
    omega
  by_cases h80 : cp < 0x80
  · rw [Utf8.write, if_pos h80] at h
    have := @List.append_inj' _ [] _ _ _ h rfl
    rw [← (List.cons.inj this.2).1, UInt8.toNat_ofNat']
    omega
  · exfalso
    rw [Utf8.write, if_neg h80] at h
    split at h
    · exact hlast [_] 0 h
    split at h
    · exact hlast [_, _] 0 h
    split at h
    · exact hlast [_, _, _] 0 h
    split at h
    · exact hlast [_, _, _, _] 0 h
    · exact hlast [_, _, _, _, _] 0 h

theorem bytes_ne_nil : ∀ p : Piece, p.bytes ≠ []
  | .chr cp _ => Utf8.write_ne_nil cp
  | .raw _ _ => List.cons_ne_nil _ _

/-- A byte string that ends in an ASCII byte is decoded to text that ends in it. -/
theorem mb2Wide_concat (src : List Byte) (b : Byte) (hb : b.toNat < 0x80) :
    ∃ ws, mb2Wide (src ++ [b]) = ws ++ [UInt32.ofNat b.toNat] := by
  obtain ⟨ps, hws, hsrc⟩ := mb2Wide_pieces (src ++ [b])
  -- look at the last piece
  rcases List.eq_nil_or_concat ps with rfl | ⟨ps, p, rfl⟩
  · simp at hsrc
  rw [List.concat_eq_append, List.flatMap_append, List.flatMap_singleton] at hws hsrc
  rcases List.eq_nil_or_concat p.bytes with hnil | ⟨bs, b', hbs⟩
  · exact absurd hnil (bytes_ne_nil p)
  rw [List.concat_eq_append] at hbs
  rw [hbs, ← List.append_assoc] at hsrc
  obtain rfl : b' = b := (List.cons.inj (List.append_inj' hsrc rfl).2).1
  refine ⟨ps.flatMap Piece.wide, ?_⟩
  rw [hws]
  cases p with
  | raw uc high =>
    have : bs = [] ∧ uc = b' := by
      have := @List.append_inj' _ [] _ _ _ (show [] ++ [uc] = bs ++ [b'] from hbs) rfl
      exact ⟨this.1.symm, (List.cons.inj this.2).1⟩
    rw [this.2] at high
    omega
  | chr cp hcp =>
    obtain rfl := write_concat hbs hb
    have hne : UInt32.ofNat b'.toNat ≠ WCHAR_ESCAPING := by
      intro heq
      have := congrArg UInt32.toNat heq
      rw [toNat_ofNat_of_valid hcp, show WCHAR_ESCAPING.toNat = 0xE5CA from rfl] at this
      omega
    rw [Piece.wide, escapedPushBack, if_neg hne, List.nil_append]

theorem makeHexDigit_ge {c : Nat} (h : c ≤ 0xf) : 0x30 ≤ (makeHexDigit c).toNat := by
  simp only [makeHexDigit]
  split
  · rw [UInt32.toNat_ofNat']; omega
  · rw [UInt32.toNat_ofNat']; omega

/-- A control character of the text was a byte of the source. -/
theorem mem_of_mem_mb2Wide {src : List Byte} {wc : WChar} (hwc : wc ∈ mb2Wide src)
    (hlt : wc.toNat < 0x20) : UInt8.ofNat wc.toNat ∈ src := by
  obtain ⟨ps, hws, hsrc⟩ := mb2Wide_pieces src
  rw [hws] at hwc
  obtain ⟨p, hp, hmem⟩ := List.mem_flatMap.mp hwc
  rw [← hsrc]
  refine List.mem_flatMap.mpr ⟨p, hp, ?_⟩
  have hesc : wc ≠ WCHAR_ESCAPING := by
    rintro rfl
    exact absurd hlt (by decide)
  cases p with
  | raw uc high =>
    have hdigit : ∀ c, c ≤ 0xf → wc ≠ makeHexDigit c := by
      rintro c hc rfl
      have := makeHexDigit_ge hc
      omega
    have h4 : uc.toNat >>> 4 ≤ 0xf := by
      have := uc.toNat_lt
      rw [Nat.shiftRight_eq_div_pow]
      omega
    simp only [Piece.wide, escapedByte, List.mem_cons, List.not_mem_nil, or_false] at hmem
    rcases hmem with h | h | h
    · exact absurd h hesc
    · exact absurd h (hdigit _ h4)
    · exact absurd h (hdigit _ Nat.and_le_right)
  | chr cp hcp =>
    have hcp' : wc = UInt32.ofNat cp := by
      simp only [Piece.wide, escapedPushBack] at hmem
      split at hmem
      · simpa [hesc] using hmem
      · simpa using hmem
    have hto : wc.toNat = cp := by rw [hcp', toNat_ofNat_of_valid hcp]
    rw [Piece.bytes, Utf8.write, if_pos (by omega), hto]
    exact List.mem_singleton_self _

end Far2l.WideMB
