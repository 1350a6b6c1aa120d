/-
Far2l.Utils.ConfigRWTheorems — what a `ConfigWriter` has saved is what a
`ConfigReader` gets: numbers and bytes are read back from their text, and a value
is found in the file under its section and key.
-/
import Far2l.Lib.Numerals
import Far2l.Utils.ConfigRW
import Far2l.Utils.KeyFileRename
import Far2l.Utils.KeyFileRoundTrip

namespace Far2l.KeyFile

/-! ## Numbers -/

theorem A_append (xs ys : List Char) : A (xs ++ ys) = A xs ++ A ys := List.map_append

theorem parseHexDigit_digit {d : Nat} (h : d < 10) : parseHexDigit (makeHexDigit d) = d := by
  revert d
  decide

/-- `ToDec` writes the numeral. -/
theorem A_toDigits (n : Nat) : A (Nat.toDigits 10 n) = Numerals.numeral makeHexDigit 10 n := by
  have hdigit : ∀ {d : Nat}, d < 10 → UInt8.ofNat (Nat.digitChar d).toNat = makeHexDigit d := by
    decide
  induction n using Nat.strongRecOn with
  | ind n ih =>
    by_cases hlt : n < 10
    · rw [Nat.toDigits_of_lt_base hlt]
      by_cases hn : n = 0
      · rw [hn, Numerals.numeral_zero]
        rfl
      · rw [Numerals.numeral_of_ne_zero hn, Nat.digits_of_lt 10 n hn hlt]
        exact congrArg (fun c => [c]) (hdigit hlt)
    · have hdiv : n / 10 ≠ 0 := by omega
      have hdigits : Nat.digits 10 n = n % 10 :: Nat.digits 10 (n / 10) :=
        Nat.digits_def' (by decide) (by omega)
      have hlast : A [Nat.digitChar (n % 10)] = [makeHexDigit (n % 10)] :=
        congrArg (fun c => [c]) (hdigit (Nat.mod_lt _ (by decide)))
      rw [Nat.toDigits_of_base_le (by decide) (Nat.le_of_not_lt hlt), A_append, ih (n / 10) (by omega), hlast,
        Numerals.numeral_of_ne_zero hdiv, Numerals.numeral_of_ne_zero (by omega), hdigits, List.map_cons, List.reverse_cons]

theorem A_toDigits_mem {n : Nat} {c : Byte} (h : c ∈ A (Nat.toDigits 10 n)) : ∃ d, d < 10 ∧ c = makeHexDigit d := by
  rw [A_toDigits] at h
  exact Numerals.mem_numeral (by decide) h

/-- The digits of a number are its value. -/
theorem foldl_toDigits (n : Nat) :
    (A (Nat.toDigits 10 n)).foldl (fun n c => 10 * n + parseHexDigit c) 0 = n := by
  rw [A_toDigits]
  exact Numerals.value_numeral (by decide) fun _ hd => parseHexDigit_digit hd

theorem digitsValue_toDigits (n : Nat) : digitsValue 10 (A (Nat.toDigits 10 n)) = n := by
  have hvalue : Numerals.leadingValue parseHexDigit 10 (Numerals.numeral makeHexDigit 10 n ++ []) = n :=
    Numerals.leadingValue_numeral (by decide) (fun _ hd => parseHexDigit_digit hd) (by simp)
  rw [List.append_nil, ← A_toDigits] at hvalue
  exact hvalue

/-- What a number begins with. -/
theorem A_toDigits_cons (n : Nat) : ∃ d rest, d < 10 ∧ A (Nat.toDigits 10 n) = makeHexDigit d :: rest := by
  have hne : A (Nat.toDigits 10 n) ≠ [] := A_toDigits n ▸ Numerals.numeral_ne_nil
  obtain ⟨c, rest, hcons⟩ := List.exists_cons_of_ne_nil hne
  obtain ⟨d, hd, rfl⟩ := A_toDigits_mem (hcons ▸ List.mem_cons_self : c ∈ A (Nat.toDigits 10 n))
  exact ⟨d, rest, hd, hcons⟩

/-- A digit is neither blank nor a sign. -/
theorem digit_plain {d : Nat} (h : d < 10) :
    let c := makeHexDigit d
    decide (c = BLANK ∨ (9 ≤ c ∧ c ≤ 13)) = false ∧ c ≠ MINUS ∧ c ≠ 0x2B ∧ c ≠ 0x78 := by
  revert d
  decide

/-- **`strtol` reads what `ToDec` writes.** -/
theorem strtol_toDec (v : Int) : strtol 10 (toDec v) = v := by
  obtain ⟨d, rest, hd, hdigits⟩ := A_toDigits_cons v.natAbs
  obtain ⟨hblank, hminus, hplus, -⟩ := digit_plain hd
  have hvalue := digitsValue_toDigits v.natAbs
  rw [toDec]
  split
  · next hneg =>
    have hdrop : (MINUS :: A (Nat.toDigits 10 v.natAbs)).dropWhile
        (fun c => decide (c = BLANK ∨ (9 ≤ c ∧ c ≤ 13))) = MINUS :: A (Nat.toDigits 10 v.natAbs) :=
      List.dropWhile_cons_of_neg (by decide)
    rw [strtol, hdrop]
    dsimp only
    rw [if_pos rfl, hvalue]
    omega
  · next hpos =>
    have hdrop : (A (Nat.toDigits 10 v.natAbs)).dropWhile
        (fun c => decide (c = BLANK ∨ (9 ≤ c ∧ c ≤ 13))) = A (Nat.toDigits 10 v.natAbs) := by
      rw [hdigits]
      exact List.dropWhile_cons_of_neg (by rw [hblank]; exact Bool.false_ne_true)
    rw [strtol, hdrop, hdigits]
    dsimp only
    rw [if_neg hminus, if_neg hplus, ← hdigits, hvalue]
    omega

/-- A decimal number does not begin like a hexadecimal one. -/
theorem toDec_take (v : Int) : (toDec v).take 2 ≠ A ['0', 'x'] := by
  have hx : ∀ n, ∀ c ∈ A (Nat.toDigits 10 n), c ≠ 0x78 := by
    intro n c hc
    obtain ⟨d, hd, rfl⟩ := A_toDigits_mem hc
    exact (digit_plain hd).2.2.2
  intro h
  have hmem : (0x78 : Byte) ∈ toDec v := List.mem_of_mem_take (h ▸ by decide : _ ∈ (toDec v).take 2)
  rw [toDec] at hmem
  split at hmem
  · rcases List.mem_cons.mp hmem with h | h
    · exact absurd h (by decide)
    · exact hx _ _ h rfl
  · exact hx _ _ hmem rfl

/-! ## Bytes -/

theorem makeHexDigit_spec {c : Nat} (h : c < 16) :
    parseHexDigit (makeHexDigit c) = c
      ∧ decide (makeHexDigit c = BLANK ∨ makeHexDigit c = TABULATOR) = false := by
  revert c
  decide

theorem skipBlanks_digit {c : Nat} (h : c < 16) (s : Str) :
    skipBlanks (makeHexDigit c :: s) = makeHexDigit c :: s :=
  List.dropWhile_cons_of_neg (by rw [(makeHexDigit_spec h).2]; exact Bool.false_ne_true)

theorem nibbles (b : Byte) : b.toNat >>> 4 < 16 ∧ b.toNat &&& 0xf < 16
    ∧ UInt8.ofNat ((b.toNat >>> 4) <<< 4 ||| (b.toNat &&& 0xf)) = b := by
  have hb := b.toNat_lt
  have hand : b.toNat &&& 0xf = b.toNat % 16 := Nat.and_two_pow_sub_one_eq_mod b.toNat 4
  have hshift : b.toNat >>> 4 = b.toNat / 16 := Nat.shiftRight_eq_div_pow _ _
  have hmod : b.toNat % 16 < 2 ^ 4 := Nat.mod_lt _ (by decide)
  refine ⟨by omega, by omega, UInt8.toNat_inj.mp ?_⟩
  have hor := Nat.shiftLeft_add_eq_or_of_lt hmod (b.toNat / 16)
  rw [hand, hshift, ← hor, Nat.shiftLeft_eq, UInt8.toNat_ofNat']
  omega

/-- A blank in front of the bytes is skipped. -/
theorem skipBlanks_encodeBytes (interval : Nat) : ∀ (i : Nat) (b : Byte) (buf : List Byte),
    skipBlanks (encodeBytes interval i (b :: buf))
      = makeHexDigit (b.toNat >>> 4) :: makeHexDigit (b.toNat &&& 0xf)
          :: encodeBytes interval (i + 1) buf := by
  intro i b buf
  have hdigit := skipBlanks_digit (nibbles b).1
    (makeHexDigit (b.toNat &&& 0xf) :: encodeBytes interval (i + 1) buf)
  rw [encodeBytes]
  split
  · rw [List.singleton_append]
    exact hdigit
  · rw [List.nil_append]
    exact hdigit

/-- **`DecodeBytes` reads what `SetBytes` writes.** -/
theorem decodeBytes_encodeBytes (interval : Nat) : ∀ (buf : List Byte) (i len : Nat),
    buf.length ≤ len → decodeBytes len (skipBlanks (encodeBytes interval i buf)) = buf
  | [], i, len, _ => by
    cases len with
    | zero => rfl
    | succ len => rfl
  | b :: buf, i, 0, h => absurd h (Nat.not_succ_le_zero _)
  | b :: buf, i, len + 1, h => by
    obtain ⟨hhigh, hlow, hbyte⟩ := nibbles b
    rw [skipBlanks_encodeBytes, decodeBytes, skipBlanks_digit hlow]
    dsimp only
    rw [(makeHexDigit_spec hhigh).1, (makeHexDigit_spec hlow).1, hbyte,
      decodeBytes_encodeBytes interval buf (i + 1) len (Nat.le_of_succ_le_succ h)]

theorem length_encodeBytes (interval : Nat) : ∀ (buf : List Byte) (i : Nat),
    2 * buf.length ≤ (encodeBytes interval i buf).length
  | [], _ => Nat.le_refl _
  | b :: buf, i => by
    have ih := length_encodeBytes interval buf (i + 1)
    simp only [encodeBytes, List.length_append, List.length_cons]
    omega

/-- No blank is in front of the first byte. -/
theorem skipBlanks_encodeBytes_zero (interval : Nat) (buf : List Byte) :
    skipBlanks (encodeBytes interval 0 buf) = encodeBytes interval 0 buf := by
  cases buf with
  | nil => rfl
  | cons b buf =>
    rw [skipBlanks_encodeBytes]
    rfl

/-! ## Values -/

namespace Sections

variable {S : Sections false}

theorem value_eq (S : Sections false) (section_ name : Str) :
    S.value section_ name = (S.find section_).bind fun values => values.value? name := rfl

theorem equiv_iff_eq {a b : Str} : equivKeys (keyFileCmp false) a b = true ↔ a = b := sameName_iff

/-- A section is found where it is listed. -/
theorem Ordered.find_iff (h : S.Ordered) {name : Str} {values : KeyFileValues} :
    S.find name = some values ↔ (name, values) ∈ S.enumeration := by
  rw [find, enumeration, List.mem_map]
  constructor
  · intro hfind
    obtain ⟨e, he, rfl⟩ := Option.map_eq_some_iff.mp hfind
    obtain ⟨hmem, hname⟩ := SortedMap.find?_some he
    refine ⟨e, h.mem_nodes.mpr hmem, ?_⟩
    rw [equiv_iff_eq.mp hname]
  · rintro ⟨e, he, heq⟩
    have hname : e.1 = name := congrArg Prod.fst heq
    rw [SortedMap.find?_of_mem (h.mem_nodes.mp he) (equiv_iff_eq.mpr hname), Option.map_some]
    exact congrArg some (congrArg Prod.snd heq)

/-- Sections listed alike are found alike. -/
theorem Ordered.find_congr {T : Sections false} (h : S.Ordered) (hT : T.Ordered)
    (henum : S.enumeration = T.enumeration) (name : Str) : S.find name = T.find name := by
  refine Option.ext fun values => ?_
  rw [h.find_iff, hT.find_iff, henum]

/-- Only the section whose node is changed is found changed. -/
theorem Ordered.find_modifyValues (h : S.Ordered) {name : Str} {e : Str × Node}
    (he : S.map.find? name = some e) (f : KeyFileValues → KeyFileValues) (other : Str) :
    (S.modifyValues e.2.id f).find other
      = if other = name then some (f e.2.values) else S.find other := by
  have hfind : (S.modifyValues e.2.id f).map.find? other = (S.map.find? other).map fun x =>
      (x.1, if x.2.id = e.2.id then { x.2 with values := f x.2.values } else x.2) :=
    SortedMap.find?_mapValues _ _ _
  obtain ⟨hmem, hname⟩ := SortedMap.find?_some he
  rw [find, hfind, Option.map_map]
  split
  · next heq =>
    subst heq
    rw [he]
    simp only [Option.map_some, Function.comp, if_pos]
  · next hne =>
    rw [find]
    cases hother : S.map.find? other with
    | none => rfl
    | some x =>
      obtain ⟨hx, hxname⟩ := SortedMap.find?_some hother
      have hid : x.2.id ≠ e.2.id := by
        intro hid
        have hxe := List.inj_on_of_nodup_map h.nodup hx hmem hid
        rw [hxe] at hxname
        exact hne ((equiv_iff_eq.mp hxname).symm.trans (equiv_iff_eq.mp hname))
      simp only [Option.map_some, Function.comp, if_neg hid]

/-- A section that is entered is there, with what it held. -/
theorem find_ensure (S : Sections false) (name other : Str) :
    (S.ensure name).1.find other
      = if other = name then some ((S.find name).getD .empty) else S.find other := by
  cases hname : S.map.find? name with
  | some e =>
    rw [ensure_some hname]
    split
    · next heq =>
      rw [heq, find, hname]
      rfl
    · rfl
  | none =>
    have hfind : (S.ensure name).1.map.find? other
        = if equivKeys (keyFileCmp false) name other then some (name, ⟨S.fresh, .empty⟩)
          else S.map.find? other := by
      rw [ensure_none hname, emplace_none hname]
      exact SortedMap.find?_emplace hname _ _
    rw [find, hfind]
    split
    · next heq =>
      rw [if_pos (equiv_iff_eq.mp heq).symm, find, hname]
      rfl
    · next hne =>
      rw [if_neg fun heq => hne (equiv_iff_eq.mpr heq.symm)]
      rfl

/-- The iterator of a section that is entered. -/
theorem ensure_find? (S : Sections false) (name : Str) :
    ∃ e, (S.ensure name).1.map.find? name = some e ∧ (S.ensure name).2 = e.2.id := by
  cases hname : S.map.find? name with
  | some e =>
    rw [ensure_some hname]
    exact ⟨e, hname, rfl⟩
  | none =>
    rw [ensure_none hname, emplace_none hname]
    refine ⟨(name, ⟨S.fresh, .empty⟩), ?_, rfl⟩
    show (S.map.emplace name _).find? name = _
    rw [SortedMap.find?_emplace hname, if_pos (SortedMap.equiv_refl name)]

end Sections

namespace KeyFileHelper

variable {K : KeyFileHelper false}

/-- `SetString` by the value that is there. -/
theorem setString_eq (h : K.kf.Ordered) (section_ name value : Str) :
    K.setString section_ name value
      = if K.kf.value section_ name = some value then { K with kf := (K.kf.ensure section_).1 }
        else
          { kf := (K.kf.ensure section_).1.modifyValues (K.kf.ensure section_).2
              fun values => values.set name value
            dirty := true } := by
  obtain ⟨e, he, hit⟩ := Sections.ensure_find? K.kf section_
  have hderef : (K.kf.ensure section_).1.deref (K.kf.ensure section_).2 = some e := by
    rw [hit]
    exact (h.ensure section_).deref (SortedMap.find?_some he).1
  have hvalues : some e.2.values = some ((K.kf.find section_).getD .empty) := by
    have hfind := Sections.find_ensure K.kf section_ section_
    rwa [if_pos rfl, Sections.find, he, Option.map_some] at hfind
  have hold : (e.2.values.find? name).map Prod.snd = K.kf.value section_ name := by
    rw [Option.some.inj hvalues, Sections.value_eq]
    cases K.kf.find section_ with
    | none => rfl
    | some values => rfl
  simp only [setString, hderef, Option.bind_some, hold]

theorem value_ensure (section_ s n : Str) :
    (K.kf.ensure section_).1.value s n = K.kf.value s n := by
  rw [Sections.value_eq, Sections.value_eq, Sections.find_ensure]
  split
  · next heq =>
    rw [heq]
    cases K.kf.find section_ with
    | none => rfl
    | some values => rfl
  · rfl

/-- **A value that has been set is the value; the other values stay.** -/
theorem value_setString (h : K.kf.Ordered) (section_ name value s n : Str) :
    (K.setString section_ name value).kf.value s n
      = if s = section_ ∧ n = name then some value else K.kf.value s n := by
  rw [setString_eq h]
  split
  · next hsame =>
    rw [value_ensure]
    split
    · next heq => rw [heq.1, heq.2, hsame]
    · rfl
  · obtain ⟨e, he, hit⟩ := Sections.ensure_find? K.kf section_
    rw [hit, Sections.value_eq, (h.ensure section_).find_modifyValues he]
    by_cases hs : s = section_
    · subst hs
      have hold : e.2.values.value? n = (K.kf.ensure s).1.value s n := by
        rw [Sections.value_eq, Sections.find, he]
        rfl
      rw [if_pos rfl, Option.bind_some, SortedMap.value?_set, hold, value_ensure]
      by_cases hn : n = name
      · rw [if_pos (Sections.equiv_iff_eq.mpr hn.symm), if_pos ⟨rfl, hn⟩]
      · rw [if_neg fun heq => hn (Sections.equiv_iff_eq.mp heq).symm, if_neg fun heq => hn heq.2]
    · rw [if_neg hs, if_neg fun heq => hs heq.1]
      exact value_ensure section_ s n

/-- **A key that has been removed has no value; the other values stay.** -/
theorem value_removeKey (h : K.kf.Ordered) (section_ name s n : Str) :
    (K.removeKey section_ name).kf.value s n
      = if s = section_ ∧ n = name then none else K.kf.value s n := by
  rw [removeKey]
  cases he : K.kf.map.find? section_ with
  | none =>
    dsimp only
    split
    · next heq =>
      rw [heq.1, Sections.value_eq, Sections.find, he]
      rfl
    · rfl
  | some e =>
    dsimp only
    split
    · next hnone =>
      split
      · next heq =>
        rw [heq.1, heq.2, Sections.value_eq, Sections.find, he]
        show e.2.values.value? name = none
        rw [SortedMap.value?, hnone]
        rfl
      · rfl
    · rw [Sections.value_eq, h.find_modifyValues he]
      by_cases hs : s = section_
      · subst hs
        rw [if_pos rfl, Option.bind_some, SortedMap.value?_erase, Sections.value_eq, Sections.find, he]
        by_cases hn : n = name
        · rw [if_pos (Sections.equiv_iff_eq.mpr hn.symm), if_pos ⟨rfl, hn⟩]
        · rw [if_neg fun heq => hn (Sections.equiv_iff_eq.mp heq).symm, if_neg fun heq => hn heq.2]
          rfl
      · rw [if_neg hs, if_neg fun heq => hs heq.1]
        rfl

/-! ## What is in the file -/

/-- The changes of a helper are remembered: where it is not dirty, the file holds its sections. -/
structure Follows (K : KeyFileHelper false) (file : Str) : Prop where
  ordered : K.kf.Ordered
  clean : K.dirty = false → ∀ name, K.kf.find name = (loadKeyFile false file).find name

variable {file : Str}

theorem follows_configWriter (file : Str) : (configWriter file).Follows file :=
  ⟨ordered_loadKeyFile false file, fun _ _ => rfl⟩

theorem Follows.setString (h : K.Follows file) (section_ name value : Str) :
    (K.setString section_ name value).Follows file := by
  refine ⟨ordered_setString h.ordered section_ name value, fun hclean other => ?_⟩
  rw [setString_eq h.ordered] at hclean ⊢
  split at hclean
  · next hsame =>
    rw [if_pos hsame, ← h.clean hclean, Sections.find_ensure]
    split
    · next heq =>
      rw [Sections.value_eq, Option.bind_eq_some_iff] at hsame
      obtain ⟨values, hfind, -⟩ := hsame
      rw [heq, hfind]
      rfl
    · rfl
  · exact absurd hclean.symm Bool.false_ne_true

theorem Follows.removeKey (h : K.Follows file) (section_ name : Str) : (K.removeKey section_ name).Follows file := by
  refine ⟨ordered_removeKey h.ordered section_ name, ?_⟩
  rw [KeyFileHelper.removeKey]
  cases K.kf.map.find? section_ with
  | none => exact h.clean
  | some e =>
    dsimp only
    split
    · exact h.clean
    · exact fun hclean => absurd hclean.symm Bool.false_ne_true

/-- A step that leaves the value `value` of one key of a section, and the other values of it. -/
structure Puts (file section_ key : Str) (value : Option Str) (K K' : KeyFileHelper false) :
    Prop where
  follows : K'.Follows file
  values : ∀ name, K'.kf.value section_ name
    = if name = key then value else K.kf.value section_ name

theorem Follows.puts_setString (h : K.Follows file) (section_ key value : Str) :
    Puts file section_ key (some value) K (K.setString section_ key value) := by
  refine ⟨h.setString section_ key value, fun name => ?_⟩
  rw [value_setString h.ordered]
  simp only [true_and]

theorem Follows.puts_removeKey (h : K.Follows file) (section_ key : Str) :
    Puts file section_ key none K (K.removeKey section_ key) := by
  refine ⟨h.removeKey section_ key, fun name => ?_⟩
  rw [value_removeKey h.ordered]
  simp only [true_and]

/-- **The sections that have been saved are those that are loaded.** -/
theorem Follows.find_saved (h : K.Follows file) (name : Str) :
    (loadKeyFile false (K.saved file)).find name = K.kf.find name := by
  cases hdirty : K.dirty with
  | false =>
    have hsaved : K.saved file = file := by
      rw [saved, save, hdirty]
      rfl
    rw [hsaved, h.clean hdirty]
  | true =>
    have hsaved : K.saved file = saveContent K.kf := by
      rw [saved, save, hdirty]
      rfl
    have hnodup : ((({} : Loader false).kf.enumeration ++ K.kf.enumeration).map Prod.fst).Nodup :=
      h.ordered.names_nodup
    have henum : (loadKeyFile false (saveContent K.kf)).enumeration = K.kf.enumeration :=
      Loader.lines_sections K.kf.enumeration .empty hnodup
    rw [hsaved, (ordered_loadKeyFile false _).find_congr h.ordered henum]

/-- **What has been saved is what is loaded**, value by value. -/
theorem Follows.value_saved (h : K.Follows file) (s n : Str) :
    (loadKeyFile false (K.saved file)).value s n = K.kf.value s n := by
  rw [Sections.value_eq, Sections.value_eq, h.find_saved]

end KeyFileHelper

end Far2l.KeyFile
