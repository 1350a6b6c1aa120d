/-
Far2l.Console.AnsiEscTheorems — what a font state and the attributes of the console
tell of each other.

`Look` is what text looks like: the state and its attributes both say it, so that the
second are a number made of its parts. `FromConsoleAttributes` gives back all of these
parts but one, the bit that makes the background bright; and it leaves `concealed` as it is.
-/
import Far2l.Console.AnsiEsc
import Far2l.Lib.BitFields

namespace Far2l

namespace AnsiEsc

open BitFields

/-- What text looks like. `ink` and `bright` are the indexed foreground and `paper` is the indexed
background, as the console numbers them; the true colours are those in use. -/
structure Look where
  ink : Fin 8
  bright : Bool
  paper : Fin 16
  foreRgb : Option (Fin (2 ^ 24))
  backRgb : Option (Fin (2 ^ 24))
  strikeout : Bool
  rvideo : Bool
  underline : Bool

/-- A true colour in its field; the field is zero without one. -/
def rgbField : Option (Fin (2 ^ 24)) → Nat
  | none => 0
  | some rgb => rgb

theorem rgbField_lt (rgb : Option (Fin (2 ^ 24))) : rgbField rgb < 16777216 := by
  cases rgb with
  | none => decide
  | some rgb => exact rgb.isLt

/-- The attributes that stand for a look. -/
def Look.value (l : Look) : Nat :=
  l.ink + 8 * l.bright.toNat + 16 * l.paper + 256 * l.foreRgb.isSome.toNat + 512 * l.backRgb.isSome.toNat
    + 8192 * l.strikeout.toNat + 16384 * l.rvideo.toNat + 32768 * l.underline.toNat
    + 65536 * rgbField l.foreRgb + 1099511627776 * rgbField l.backRgb

theorem rgb_ext {a b : Option (Fin (2 ^ 24))} (hsome : a.isSome.toNat = b.isSome.toNat) (h : rgbField a = rgbField b) :
    a = b := by
  cases a <;> cases b
  · rfl
  · exact absurd hsome (by simp)
  · exact absurd hsome (by simp)
  · exact congrArg some (Fin.ext h)

/-- **Attributes stand for one look.** -/
theorem Look.value_inj {l l' : Look} (h : l.value = l'.value) : l = l' := by
  obtain ⟨ink, bright, paper, fore, back, strikeout, rvideo, underline⟩ := l
  obtain ⟨ink', bright', paper', fore', back', strikeout', rvideo', underline'⟩ := l'
  simp only [value] at h
  have hfore := rgbField_lt fore
  have hfore' := rgbField_lt fore'
  have hb := bright.toNat_le
  have hb' := bright'.toNat_le
  have hf := fore.isSome.toNat_le
  have hf' := fore'.isSome.toNat_le
  have hg := back.isSome.toNat_le
  have hg' := back'.isSome.toNat_le
  have hs := strikeout.toNat_le
  have hs' := strikeout'.toNat_le
  have hr := rvideo.toNat_le
  have hr' := rvideo'.toNat_le
  have hu := underline.toNat_le
  have hu' := underline'.toNat_le
  have hbool : ∀ {b b' : Bool}, b.toNat = b'.toNat → b = b' := fun {b b'} h => by
    cases b <;> cases b' <;> first | rfl | exact absurd h (by decide)
  rw [Look.mk.injEq]
  exact ⟨Fin.ext (by omega), hbool (by omega), Fin.ext (by omega), rgb_ext (by omega) (by omega),
    rgb_ext (by omega) (by omega), hbool (by omega), hbool (by omega), hbool (by omega)⟩

/-! ## Fields of attributes -/

theorem flag_iff {F : UInt64} {k : Nat} (hF : F.toNat = 2 ^ k) (a : UInt64) :
    a &&& F ≠ 0 ↔ a.toNat / 2 ^ k % 2 = 1 := by
  rw [← and_bit, ← hF, ← UInt64.toNat_and, ne_eq, ne_eq, ← UInt64.toNat_inj]
  rfl

theorem toNat_or_flag {F : UInt64} {k : Nat} (hF : F.toNat = 2 ^ k) (a : UInt64) :
    (a ||| F).toNat = a.toNat + (1 - a.toNat / 2 ^ k % 2) * 2 ^ k := by
  rw [UInt64.toNat_or, hF, or_bit]

theorem toNat_getRgbFore (a : UInt64) : (getRgbFore a).toNat = a.toNat / 65536 % 16777216 := by
  have hfield : (a >>> 16 &&& 0xffffff).toNat = a.toNat / 2 ^ 16 % 2 ^ 24 := by
    rw [UInt64.toNat_and, UInt64.toNat_shiftRight]
    exact shiftRight_and a.toNat 16 24
  rw [getRgbFore, UInt64.toNat_toUInt32, hfield]
  omega

theorem toNat_getRgbBack (a : UInt64) : (getRgbBack a).toNat = a.toNat / 1099511627776 % 16777216 := by
  have hfield : (a >>> 40 &&& 0xffffff).toNat = a.toNat / 2 ^ 40 % 2 ^ 24 := by
    rw [UInt64.toNat_and, UInt64.toNat_shiftRight]
    exact shiftRight_and a.toNat 40 24
  rw [getRgbBack, UInt64.toNat_toUInt32, hfield]
  omega

/-- A true colour that is shifted to its field. -/
theorem toNat_rgb (rgb : UInt32) {s : UInt64} {k : Nat} (hs : s.toNat = k) (hk : k ≤ 40) :
    ((rgb.toUInt64 &&& 0xffffff) <<< s).toNat = (rgb.toNat % 16777216) <<< k := by
  have hrgb : (rgb.toUInt64 &&& 0xffffff).toNat = rgb.toNat % 16777216 := by
    rw [UInt64.toNat_and]
    exact Nat.and_two_pow_sub_one_eq_mod rgb.toNat 24
  have hpow : 2 ^ k ≤ 2 ^ 40 := Nat.pow_le_pow_right (by decide) hk
  have hlt : rgb.toNat % 16777216 * 2 ^ k < 2 ^ 64 :=
    Nat.lt_of_lt_of_le (Nat.mul_lt_mul_of_lt_of_le (Nat.mod_lt _ (by decide)) hpow (Nat.two_pow_pos 40)) (by decide)
  rw [UInt64.toNat_shiftLeft, hrgb, hs, Nat.mod_eq_of_lt (by omega : k < 64), Nat.shiftLeft_eq, Nat.mod_eq_of_lt hlt]

theorem toNat_setRgbFore {a : UInt64} (ha : a.toNat < 256) (rgb : UInt32) :
    (setRgbFore a rgb).toNat = a.toNat + 256 + 65536 * (rgb.toNat % 16777216) := by
  have hmask : (a &&& 0xffffff000000ffff).toNat = a.toNat := by
    rw [UInt64.toNat_and]
    exact and_cover (n := 16) (by omega) (by decide)
  have hflag : (a &&& 0xffffff000000ffff ||| FOREGROUND_TRUECOLOR).toNat = a.toNat + 256 := by
    rw [toNat_or_flag (k := 8) rfl, hmask]
    omega
  rw [setRgbFore, UInt64.toNat_or, hflag, toNat_rgb rgb (k := 16) rfl (by decide), or_shiftLeft (by omega)]
  omega

theorem toNat_setRgbBack {a : UInt64} (ha : a.toNat < 1099511627776) (hfree : a.toNat / 512 % 2 = 0) (rgb : UInt32) :
    (setRgbBack a rgb).toNat = a.toNat + 512 + 1099511627776 * (rgb.toNat % 16777216) := by
  have hmask : (a &&& 0x000000ffffffffff).toNat = a.toNat := by
    rw [UInt64.toNat_and]
    exact and_cover (n := 40) ha (by decide)
  have hflag : (a &&& 0x000000ffffffffff ||| BACKGROUND_TRUECOLOR).toNat = a.toNat + 512 := by
    rw [toNat_or_flag (k := 9) rfl, hmask]
    omega
  rw [setRgbBack, UInt64.toNat_or, hflag, toNat_rgb rgb (k := 40) rfl (by decide), or_shiftLeft (by omega)]
  omega

/-- Both true colours at once are one after the other. -/
theorem setRgbBoth_eq {a : UInt64} (ha : a.toNat < 256) (fore back : UInt32) :
    setRgbBoth a fore back = setRgbBack (setRgbFore a fore) back := by
  have hfore := toNat_setRgbFore ha fore
  have hmod : fore.toNat % 16777216 < 16777216 := Nat.mod_lt _ (by decide)
  have hmask : (a &&& 0xffff).toNat = a.toNat := by
    rw [UInt64.toNat_and]
    exact and_cover (n := 16) (by omega) (by decide)
  have hflags : (a &&& 0xffff ||| FOREGROUND_TRUECOLOR ||| BACKGROUND_TRUECOLOR).toNat = a.toNat + 256 + 512 := by
    rw [toNat_or_flag (k := 9) rfl, toNat_or_flag (k := 8) rfl, hmask]
    omega
  rw [← UInt64.toNat_inj, toNat_setRgbBack (by omega) (by omega), hfore, setRgbBoth, UInt64.toNat_or, UInt64.toNat_or,
    hflags, toNat_rgb fore (k := 16) rfl (by decide), toNat_rgb back (k := 40) rfl (by decide),
    or_shiftLeft (k := 16) (by omega), or_shiftLeft (by omega)]
  omega

/-! ## The attributes of a font state -/

/-- A colour of the table for the foreground. -/
def foreIndex (i : UInt8) : Nat := (gPaletteForeground.getD i.toNat 0).toNat

/-- A colour of the table for the background. -/
def backIndex (i : UInt8) : Nat := (gPaletteBackground.getD i.toNat 0).toNat / 16

/-- The elements of a table, and what is taken where there is none. -/
theorem getD_cases {P : UInt8 → Prop} (table : List UInt8) (h : ∀ v ∈ table, P v) (hzero : P 0) (i : Nat) :
    P (table.getD i 0) := by
  rw [List.getD_eq_getElem?_getD]
  cases hget : table[i]? with
  | none => exact hzero
  | some v => exact h v (List.mem_of_getElem? hget)

theorem foreIndex_lt (i : UInt8) : foreIndex i < 16 :=
  getD_cases (P := fun v => v.toNat < 16) gPaletteForeground (by simp [gPaletteForeground]) (by decide) i.toNat

theorem backIndex_spec (i : UInt8) :
    (gPaletteBackground.getD i.toNat 0).toNat = backIndex i <<< 4 ∧ backIndex i < 16 := by
  have hspec := getD_cases (P := fun v => v.toNat % 16 = 0 ∧ v.toNat < 256) gPaletteBackground
    (by simp [gPaletteBackground]) (by decide) i.toNat
  rw [backIndex, Nat.shiftLeft_eq]
  omega

/-- The indexed colours of a foreground and a background. -/
theorem toNat_palette (i j : UInt8) :
    (gPaletteForeground.getD i.toNat 0 ||| gPaletteBackground.getD j.toNat 0).toUInt64.toNat
      = foreIndex i + 16 * backIndex j := by
  rw [UInt8.toNat_toUInt64, UInt8.toNat_or, (backIndex_spec j).1, or_shiftLeft (foreIndex_lt i), foreIndex,
    Nat.mul_comm]
  rfl

/-- A true colour of a font state. -/
def rgbOf (use : Bool) (rgb : UInt32) : Option (Fin (2 ^ 24)) :=
  if use then some ⟨rgb.toNat % 16777216, Nat.mod_lt _ (by decide)⟩ else none

/-- The look of text in two colours. -/
def FontState.lookIn (f : FontState) (fore : UInt8) (useFore : Bool) (rgbFore : UInt32) : Look where
  ink := ⟨foreIndex fore % 8, Nat.mod_lt _ (by decide)⟩
  bright := f.bold || decide (8 ≤ foreIndex fore)
  paper := ⟨backIndex f.background, (backIndex_spec f.background).2⟩
  foreRgb := rgbOf useFore rgbFore
  backRgb := rgbOf f.useRgbBackground f.rgbBackground
  strikeout := f.strikeout
  rvideo := f.rvideo
  underline := f.underline

/-- The look of a font state: concealed text has the colour of its background. -/
def FontState.look (f : FontState) : Look :=
  if f.concealed then f.lookIn f.background f.useRgbBackground f.rgbBackground
  else f.lookIn f.foreground f.useRgbForeground f.rgbForeground

/-- The colours of text in two colours, without what makes it bold. -/
theorem toNat_colorsIn (f : FontState) (fore : UInt8) (useFore : Bool) (rgbFore : UInt32) :
    let attr := (gPaletteForeground.getD fore.toNat 0 ||| gPaletteBackground.getD f.background.toNat 0).toUInt64
    let attr := if useFore then setRgbFore attr rgbFore else attr
    (if f.useRgbBackground then setRgbBack attr f.rgbBackground else attr).toNat
      = foreIndex fore + 16 * backIndex f.background + 256 * (rgbOf useFore rgbFore).isSome.toNat
        + 512 * (rgbOf f.useRgbBackground f.rgbBackground).isSome.toNat + 65536 * rgbField (rgbOf useFore rgbFore)
        + 1099511627776 * rgbField (rgbOf f.useRgbBackground f.rgbBackground) := by
  have hpalette := toNat_palette fore f.background
  have hfore := foreIndex_lt fore
  have hback := (backIndex_spec f.background).2
  generalize gPaletteForeground.getD fore.toNat 0 ||| gPaletteBackground.getD f.background.toNat 0 = p at hpalette ⊢
  have hmod : rgbFore.toNat % 16777216 < 16777216 := Nat.mod_lt _ (by decide)
  have hink : (if useFore then setRgbFore p.toUInt64 rgbFore else p.toUInt64).toNat = foreIndex fore
      + 16 * backIndex f.background + 256 * (rgbOf useFore rgbFore).isSome.toNat
      + 65536 * rgbField (rgbOf useFore rgbFore) := by
    cases useFore with
    | false => exact hpalette
    | true =>
      show (setRgbFore p.toUInt64 rgbFore).toNat
        = foreIndex fore + 16 * backIndex f.background + 256 * 1 + 65536 * (rgbFore.toNat % 16777216)
      rw [toNat_setRgbFore (by omega), hpalette]
  have hrgb := rgbField_lt (rgbOf useFore rgbFore)
  have hsome := (rgbOf useFore rgbFore).isSome.toNat_le
  dsimp only
  generalize (if useFore then setRgbFore p.toUInt64 rgbFore else p.toUInt64) = a at hink ⊢
  cases f.useRgbBackground with
  | false => exact hink
  | true =>
    show (setRgbBack a f.rgbBackground).toNat = foreIndex fore + 16 * backIndex f.background
      + 256 * (rgbOf useFore rgbFore).isSome.toNat + 512 * 1 + 65536 * rgbField (rgbOf useFore rgbFore)
      + 1099511627776 * (f.rgbBackground.toNat % 16777216)
    rw [toNat_setRgbBack (by omega) (by omega), hink]
    omega

/-- A flag that is set when a member is. -/
theorem toNat_flag {F : UInt64} {k : Nat} (hF : F.toNat = 2 ^ k) (b : Bool) {a : UInt64}
    (hfree : a.toNat / 2 ^ k % 2 = 0) : (if b then a ||| F else a).toNat = a.toNat + 2 ^ k * b.toNat := by
  cases b with
  | false => simp
  | true => simp [toNat_or_flag hF, hfree]

/-- **The attributes of a font state stand for its look.** -/
theorem toNat_toConsoleAttributes (f : FontState) : f.toConsoleAttributes.toNat = f.look.value := by
  obtain ⟨fore, useFore, rgbFore, hlook, hcolors⟩ : ∃ fore useFore rgbFore, f.look = f.lookIn fore useFore rgbFore
      ∧ f.colors.toNat = foreIndex fore + 16 * backIndex f.background + 256 * (rgbOf useFore rgbFore).isSome.toNat
        + 512 * (rgbOf f.useRgbBackground f.rgbBackground).isSome.toNat + 65536 * rgbField (rgbOf useFore rgbFore)
        + 1099511627776 * rgbField (rgbOf f.useRgbBackground f.rgbBackground) := by
    rw [FontState.look, FontState.colors]
    dsimp only
    split
    · refine ⟨f.background, f.useRgbBackground, f.rgbBackground, rfl, Eq.trans (congrArg UInt64.toNat ?_)
        (toNat_colorsIn f f.background f.useRgbBackground f.rgbBackground)⟩
      have hpalette := toNat_palette f.background f.background
      have hfore := foreIndex_lt f.background
      have hback := (backIndex_spec f.background).2
      split
      · exact setRgbBoth_eq (by omega) _ _
      · rfl
    · exact ⟨f.foreground, f.useRgbForeground, f.rgbForeground, rfl, toNat_colorsIn f _ _ _⟩
  rw [hlook, Look.value, FontState.lookIn, FontState.toConsoleAttributes]
  dsimp only
  have hfore := foreIndex_lt fore
  have hback := (backIndex_spec f.background).2
  have hrgb := rgbField_lt (rgbOf useFore rgbFore)
  have hsome := (rgbOf useFore rgbFore).isSome.toNat_le
  have hsome' := (rgbOf f.useRgbBackground f.rgbBackground).isSome.toNat_le
  have hbold : (if f.bold then f.colors ||| FOREGROUND_INTENSITY else f.colors).toNat
      = f.colors.toNat - foreIndex fore + foreIndex fore % 8 + 8 * (f.bold || decide (8 ≤ foreIndex fore)).toNat := by
    by_cases hbright : 8 ≤ foreIndex fore
    · have hset : (f.colors ||| FOREGROUND_INTENSITY).toNat = f.colors.toNat := by
        rw [toNat_or_flag (k := 3) rfl]
        omega
      rw [show (f.bold || decide (8 ≤ foreIndex fore)).toNat = 1 by simp [hbright]]
      split <;> omega
    · have hset := toNat_flag (F := FOREGROUND_INTENSITY) (k := 3) rfl f.bold (a := f.colors) (by omega)
      rw [hset, show (f.bold || decide (8 ≤ foreIndex fore)).toNat = f.bold.toNat by simp [hbright]]
      omega
  have hb := (f.bold || decide (8 ≤ foreIndex fore)).toNat_le
  generalize (f.bold || decide (8 ≤ foreIndex fore)) = bright at hbold hb ⊢
  generalize (if f.bold then f.colors ||| FOREGROUND_INTENSITY else f.colors) = a at hbold ⊢
  have hvideo := toNat_flag (F := COMMON_LVB_REVERSE_VIDEO) (k := 14) rfl f.rvideo (a := a) (by omega)
  generalize (if f.rvideo then a ||| COMMON_LVB_REVERSE_VIDEO else a) = a₁ at hvideo ⊢
  have hr := f.rvideo.toNat_le
  have hunder := toNat_flag (F := COMMON_LVB_UNDERSCORE) (k := 15) rfl f.underline (a := a₁) (by omega)
  generalize (if f.underline then a₁ ||| COMMON_LVB_UNDERSCORE else a₁) = a₂ at hunder ⊢
  have hu := f.underline.toNat_le
  rw [toNat_flag (k := 13) rfl f.strikeout (by omega)]
  omega

/-! ## The font state of attributes -/

/-- A part of a number that is a sum of parts. -/
structure Look.Parts (l : Look) (n : Nat) : Prop where
  ink : n % 8 = l.ink
  bright : n / 8 % 2 = l.bright.toNat
  paper : n / 16 % 16 = l.paper
  foreSome : n / 256 % 2 = l.foreRgb.isSome.toNat
  backSome : n / 512 % 2 = l.backRgb.isSome.toNat
  strikeout : n / 8192 % 2 = l.strikeout.toNat
  rvideo : n / 16384 % 2 = l.rvideo.toNat
  underline : n / 32768 % 2 = l.underline.toNat
  foreRgb : n / 65536 % 16777216 = rgbField l.foreRgb
  backRgb : n / 1099511627776 % 16777216 = rgbField l.backRgb

theorem Look.parts (l : Look) : l.Parts l.value := by
  obtain ⟨ink, bright, paper, fore, back, strikeout, rvideo, underline⟩ := l
  have hb := bright.toNat_le
  have hf := fore.isSome.toNat_le
  have hg := back.isSome.toNat_le
  have hs := strikeout.toNat_le
  have hr := rvideo.toNat_le
  have hu := underline.toNat_le
  have hfore := rgbField_lt fore
  have hback := rgbField_lt back
  simp only [value]
  constructor <;> dsimp only <;> omega

/-- A flag that is tested. -/
theorem decide_flag {F : UInt64} {k : Nat} (hF : F.toNat = 2 ^ k) {a : UInt64} {b : Bool}
    (h : a.toNat / 2 ^ k % 2 = b.toNat) : decide (a &&& F ≠ 0) = b := by
  have hiff := flag_iff hF a
  rw [h] at hiff
  cases b with
  | false => exact decide_eq_false fun hset => absurd (hiff.mp hset) (by decide)
  | true => exact decide_eq_true (hiff.mpr rfl)

/-- A colour of the console, and back: the colours of the tables below 8. -/
theorem palette_attr2Ansi : ∀ i : Fin 8, foreIndex (attr2Ansi.getD i 0) = i ∧ backIndex (attr2Ansi.getD i 0) = i := by
  decide

/-- A true colour is read back from its field. -/
theorem rgbOf_field {c : Option (Fin (2 ^ 24))} {rgb rgb' : UInt32} (h : rgb.toNat = rgbField c) :
    rgbOf c.isSome (if c.isSome then rgb else rgb') = c := by
  cases c with
  | none => rfl
  | some v =>
    refine congrArg some (Fin.ext ?_)
    show rgb.toNat % 16777216 = v
    rw [h]
    exact Nat.mod_eq_of_lt v.isLt

/-- **`FromConsoleAttributes` gives back a look**, without what makes the background bright. -/
theorem look_fromConsoleAttributes (g : FontState) {l : Look} {a : UInt64} (ha : a.toNat = l.value) :
    (g.fromConsoleAttributes a).concealed = g.concealed
      ∧ (g.fromConsoleAttributes a).lookIn (g.fromConsoleAttributes a).foreground
          (g.fromConsoleAttributes a).useRgbForeground (g.fromConsoleAttributes a).rgbForeground
        = { l with paper := ⟨l.paper % 8, by omega⟩ }
      ∧ (g.fromConsoleAttributes a).lookIn (g.fromConsoleAttributes a).background
          (g.fromConsoleAttributes a).useRgbBackground (g.fromConsoleAttributes a).rgbBackground
        = { l with ink := ⟨l.paper % 8, by omega⟩, foreRgb := l.backRgb, paper := ⟨l.paper % 8, by omega⟩ } := by
  have hparts := ha ▸ l.parts
  have hink : (a &&& 7).toNat = l.ink := by
    rw [UInt64.toNat_and, ← hparts.ink]
    exact Nat.and_two_pow_sub_one_eq_mod a.toNat 3
  have hpaper : (a >>> 4 &&& 7).toNat = l.paper % 8 := by
    rw [UInt64.toNat_and, UInt64.toNat_shiftRight, ← hparts.paper]
    refine (shiftRight_and a.toNat 4 3).trans ?_
    omega
  have hfore : rgbOf (decide (a &&& FOREGROUND_TRUECOLOR ≠ 0))
      (if decide (a &&& FOREGROUND_TRUECOLOR ≠ 0) then getRgbFore a else g.rgbForeground) = l.foreRgb := by
    have hsome := decide_flag (F := FOREGROUND_TRUECOLOR) (k := 8) rfl hparts.foreSome
    have hrgb := (toNat_getRgbFore a).trans hparts.foreRgb
    rw [hsome]
    exact rgbOf_field hrgb
  have hback : rgbOf (decide (a &&& BACKGROUND_TRUECOLOR ≠ 0))
      (if decide (a &&& BACKGROUND_TRUECOLOR ≠ 0) then getRgbBack a else g.rgbBackground) = l.backRgb := by
    have hsome := decide_flag (F := BACKGROUND_TRUECOLOR) (k := 9) rfl hparts.backSome
    have hrgb := (toNat_getRgbBack a).trans hparts.backRgb
    rw [hsome]
    exact rgbOf_field hrgb
  have hinkTable := palette_attr2Ansi l.ink
  have hpaperTable := palette_attr2Ansi ⟨l.paper % 8, by omega⟩
  dsimp only at hpaperTable
  have hbold := decide_flag (F := FOREGROUND_INTENSITY) (k := 3) rfl hparts.bright
  have hstrike := decide_flag (F := COMMON_LVB_STRIKEOUT) (k := 13) rfl hparts.strikeout
  have hvideo := decide_flag (F := COMMON_LVB_REVERSE_VIDEO) (k := 14) rfl hparts.rvideo
  have hunder := decide_flag (F := COMMON_LVB_UNDERSCORE) (k := 15) rfl hparts.underline
  -- An indexed colour that is read back is none of the bright ones.
  have hbright : ∀ i : Fin 8, (l.bright || decide (8 ≤ foreIndex (attr2Ansi.getD i 0))) = l.bright := fun i => by
    rw [(palette_attr2Ansi i).1, decide_eq_false (by omega), Bool.or_false]
  have hlow : ∀ i : Fin 8, foreIndex (attr2Ansi.getD i 0) % 8 = i := fun i => by
    rw [(palette_attr2Ansi i).1, Nat.mod_eq_of_lt i.isLt]
  refine ⟨rfl, ?_, ?_⟩
  · rw [FontState.lookIn, FontState.fromConsoleAttributes, Look.mk.injEq]
    dsimp only
    rw [hink, hpaper, hfore, hback, hbold, hstrike, hvideo, hunder]
    exact ⟨Fin.ext (hlow l.ink), hbright l.ink, Fin.ext hpaperTable.2, rfl, rfl, rfl, rfl, rfl⟩
  · rw [FontState.lookIn, FontState.fromConsoleAttributes, Look.mk.injEq]
    dsimp only
    rw [hpaper, hback, hbold, hstrike, hvideo, hunder]
    exact ⟨Fin.ext (hlow ⟨l.paper % 8, by omega⟩), hbright ⟨l.paper % 8, by omega⟩, Fin.ext hpaperTable.2, rfl, rfl,
      rfl, rfl, rfl⟩

/-! ## Attributes that come back -/

/-- The text cannot be seen: its colour is that of its background. -/
def FontState.Invisible (f : FontState) : Prop :=
  f.foreground % 8 = f.background ∧ f.useRgbForeground = f.useRgbBackground
    ∧ (f.useRgbForeground = true → f.rgbForeground % 0x1000000 = f.rgbBackground % 0x1000000)

instance (f : FontState) : Decidable f.Invisible := inferInstanceAs (Decidable (_ ∧ _ ∧ _))

/-- Both colours are in the tables. -/
structure FontState.Indexed (f : FontState) : Prop where
  foreground : f.foreground < 16
  background : f.background < 16

/-- The tables tell what is bright, and which indexed colours are the same. -/
theorem palette_spec : ∀ i j : Fin 16, ((gPaletteBackground.getD j 0).toNat / 16 < 8 ↔ j.val < 8)
    ∧ (j.val < 8 → ((gPaletteForeground.getD i 0).toNat % 8 = (gPaletteBackground.getD j 0).toNat / 16
      ↔ i.val % 8 = j.val)) := by
  decide

theorem rgbOf_inj {use use' : Bool} {rgb rgb' : UInt32} : rgbOf use rgb = rgbOf use' rgb'
    ↔ use = use' ∧ (use = true → rgb % 0x1000000 = rgb' % 0x1000000) := by
  have hmod : ∀ v : UInt32, (v % 0x1000000).toNat = v.toNat % 16777216 := fun v => UInt32.toNat_mod v 0x1000000
  cases use <;> cases use'
  · simp [rgbOf]
  · simp [rgbOf]
  · simp [rgbOf]
  · rw [← UInt32.toNat_inj, hmod, hmod]
    simp [rgbOf, Fin.ext_iff]

/-- **Attributes come back** exactly when the background is not bright and the other font state does not conceal text
that can be seen. -/
theorem comesBack_iff {f : FontState} (hf : f.Indexed) (hshown : f.concealed = false) (g : FontState) :
    (g.fromConsoleAttributes f.toConsoleAttributes).toConsoleAttributes = f.toConsoleAttributes
      ↔ f.background < 8 ∧ (g.concealed = true → f.Invisible) := by
  obtain ⟨hconcealed, hshow, hconceal⟩ := look_fromConsoleAttributes g (toNat_toConsoleAttributes f)
  have hlook : f.look = f.lookIn f.foreground f.useRgbForeground f.rgbForeground := by
    rw [FontState.look, hshown]
    rfl
  obtain ⟨hbright, hsame⟩ := palette_spec ⟨f.foreground.toNat, hf.foreground⟩ ⟨f.background.toNat, hf.background⟩
  have hpaper : f.look.paper.val < 8 ↔ f.background < 8 := by
    rw [hlook]
    exact hbright.trans Iff.rfl
  rw [← UInt64.toNat_inj, toNat_toConsoleAttributes, toNat_toConsoleAttributes]
  refine Iff.trans ⟨Look.value_inj, congrArg Look.value⟩ ?_
  rw [FontState.look, hconcealed, hshow, hconceal]
  cases g.concealed with
  | false =>
    rw [if_neg Bool.false_ne_true]
    refine Iff.trans ⟨fun h => ?_, fun h => ?_⟩ (hpaper.trans (and_iff_left (fun h => by cases h)).symm)
    · have hmod := congrArg (fun l : Look => l.paper.val) h
      dsimp only at hmod
      omega
    · rw [Look.mk.injEq]
      exact ⟨rfl, rfl, Fin.ext (Nat.mod_eq_of_lt h), rfl, rfl, rfl, rfl, rfl⟩
  | true =>
    have hrgb : f.look.backRgb = f.look.foreRgb
        ↔ f.useRgbForeground = f.useRgbBackground
          ∧ (f.useRgbForeground = true → f.rgbForeground % 0x1000000 = f.rgbBackground % 0x1000000) := by
      rw [hlook, eq_comm]
      exact rgbOf_inj
    have hink : f.background < 8 → (f.look.paper.val = f.look.ink.val ↔ f.foreground % 8 = f.background) := by
      intro hlt
      rw [hlook, eq_comm, ← UInt8.toNat_inj, UInt8.toNat_mod]
      exact hsame hlt
    rw [if_pos rfl]
    refine Iff.trans ⟨fun h => ?_, fun hboth => ?_⟩ (and_congr_left fun _ => hpaper)
    · have hmod := congrArg (fun l : Look => l.paper.val) h
      have heq := congrArg (fun l : Look => l.ink.val) h
      have hback := congrArg Look.foreRgb h
      dsimp only at hmod heq hback
      have hlt : f.look.paper.val < 8 := by omega
      exact ⟨hlt, fun _ => ⟨(hink (hpaper.mp hlt)).mp (by omega), hrgb.mp hback⟩⟩
    · obtain ⟨hlt, h⟩ := hboth
      obtain ⟨hsameInk, hsameRgb⟩ := h rfl
      have heq := (hink (hpaper.mp hlt)).mpr hsameInk
      rw [Look.mk.injEq]
      exact ⟨Fin.ext (by dsimp only; omega), rfl, Fin.ext (Nat.mod_eq_of_lt hlt), hrgb.mpr hsameRgb, rfl, rfl, rfl, rfl⟩

/-! ## What `ParseSuffixM` leaves -/

namespace FontState

variable {f : FontState}

theorem Indexed.setForeground (hf : f.Indexed) {i : UInt8} (hi : i < 16) : (f.setForeground i).Indexed :=
  ⟨hi, hf.background⟩

theorem Indexed.setBackground (hf : f.Indexed) {i : UInt8} (hi : i < 16) : (f.setBackground i).Indexed :=
  ⟨hf.foreground, hi⟩

theorem Indexed.setRgb (hf : f.Indexed) (a : Int) (rgb : UInt32) : (f.setRgb a rgb).Indexed := by
  rw [FontState.setRgb]
  split
  · exact hf
  · split <;> exact ⟨hf.foreground, hf.background⟩

theorem Indexed.setIndexed (hf : f.Indexed) (a : Int) (i : UInt32) : (f.setIndexed a i).Indexed := by
  rw [FontState.setIndexed]
  split
  · next hlt =>
    have hi : i.toUInt8 < 16 := by
      rw [UInt8.lt_iff_toNat_lt, UInt32.toNat_toUInt8]
      exact Nat.lt_of_le_of_lt (Nat.mod_le _ _) hlt
    split
    · exact hf.setForeground hi
    · exact hf.setBackground hi
  · split
    · exact hf.setRgb a _
    · exact hf

theorem Indexed.resetColors (hf : f.Indexed) (fore back : Bool) : (f.resetColors fore back).Indexed := by
  cases fore <;> cases back
  · exact ⟨hf.foreground, hf.background⟩
  · exact ⟨hf.foreground, show (0 : UInt8) < 16 by decide⟩
  · exact ⟨show (7 : UInt8) < 16 by decide, hf.background⟩
  · exact ⟨show (7 : UInt8) < 16 by decide, show (0 : UInt8) < 16 by decide⟩

theorem Indexed.ite {c : Prop} [Decidable c] {f' : FontState} (hf : f.Indexed) (hf' : f'.Indexed) :
    (if c then f else f').Indexed := by
  split
  · exact hf
  · exact hf'

theorem Indexed.setStyle (hf : f.Indexed) (a : Int) : (f.setStyle a).Indexed := by
  have hreset : ∀ {f : FontState} (fore back : Bool), f.Indexed → (f.resetColors fore back).Indexed :=
    fun fore back hf => hf.resetColors fore back
  rw [FontState.setStyle]
  refine .ite (hreset true true ⟨hf.foreground, hf.background⟩) (.ite (hreset true false hf)
    (.ite (hreset false true hf) ?_))
  repeat refine .ite ⟨hf.foreground, hf.background⟩ ?_
  exact hf

theorem toUInt8_lt {n : Nat} (h : n < 16) : n.toUInt8 < 16 := by
  rw [UInt8.lt_iff_toNat_lt]
  exact Nat.lt_of_le_of_lt (Nat.mod_le _ _) h

theorem Indexed.parseArg (hf : f.Indexed) (a : Int) (rest : List Int) : (f.parseArg a rest).1.Indexed := by
  rw [FontState.parseArg]
  split
  · exact hf.setForeground (toUInt8_lt (by omega))
  split
  · exact hf.setForeground (toUInt8_lt (by omega))
  split
  · exact hf.setBackground (toUInt8_lt (by omega))
  split
  · exact hf.setBackground (toUInt8_lt (by omega))
  split
  · split
    · exact hf.setRgb a _
    split
    · exact hf.setIndexed a _
    · exact hf
  · exact hf.setStyle a

/-- **The colours of a font state are always in the tables.** -/
theorem Indexed.parseArgs : ∀ (args : List Int) {f : FontState} (skip : Nat), f.Indexed →
    (f.parseArgs skip args).Indexed
  | [], f, skip, hf => by
    rw [FontState.parseArgs]
    exact hf
  | _ :: rest, f, skip + 1, hf => Indexed.parseArgs rest skip hf
  | a :: rest, f, 0, hf => Indexed.parseArgs rest _ (hf.parseArg a rest)

theorem Indexed.parseSuffixM (hf : f.Indexed) (args : List Int) (argc : Nat) : (f.parseSuffixM args argc).Indexed :=
  Indexed.parseArgs _ 0 hf

end FontState

end AnsiEsc

end Far2l
