/-
Far2l.TTY.TTYOutput — the attributes of `WinPort/src/Backend/TTY/TTYOutput.cpp`: what
is written to the terminal so that the next characters get them.

Only what differs from the attributes sent last is written, and a space is written
without its foreground. The terminal is `AnsiEsc`, which reads what is written.
-/
import Far2l.VT.VTLogTheorems

namespace Far2l

namespace TTYOutput

open AnsiEsc VT VTLog

/-- `ATTRIBUTES_AFFECTING_BACKGROUND` -/
def ATTRIBUTES_AFFECTING_BACKGROUND : UInt64 := 0x02F0

/-- `COMMON_LVB_REVERSE_VIDEO | COMMON_LVB_UNDERSCORE | COMMON_LVB_STRIKEOUT` -/
def LVB_FLAGS : UInt64 := COMMON_LVB_REVERSE_VIDEO ||| COMMON_LVB_UNDERSCORE ||| COMMON_LVB_STRIKEOUT

/-- The members `WriteUpdatedAttributes` works with. -/
structure Output where
  norgb : Bool := false
  kernelTty : Bool := false
  prevAttrValid : Bool := false
  prevAttr : UInt64 := 0
deriving DecidableEq, Repr

/-- `_colors256_lookup`: of equal colours the last one is kept. -/
def colors256Lookup (rgb : UInt32) : Option Nat :=
  (gVT256ColorTable.zipIdx.reverse.find? fun e => e.1 = rgb).map Prod.snd

/-- `TrueColors::AppendSuffix` -/
def trueColorSuffix (rgb : UInt32) : List Byte :=
  match colors256Lookup rgb with
  | some index => [ch '5', ch ';'] ++ VTLog.decimal (index + 16) ++ [ch ';']
  | none => rgbCode [ch '2', ch ';'] rgb

/-- `AppendAnsiColorSuffix` -/
def ansiColorSuffix (r g b attr : UInt64) : List Byte :=
  [ch '0' + (if attr &&& r ≠ 0 then 1 else 0) + (if attr &&& g ≠ 0 then 2 else 0) + (if attr &&& b ≠ 0 then 4 else 0),
    ch ';']

section
variable (xa prev attr : UInt64)

/-- Is the indexed foreground written? -/
def ForeWritten : Prop :=
  xa &&& 0x000F ≠ 0 ∨ (prev &&& FOREGROUND_TRUECOLOR ≠ 0 ∧ attr &&& FOREGROUND_TRUECOLOR = 0)

/-- Is the indexed background written? -/
def BackWritten : Prop :=
  xa &&& 0x00F0 ≠ 0 ∨ (prev &&& BACKGROUND_TRUECOLOR ≠ 0 ∧ attr &&& BACKGROUND_TRUECOLOR = 0)

instance : Decidable (ForeWritten xa prev attr) := inferInstanceAs (Decidable (_ ∨ _))
instance : Decidable (BackWritten xa prev attr) := inferInstanceAs (Decidable (_ ∨ _))

/-- `emit_tc_fore` -/
def EmitTcFore : Prop :=
  attr &&& FOREGROUND_TRUECOLOR ≠ 0 ∧
    ((getRgbFore xa ≠ 0 ∨ xa &&& FOREGROUND_TRUECOLOR ≠ 0) ∨ ForeWritten xa prev attr)

/-- `emit_tc_back` -/
def EmitTcBack : Prop :=
  attr &&& BACKGROUND_TRUECOLOR ≠ 0 ∧
    ((getRgbBack xa ≠ 0 ∨ xa &&& BACKGROUND_TRUECOLOR ≠ 0) ∨ BackWritten xa prev attr)

instance : Decidable (EmitTcFore xa prev attr) := inferInstanceAs (Decidable (_ ∧ _))
instance : Decidable (EmitTcBack xa prev attr) := inferInstanceAs (Decidable (_ ∧ _))

/-- A flag that has changed: the code that sets it, or the one that clears it. -/
def flagCode (flag : UInt64) (on off : List Byte) : List Byte :=
  if xa &&& flag ≠ 0 then (if attr &&& flag ≠ 0 then on else off) else []

/-- The codes behind the bracket, each with a `;` behind it. -/
def updateCodes (kernelTty : Bool) : List Byte :=
  (if kernelTty then flagCode xa attr FOREGROUND_INTENSITY [ch '1', ch ';'] [ch '2', ch '2', ch ';'] else [])
    ++ (if ForeWritten xa prev attr then
          (if attr &&& FOREGROUND_INTENSITY ≠ 0 then ch '9' else ch '3') :: ansiColorSuffix 4 2 1 attr
        else [])
    ++ (if BackWritten xa prev attr then
          (if attr &&& BACKGROUND_INTENSITY ≠ 0 then [ch '1', ch '0'] else [ch '4']) ++ ansiColorSuffix 0x40 0x20 0x10 attr
        else [])
    ++ (if EmitTcFore xa prev attr then [ch '3', ch '8', ch ';'] ++ trueColorSuffix (getRgbFore attr) else [])
    ++ (if EmitTcBack xa prev attr then [ch '4', ch '8', ch ';'] ++ trueColorSuffix (getRgbBack attr) else [])
    ++ flagCode xa attr COMMON_LVB_STRIKEOUT [ch '9', ch ';'] [ch '2', ch '9', ch ';']
    ++ flagCode xa attr COMMON_LVB_UNDERSCORE [ch '4', ch ';'] [ch '2', ch '4', ch ';']
    ++ flagCode xa attr COMMON_LVB_REVERSE_VIDEO [ch '7', ch ';'] [ch '2', ch '7', ch ';']

/-- A space does not need what is new. -/
def SpaceKeeps : Prop :=
  xa &&& ATTRIBUTES_AFFECTING_BACKGROUND = 0 ∧ (attr &&& BACKGROUND_TRUECOLOR = 0 ∨ getRgbBack xa = 0) ∧
    (attr ||| prev) &&& LVB_FLAGS = 0

instance : Decidable (SpaceKeeps xa prev attr) := inferInstanceAs (Decidable (_ ∧ _))

end

/-- `WriteUpdatedAttributes`: the members afterwards, and what is written. -/
def writeUpdatedAttributes (o : Output) (attr : UInt64) (isSpace : Bool) : Output × List Byte :=
  let attr := if o.norgb then attr &&& ~~~(FOREGROUND_TRUECOLOR ||| BACKGROUND_TRUECOLOR) else attr
  let xa := if o.prevAttrValid then attr ^^^ o.prevAttr else noAttr
  if xa = 0 then (o, [])
  else if isSpace ∧ SpaceKeeps xa o.prevAttr attr then (o, [])
  else
    let codes := updateCodes xa o.prevAttr attr o.kernelTty
    if codes = [] then (o, []) else ({ o with prevAttr := attr, prevAttrValid := true }, VTLog.sequence codes)

/-! ## The terminal -/

/-- What is written is read: `Parser::Parse` and `ParseSuffixM`. -/
def interpret (f : FontState) (text : List Byte) : FontState :=
  match parse (chars text) with
  | some (args, suffix, _) => if suffix = wch 'm' then f.parseSuffixM args args.length else f
  | none => f

/-- A call, and what the terminal makes of it. -/
def call (s : Output × FontState) (c : UInt64 × Bool) : Output × FontState :=
  ((writeUpdatedAttributes s.1 c.1 c.2).1, interpret s.2 (writeUpdatedAttributes s.1 c.1 c.2).2)

/-- One call after another. -/
def session (s : Output × FontState) (calls : List (UInt64 × Bool)) : Output × FontState := calls.foldl call s

end TTYOutput

end Far2l

/-! # The terminal shows the attributes that were asked for.

The codes are the numbers of `updateArgs`, and what they do to the font state is `repaint`.
Whatever has not been written is as it was in the attributes sent last (`Pen`). -/

namespace Far2l

namespace TTYOutput

open AnsiEsc VT VTLog

/-! ## Numbers -/

/-- The numbers of a true colour. -/
def trueColorArgs (rgb : UInt32) : List Nat :=
  match colors256Lookup rgb with
  | some index => [5, index + 16]
  | none => [2, (rgb &&& 0xff).toNat, (rgb >>> 8 &&& 0xff).toNat, (rgb >>> 16 &&& 0xff).toNat]

section
variable (xa prev attr : UInt64)

/-- The number of a flag that has changed. -/
def flagArg (flag : UInt64) (on off : Nat) : List Nat :=
  if xa &&& flag ≠ 0 then (if attr &&& flag ≠ 0 then [on] else [off]) else []

/-- The numbers of the codes. -/
def updateArgs : List Nat :=
  (if ForeWritten xa prev attr then [foreArg attr] else []) ++ (if BackWritten xa prev attr then [backArg attr] else [])
    ++ (if EmitTcFore xa prev attr then 38 :: trueColorArgs (getRgbFore attr) else [])
    ++ (if EmitTcBack xa prev attr then 48 :: trueColorArgs (getRgbBack attr) else [])
    ++ flagArg xa attr COMMON_LVB_STRIKEOUT 9 29 ++ flagArg xa attr COMMON_LVB_UNDERSCORE 4 24
    ++ flagArg xa attr COMMON_LVB_REVERSE_VIDEO 7 27

end

theorem ansiColorSuffix_fore (attr : UInt64) :
    (if attr &&& FOREGROUND_INTENSITY ≠ 0 then ch '9' else ch '3') :: ansiColorSuffix 4 2 1 attr = argBytes [foreArg attr] := by
  rw [← foreCode_eq, foreCode, ansiColorSuffix, translateForegroundColor]
  refine congrArg (fun d => (if attr &&& FOREGROUND_INTENSITY ≠ 0 then ch '9' else ch '3') :: [d, ch ';']) ?_
  split <;> split <;> split <;> decide

theorem ansiColorSuffix_back (attr : UInt64) :
    (if attr &&& BACKGROUND_INTENSITY ≠ 0 then [ch '1', ch '0'] else [ch '4']) ++ ansiColorSuffix 0x40 0x20 0x10 attr =
      argBytes [backArg attr] := by
  rw [← backCode_eq, backCode, ansiColorSuffix, translateBackgroundColor]
  refine congrArg (fun d => _ ++ [d, ch ';']) ?_
  split <;> split <;> split <;> decide

theorem trueColorSuffix_eq {k : Nat} {code : List Byte} (hcode : code = argBytes [k]) (rgb : UInt32) :
    code ++ trueColorSuffix rgb = argBytes (k :: trueColorArgs rgb) := by
  rw [hcode, trueColorSuffix, trueColorArgs]
  cases colors256Lookup rgb with
  | some index => simp [argBytes, show VTLog.decimal 5 = [ch '5'] by decide]
  | none => simp [argBytes, rgbCode, show VTLog.decimal 2 = [ch '2'] by decide]

theorem flagCode_eq (xa attr flag : UInt64) {on off : List Byte} {n m : Nat} (hon : on = argBytes [n])
    (hoff : off = argBytes [m]) : flagCode xa attr flag on off = argBytes (flagArg xa attr flag n m) := by
  rw [flagCode, flagArg, hon, hoff, argBytes_ite]
  split
  · split <;> rfl
  · rfl

/-- **The codes are the numbers.** -/
theorem updateCodes_eq (xa prev attr : UInt64) : updateCodes xa prev attr false = argBytes (updateArgs xa prev attr) := by
  rw [updateCodes, updateArgs]
  simp only [argBytes_append, argBytes_ite]
  rw [ansiColorSuffix_fore, ansiColorSuffix_back, trueColorSuffix_eq (k := 38) (by decide),
    trueColorSuffix_eq (k := 48) (by decide), flagCode_eq (n := 9) (m := 29) _ _ COMMON_LVB_STRIKEOUT (by decide) (by decide),
    flagCode_eq (n := 4) (m := 24) _ _ COMMON_LVB_UNDERSCORE (by decide) (by decide),
    flagCode_eq (n := 7) (m := 27) _ _ COMMON_LVB_REVERSE_VIDEO (by decide) (by decide)]
  rfl

/-! ## What is read -/

/-- An index that is looked up is one of the colour. -/
theorem colors256Lookup_spec {rgb : UInt32} {index : Nat} (h : colors256Lookup rgb = some index) :
    gVT256ColorTable[index]? = some rgb ∧ index < 240 := by
  rw [colors256Lookup] at h
  obtain ⟨e, he, rfl⟩ := Option.map_eq_some_iff.mp h
  have hrgb : e.1 = rgb := by simpa using List.find?_some he
  have hmem := List.mem_reverse.mp (List.mem_of_find?_eq_some he)
  have hget : gVT256ColorTable[e.2]? = some e.1 := List.mem_zipIdx_iff_getElem?.mp hmem
  refine ⟨hrgb ▸ hget, ?_⟩
  obtain ⟨hlt, -⟩ := List.getElem?_eq_some_iff.mp hget
  exact hlt

/-- A true colour, however it is written. -/
theorem parseArgs_trueColor {kind : Nat} (hkind : kind = 38 ∨ kind = 48) {rgb : UInt32} (hrgb : rgb.toNat < 16777216)
    (f : FontState) (rest : List Nat) :
    f.parseArgs 0 (((kind :: trueColorArgs rgb) ++ rest).map Int.ofNat)
      = (if kind = 38 then { f with useRgbForeground := true, rgbForeground := rgb }
          else { f with useRgbBackground := true, rgbBackground := rgb }).parseArgs 0 (rest.map Int.ofNat) := by
  rw [trueColorArgs]
  cases hlookup : colors256Lookup rgb with
  | none => exact parseArgs_rgb hkind hrgb f rest
  | some index =>
    obtain ⟨hget, hlt⟩ := colors256Lookup_spec hlookup
    have hne : rgb ≠ 0xffffffff := by
      rintro rfl
      exact absurd hrgb (by decide)
    have hindex : (dwordArg ((index + 16 : Nat) : Int)).toNat = index + 16 := by
      rw [dwordArg, UInt32.toNat_ofNat']
      omega
    have hset : f.setIndexed kind (dwordArg ((index + 16 : Nat) : Int)) =
        if kind = 38 then { f with useRgbForeground := true, rgbForeground := rgb }
        else { f with useRgbBackground := true, rgbBackground := rgb } := by
      have hhigh : ¬ dwordArg ((index + 16 : Nat) : Int) < 16 := by
        rw [UInt32.lt_iff_toNat_lt, hindex]
        show ¬ index + 16 < 16
        omega
      have hsub : (dwordArg ((index + 16 : Nat) : Int) - 16).toNat = index := by
        rw [UInt32.toNat_sub_of_le _ _ (UInt32.not_lt.mp hhigh), hindex]
        exact Nat.add_sub_cancel index 16
      rw [FontState.setIndexed, if_neg hhigh, hsub, hget]
      dsimp only
      rw [FontState.setRgb, if_neg hne]
      rcases hkind with rfl | rfl <;> rfl
    have harg : f.parseArg (kind : Int) ((5 : Int) :: (((index + 16 : Nat) : Int) :: rest.map Int.ofNat)) =
        (f.setIndexed kind (dwordArg ((index + 16 : Nat) : Int)), 2) := by
      rw [FontState.parseArg, if_neg (by omega), if_neg (by omega), if_neg (by omega), if_neg (by omega),
        if_pos (by omega), if_neg (fun h => absurd h.2 (show ¬(5 : Int) = 2 by decide)), if_pos ⟨by simp, rfl⟩]
      rfl
    rw [← hset]
    show f.parseArgs 0 ((kind : Int) :: ((5 : Int) :: (((index + 16 : Nat) : Int) :: rest.map Int.ofNat))) = _
    rw [FontState.parseArgs, harg]
    rfl

/-- The font state behind the sequence. -/
def repaint (xa prev attr : UInt64) (f : FontState) : FontState :=
  { f with
    foreground := if ForeWritten xa prev attr then ansiFore attr else f.foreground
    background := if BackWritten xa prev attr then ansiBack attr else f.background
    useRgbForeground :=
      if EmitTcFore xa prev attr then true else if ForeWritten xa prev attr then false else f.useRgbForeground
    useRgbBackground :=
      if EmitTcBack xa prev attr then true else if BackWritten xa prev attr then false else f.useRgbBackground
    rgbForeground := if EmitTcFore xa prev attr then getRgbFore attr else f.rgbForeground
    rgbBackground := if EmitTcBack xa prev attr then getRgbBack attr else f.rgbBackground
    strikeout :=
      if xa &&& COMMON_LVB_STRIKEOUT ≠ 0 then decide (attr &&& COMMON_LVB_STRIKEOUT ≠ 0) else f.strikeout
    underline :=
      if xa &&& COMMON_LVB_UNDERSCORE ≠ 0 then decide (attr &&& COMMON_LVB_UNDERSCORE ≠ 0) else f.underline
    rvideo :=
      if xa &&& COMMON_LVB_REVERSE_VIDEO ≠ 0 then decide (attr &&& COMMON_LVB_REVERSE_VIDEO ≠ 0) else f.rvideo }

/-! The parts of `repaint`, where `c` is that a number is written -/

section
variable (c : Prop) [Decidable c] (f : FontState)

def inkWhen (i : UInt8) : FontState :=
  { f with foreground := if c then i else f.foreground, useRgbForeground := if c then false else f.useRgbForeground }

def paperWhen (i : UInt8) : FontState :=
  { f with background := if c then i else f.background, useRgbBackground := if c then false else f.useRgbBackground }

def foreWhen (rgb : UInt32) : FontState :=
  { f with useRgbForeground := if c then true else f.useRgbForeground
           rgbForeground := if c then rgb else f.rgbForeground }

def backWhen (rgb : UInt32) : FontState :=
  { f with useRgbBackground := if c then true else f.useRgbBackground
           rgbBackground := if c then rgb else f.rgbBackground }

def strikeWhen (b : Bool) : FontState := { f with strikeout := if c then b else f.strikeout }

def underWhen (b : Bool) : FontState := { f with underline := if c then b else f.underline }

def videoWhen (b : Bool) : FontState := { f with rvideo := if c then b else f.rvideo }

theorem ite_ink (i : UInt8) : (if c then f.setForeground i else f) = inkWhen c f i := by
  rw [inkWhen]
  split <;> rfl

theorem ite_paper (i : UInt8) : (if c then f.setBackground i else f) = paperWhen c f i := by
  rw [paperWhen]
  split <;> rfl

theorem ite_fore (rgb : UInt32) :
    (if c then { f with useRgbForeground := true, rgbForeground := rgb } else f) = foreWhen c f rgb := by
  rw [foreWhen]
  split <;> rfl

theorem ite_back (rgb : UInt32) :
    (if c then { f with useRgbBackground := true, rgbBackground := rgb } else f) = backWhen c f rgb := by
  rw [backWhen]
  split <;> rfl

theorem ite_strike (b : Bool) : (if c then { f with strikeout := b } else f) = strikeWhen c f b := by
  rw [strikeWhen]
  split <;> rfl

theorem ite_under (b : Bool) : (if c then { f with underline := b } else f) = underWhen c f b := by
  rw [underWhen]
  split <;> rfl

theorem ite_video (b : Bool) : (if c then { f with rvideo := b } else f) = videoWhen c f b := by
  rw [videoWhen]
  split <;> rfl

end

/-- A number that sets a flag, and one that clears it. -/
theorem parseArgs_flag {flag attr : UInt64} {on off : Nat} {g : FontState → Bool → FontState}
    (hon : ∀ f rest, FontState.parseArg f (on : Int) rest = (g f true, 0))
    (hoff : ∀ f rest, FontState.parseArg f (off : Int) rest = (g f false, 0)) (f : FontState) (rest : List Nat) :
    f.parseArgs 0 (((if attr &&& flag ≠ 0 then [on] else [off]) ++ rest).map Int.ofNat)
      = (g f (attr &&& flag ≠ 0)).parseArgs 0 (rest.map Int.ofNat) := by
  by_cases hset : attr &&& flag ≠ 0
  · rw [if_pos hset, decide_eq_true hset]
    exact parseArgs_one f rest fun rest => hon f rest
  · rw [if_neg hset, decide_eq_false hset]
    exact parseArgs_one f rest fun rest => hoff f rest

/-- **What a sequence does.** -/
theorem parseArgs_updateArgs (xa prev attr : UInt64) (f : FontState) :
    f.parseArgs 0 ((updateArgs xa prev attr).map Int.ofNat) = repaint xa prev attr f := by
  rw [updateArgs, flagArg, flagArg, flagArg, ← List.append_nil (_ ++ _)]
  simp only [List.append_assoc]
  rw [parseArgs_ite (g := fun f => f.setForeground (ansiFore attr)) _ f _
      (fun f => parseArgs_one f _ fun rest => parseArg_fore f attr rest), ite_ink,
    parseArgs_ite (g := fun f => f.setBackground (ansiBack attr)) _ _ _
      (fun f => parseArgs_one f _ fun rest => parseArg_back f attr rest), ite_paper,
    parseArgs_ite (g := fun f => { f with useRgbForeground := true, rgbForeground := getRgbFore attr }) _ _ _
      (fun f => parseArgs_trueColor (.inl rfl) (getRgb_lt attr).1 f _), ite_fore,
    parseArgs_ite (g := fun f => { f with useRgbBackground := true, rgbBackground := getRgbBack attr }) _ _ _
      (fun f => parseArgs_trueColor (.inr rfl) (getRgb_lt attr).2 f _), ite_back,
    parseArgs_ite (g := fun f => { f with strikeout := attr &&& COMMON_LVB_STRIKEOUT ≠ 0 }) _ _ _
      (fun f => parseArgs_flag (g := fun f b => { f with strikeout := b }) (fun _ _ => rfl) (fun _ _ => rfl) f _),
    ite_strike,
    parseArgs_ite (g := fun f => { f with underline := attr &&& COMMON_LVB_UNDERSCORE ≠ 0 }) _ _ _
      (fun f => parseArgs_flag (g := fun f b => { f with underline := b }) (fun _ _ => rfl) (fun _ _ => rfl) f _),
    ite_under,
    parseArgs_ite (g := fun f => { f with rvideo := attr &&& COMMON_LVB_REVERSE_VIDEO ≠ 0 }) _ _ _
      (fun f => parseArgs_flag (g := fun f b => { f with rvideo := b }) (fun _ _ => rfl) (fun _ _ => rfl) f _),
    ite_video]
  rfl

theorem trueColorArgs_lt (rgb : UInt32) : ∀ n ∈ trueColorArgs rgb, n < 1000 := by
  have hbyte : ∀ x : UInt32, (x &&& 0xff).toNat < 256 := fun x => by
    rw [UInt32.toNat_and]
    exact Nat.lt_of_le_of_lt Nat.and_le_right (by decide)
  rw [trueColorArgs]
  cases hlookup : colors256Lookup rgb with
  | none =>
    intro n hn
    simp only [List.mem_cons, List.not_mem_nil, or_false] at hn
    rcases hn with rfl | rfl | rfl | rfl
    · decide
    · exact Nat.lt_trans (hbyte _) (by decide)
    · exact Nat.lt_trans (hbyte _) (by decide)
    · exact Nat.lt_trans (hbyte _) (by decide)
  | some index =>
    have hlt := (colors256Lookup_spec hlookup).2
    intro n hn
    simp only [List.mem_cons, List.not_mem_nil, or_false] at hn
    rcases hn with rfl | rfl <;> omega

theorem updateArgs_lt (xa prev attr : UInt64) : ∀ n ∈ updateArgs xa prev attr, n < 1000 := by
  have hfore : foreArg attr < 1000 := by
    have := (translate_lt attr).1
    rw [foreArg]
    split <;> omega
  have hback : backArg attr < 1000 := by
    have := (translate_lt attr).2
    rw [backArg]
    split <;> omega
  have hflag : ∀ {flag : UInt64} {on off : Nat}, on < 1000 → off < 1000 → ∀ n ∈ flagArg xa attr flag on off, n < 1000 := by
    intro flag on off hon hoff n hn
    rw [flagArg] at hn
    split at hn
    · split at hn
      · exact List.mem_singleton.mp hn ▸ hon
      · exact List.mem_singleton.mp hn ▸ hoff
    · cases hn
  have htrue : ∀ {kind : Nat} (rgb : UInt32), kind < 1000 → ∀ n ∈ kind :: trueColorArgs rgb, n < 1000 := by
    intro kind rgb hkind n hn
    rcases List.mem_cons.mp hn with rfl | hn
    · exact hkind
    · exact trueColorArgs_lt rgb n hn
  have hwhen : ∀ {c : Prop} [Decidable c] {ns : List Nat}, (∀ n ∈ ns, n < 1000) → ∀ n ∈ (if c then ns else []), n < 1000 := by
    intro c _ ns hns n hn
    split at hn
    · exact hns n hn
    · cases hn
  intro n hn
  simp only [updateArgs, List.mem_append] at hn
  rcases hn with (((((hn | hn) | hn) | hn) | hn) | hn) | hn
  · exact hwhen (by simpa using hfore) n hn
  · exact hwhen (by simpa using hback) n hn
  · exact hwhen (htrue _ (by decide)) n hn
  · exact hwhen (htrue _ (by decide)) n hn
  · exact hflag (by decide) (by decide) n hn
  · exact hflag (by decide) (by decide) n hn
  · exact hflag (by decide) (by decide) n hn

/-- **The terminal reads the sequence** of some numbers. -/
theorem interpret_sequence (f : FontState) {ns : List Nat} (hall : ∀ n ∈ ns, n < 1000) :
    interpret f (VTLog.sequence (argBytes ns)) = f.parseArgs 0 (ns.map Int.ofNat) := by
  by_cases hne : ns = []
  · rw [hne]
    rfl
  have hseq : chars (VTLog.sequence (argBytes ns)) = VT.ESC :: (wch '[' :: chars ((argBytes ns).dropLast ++ [ch 'm'])) := by
    rw [VTLog.sequence, if_neg (argBytes_ne_nil hne), List.append_assoc, chars_append]
    rfl
  have hparse := parseLoop_args [] ns [] hne hall
  rw [List.append_nil] at hparse
  have hread : parse (chars (VTLog.sequence (argBytes ns))) = some (ns.map Int.ofNat, wch 'm', []) := by
    rw [hseq, parse, if_pos ⟨rfl, rfl⟩]
    exact hparse
  rw [interpret, hread]
  dsimp only
  rw [if_pos rfl, FontState.parseSuffixM, if_neg (by simpa using hne), List.take_length]

/-! ## What attributes look like -/

theorem ink_lt (a : UInt64) : a.toNat % 8 < 8 := Nat.mod_lt _ (by decide)

theorem paper_lt (a : UInt64) : a.toNat / 16 % 16 < 16 := Nat.mod_lt _ (by decide)

/-- The parts of attributes that are shown: both indexes, the true colours if they are set, and the
flags. -/
def lookOf (a : UInt64) : Look where
  ink := ⟨a.toNat % 8, ink_lt a⟩
  bright := decide (a &&& FOREGROUND_INTENSITY ≠ 0)
  paper := ⟨a.toNat / 16 % 16, paper_lt a⟩
  foreRgb := rgbOf (decide (a &&& FOREGROUND_TRUECOLOR ≠ 0)) (getRgbFore a)
  backRgb := rgbOf (decide (a &&& BACKGROUND_TRUECOLOR ≠ 0)) (getRgbBack a)
  strikeout := decide (a &&& COMMON_LVB_STRIKEOUT ≠ 0)
  rvideo := decide (a &&& COMMON_LVB_REVERSE_VIDEO ≠ 0)
  underline := decide (a &&& COMMON_LVB_UNDERSCORE ≠ 0)

/-- The look of the attributes of a font state is that of the state. -/
theorem lookOf_toConsoleAttributes (f : FontState) : lookOf f.toConsoleAttributes = f.look := by
  have hparts := toNat_toConsoleAttributes f ▸ f.look.parts
  have hcolor : ∀ {use : Bool} {c : Option (Fin (2 ^ 24))} {rgb : UInt32}, use = c.isSome → rgb.toNat = rgbField c →
      rgbOf use rgb = c := by
    rintro _ (_ | c) rgb rfl hrgb
    · rfl
    · refine congrArg some (Fin.ext ?_)
      show rgb.toNat % 16777216 = c
      rw [hrgb]
      exact Nat.mod_eq_of_lt c.isLt
  rw [lookOf, decide_flag (F := FOREGROUND_INTENSITY) (k := 3) rfl hparts.bright,
    decide_flag (F := COMMON_LVB_STRIKEOUT) (k := 13) rfl hparts.strikeout,
    decide_flag (F := COMMON_LVB_REVERSE_VIDEO) (k := 14) rfl hparts.rvideo,
    decide_flag (F := COMMON_LVB_UNDERSCORE) (k := 15) rfl hparts.underline,
    hcolor (decide_flag (F := FOREGROUND_TRUECOLOR) (k := 8) rfl hparts.foreSome)
      ((toNat_getRgbFore _).trans hparts.foreRgb),
    hcolor (decide_flag (F := BACKGROUND_TRUECOLOR) (k := 9) rfl hparts.backSome)
      ((toNat_getRgbBack _).trans hparts.backRgb)]
  generalize f.look = l at hparts ⊢
  cases l
  rw [Look.mk.injEq]
  exact ⟨Fin.ext hparts.ink, rfl, Fin.ext hparts.paper, rfl, rfl, rfl, rfl, rfl⟩

/-- What a space shows of a look -/
structure SameGround (l l' : Look) : Prop where
  paper : l.paper = l'.paper
  backRgb : l.backRgb = l'.backRgb
  strikeout : l.strikeout = l'.strikeout
  rvideo : l.rvideo = l'.rvideo
  underline : l.underline = l'.underline

theorem SameGround.refl (l : Look) : SameGround l l := ⟨rfl, rfl, rfl, rfl, rfl⟩

/-! ## What differs -/

theorem xor_and (a b F : UInt64) : (a ^^^ b) &&& F = (a &&& F) ^^^ (b &&& F) := by
  rw [← UInt64.toBitVec_inj]
  ext i hi
  simp [Bool.and_xor_distrib_right]

theorem xor_and_eq_zero (a b F : UInt64) : (a ^^^ b) &&& F = 0 ↔ a &&& F = b &&& F := by
  rw [xor_and, UInt64.xor_eq_zero_iff]

theorem getRgbFore_xor (a b : UInt64) : getRgbFore (a ^^^ b) = 0 ↔ getRgbFore a = getRgbFore b := by
  rw [getRgbFore, getRgbFore, getRgbFore, UInt64.shiftRight_xor, xor_and, UInt64.toUInt32_xor, UInt32.xor_eq_zero_iff]

theorem getRgbBack_xor (a b : UInt64) : getRgbBack (a ^^^ b) = 0 ↔ getRgbBack a = getRgbBack b := by
  rw [getRgbBack, getRgbBack, getRgbBack, UInt64.shiftRight_xor, xor_and, UInt64.toUInt32_xor, UInt32.xor_eq_zero_iff]

/-- `xa` tells what has changed since `prev`; in front of the first call it is everything. -/
def Changes (o : Output) (xa attr : UInt64) : Prop := xa = if o.prevAttrValid then attr ^^^ o.prevAttr else noAttr

section

variable {o : Output} {xa attr : UInt64} (hxa : Changes o xa attr)
include hxa

/-- What is not marked is known, and the same. -/
theorem Changes.same {F : UInt64} (hF : noAttr &&& F ≠ 0) (h : xa &&& F = 0) :
    o.prevAttrValid ∧ attr &&& F = o.prevAttr &&& F := by
  rw [Changes] at hxa
  cases hvalid : o.prevAttrValid with
  | false =>
    rw [hvalid, if_neg (by simp)] at hxa
    exact absurd (hxa ▸ h) hF
  | true =>
    rw [hvalid, if_pos rfl] at hxa
    exact ⟨rfl, (xor_and_eq_zero _ _ F).mp (hxa ▸ h)⟩

theorem Changes.sameFore (hvalid : o.prevAttrValid) (h : getRgbFore xa = 0) : getRgbFore o.prevAttr = getRgbFore attr := by
  rw [Changes, if_pos hvalid] at hxa
  exact ((getRgbFore_xor _ _).mp (hxa ▸ h)).symm

theorem Changes.sameBack (hvalid : o.prevAttrValid) (h : getRgbBack xa = 0) : getRgbBack o.prevAttr = getRgbBack attr := by
  rw [Changes, if_pos hvalid] at hxa
  exact ((getRgbBack_xor _ _).mp (hxa ▸ h)).symm

end

/-! ## One call -/

/-- The terminal shows the attributes sent last. -/
structure Pen (f : FontState) (o : Output) : Prop where
  shown : f.concealed = false
  thin : f.bold = false
  look : o.prevAttrValid → f.look = lookOf o.prevAttr

/-- A true colour behind the sequence. `index` and `rgbs` are that such codes are written. -/
theorem rgbOf_repaint {tc p index rgbs : Prop} [Decidable tc] [Decidable p] [Decidable index] [Decidable rgbs]
    {use : Bool} {rgb b now : UInt32} (hwritten : rgbs → tc) (hindex : index → tc → rgbs)
    (hkept : ¬index → rgbOf use rgb = rgbOf (decide p) b ∧ (p → tc))
    (hsame : tc → ¬rgbs → p ∧ b = now) :
    rgbOf (if rgbs then true else if index then false else use) (if rgbs then now else rgb) = rgbOf (decide tc) now := by
  by_cases hrgbs : rgbs
  · rw [if_pos hrgbs, if_pos hrgbs, decide_eq_true (hwritten hrgbs)]
  rw [if_neg hrgbs, if_neg hrgbs]
  by_cases htc : tc
  · obtain ⟨htc', heq⟩ := hsame htc hrgbs
    have hno : ¬index := fun h => hrgbs (hindex h htc)
    rw [if_neg hno, (hkept hno).1, decide_eq_true htc, decide_eq_true htc', heq]
  · rw [decide_eq_false htc]
    by_cases hdrop : index
    · rw [if_pos hdrop]
      rfl
    · rw [if_neg hdrop, (hkept hdrop).1, decide_eq_false fun h => htc ((hkept hdrop).2 h)]
      rfl

/-- A flag behind the sequence. -/
theorem flag_repaint {o : Output} {xa attr : UInt64} (hxa : Changes o xa attr) {F : UInt64} (hF : noAttr &&& F ≠ 0)
    {b : Bool} (hb : o.prevAttrValid → b = decide (o.prevAttr &&& F ≠ 0)) :
    (if xa &&& F ≠ 0 then decide (attr &&& F ≠ 0) else b) = decide (attr &&& F ≠ 0) := by
  split
  · rfl
  · rename_i hkept
    obtain ⟨hvalid, heq⟩ := hxa.same hF (not_not.mp hkept)
    rw [hb hvalid, heq]

section

variable {o : Output} {f : FontState} {xa attr : UInt64} (hpen : Pen f o) (hxa : Changes o xa attr)
include hpen hxa

/-- The indexes behind the sequence. -/
theorem index_repaint : foreIndex (repaint xa o.prevAttr attr f).foreground = attr.toNat % 16 ∧
    backIndex (repaint xa o.prevAttr attr f).background = attr.toNat / 16 % 16 := by
  have hlook : o.prevAttrValid → f.lookIn f.foreground f.useRgbForeground f.rgbForeground = lookOf o.prevAttr :=
    fun hvalid => by rw [← hpen.look hvalid, FontState.look, if_neg (by simp [hpen.shown])]
  constructor
  · show foreIndex (if ForeWritten xa o.prevAttr attr then ansiFore attr else f.foreground) = _
    split
    · exact foreIndex_ansiFore attr
    · rename_i hkept
      obtain ⟨hvalid, heq⟩ := hxa.same (F := 0x000F) (by decide) (not_not.mp (not_or.mp hkept).1)
      have hsame := (field_iff (k := 0) (n := 4) rfl attr o.prevAttr).mp heq
      have hink : foreIndex f.foreground % 8 = o.prevAttr.toNat % 8 := congrArg (fun l => (Look.ink l).val) (hlook hvalid)
      have hbright : (f.bold || decide (8 ≤ foreIndex f.foreground)) = decide (o.prevAttr &&& FOREGROUND_INTENSITY ≠ 0) :=
        congrArg Look.bright (hlook hvalid)
      have hflag := flag_iff (F := FOREGROUND_INTENSITY) (k := 3) rfl o.prevAttr
      rw [hpen.thin, Bool.false_or, decide_eq_decide, hflag] at hbright
      have hlt := foreIndex_lt f.foreground
      omega
  · show backIndex (if BackWritten xa o.prevAttr attr then ansiBack attr else f.background) = _
    split
    · exact backIndex_ansiBack attr
    · rename_i hkept
      obtain ⟨hvalid, heq⟩ := hxa.same (F := 0x00F0) (by decide) (not_not.mp (not_or.mp hkept).1)
      have hsame := (field_iff (k := 4) (n := 4) rfl attr o.prevAttr).mp heq
      have hpaper : backIndex f.background = o.prevAttr.toNat / 16 % 16 :=
        congrArg (fun l => (Look.paper l).val) (hlook hvalid)
      omega

/-- The true colours behind the sequence. -/
theorem rgb_repaint :
    rgbOf (repaint xa o.prevAttr attr f).useRgbForeground (repaint xa o.prevAttr attr f).rgbForeground =
        (lookOf attr).foreRgb ∧
      rgbOf (repaint xa o.prevAttr attr f).useRgbBackground (repaint xa o.prevAttr attr f).rgbBackground =
        (lookOf attr).backRgb := by
  have hlook : o.prevAttrValid → f.lookIn f.foreground f.useRgbForeground f.rgbForeground = lookOf o.prevAttr :=
    fun hvalid => by rw [← hpen.look hvalid, FontState.look, if_neg (by simp [hpen.shown])]
  constructor
  · refine rgbOf_repaint (p := o.prevAttr &&& FOREGROUND_TRUECOLOR ≠ 0) (b := getRgbFore o.prevAttr)
      (fun h => h.1) (fun h htc => ⟨htc, .inr h⟩) (fun hkept => ?_) fun htc hno => ?_
    · obtain ⟨hsame, hdrop⟩ := not_or.mp hkept
      obtain ⟨hvalid, -⟩ := hxa.same (F := 0x000F) (by decide) (not_not.mp hsame)
      exact ⟨congrArg Look.foreRgb (hlook hvalid), fun h hzero => hdrop ⟨h, hzero⟩⟩
    · have hdiffers := (not_or.mp fun h => hno ⟨htc, h⟩).1
      obtain ⟨hrgb, hflag⟩ := not_or.mp hdiffers
      obtain ⟨hvalid, heq⟩ := hxa.same (F := FOREGROUND_TRUECOLOR) (by decide) (not_not.mp hflag)
      exact ⟨heq ▸ htc, hxa.sameFore hvalid (not_not.mp hrgb)⟩
  · refine rgbOf_repaint (p := o.prevAttr &&& BACKGROUND_TRUECOLOR ≠ 0) (b := getRgbBack o.prevAttr)
      (fun h => h.1) (fun h htc => ⟨htc, .inr h⟩) (fun hkept => ?_) fun htc hno => ?_
    · obtain ⟨hsame, hdrop⟩ := not_or.mp hkept
      obtain ⟨hvalid, -⟩ := hxa.same (F := 0x00F0) (by decide) (not_not.mp hsame)
      exact ⟨congrArg Look.backRgb (hlook hvalid), fun h hzero => hdrop ⟨h, hzero⟩⟩
    · have hdiffers := (not_or.mp fun h => hno ⟨htc, h⟩).1
      obtain ⟨hrgb, hflag⟩ := not_or.mp hdiffers
      obtain ⟨hvalid, heq⟩ := hxa.same (F := BACKGROUND_TRUECOLOR) (by decide) (not_not.mp hflag)
      exact ⟨heq ▸ htc, hxa.sameBack hvalid (not_not.mp hrgb)⟩

/-- **The look behind the sequence** is that of the attributes. -/
theorem look_repaint : (repaint xa o.prevAttr attr f).concealed = false ∧ (repaint xa o.prevAttr attr f).bold = false ∧
    (repaint xa o.prevAttr attr f).look = lookOf attr := by
  have hlook : o.prevAttrValid → f.lookIn f.foreground f.useRgbForeground f.rgbForeground = lookOf o.prevAttr :=
    fun hvalid => by rw [← hpen.look hvalid, FontState.look, if_neg (by simp [hpen.shown])]
  obtain ⟨hink, hpaper⟩ := index_repaint hpen hxa
  obtain ⟨hforeRgb, hbackRgb⟩ := rgb_repaint hpen hxa
  have hstrike := flag_repaint hxa (F := COMMON_LVB_STRIKEOUT) (by decide) (b := f.strikeout)
    fun hvalid => congrArg Look.strikeout (hlook hvalid)
  have hunder := flag_repaint hxa (F := COMMON_LVB_UNDERSCORE) (by decide) (b := f.underline)
    fun hvalid => congrArg Look.underline (hlook hvalid)
  have hvideo := flag_repaint hxa (F := COMMON_LVB_REVERSE_VIDEO) (by decide) (b := f.rvideo)
    fun hvalid => congrArg Look.rvideo (hlook hvalid)
  have hshown : (repaint xa o.prevAttr attr f).concealed = false := hpen.shown
  have hthin : (repaint xa o.prevAttr attr f).bold = false := hpen.thin
  refine ⟨hshown, hthin, ?_⟩
  rw [FontState.look, if_neg (by simp [hshown]), FontState.lookIn, hforeRgb, hbackRgb, hthin, Bool.false_or]
  have hflag := flag_iff (F := FOREGROUND_INTENSITY) (k := 3) rfl attr
  rw [lookOf, Look.mk.injEq]
  refine ⟨Fin.ext ?_, decide_eq_decide.mpr ?_, Fin.ext hpaper, rfl, rfl, hstrike, hvideo, hunder⟩
  · show foreIndex _ % 8 = attr.toNat % 8
    omega
  · rw [hink, hflag]
    omega

end

/-- A part of a mask under which nothing is set. -/
theorem and_part {a m F : UInt64} (h : a &&& m = 0) (hF : m &&& F = F) : a &&& F = 0 := by
  rw [← hF, ← UInt64.and_assoc, h, UInt64.zero_and]

theorem or_and_zero {a b F : UInt64} (h : (a ||| b) &&& F = 0) : a &&& F = 0 ∧ b &&& F = 0 := by
  have habsorb : ∀ x y : UInt64, x = (x ||| y) &&& x := fun x y => by
    rw [← UInt64.toBitVec_inj]
    ext i hi
    simp only [UInt64.toBitVec_and, UInt64.toBitVec_or, BitVec.getElem_and, BitVec.getElem_or]
    cases x.toBitVec[i] <;> simp
  have hpart : ∀ x y : UInt64, (x ||| y) &&& F = 0 → x &&& F = 0 := fun x y hzero => by
    rw [habsorb x y, UInt64.and_assoc, UInt64.and_comm x F, ← UInt64.and_assoc, hzero, UInt64.zero_and]
  exact ⟨hpart a b h, hpart b a (UInt64.or_comm a b ▸ h)⟩

/-- **A space that is kept back** shows its own background. -/
theorem sameGround_of_keeps {o : Output} {xa attr : UInt64} (hxa : Changes o xa attr) (h : SpaceKeeps xa o.prevAttr attr) :
    o.prevAttrValid ∧ SameGround (lookOf o.prevAttr) (lookOf attr) := by
  obtain ⟨hground, hrgb, hflags⟩ := h
  obtain ⟨hvalid, hindex⟩ := hxa.same (F := 0x00F0) (by decide) (and_part hground (by decide))
  obtain ⟨-, htc⟩ := hxa.same (F := BACKGROUND_TRUECOLOR) (by decide) (and_part hground (by decide))
  have hflag : ∀ {F : UInt64}, LVB_FLAGS &&& F = F → o.prevAttr &&& F = attr &&& F := fun hF => by
    obtain ⟨ha, hp⟩ := or_and_zero (and_part hflags hF)
    rw [ha, hp]
  refine ⟨hvalid, ⟨Fin.ext ?_, ?_, ?_, ?_, ?_⟩⟩
  · exact ((field_iff (k := 4) (n := 4) rfl attr o.prevAttr).mp hindex).symm
  · show rgbOf (decide (o.prevAttr &&& BACKGROUND_TRUECOLOR ≠ 0)) (getRgbBack o.prevAttr) =
      rgbOf (decide (attr &&& BACKGROUND_TRUECOLOR ≠ 0)) (getRgbBack attr)
    rw [← htc]
    rcases hrgb with hzero | hsame
    · rw [decide_eq_false (not_not.mpr hzero)]
      rfl
    · rw [hxa.sameBack hvalid hsame]
  · exact congrArg (fun x : UInt64 => decide (x ≠ 0)) (hflag (F := COMMON_LVB_STRIKEOUT) (by decide))
  · exact congrArg (fun x : UInt64 => decide (x ≠ 0)) (hflag (F := COMMON_LVB_REVERSE_VIDEO) (by decide))
  · exact congrArg (fun x : UInt64 => decide (x ≠ 0)) (hflag (F := COMMON_LVB_UNDERSCORE) (by decide))

/-- The members that stay, and what the terminal shows after a call -/
structure Shown (s : Output × FontState) : Prop where
  colors : s.1.norgb = false
  noKernel : s.1.kernelTty = false
  pen : Pen s.2 s.1

theorem Shown.call {s : Output × FontState} (h : Shown s) (attr : UInt64) (isSpace : Bool) :
    Shown (call s (attr, isSpace)) ∧ SameGround (TTYOutput.call s (attr, isSpace)).2.look (lookOf attr) ∧
      (isSpace = false → (TTYOutput.call s (attr, isSpace)).2.look = lookOf attr) := by
  obtain ⟨o, f⟩ := s
  have hpen : Pen f o := h.pen
  obtain ⟨xa, hxa⟩ : ∃ xa, Changes o xa attr := ⟨_, rfl⟩
  have hcall : writeUpdatedAttributes o attr isSpace =
      if xa = 0 then (o, [])
      else if isSpace ∧ SpaceKeeps xa o.prevAttr attr then (o, [])
      else
        if updateCodes xa o.prevAttr attr false = [] then (o, [])
        else ({ o with prevAttr := attr, prevAttrValid := true }, VTLog.sequence (updateCodes xa o.prevAttr attr false)) := by
    rw [writeUpdatedAttributes, show o.norgb = false from h.colors, show o.kernelTty = false from h.noKernel, hxa]
    rfl
  have hquiet : writeUpdatedAttributes o attr isSpace = (o, []) → TTYOutput.call (o, f) (attr, isSpace) = (o, f) := by
    intro heq
    rw [TTYOutput.call, heq]
    rfl
  by_cases hzero : xa = 0
  · rw [if_pos hzero] at hcall
    rw [hquiet hcall]
    -- nothing is new
    have hvalid : o.prevAttrValid ∧ attr = o.prevAttr := by
      rw [Changes, hzero] at hxa
      cases hvalid : o.prevAttrValid with
      | false =>
        rw [hvalid, if_neg (by simp)] at hxa
        exact absurd hxa (by decide)
      | true =>
        rw [hvalid, if_pos rfl] at hxa
        exact ⟨rfl, UInt64.xor_eq_zero_iff.mp hxa.symm⟩
    have hlook : f.look = lookOf attr := by rw [hpen.look hvalid.1, hvalid.2]
    exact ⟨h, hlook ▸ SameGround.refl _, fun _ => hlook⟩
  rw [if_neg hzero] at hcall
  by_cases hkeeps : isSpace ∧ SpaceKeeps xa o.prevAttr attr
  · rw [if_pos hkeeps] at hcall
    rw [hquiet hcall]
    obtain ⟨hvalid, hground⟩ := sameGround_of_keeps hxa hkeeps.2
    refine ⟨h, ?_, fun hno => absurd hkeeps.1 (by simp [hno])⟩
    show SameGround f.look (lookOf attr)
    rw [hpen.look hvalid]
    exact hground
  rw [if_neg hkeeps, updateCodes_eq] at hcall
  obtain ⟨hshown, hthin, hlook⟩ := look_repaint hpen hxa
  have hread := interpret_sequence f (updateArgs_lt xa o.prevAttr attr)
  rw [parseArgs_updateArgs] at hread
  by_cases hnone : argBytes (updateArgs xa o.prevAttr attr) = []
  · rw [if_pos hnone] at hcall
    rw [hquiet hcall]
    rw [hnone] at hread
    have hlook' : f.look = lookOf attr := by rw [← hlook, ← hread]; rfl
    exact ⟨h, hlook' ▸ SameGround.refl _, fun _ => hlook'⟩
  · rw [if_neg hnone] at hcall
    have hnext : TTYOutput.call (o, f) (attr, isSpace) =
        ({ o with prevAttr := attr, prevAttrValid := true }, repaint xa o.prevAttr attr f) := by
      rw [TTYOutput.call, hcall, hread]
    rw [hnext]
    exact ⟨⟨h.colors, h.noKernel, hshown, hthin, fun _ => hlook⟩, hlook ▸ SameGround.refl _, fun _ => hlook⟩

/-! ## A session -/

theorem Shown.session : ∀ (calls : List (UInt64 × Bool)) {s : Output × FontState}, Shown s → Shown (session s calls)
  | [], _, h => h
  | c :: calls, _, h => Shown.session calls (h.call c.1 c.2).1

/-- **The terminal understands what it is sent.** After any calls, and one more, it shows the attributes
of that call; where that call was for a space, it shows their background and their flags. -/
theorem attributes_understood (calls : List (UInt64 × Bool)) (attr : UInt64) :
    let start : Output × FontState := ({}, ({} : FontState).parseSuffixM [] 0)
    lookOf (session start (calls ++ [(attr, false)])).2.toConsoleAttributes = lookOf attr ∧
      SameGround (lookOf (session start (calls ++ [(attr, true)])).2.toConsoleAttributes) (lookOf attr) := by
  intro start
  have hstart : Shown start := ⟨rfl, rfl, rfl, rfl, fun h => absurd h (by decide)⟩
  have hsession := hstart.session calls
  have hlast : ∀ c, session start (calls ++ [c]) = call (session start calls) c := fun c => by
    rw [TTYOutput.session, List.foldl_append]
    rfl
  rw [hlast, hlast, lookOf_toConsoleAttributes, lookOf_toConsoleAttributes]
  exact ⟨(hsession.call attr false).2.2 rfl, (hsession.call attr true).2.1⟩

end TTYOutput

end Far2l
