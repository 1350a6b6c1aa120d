/-
Far2l.Console.AnsiEsc — `AnsiEsc::FontState` and `AnsiEsc::Parser` of
`far/src/console/AnsiEsc.cpp`: sequences that set the attributes of text, and the
attributes of the console that they stand for.

The low word of an attribute is two indexes of colours and some flags; above it
are two true colours of 24 bits each. A colour of the ANSI sequences has red as
its lowest bit, one of the console blue.
-/
import Far2l.VT.Parser

namespace Far2l

/-! ## Attributes of the console -/

def FOREGROUND_INTENSITY : UInt64 := 0x0008
def BACKGROUND_INTENSITY : UInt64 := 0x0080
def FOREGROUND_TRUECOLOR : UInt64 := 0x0100
def BACKGROUND_TRUECOLOR : UInt64 := 0x0200
def COMMON_LVB_STRIKEOUT : UInt64 := 0x2000
def COMMON_LVB_REVERSE_VIDEO : UInt64 := 0x4000
def COMMON_LVB_UNDERSCORE : UInt64 := 0x8000

/-- `GET_RGB_FORE` -/
def getRgbFore (attr : UInt64) : UInt32 := (attr >>> 16 &&& 0xffffff).toUInt32

/-- `GET_RGB_BACK` -/
def getRgbBack (attr : UInt64) : UInt32 := (attr >>> 40 &&& 0xffffff).toUInt32

/-- `SET_RGB_FORE` -/
def setRgbFore (attr : UInt64) (rgb : UInt32) : UInt64 :=
  attr &&& 0xffffff000000ffff ||| FOREGROUND_TRUECOLOR ||| (rgb.toUInt64 &&& 0xffffff) <<< (16 : UInt64)

/-- `SET_RGB_BACK` -/
def setRgbBack (attr : UInt64) (rgb : UInt32) : UInt64 :=
  attr &&& 0x000000ffffffffff ||| BACKGROUND_TRUECOLOR ||| (rgb.toUInt64 &&& 0xffffff) <<< (40 : UInt64)

/-- `SET_RGB_BOTH` -/
def setRgbBoth (attr : UInt64) (fore back : UInt32) : UInt64 :=
  attr &&& 0xffff ||| FOREGROUND_TRUECOLOR ||| BACKGROUND_TRUECOLOR ||| (fore.toUInt64 &&& 0xffffff) <<< (16 : UInt64)
    ||| (back.toUInt64 &&& 0xffffff) <<< (40 : UInt64)

/-- `COMPOSE_RGB` -/
def composeRgb (r g b : UInt32) : UInt32 := r ||| g <<< 8 ||| b <<< 16

/-- `g_VT256ColorTable`: a cube of six levels of each colour, and the greys. -/
def gVT256ColorTable : List UInt32 :=
  let levels : List UInt32 := [0, 95, 135, 175, 215, 255]
  (levels.flatMap fun r => levels.flatMap fun g => levels.map fun b => composeRgb r g b)
    ++ (List.range 24).map fun i =>
      let grey := UInt32.ofNat (8 + 10 * i)
      composeRgb grey grey grey

namespace AnsiEsc

/-- `g_palette_foreground` -/
def gPaletteForeground : List UInt8 :=
  [0x0, 0x4, 0x2, 0x6, 0x1, 0x5, 0x3, 0x7, 0x8, 0xC, 0xA, 0xE, 0x9, 0xD, 0xB, 0xF]

/-- `g_palette_background` -/
def gPaletteBackground : List UInt8 :=
  [0x00, 0x40, 0x20, 0x60, 0x10, 0x50, 0x30, 0x70, 0x80, 0xC0, 0xA0, 0xE0, 0x90, 0xD0, 0xB0, 0xF0]

/-- `Attr2Ansi` -/
def attr2Ansi : List UInt8 := [0, 4, 2, 6, 1, 5, 3, 7]

/-! ## `FontState` -/

/-- `FontState` -/
structure FontState where
  foreground : UInt8 := 0
  background : UInt8 := 0
  bold : Bool := false
  underline : Bool := false
  strikeout : Bool := false
  rvideo : Bool := false
  concealed : Bool := false
  useRgbForeground : Bool := false
  useRgbBackground : Bool := false
  rgbForeground : UInt32 := 0
  rgbBackground : UInt32 := 0
  deriving DecidableEq, Repr

/-- An argument that is stored in a `DWORD`. -/
def dwordArg (v : Int) : UInt32 := UInt32.ofNat (v % 4294967296).toNat

namespace FontState

variable (f : FontState)

/-- An indexed foreground. -/
def setForeground (index : UInt8) : FontState := { f with foreground := index, useRgbForeground := false }

/-- An indexed background. -/
def setBackground (index : UInt8) : FontState := { f with background := index, useRgbBackground := false }

/-- A colour of `38` or `48` that is a true colour, unless it is `(DWORD)-1`. -/
def setRgb (a : Int) (rgb : UInt32) : FontState :=
  if rgb = 0xffffffff then f
  else if a = 38 then { f with useRgbForeground := true, rgbForeground := rgb }
  else { f with useRgbBackground := true, rgbBackground := rgb }

/-- A colour of `38;5` or `48;5`. -/
def setIndexed (a : Int) (colorIndex : UInt32) : FontState :=
  if colorIndex < 16 then
    if a = 38 then f.setForeground colorIndex.toUInt8 else f.setBackground colorIndex.toUInt8
  else match gVT256ColorTable[(colorIndex - 16).toNat]? with
    | some rgb => f.setRgb a rgb
    | none => f

/-- `0`, `39` and `49`: the colours that are set back. -/
def resetColors (fore back : Bool) : FontState :=
  let f := { f with rvideo := false }
  let f := if fore then { f with foreground := 7, useRgbForeground := false, rgbForeground := 0 } else f
  if back then { f with background := 0, useRgbBackground := false, rgbBackground := 0 } else f

/-- The arguments without a colour. -/
def setStyle (a : Int) : FontState :=
  if a = 0 then
    ({ f with rvideo := false, concealed := false, bold := false, underline := false,
              strikeout := false }).resetColors true true
  else if a = 39 then f.resetColors true false
  else if a = 49 then f.resetColors false true
  else if a = 1 then { f with bold := true }
  else if a = 5 ∨ a = 4 then { f with underline := true }
  else if a = 7 then { f with rvideo := true }
  else if a = 8 then { f with concealed := true }
  else if a = 9 then { f with strikeout := true }
  else if a = 21 ∨ a = 22 then { f with bold := false }
  else if a = 25 ∨ a = 24 then { f with underline := false }
  else if a = 27 then { f with rvideo := false }
  else if a = 28 then { f with concealed := false }
  else if a = 29 then { f with strikeout := false }
  else f

/-- The body of the loop of `ParseSuffixM`, in front of the rest of the arguments: the state, and how
many arguments are skipped. -/
def parseArg (a : Int) (rest : List Int) : FontState × Nat :=
  if 30 ≤ a ∧ a ≤ 37 then (f.setForeground (a - 30).toNat.toUInt8, 0)
  else if 90 ≤ a ∧ a ≤ 97 then (f.setForeground ((a - 90).toNat + 8).toUInt8, 0)
  else if 40 ≤ a ∧ a ≤ 47 then (f.setBackground (a - 40).toNat.toUInt8, 0)
  else if 100 ≤ a ∧ a ≤ 107 then (f.setBackground ((a - 100).toNat + 8).toUInt8, 0)
  else if a = 38 ∨ a = 48 then
    if 4 ≤ rest.length ∧ rest.getD 0 0 = 2 then
      (f.setRgb a (dwordArg (rest.getD 1 0) ||| dwordArg (rest.getD 2 0) <<< 8 ||| dwordArg (rest.getD 3 0) <<< 16), 4)
    else if 2 ≤ rest.length ∧ rest.getD 0 0 = 5 then (f.setIndexed a (dwordArg (rest.getD 1 0)), 2)
    else (f, 0)
  else (f.setStyle a, 0)

/-- The loop of `ParseSuffixM`; `skip` arguments have been read ahead. -/
def parseArgs (f : FontState) : (skip : Nat) → List Int → FontState
  | _, [] => f
  | skip + 1, _ :: rest => parseArgs f skip rest
  | 0, a :: rest => parseArgs (f.parseArg a rest).1 (f.parseArg a rest).2 rest

/-- `ParseSuffixM` -/
def parseSuffixM (args : List Int) (argc : Nat) : FontState :=
  f.parseArgs 0 (if argc = 0 then [0] else args.take argc)

/-- `FromConsoleAttributes` -/
def fromConsoleAttributes (attributes : UInt64) : FontState :=
  let f := { f with
    bold := attributes &&& FOREGROUND_INTENSITY ≠ 0
    underline := attributes &&& COMMON_LVB_UNDERSCORE ≠ 0
    strikeout := attributes &&& COMMON_LVB_STRIKEOUT ≠ 0
    rvideo := attributes &&& COMMON_LVB_REVERSE_VIDEO ≠ 0
    foreground := attr2Ansi.getD (attributes &&& 7).toNat 0
    background := attr2Ansi.getD (attributes >>> 4 &&& 7).toNat 0
    useRgbForeground := attributes &&& FOREGROUND_TRUECOLOR ≠ 0
    useRgbBackground := attributes &&& BACKGROUND_TRUECOLOR ≠ 0 }
  { f with
    rgbForeground := if f.useRgbForeground then getRgbFore attributes else f.rgbForeground
    rgbBackground := if f.useRgbBackground then getRgbBack attributes else f.rgbBackground }

/-- The colours of `ToConsoleAttributes`. -/
def colors : UInt64 :=
  let background := gPaletteBackground.getD f.background.toNat 0
  if f.concealed then
    let attr := (gPaletteForeground.getD f.background.toNat 0 ||| background).toUInt64
    if f.useRgbBackground then setRgbBoth attr f.rgbBackground f.rgbBackground else attr
  else
    let attr := (gPaletteForeground.getD f.foreground.toNat 0 ||| background).toUInt64
    let attr := if f.useRgbForeground then setRgbFore attr f.rgbForeground else attr
    if f.useRgbBackground then setRgbBack attr f.rgbBackground else attr

/-- `ToConsoleAttributes` -/
def toConsoleAttributes : UInt64 :=
  let attr := f.colors
  let attr := if f.bold then attr ||| FOREGROUND_INTENSITY else attr
  let attr := if f.rvideo then attr ||| COMMON_LVB_REVERSE_VIDEO else attr
  let attr := if f.underline then attr ||| COMMON_LVB_UNDERSCORE else attr
  if f.strikeout then attr ||| COMMON_LVB_STRIKEOUT else attr

end FontState

/-! ## `Parser` -/

/-- The loop of `Parser::Parse`, over what is behind the bracket: the arguments, the suffix and the text
behind it. -/
def parseLoop (args : List Int) (a : Int) : WStr → Option (List Int × WChar × WStr)
  | [] => none
  | c :: str =>
      if c = VT.wch ';' then parseLoop (args ++ [a]) 0 str
      else if VT.wch 'a' ≤ c ∧ c ≤ VT.wch 'z' ∨ VT.wch 'A' ≤ c ∧ c ≤ VT.wch 'Z' then some (args ++ [a], c, str)
      else if VT.wch '0' ≤ c ∧ c ≤ VT.wch '9' then
        parseLoop args (VT.int (VT.int (a * 10) + ((c.toNat : Int) - 48))) str
      else none

/-- `Parser::Parse` -/
def parse : WStr → Option (List Int × WChar × WStr)
  | c :: d :: str => if c = VT.ESC ∧ d = VT.wch '[' then parseLoop [] 0 str else none
  | _ => none

end AnsiEsc

end Far2l
