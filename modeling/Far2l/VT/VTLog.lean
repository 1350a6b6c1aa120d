/-
Far2l.VT.VTLog — `VTLog::EncodeLine` of `far/src/vt/vtlog.cpp`, and the text that
`AnsiEsc` reads back.

A line is written as the text of its cells, with a sequence in front of each cell whose
attributes differ from those of the cell before it. `feed` is what a reader does with it:
`AnsiEsc::Parser` and `FontState::ParseSuffixM`, without the sequences that print.
-/
import Far2l.Console.AnsiEsc
import Far2l.Console.ConsoleOutput

namespace Far2l

namespace VTLog

open AnsiEsc VT

/-! ## The encoder -/

/-- `FOREGROUND_RGB` -/
def FOREGROUND_RGB : UInt64 := 0x0007

/-- `BACKGROUND_RGB` -/
def BACKGROUND_RGB : UInt64 := 0x0070

/-- `TranslateForegroundColor` -/
def translateForegroundColor (attributes : UInt64) : UInt8 :=
  (if attributes &&& 0x0004 ≠ 0 then 1 else 0) ||| (if attributes &&& 0x0002 ≠ 0 then 2 else 0)
    ||| (if attributes &&& 0x0001 ≠ 0 then 4 else 0)

/-- `TranslateBackgroundColor` -/
def translateBackgroundColor (attributes : UInt64) : UInt8 :=
  (if attributes &&& 0x0040 ≠ 0 then 1 else 0) ||| (if attributes &&& 0x0020 ≠ 0 then 2 else 0)
    ||| (if attributes &&& 0x0010 ≠ 0 then 4 else 0)

/-- `(DWORD64)-1`: there is no cell before. -/
def noAttr : UInt64 := 0xffffffffffffffff

/-- `%u` -/
def decimal (n : Nat) : List Byte := (Nat.toDigits 10 n).map ch

/-- The code of a true colour. -/
def rgbCode (kind : List Byte) (rgb : UInt32) : List Byte :=
  kind ++ decimal (rgb &&& 0xff).toNat ++ [ch ';'] ++ decimal (rgb >>> 8 &&& 0xff).toNat ++ [ch ';']
    ++ decimal (rgb >>> 16 &&& 0xff).toNat ++ [ch ';']

section
variable (prev now : UInt64)

/-- Is there a code of the intensity? -/
def BoldDiffers : Prop := prev = noAttr ∨ prev &&& FOREGROUND_INTENSITY ≠ now &&& FOREGROUND_INTENSITY

/-- Is there a code of the foreground? -/
def ForeDiffers : Prop :=
  prev = noAttr ∨ (prev &&& FOREGROUND_TRUECOLOR ≠ 0 ∧ now &&& FOREGROUND_TRUECOLOR = 0)
    ∨ prev &&& (FOREGROUND_INTENSITY ||| FOREGROUND_RGB) ≠ now &&& (FOREGROUND_INTENSITY ||| FOREGROUND_RGB)

/-- Is there a code of the background? -/
def BackDiffers : Prop :=
  prev = noAttr ∨ (prev &&& BACKGROUND_TRUECOLOR ≠ 0 ∧ now &&& BACKGROUND_TRUECOLOR = 0)
    ∨ prev &&& (BACKGROUND_INTENSITY ||| BACKGROUND_RGB) ≠ now &&& (BACKGROUND_INTENSITY ||| BACKGROUND_RGB)

/-- Is there a code of a true foreground? -/
def ForeRgbDiffers : Prop :=
  now &&& FOREGROUND_TRUECOLOR ≠ 0 ∧ (prev &&& FOREGROUND_TRUECOLOR = 0 ∨ getRgbFore prev ≠ getRgbFore now)

/-- Is there a code of a true background? -/
def BackRgbDiffers : Prop :=
  now &&& BACKGROUND_TRUECOLOR ≠ 0 ∧ (prev &&& BACKGROUND_TRUECOLOR = 0 ∨ getRgbBack prev ≠ getRgbBack now)

instance : Decidable (BoldDiffers prev now) := inferInstanceAs (Decidable (_ ∨ _))
instance : Decidable (ForeDiffers prev now) := inferInstanceAs (Decidable (_ ∨ _ ∨ _))
instance : Decidable (BackDiffers prev now) := inferInstanceAs (Decidable (_ ∨ _ ∨ _))
instance : Decidable (ForeRgbDiffers prev now) := inferInstanceAs (Decidable (_ ∧ _))
instance : Decidable (BackRgbDiffers prev now) := inferInstanceAs (Decidable (_ ∧ _))

/-- The code of the intensity. -/
def boldCode : List Byte :=
  if now &&& FOREGROUND_INTENSITY ≠ 0 then [ch '1', ch ';'] else [ch '2', ch '2', ch ';']

/-- The code of the foreground. -/
def foreCode : List Byte :=
  [if now &&& FOREGROUND_INTENSITY ≠ 0 then ch '9' else ch '3', ch '0' + translateForegroundColor now, ch ';']

/-- The code of the background. -/
def backCode : List Byte :=
  (if now &&& BACKGROUND_INTENSITY ≠ 0 then [ch '1', ch '0'] else [ch '4'])
    ++ [ch '0' + translateBackgroundColor now, ch ';']

/-- The codes between two cells, each with a `;` behind it. -/
def attrCodes : List Byte :=
  (if BoldDiffers prev now then boldCode now else []) ++ (if ForeDiffers prev now then foreCode now else [])
    ++ (if BackDiffers prev now then backCode now else [])
    ++ (if ForeRgbDiffers prev now then rgbCode [ch '3', ch '8', ch ';', ch '2', ch ';'] (getRgbFore now) else [])
    ++ (if BackRgbDiffers prev now then rgbCode [ch '4', ch '8', ch ';', ch '2', ch ';'] (getRgbBack now) else [])

end

/-- The sequence of some codes, whose last `;` becomes an `m`; there is none without codes. -/
def sequence (codes : List Byte) : List Byte :=
  if codes = [] then [] else [ESC.toUInt8, ch '['] ++ codes.dropLast ++ [ch 'm']

/-- The text of a cell. -/
def cellText (composites : List WStr) (c : CharInfo) : List Byte :=
  if c.unicodeChar &&& COMPOSITE_CHAR_MARK ≠ 0 then
    WideMB.wide2MBUnescapedAppend [] (compositeCharLookup composites c.unicodeChar)
  else if c.unicodeChar > 0x80 then WideMB.wide2MBUnescapedAppend [] [c.unicodeChar.toUInt32]
  else [c.unicodeChar.toUInt8]

/-- The loop of `EncodeLine`. -/
def encodeLoop (composites : List WStr) (colored : Bool) (prev : UInt64) : List CharInfo → List Byte
  | [] => if colored ∧ prev ≠ 0xffff then [ESC.toUInt8, ch '[', ch 'm'] else []
  | c :: cells =>
      if c.unicodeChar = 0 then encodeLoop composites colored prev cells
      else
        let codes := if colored ∧ c.attributes ≠ prev then attrCodes prev c.attributes else []
        sequence codes ++ cellText composites c
          ++ encodeLoop composites colored (if codes = [] then prev else c.attributes) cells

/-- `EncodeLine` -/
def encodeLine (composites : List WStr) (cells : List CharInfo) (colored : Bool) : List Byte :=
  encodeLoop composites colored noAttr cells

/-! ## The reader -/

/-- A text that is printed: each character with the attributes it gets. `skip` characters have been read
ahead. -/
def feed (f : FontState) : (skip : Nat) → WStr → List (WChar × UInt64)
  | _, [] => []
  | skip + 1, _ :: str => feed f skip str
  | 0, c :: str =>
      match parse (c :: str) with
      | some (args, suffix, rest) =>
          feed (if suffix = wch 'm' then f.parseSuffixM args args.length else f) (str.length - rest.length) str
      | none => (c, f.toConsoleAttributes) :: feed f 0 str

/-- The characters of a text. A byte is one: from `0x80` on the parser does not know it. -/
def chars (text : List Byte) : WStr := text.map UInt8.toUInt32

end VTLog

end Far2l
