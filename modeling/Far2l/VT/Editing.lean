/-
Far2l.VT.Editing — what the sequences that shift lines and characters are for:
`ESC[#S`, `ESC[#T`, `ESC[#L`, `ESC[#M`, `ESC[#P`, `ESC[#@` and `ESC[#X`.

The reference knows of no rectangles: a cell of the part that is shifted holds
what was a number of places before it, or behind it, or is blank. `Exact` says
where the terminal does the same.
-/
import Far2l.Console.ScrollTheorems
import Far2l.VT.Terminal

namespace Far2l

namespace VT

/-! ## Shifts -/

/-- The place a cell comes from when the places from `first` to `last` are shifted towards `first`;
`none` where they become blank. -/
def pulled (first last n i : Nat) : Option Nat :=
  if first ≤ i ∧ i ≤ last then
    if i + min n (last + 1 - first) ≤ last then some (i + min n (last + 1 - first)) else none
  else some i

/-- The place a cell comes from when the places from `first` to `last` are shifted towards `last`. -/
def pushed (first last n i : Nat) : Option Nat :=
  if first ≤ i ∧ i ≤ last then
    if first + min n (last + 1 - first) ≤ i then some (i - min n (last + 1 - first)) else none
  else some i

/-! ## The sequences -/

/-- The sequences that shift lines and characters. -/
inductive Editing where
  | eraseChars
  | insertLines
  | scrollUp
  | scrollDown
  | deleteLines
  | deleteChars
  | insertChars
  deriving DecidableEq, Repr

/-- The screen, the rows of the scroll region, and the cursor. -/
structure Geometry where
  width : Nat
  height : Nat
  first : Nat
  last : Nat
  column : Nat
  row : Nat
  deriving DecidableEq, Repr

/-- The cursor is in the region, and the region is on the screen. -/
structure Geometry.Valid (G : Geometry) : Prop where
  width : G.width ≤ 32767
  height : G.height ≤ 32767
  region : G.last < G.height
  column : G.column < G.width
  row : G.first ≤ G.row ∧ G.row ≤ G.last

namespace Editing

/-- The letter of a sequence. -/
def letter : Editing → Byte
  | eraseChars => ch 'X'
  | insertLines => ch 'L'
  | scrollUp => ch 'S'
  | scrollDown => ch 'T'
  | deleteLines => ch 'M'
  | deleteChars => ch 'P'
  | insertChars => ch '@'

/-- The parser asks for the sequence with the argument `n`. -/
structure Asks (e : Editing) (p : Parser) (n : Nat) : Prop where
  prefix1 : p.prefix1 = ch '['
  prefix2 : p.prefix2 = 0
  suffix : p.suffix = e.letter
  argc : (p.oneArg 1).esArgc = 1
  argv : (p.oneArg 1).arg 0 = n

/-- Shifted lines of a screen. -/
def lines (source : Nat → Option Nat) (blank : CharInfo) (old : Nat → Nat → Option CharInfo)
    (x y : Nat) : Option CharInfo :=
  (source y).elim (some blank) (old x)

/-- Shifted characters of a row. -/
def chars (row : Nat) (source : Nat → Option Nat) (blank : CharInfo)
    (old : Nat → Nat → Option CharInfo) (x y : Nat) : Option CharInfo :=
  if y = row then (source x).elim (some blank) fun x => old x y else old x y

/-- **The reference**: the cells behind a sequence, from those in front of it. -/
def reference (G : Geometry) (n : Nat) (blank : CharInfo) (old : Nat → Nat → Option CharInfo) :
    Editing → Nat → Nat → Option CharInfo
  | scrollUp => lines (pulled G.first G.last n) blank old
  | scrollDown => lines (pushed G.first G.last n) blank old
  | insertLines => lines (pushed G.row G.last n) blank old
  | deleteLines => lines (pulled G.row G.last n) blank old
  | deleteChars => chars G.row (pulled G.column (G.width - 1) n) blank old
  | insertChars => chars G.row (pushed G.column (G.width - 1) n) blank old
  | eraseChars => fun x y =>
      if y = G.row ∧ G.column ≤ x ∧ x < G.column + min n (G.width - G.column) then some blank
      else old x y

/-- Where the terminal does what the reference does, whatever is on the screen. Beside the shifts by
at most half of the places, and by more than half where the source is filled as a whole, these are
numbers that leave the screen as a `SHORT`. -/
def Exact (G : Geometry) (n : Nat) : Editing → Prop
  | eraseChars => G.column + n ≤ G.width ∨ G.column = 0 ∧ G.first = G.last
  | insertLines =>
      if G.row + n ≤ G.last then G.last + n ≤ 32767
      else G.last < short (G.row + n) ∨ short (G.last + n) < G.first
  | scrollUp =>
      0 ≤ short n ∧ (short n = n ∧ 2 * n ≤ G.last + 1
        ∨ short n ≤ G.first ∧ (short n = n ∨ G.last - short n < G.first))
  | scrollDown => 2 * n + G.first ≤ G.last + 1
  | deleteLines =>
      G.row + n ≤ G.last ∨ G.last < short ((G.row : Int) - n) ∨ short ((G.last : Int) - n) < G.row
  | deleteChars =>
      2 * n + G.column ≤ G.width
        ∨ short (G.column + n) ≤ G.column ∧ G.width - short (G.column + n) ≤ 32767
          ∧ 32767 < G.column + (G.width - 1 - short (G.column + n))
  | insertChars =>
      if G.column + n < G.width then G.width - 1 + n ≤ 32767
      else (G.width : Int) - 1 < short (G.column + n) ∨ short (G.width - 1 + n) < G.column

end Editing

namespace Terminal

variable {Font : Type}

/-- The terminal has the geometry. -/
structure At (T : Terminal Font) (G : Geometry) : Prop where
  sized : T.console.buf.Sized G.height
  width : T.console.buf.width = G.width
  region : T.console.RegionOk
  first : (G.first : Int) = max 0 T.console.scrollRegionTop
  last : (G.last : Int) = min ((G.height : Int) - 1) T.console.scrollRegionBottom
  cursor : T.console.cursorPos = ⟨G.column, G.row⟩

/-- The cells behind a sequence are those of the reference. -/
def Shifts (T : Terminal Font) (G : Geometry) (e : Editing) (n : Nat) (T' : Option (Terminal Font)) :
    Prop :=
  ∃ T1, T' = some T1 ∧ T.console.buf.SameSize T1.console.buf
    ∧ ∀ x y, x < G.width → y < G.height →
      T1.console.buf.cell x y = e.reference G n T.blank T.console.buf.cell x y

end Terminal

end VT

end Far2l
