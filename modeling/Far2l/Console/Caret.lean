/-
Far2l.Console.Caret — the column and the row of a writing, counted character by
character: no cells, and a tabulator in one step.

A character has no next caret where the loop of `ModifySequenceAt` would not get
past it, or where a column or a row would be greater than a `SHORT` can be.
-/
import Far2l.Console.ConsoleOutput

namespace Far2l

/-- What the caret depends on. -/
structure Screen where
  width : Nat
  height : Nat
  edge : Nat
  wrap : Bool
  processed : Bool
  deriving DecidableEq, Repr

/-- A column and a row; `joined` tells whether there is a character before, which a mark behind it
belongs to. -/
structure Caret where
  x : Int
  y : Int
  joined : Bool
  deriving DecidableEq, Repr

namespace Screen

variable (cc : CharClasses) (M : Screen)

/-- The next row, or the same one where the text is scrolled. -/
def down (k : Caret) : Option Caret :=
  if k.y = 32767 then none
  else some { k with y := if k.y + 1 ≥ M.edge then k.y else k.y + 1 }

/-- Does the character go to the next row behind the last column? -/
def wraps (c : WChar) : Bool := M.wrap && (!M.processed || (c ≠ CR && c ≠ LF))

/-- The caret in front of the margin. -/
def settle (c : WChar) (k : Caret) : Option Caret :=
  if k.x < M.width then some k
  else if M.wraps c then M.down { k with x := 0 }
  else some { k with x := M.width - 1 }

/-- A number of columns further. -/
def forward (k : Caret) (n : Int) : Option Caret :=
  if k.x + n ≤ 32767 then some ⟨k.x + n, k.y, true⟩ else none

/-- The next multiple of 8. -/
def nextStop (x : Int) : Int := 8 * (x / 8 + 1)

/-- A tabulator goes to the next stop, in the next row where there is none in this one. Without
wrapping there is no next one. -/
def tab (k : Caret) : Option Caret :=
  if nextStop k.x ≤ M.width then
    if nextStop k.x ≤ 32767 then some ⟨nextStop k.x, k.y, true⟩ else none
  else if M.wrap then (M.down k).map fun k => ⟨8, k.y, true⟩
  else none

/-- The number of columns of a character. -/
def columns (c : WChar) (joined : Bool) : Int :=
  if cc.isPrefix c ∨ (joined ∧ cc.suffix c) then 0 else if cc.fullWidth c then 2 else 1

/-- A character in front of the margin. -/
def put (c : WChar) (k : Caret) : Option Caret :=
  if c = 0x08 ∧ M.processed then some { k with x := if k.x > 0 then k.x - 1 else k.x }
  else if c = CR ∧ M.processed then some { k with x := 0 }
  else if c = LF ∧ M.processed then M.down k
  else if c = TAB ∧ M.processed then M.tab k
  else forward k (columns cc c k.joined)

/-- A character. -/
def advance (k : Caret) (c : WChar) : Option Caret :=
  if c = 0x07 ∧ M.processed then some k else (M.settle c k).bind (M.put cc c)

/-- The caret behind a string. -/
def advances (k : Caret) (str : WStr) : Option Caret := str.foldlM (M.advance cc) k

/-- The caret is on the screen, or up to two columns behind it. -/
def Contains (k : Caret) : Prop := 0 ≤ k.x ∧ k.x ≤ M.width + 1 ∧ 0 ≤ k.y ∧ k.y < M.height

instance (k : Caret) : Decidable (M.Contains k) := inferInstanceAs (Decidable (_ ∧ _))

end Screen

/-- What the caret depends on, of a console. -/
def ConsoleOutput.screen (O : ConsoleOutput) : Screen :=
  ⟨O.buf.width, O.buf.height, O.scrollEdge, O.wrapAtEol, O.processed⟩

namespace Writing

/-- The caret of a writing. -/
def caret (W : Writing) : Caret := ⟨W.pos.x, W.pos.y, W.out.prevPos.x ≥ 0⟩

/-- The position is on the screen, or up to two columns behind it. -/
def InScreen (W : Writing) : Prop := W.out.screen.Contains W.caret

/-- The loop of `ModifySequenceAt` ends: every character has been consumed, no copy has left the
screen, and the position was on the screen after every turn. -/
inductive Ends (cc : CharClasses) : Writing → Prop where
  | done {W : Writing} (hin : W.InScreen) (hcount : W.sm.count = 0) : Ends cc W
  | turn {W W' : Writing} (hin : W.InScreen) (hcount : W.sm.count ≠ 0)
      (hturn : W.turn cc = some W') (hends : Ends cc W') : Ends cc W

end Writing

end Far2l
