/-
Far2l.VT.Session — characters that go through the automaton to the console, one
after the other, as `ParseAndPrintString` takes them.

What the automaton asks for is done before it takes the next character. `Safe`
is the condition under which an action keeps the cursor on the screen: a
coordinate is computed as a `SHORT`, and compared with one end of the screen only.
-/
import Far2l.Console.Cursor
import Far2l.Lib.Reach
import Far2l.VT.Terminal

namespace Far2l

namespace VT

/-! ## Characters, one after the other -/

/-- The automaton, what it has asked for, and the terminal. -/
structure Session (Font : Type) where
  parser : Parser := {}
  pending : List Action := []
  terminal : Terminal Font

/-- A step of `ParseAndPrintString`: it takes a character, comes to its end, or does what has been
asked for. -/
inductive Op where
  | char (c : WChar)
  | flush
  | act (fuel : Nat)

namespace Session

variable {Font : Type} (ops : FontOps Font) (cc : CharClasses)

/-- What a step leaves. There is nothing where a call has not come back. -/
def step (s : Option (Session Font)) (op : Op) : Option (Session Font) :=
  s.bind fun S =>
    match op, S.pending with
    | .char c, [] => some { S with parser := (S.parser.parseChar c).1, pending := (S.parser.parseChar c).2 }
    | .flush, [] => some { S with pending := [.flushBuffer S.parser.crm] }
    | .act fuel, action :: rest =>
        (S.terminal.perform ops cc fuel action).map fun T => { S with pending := rest, terminal := T }
    | _, _ => some S

end Session

/-! ## Sequences that keep the cursor on the screen -/

namespace Terminal

variable {Font : Type} (T : Terminal Font)

/-- The coordinate that a sequence computes is not over the end of the screen that it is not
compared with. -/
def Lands (suffix : Byte) (n : Int) : Prop :=
  let cursor := T.info.cursorPosition
  let size := T.info.size
  if suffix = ch 'k' ∨ suffix = ch 'A' ∨ suffix = ch 'F' then short (cursor.y - n) < size.y
  else if suffix = ch 'e' ∨ suffix = ch 'B' ∨ suffix = ch 'E' then 0 ≤ short (cursor.y + n)
  else if suffix = ch 'a' ∨ suffix = ch 'C' then 0 ≤ short (cursor.x + n)
  else if suffix = ch 'j' ∨ suffix = ch 'D' then short (cursor.x - n) ≤ size.x + 1
  else if suffix = ch 'I' then 0 ≤ short (cursor.x - cursor.x % 8 + n * 8)
  else if suffix = ch 'Z' then
    (if cursor.x % 8 = 0 then short (cursor.x - n * 8)
      else short (cursor.x - cursor.x % 8 - (n - 1) * 8)) ≤ size.x + 1
  else True

instance (suffix : Byte) (n : Int) : Decidable (T.Lands suffix n) := by
  unfold Lands
  infer_instance

/-- The place that the other screen goes back to is on the screen. -/
def Recalled (pos : Coord) : Prop := 0 ≤ pos.x ∧ 0 ≤ pos.y ∧ pos.y < T.info.size.y

instance (pos : Coord) : Decidable (T.Recalled pos) := inferInstanceAs (Decidable (_ ∧ _))

/-- A sequence without a second letter in front. -/
def SafeSuffix (p : Parser) : Prop :=
  let q := p.interpretSuffix.1
  if p.suffix = ch 'u' then
    p.esArgc = 0 → 0 ≤ T.savedPos.x ∧ 0 ≤ short (T.savedPos.y + T.info.window.top)
  else if p.suffix ∈ Parser.counted then q.esArgc = 1 → T.Lands p.suffix (q.arg 0)
  else True

instance (p : Parser) : Decidable (T.SafeSuffix p) := by
  unfold SafeSuffix
  infer_instance

/-- The screen that `ESC[?1049h` or `ESC[?1049l` shows again. -/
def SafeModes (p : Parser) : Prop :=
  1049 ∈ p.esArgv.take p.esArgc → T.alternative ≠ decide (p.suffix = ch 'h') →
    ∀ other ∈ T.other, T.Recalled other.info.cursorPosition

instance (p : Parser) : Decidable (T.SafeModes p) := by
  unfold SafeModes
  infer_instance

/-- **The action keeps the cursor on the screen.** -/
def Safe : Action → Prop
  | .interpretEscSeq p =>
      p.prefix1 = ch '[' →
        if p.prefix2 = ch '?' ∧ (p.suffix = ch 'h' ∨ p.suffix = ch 'l') then T.SafeModes p
        else p.prefix2 = 0 → T.SafeSuffix p
  | .reverseIndex => T.info.cursorPosition.y = 0 → T.console.scrollRegionTop ≤ 0
  | .restoreCursor => T.console.Within T.saveCursorInfo
  | _ => True

instance (action : Action) : Decidable (T.Safe action) := by
  unfold Safe
  split <;> infer_instance

end Terminal

namespace Session

variable {Font : Type}

/-- The cursor is on the screen, or up to two columns behind it. -/
def OnScreen (S : Session Font) : Prop := S.terminal.console.Within S.terminal.console.cursorPos

instance (S : Session Font) : Decidable S.OnScreen :=
  inferInstanceAs (Decidable (ConsoleOutput.Within _ _))

/-- The step keeps the cursor on the screen. -/
def Careful (s : Option (Session Font)) (op : Op) : Prop :=
  match op with
  | .act _ => ∀ S ∈ s, ∀ action ∈ S.pending.head?, S.terminal.Safe action
  | _ => True

instance (s : Option (Session Font)) (op : Op) : Decidable (Careful s op) := by
  unfold Careful
  split <;> infer_instance

end Session

end VT

end Far2l
