/-
Far2l.Base.FARString — the reference-counted string: `far/src/base/FARString.cpp`
and `FARString.hpp`.

A memory has the contents that are allocated, at their addresses, and the variables,
each with the address of the content it holds. A freed content is not there any more,
and an address is not given out twice. Where an assertion fails or something reads a
content that is not there, there is no result. Allocations succeed. What has been
converted from or to another code page is handed over as it comes out.
-/
import Far2l.Lib.Cells
import Far2l.Utils.Chars
import Mathlib.Logic.Function.Basic

namespace Far2l.Base

/-! ## Contents -/

/-- A cell of a buffer, where nothing has been written so far: `none`. -/
abbrev Cell : Type := Option WChar

/-- What a string is. -/
abbrev Value : Type := List Cell

def NUL : Cell := some 0

/-- `std::numeric_limits<unsigned int>::max()` -/
def UINT_MAX : Nat := 2 ^ 32 - 1

/-- `FARString::Content` -/
structure Content where
  refCount : Nat
  capacity : Nat
  length : Nat
  data : Cells Cell

/-- The characters of a content. -/
def Content.value (c : Content) : Value := c.data.slice 0 c.length

/-- `Content::SetLength` -/
def Content.setLength (c : Content) (nLength : Nat) : Content :=
  { c with length := min nLength c.capacity, data := c.data.write (min nLength c.capacity) [NUL] }

/-- Characters are written into a content. -/
def Content.write (c : Content) (pos : Nat) (chars : Value) : Content :=
  { c with data := c.data.write pos chars }

/-- `sEmptyData`: all its fields are zero. -/
def sEmptyData : Content := ⟨0, 0, 0, fun _ => NUL⟩

/-- What `malloc` and `Create` make of a content that is not empty. -/
def Content.fresh (nCapacity : Nat) : Content :=
  { refCount := 1
    capacity := min nCapacity UINT_MAX
    length := 0
    data := Cells.write (fun _ => none) 0 [NUL] }

/-! ## The memory -/

/-- The contents, the first address that has not been given out, and each variable's `m_pContent`;
a variable that is destroyed has none. -/
structure Memory where
  contents : Nat → Option Content
  next : Nat
  vars : List (Option Nat)

/-- `EmptySingleton` -/
def emptySingleton : Nat := 0

/-- Before there are any variables. -/
def Memory.start : Memory where
  contents := Function.update (fun _ => none) emptySingleton (some sEmptyData)
  next := 1
  vars := []

/-- Where the characters come from that a method is given: from elsewhere, or from a string. -/
inductive Source where
  | elsewhere (chars : List WChar)
  | within (y offset len : Nat)
deriving DecidableEq

namespace Memory

variable (m : Memory)

/-- A variable's content, and where it is. -/
def content (x : Nat) : Option (Nat × Content) :=
  match m.vars[x]? with
  | some (some p) => (m.contents p).map (p, ·)
  | _ => none

def modify (p : Nat) (f : Content → Content) : Memory :=
  { m with contents := Function.update m.contents p ((m.contents p).map f) }

/-- `m_pContent` is assigned. -/
def assign (x p : Nat) : Memory := { m with vars := m.vars.set x (some p) }

/-- `Content::Create` -/
def create (nCapacity : Nat) : Nat × Memory :=
  if nCapacity = 0 then (emptySingleton, m)
  else (m.next, { m with
    contents := Function.update m.contents m.next (some (Content.fresh nCapacity))
    next := m.next + 1 })

/-- `Content::Create`, from characters. -/
def createFrom (nCapacity : Nat) (src : Value) : Nat × Memory :=
  let (out, m) := m.create nCapacity
  let len := min (min nCapacity src.length) UINT_MAX
  (out, m.modify out fun c => { (c.write 0 (src.take len)).write len [NUL] with length := len })

/-- `Content::AddRef` -/
def addRef (p : Nat) : Memory :=
  m.modify p fun c => if c.capacity ≠ 0 then { c with refCount := (c.refCount + 1) % 2 ^ 32 } else c

/-- `Content::Destroy` -/
def destroy (p : Nat) : Option Memory :=
  if p = emptySingleton then none
  else some { m with contents := Function.update m.contents p none }

/-- `Content::DecRef` -/
def decRef (p : Nat) : Option Memory :=
  match m.contents p with
  | none => none
  | some c =>
      if c.refCount = 0 then some m
      else if c.refCount ≠ 1 ∧ c.refCount - 1 ≠ 0 then
        some (m.modify p fun c => { c with refCount := c.refCount - 1 })
      else m.destroy p

/-- `m_pContent` is replaced by another content, and what it has been is let go. -/
def renew (x p pNewData : Nat) : Option Memory :=
  (m.decRef p).map (·.assign x pNewData)

/-- `FARString::PrepareForModify` -/
def prepareForModify (x nCapacity : Nat) : Option Memory :=
  match m.content x with
  | none => none
  | some (p, c) =>
      if c.refCount ≠ 1 ∨ nCapacity > c.capacity then
        let newCapacity :=
          if c.capacity > 0 ∧ nCapacity > c.capacity then nCapacity + max (nCapacity - c.capacity) 16
          else nCapacity
        let (pNewData, m) := m.createFrom newCapacity c.value
        (m.modify pNewData (·.setLength c.length)).renew x p pNewData
      else some m

/-! ## Replacing -/

/-- The characters that are given. -/
def read : Source → Option Value
  | .elsewhere chars => some (chars.map some)
  | .within y offset len => (m.content y).map fun (_, c) => c.data.slice offset len

/-- `Data >= CPtr() && Data < CEnd()`, for the content at `p` -/
def dataStartsInside (p : Nat) (c : Content) : Source → Prop
  | .elsewhere _ => False
  | .within y offset _ => m.vars[y]? = some (some p) ∧ offset < c.length

/-- `Data + DataLen > CPtr() && Data + DataLen <= CEnd()` -/
def dataEndsInside (p : Nat) (c : Content) : Source → Prop
  | .elsewhere _ => False
  | .within y offset len => m.vars[y]? = some (some p) ∧ 0 < offset + len ∧ offset + len ≤ c.length

instance (p : Nat) (c : Content) : (src : Source) → Decidable (m.dataStartsInside p c src)
  | .elsewhere _ => inferInstanceAs (Decidable False)
  | .within _ _ _ => inferInstanceAs (Decidable (_ ∧ _))

instance (p : Nat) (c : Content) : (src : Source) → Decidable (m.dataEndsInside p c src)
  | .elsewhere _ => inferInstanceAs (Decidable False)
  | .within _ _ _ => inferInstanceAs (Decidable (_ ∧ _))

/-- What the two `Replace` methods do once their arguments have been checked. -/
def replaceChecked (x pos len : Nat) (data : Value) (inside : Prop) [Decidable inside] : Option Memory :=
  match m.content x with
  | none => none
  | some (p, c) =>
      if len = 0 ∧ data.length = 0 then some m
      else
        let newLength := c.length + data.length - len
        let rest := c.data.slice (pos + len) (c.length - pos - len)
        if ¬ inside ∧ c.refCount = 1 ∧ newLength ≤ c.capacity then
          some (m.modify p fun c => ((c.write (pos + data.length) rest).write pos data).setLength newLength)
        else
          let (newData, m) := m.create newLength
          let m := m.modify newData fun cNew =>
            ((cNew.write 0 (c.data.slice 0 pos)).write pos data).write (pos + data.length) rest
          (m.renew x p newData).map (·.modify newData (·.setLength newLength))

/-- `FARString::Replace` by characters; a failed assertion aborts. -/
def replace (x pos len : Nat) (src : Source) : Option Memory :=
  match m.content x, m.read src with
  | some (p, c), some data =>
      if pos ≤ c.length ∧ len ≤ c.length ∧ pos + len ≤ c.length then
        if m.dataStartsInside p c src ↔ m.dataEndsInside p c src then
          m.replaceChecked x pos len data (m.dataStartsInside p c src)
        else none
      else none
  | _, _ => none

/-- `FARString::Replace` by one character, again and again. -/
def replaceCh (x pos len : Nat) (ch : WChar) (count : Nat) : Option Memory :=
  match m.content x with
  | none => none
  | some (_, c) =>
      if pos ≤ c.length ∧ len ≤ c.length ∧ pos + len ≤ c.length then
        m.replaceChecked x pos len (List.replicate count (some ch)) False
      else none

/-- `FARString::GetLength` -/
def getLength (x : Nat) : Nat := ((m.content x).map (·.2.length)).getD 0

/-- `FARString::Append` -/
def append (x : Nat) (src : Source) : Option Memory := m.replace x (m.getLength x) 0 src

/-- `FARString::Append`, of a character. -/
def appendCh (x : Nat) (ch : WChar) (count : Nat) : Option Memory := m.replaceCh x (m.getLength x) 0 ch count

/-- `FARString::Insert` -/
def insert (x pos : Nat) (src : Source) : Option Memory := m.replace x pos 0 src

/-- `FARString::Insert`, of a character. -/
def insertCh (x pos : Nat) (ch : WChar) (count : Nat) : Option Memory := m.replaceCh x pos 0 ch count

/-- `FARString::Copy`, of characters. -/
def copyChars (x : Nat) (src : Source) : Option Memory := m.replace x 0 (m.getLength x) src

/-- `FARString::Remove` -/
def remove (x pos len : Nat) : Option Memory := m.replace x pos len (.elsewhere [])

/-! ## The other methods -/

/-- `FARString::ReplaceChar` -/
def replaceChar (x pos : Nat) (ch : WChar) : Option Memory :=
  match m.content x with
  | none => none
  | some (_, c) =>
      if pos < c.length then
        match m.prepareForModify x c.length with
        | none => none
        | some m => (m.content x).map fun (p, _) => m.modify p (·.write pos [some ch])
      else none

/-- `FARString::Append`, of characters that have been converted; `none` where there are none, or the
conversion fails. -/
def appendMB (x : Nat) : Option (List WChar) → Option Memory
  | none => some m
  | some converted =>
      match m.content x with
      | none => none
      | some (_, c) =>
          let nNewLength := c.length + converted.length
          match m.prepareForModify x nNewLength with
          | none => none
          | some m => (m.content x).map fun (p, c) =>
              m.modify p fun c' => (c'.write c.length (converted.map some ++ [NUL])).setLength nNewLength

/-- `FARString::Copy`, of a string. -/
def copy (x y : Nat) : Option Memory :=
  match m.content x, m.content y with
  | some (prev, _), some (p, _) => ((m.assign x p).addRef p).decRef prev
  | _, _ => none

/-- `FARString::Copy`, of characters that have been converted. -/
def copyMB (x : Nat) (converted : Option (List WChar)) : Option Memory :=
  match m.content x with
  | none => none
  | some (p, _) => (m.decRef p).map fun m =>
      match converted with
      | none => m.assign x emptySingleton
      | some converted =>
          let (pNew, m) := m.create converted.length
          (m.modify pNew fun c => (c.write 0 (converted.map some ++ [NUL])).setLength converted.length).assign x
            pNew

/-- `FARString::Truncate` -/
def truncate (x nLength : Nat) : Option Memory :=
  match m.content x with
  | none => none
  | some (p, c) =>
      if nLength < c.length then
        if nLength = 0 then m.renew x p emptySingleton
        else
          match m.prepareForModify x nLength with
          | none => none
          | some m => (m.content x).map fun (p, _) => m.modify p (·.setLength nLength)
      else some m

/-- `FARString::Clear` -/
def clear (x : Nat) : Option Memory := m.truncate x 0

/-- `FARString::Reserve` -/
def reserve (x desiredCapacity : Nat) : Option Memory :=
  match m.content x with
  | none => none
  | some (_, c) => if desiredCapacity > c.capacity then m.prepareForModify x desiredCapacity else some m

/-- `FARString::Lower` and `Upper`, by what they make of a character; no length stands for all the rest. -/
def changeCase (x nStartPos : Nat) (nLength : Option Nat) (char : WChar → WChar) : Option Memory :=
  match m.content x with
  | none => none
  | some (_, c) =>
      match m.prepareForModify x c.length with
      | none => none
      | some m => (m.content x).map fun (p, c) =>
          let n := nLength.getD (c.length - nStartPos)
          m.modify p (·.write nStartPos ((c.data.slice nStartPos n).map (Option.map char)))

/-- `FARString::GetBuffer`; no length stands for that of the string. -/
def getBuffer (x : Nat) (nLength : Option Nat) : Option Memory :=
  match m.content x with
  | none => none
  | some (_, c) => m.prepareForModify x (nLength.getD c.length)

/-- What is done with a buffer: characters are written, each at its place. -/
def writes (x : Nat) (chars : List (Nat × WChar)) : Option Memory :=
  (m.content x).map fun (p, _) =>
    m.modify p fun c => chars.foldl (fun c (pos, ch) => c.write pos [some ch]) c

/-- `FARString::ReleaseBuffer`, with a length. -/
def releaseBuffer (x nLength : Nat) : Option Memory :=
  match m.content x with
  | none => none
  | some (_, c) =>
      let nLength := if nLength > c.capacity then c.capacity else nLength
      match m.prepareForModify x nLength with
      | none => none
      | some m => (m.content x).map fun (p, _) => m.modify p (·.setLength nLength)

/-- A pair of `GetBuffer` and `ReleaseBuffer`, and what is written between them. -/
def edit (x : Nat) (nLength : Option Nat) (chars : List (Nat × WChar)) (released : Nat) : Option Memory :=
  match m.getBuffer x nLength with
  | none => none
  | some m =>
      match m.writes x chars with
      | none => none
      | some m => m.releaseBuffer x released

/-! ## Construction and destruction -/

/-- `FARString::FARString`, from characters; the new variable comes last. -/
def construct (src : Source) : Option Memory :=
  (m.read src).map fun data =>
    if data.length = 0 then { m with vars := m.vars ++ [some emptySingleton] }
    else
      let (p, m) := m.createFrom data.length data
      { m with vars := m.vars ++ [some p] }

/-- The copy constructor. -/
def constructCopy (y : Nat) : Option Memory :=
  (m.content y).map fun (p, _) =>
    let m := m.addRef p
    { m with vars := m.vars ++ [some p] }

/-- The move constructor. -/
def constructMove (y : Nat) : Option Memory :=
  (m.content y).map fun (p, _) =>
    let m := m.assign y emptySingleton
    { m with vars := m.vars ++ [some p] }

/-- Move assignment: the two are swapped. -/
def move (x y : Nat) : Option Memory :=
  match m.content x, m.content y with
  | some (p, _), some (p', _) => some ((m.assign x p').assign y p)
  | _, _ => none

/-- The destructor. -/
def destruct (x : Nat) : Option Memory :=
  match m.content x with
  | none => none
  | some (p, _) => (m.decRef p).map fun m => { m with vars := m.vars.set x none }

end Memory

/-! ## Calls -/

/-- What can be done with the variables. -/
inductive Call where
  | construct (src : Source)
  | constructCopy (y : Nat)
  | constructMove (y : Nat)
  | destruct (x : Nat)
  | copy (x y : Nat)
  | move (x y : Nat)
  | copyMB (x : Nat) (converted : Option (List WChar))
  | appendMB (x : Nat) (converted : Option (List WChar))
  | replace (x pos len : Nat) (src : Source)
  | replaceCh (x pos len : Nat) (ch : WChar) (count : Nat)
  | append (x : Nat) (src : Source)
  | appendCh (x : Nat) (ch : WChar) (count : Nat)
  | insert (x pos : Nat) (src : Source)
  | insertCh (x pos : Nat) (ch : WChar) (count : Nat)
  | copyChars (x : Nat) (src : Source)
  | remove (x pos len : Nat)
  | replaceChar (x pos : Nat) (ch : WChar)
  | truncate (x nLength : Nat)
  | clear (x : Nat)
  | reserve (x desiredCapacity : Nat)
  | changeCase (x nStartPos : Nat) (nLength : Option Nat) (char : WChar → WChar)
  | edit (x : Nat) (nLength : Option Nat) (chars : List (Nat × WChar)) (released : Nat)

def Memory.exec (m : Memory) : Call → Option Memory
  | .construct src => m.construct src
  | .constructCopy y => m.constructCopy y
  | .constructMove y => m.constructMove y
  | .destruct x => m.destruct x
  | .copy x y => m.copy x y
  | .move x y => m.move x y
  | .copyMB x converted => m.copyMB x converted
  | .appendMB x converted => m.appendMB x converted
  | .replace x pos len src => m.replace x pos len src
  | .replaceCh x pos len ch count => m.replaceCh x pos len ch count
  | .append x src => m.append x src
  | .appendCh x ch count => m.appendCh x ch count
  | .insert x pos src => m.insert x pos src
  | .insertCh x pos ch count => m.insertCh x pos ch count
  | .copyChars x src => m.copyChars x src
  | .remove x pos len => m.remove x pos len
  | .replaceChar x pos ch => m.replaceChar x pos ch
  | .truncate x nLength => m.truncate x nLength
  | .clear x => m.clear x
  | .reserve x desiredCapacity => m.reserve x desiredCapacity
  | .changeCase x nStartPos nLength char => m.changeCase x nStartPos nLength char
  | .edit x nLength chars released => m.edit x nLength chars released

/-- One call after the other. -/
def Memory.execAll (m : Memory) : List Call → Option Memory
  | [] => some m
  | call :: calls =>
      match m.exec call with
      | none => none
      | some m => m.execAll calls

/-! ## Independent values

What the calls would come to if each variable held a value of its own. -/

/-- The value of each variable; none of one that is destroyed. -/
abbrev Values : Type := List (Option Value)

def Values.at_ (vals : Values) (x : Nat) : Value := (vals[x]?.join).getD []

/-- A value is given to a variable. -/
def Values.give (vals : Values) (x : Nat) (v : Value) : Values := vals.set x (some v)

def Values.read (vals : Values) : Source → Value
  | .elsewhere chars => chars.map some
  | .within y offset len => ((vals.at_ y).drop offset).take len

/-- A part of a value is replaced. -/
def splice (v : Value) (pos len : Nat) (data : Value) : Value := v.take pos ++ data ++ v.drop (pos + len)

def Values.replace (vals : Values) (x pos len : Nat) (data : Value) : Values :=
  vals.give x (splice (vals.at_ x) pos len data)

/-- A buffer for `n` characters: what is behind the value may be anything. -/
def buffer (v : Value) (n : Nat) : Value := v.take n ++ List.replicate (n - v.length) none

/-- Characters are written into a buffer. -/
def writeAll (v : Value) (chars : List (Nat × WChar)) : Value :=
  chars.foldl (fun v (pos, ch) => v.set pos (some ch)) v

def Values.exec (vals : Values) : Call → Values
  | .construct src => vals ++ [some (vals.read src)]
  | .constructCopy y => vals ++ [some (vals.at_ y)]
  | .constructMove y => vals.give y [] ++ [some (vals.at_ y)]
  | .destruct x => vals.set x none
  | .copy x y => vals.give x (vals.at_ y)
  | .move x y => (vals.give x (vals.at_ y)).give y (vals.at_ x)
  | .copyMB x converted => vals.give x ((converted.getD []).map some)
  | .appendMB x converted => vals.give x (vals.at_ x ++ (converted.getD []).map some)
  | .replace x pos len src => vals.replace x pos len (vals.read src)
  | .replaceCh x pos len ch count => vals.replace x pos len (List.replicate count (some ch))
  | .append x src => vals.replace x (vals.at_ x).length 0 (vals.read src)
  | .appendCh x ch count => vals.replace x (vals.at_ x).length 0 (List.replicate count (some ch))
  | .insert x pos src => vals.replace x pos 0 (vals.read src)
  | .insertCh x pos ch count => vals.replace x pos 0 (List.replicate count (some ch))
  | .copyChars x src => vals.give x (vals.read src)
  | .remove x pos len => vals.replace x pos len []
  | .replaceChar x pos ch => vals.give x ((vals.at_ x).set pos (some ch))
  | .truncate x nLength => vals.give x ((vals.at_ x).take nLength)
  | .clear x => vals.give x []
  | .reserve _ _ => vals
  | .changeCase x nStartPos nLength char =>
      let v := vals.at_ x
      let n := nLength.getD (v.length - nStartPos)
      vals.replace x nStartPos n (((v.drop nStartPos).take n).map (Option.map char))
  | .edit x nLength chars released =>
      let v := vals.at_ x
      vals.give x ((writeAll (buffer v (nLength.getD v.length)) chars).take released)

def Values.execAll (vals : Values) : List Call → Values
  | [] => vals
  | call :: calls => (vals.exec call).execAll calls

end Far2l.Base
