/-
Far2l.Hist.History — `History` of `far/src/hist/history.cpp`: the records of
a history, `SaveHistory` and `ReadHistory`.

The list is kept from the oldest record to the newest one, as in the source;
the current item is the place of a record in it. What is saved goes from the
newest record to the oldest one, one column for each field. What `SyncChanges`
remembers of the file is left out.
-/
import Far2l.Utils.ConfigRW

namespace Far2l.Hist

open Far2l.KeyFile

/-! ## Records -/

/-- `FILETIME`, byte by byte. -/
structure FileTime where
  bytes : List Byte
  size : bytes.length = 8

/-- `FILETIME{}`. -/
def FileTime.zero : FileTime := ⟨List.replicate 8 0, rfl⟩

/-- `HistoryRecord`. -/
structure HistoryRecord where
  type : Nat := 0
  lock : Bool := false
  strName : WStr := []
  strExtra : WStr := []
  timestamp : FileTime := .zero

/-- `enumHISTORYTYPE`. -/
inductive HistoryType where
  | cmd
  | folder
  | view
  | dialog
  deriving DecidableEq

/-- The members of `History`; the current item is counted from the oldest record, `none` is the
end of the list. -/
structure History where
  typeHistory : HistoryType
  historyCount : Nat
  saveType : Bool
  strRegKey : Str
  enableSave : Bool
  historyList : List HistoryRecord
  currentItem : Option Nat

/-- The history as `SyncChanges` leaves it to `ReadHistory`. -/
def History.cleared (h : History) : History := { h with historyList := [], currentItem := none }

/-! ## Keys -/

def LINES : Str := A ['L', 'i', 'n', 'e', 's']
def EXTRAS : Str := A ['E', 'x', 't', 'r', 'a', 's']
def TYPES : Str := A ['T', 'y', 'p', 'e', 's']
def LOCKS : Str := A ['L', 'o', 'c', 'k', 's']
def TIMES : Str := A ['T', 'i', 'm', 'e', 's']
def POSITION : Str := A ['P', 'o', 's', 'i', 't', 'i', 'o', 'n']

/-! ## `SaveHistory` -/

/-- `AppendWithLFSeparator`. -/
def appendWithLFSeparator (str ap : WStr) (first : Bool) : WStr :=
  (if first then str else str ++ [LF]) ++ ap.map fun c => if c = LF then CR else c

/-- The columns of `SaveHistory`. -/
structure Columns where
  hasExtras : Bool := false
  strTypes : WStr := []
  strLines : WStr := []
  strLocks : WStr := []
  strExtras : WStr := []
  vTimes : List FileTime := []
  position : Int := -1

/-- `SaveHistory`: a record is put behind the columns; `size` is the size of the list. -/
def History.saveRecord (h : History) (size : Nat) (C : Columns) (i : Nat) (item : HistoryRecord) :
    Columns :=
  { hasExtras := C.hasExtras || !item.strExtra.isEmpty
    strLines := appendWithLFSeparator C.strLines item.strName (i = size)
    strExtras := appendWithLFSeparator C.strExtras item.strExtra (i = size)
    strTypes := if h.saveType then C.strTypes ++ [0x30 + UInt32.ofNat item.type] else C.strTypes
    strLocks := C.strLocks ++ [if item.lock then 0x31 else 0x30]
    vTimes := C.vTimes ++ [item.timestamp]
    position := if h.currentItem = some (i - 1) then ((i - 1 : Nat) : Int) else C.position }

/-- `SaveHistory`: the loop over the records still to save, from the newest on; `i` of them. -/
def History.saveRecords (h : History) (size : Nat) : Nat → List HistoryRecord → Columns → Columns
  | _, [], C => C
  | i, item :: rest, C => h.saveRecords size (i - 1) rest (h.saveRecord size C i item)

/-- `SaveHistory`: in a dialog history the locked records become the newest ones; the current item
stays the same record. -/
def History.spliced (h : History) : History :=
  if h.typeHistory = .dialog then
    let items := h.historyList.zipIdx
    let items := items.filter (fun r => !r.1.lock) ++ items.filter (fun r => r.1.lock)
    { h with
      historyList := items.map Prod.fst
      currentItem := h.currentItem.bind fun c => items.findIdx? fun r => r.2 = c }
  else h

/-- The columns `SaveHistory` writes. -/
def History.columns (h : History) : Columns :=
  h.saveRecords h.historyList.length h.historyList.length h.historyList.reverse {}

/-- `SaveHistory`: the extras are written, or those of before are removed. -/
def History.writeExtras (h : History) (C : Columns) (K : KeyFileHelper false) :
    KeyFileHelper false :=
  if C.hasExtras then K.setWide h.strRegKey EXTRAS C.strExtras else K.removeKey h.strRegKey EXTRAS

/-- `SaveHistory`: the types are written where they are to be saved. -/
def History.writeTypes (h : History) (C : Columns) (K : KeyFileHelper false) : KeyFileHelper false :=
  if h.saveType then K.setWide h.strRegKey TYPES C.strTypes else K

/-- `SaveHistory`: what is written through the `ConfigWriter`. -/
def History.write (h : History) (C : Columns) (K : KeyFileHelper false) : KeyFileHelper false :=
  let K := K.setWide h.strRegKey LINES C.strLines
  let K := h.writeTypes C (h.writeExtras C K)
  let K := K.setWide h.strRegKey LOCKS C.strLocks
  let K := K.setBytes h.strRegKey TIMES (C.vTimes.flatMap FileTime.bytes)
  K.setInt h.strRegKey POSITION C.position

/-- `SaveHistory`: the history and the file afterwards. -/
def History.saveHistory (h : History) (file : Str) : History × Str :=
  if !h.enableSave then (h, file)
  else if h.historyList.isEmpty then
    (h, (((configWriter file).removeSectionsAt h.strRegKey).removeSection h.strRegKey).saved file)
  else (h.spliced, (h.spliced.write h.spliced.columns (configWriter file)).saved file)

/-! ## `ReadHistory` -/

/-- `FARString::Pos` of a character. -/
def pos (s : WStr) (c : WChar) (start : Nat) : Option Nat :=
  ((s.drop start).findIdx? (· == c)).map (start + ·)

/-- `FARString::SubStr`. -/
def subStr (s : WStr) (start len : Nat) : WStr := (s.drop start).take len

/-- `iswdigit`. -/
def iswdigit (c : WChar) : Bool := 0x30 ≤ c ∧ c ≤ 0x39

/-- What `ReadHistory` gets from the `ConfigReader`. -/
structure Saved where
  strLines : WStr
  strExtras : WStr := []
  strLocks : WStr := []
  strTypes : WStr := []
  vTimes : List Byte := []
  position : Int := -1

/-- The variables of the loop of `ReadHistory`. -/
structure Cursors where
  linesPos : Nat := 0
  typesPos : Nat := 0
  locksPos : Nat := 0
  timePos : Nat := 0
  extrasPos : Nat := 0

/-- Where the line that begins at `start` ends. -/
def lineEnd (s : WStr) (start : Nat) : Nat := (pos s LF start).getD s.length

/-- `ReadHistory`: the record at the cursors. -/
def Saved.record (S : Saved) (p : Cursors) : HistoryRecord :=
  { strName := subStr S.strLines p.linesPos (lineEnd S.strLines p.linesPos - p.linesPos)
    strExtra := subStr S.strExtras p.extrasPos (lineEnd S.strExtras p.extrasPos - p.extrasPos)
    type := match S.strTypes[p.typesPos]? with
      | some c => if iswdigit c then (c - 0x30).toNat else 0
      | none => 0
    lock := match S.strLocks[p.locksPos]? with
      | some c => if iswdigit c then c ≠ 0x30 else false
      | none => false
    timestamp :=
      if h : ((S.vTimes.drop p.timePos).take 8).length = 8 then ⟨(S.vTimes.drop p.timePos).take 8, h⟩
      else .zero }

/-- `ReadHistory`: the cursors behind the record. -/
def Saved.advance (S : Saved) (p : Cursors) : Cursors :=
  { linesPos := lineEnd S.strLines p.linesPos + 1
    extrasPos := lineEnd S.strExtras p.extrasPos + 1
    typesPos := if p.typesPos < S.strTypes.length then p.typesPos + 1 else p.typesPos
    locksPos := if p.locksPos < S.strLocks.length then p.locksPos + 1 else p.locksPos
    timePos := if p.timePos + 8 ≤ S.vTimes.length then p.timePos + 8 else p.timePos }

/-- `mHistoryList.push_front`, and the record becomes the current item when it is the one at
`Position`. -/
def History.pushFront (h : History) (record : HistoryRecord) (current : Bool) : History :=
  { h with
    historyList := record :: h.historyList
    currentItem := if current then some 0 else h.currentItem.map (· + 1) }

/-- `ReadHistory`: the loop, with `fuel` rounds left before `Count` reaches `mHistoryCount`. -/
def History.readRecords (S : Saved) : Nat → Nat → Cursors → History → History
  | 0, _, _, h => h
  | fuel + 1, count, p, h =>
      if p.linesPos < S.strLines.length then
        History.readRecords S fuel (count + 1) (S.advance p)
          (h.pushFront (S.record p) (S.position = count))
      else h

/-- What `ReadHistory` finds in the sections of a file. -/
def History.saved (h : History) (S : Sections false) : Option Saved :=
  (S.getString h.strRegKey LINES).map fun strLines =>
    { strLines := strLines
      position := S.getInt h.strRegKey POSITION (-1)
      vTimes := S.getBytes h.strRegKey TIMES
      strLocks := (S.getString h.strRegKey LOCKS).getD []
      strTypes := (S.getString h.strRegKey TYPES).getD []
      strExtras := (S.getString h.strRegKey EXTRAS).getD [] }

/-- `ReadHistory`. -/
def History.readHistory (h : History) (file : Str) : History :=
  match h.saved (loadKeyFile false file) with
  | none => h
  | some S => History.readRecords S h.historyCount 0 {} h

end Far2l.Hist
