/-
Far2l.Diz.DizList — the descriptions of a directory's files: `DizList` of
`far/src/dizlist.cpp`, without reading them from a file.

Strings hold no NUL, and memory does not run out. `sizeof` and the pieces the
array grows by are left out, and so are `AnsiBuf` and `SearchDizData`, which only
carry a value from one call to the next.
-/
import Far2l.Editor.Edit
import Far2l.WinPort.Collation
import Far2l.Lib.BinarySearch

namespace Far2l.Diz

open Far2l.WinPort

/-! ## Records -/

/-- `L'"'` -/
def QUOTE : WChar := 0x22

/-- `L'.'` -/
def DOT : WChar := 0x2E

/-- `DizRecord`; `DizLength` is the length of the text. -/
structure DizRecord where
  dizText : WStr
  nameStart : Nat := 0
  nameLength : Nat := 0
  deleted : Bool := false
deriving DecidableEq

namespace DizRecord

/-- The scan of `AddRecord`: where the name starts in a line, and how long it is. -/
def scanName : WStr → Nat × Nat
  | [] => (0, 0)
  | c :: rest =>
      if c = QUOTE then (1, (rest.takeWhile (· ≠ QUOTE)).length)
      else (0, ((c :: rest).takeWhile fun c => !isSpace c).length)

def ofText (dizText : WStr) : DizRecord :=
  { dizText, nameStart := (scanName dizText).1, nameLength := (scanName dizText).2 }

/-- `DizText + NameStart` -/
def dizName (r : DizRecord) : WStr := r.dizText.drop r.nameStart

/-- The name. -/
def name (r : DizRecord) : WStr := r.dizName.take r.nameLength

/-- `TextPos` -/
def textPos (r : DizRecord) : Nat :=
  let textPos := r.nameStart + r.nameLength
  if r.nameStart ≠ 0 ∧ r.dizText[textPos]? = some QUOTE then textPos + 1 else textPos

/-- A line that goes on with the description of the one before. -/
def continues (r : DizRecord) : Bool :=
  match r.dizText with
  | [] => true
  | c :: _ => isSpace c

end DizRecord

/-- `DizList`. `recode` stands for `OrigCodePage`: it is there where that is a page which is not a
Unicode one, and gives a name as it comes back from it. -/
structure DizList where
  dizData : List DizRecord := []
  indexData : List Nat := []
  strDizFileName : WStr := []
  modified : Bool := false
  needRebuild : Bool := true
  recode : Option (WStr → WStr) := none

/-- What is not in this code: the sort of the C library and the tables of the comparison. -/
structure Env where
  qsort : Qsort
  tables : CollationTables

/-! ## The index -/

variable (E : Env)

/-- `SortDizIndex` -/
def sortDizIndex (r1 r2 : DizRecord) : Int :=
  let cmpCode := E.tables.strCmpNI r1.dizName r2.dizName (min r1.nameLength r2.nameLength)
  if cmpCode = 0 then
    if r1.nameLength > r2.nameLength then 1
    else if r1.nameLength < r2.nameLength then -1
    -- for equal names, deleted is bigger
    else if r1.deleted ∧ ¬ r2.deleted then 1
    else if r2.deleted ∧ ¬ r1.deleted then -1
    else cmpCode
  else cmpCode

/-- `SortDizSearch` -/
def sortDizSearch (searchName : WStr) (r : DizRecord) : Int :=
  let cmpCode := E.tables.strCmpNI searchName r.dizName (min r.nameLength searchName.length)
  if cmpCode = 0 then
    if searchName.length > r.nameLength then 1
    else if searchName.length + 1 < r.nameLength then -1
    -- filename == filename.
    else if searchName.length + 1 = r.nameLength ∧ ¬ (r.dizName[searchName.length]? = some DOT
        ∧ r.dizName.findIdx (· = DOT) = searchName.length) then -1
    -- for equal names, deleted is bigger so deleted items are never matched
    else if r.deleted then -1
    else cmpCode
  else cmpCode

namespace DizList

/-- The record an index stands for. -/
def record (d : DizList) (i : Nat) : DizRecord := d.dizData.getD i { dizText := [] }

/-- `BuildIndex` -/
def buildIndex (d : DizList) : DizList :=
  { d with
    indexData := E.qsort.sort (fun i j => sortDizIndex E (d.record i) (d.record j))
      (List.range d.dizData.length)
    needRebuild := false }

/-- `GetDizPos`: the record with the name, and `TextPos`. -/
def getDizPos (d : DizList) (name : WStr) : Option (Nat × Nat) × DizList :=
  if d.dizData = [] ∨ name = [] then (none, d)
  else
    let d := if d.needRebuild then d.buildIndex E else d
    match bsearch (fun i => sortDizSearch E name (d.record i)) d.indexData with
    | none => (none, d)
    | some i => (some (i, (d.record i).textPos), d)

/-- `GetDizPosEx` -/
def getDizPosEx (d : DizList) (name : WStr) : Option (Nat × Nat) × DizList :=
  match d.getDizPos E name with
  | (some found, d) => (some found, d)
  | (none, d) =>
      match d.recode with
      | none => (none, d)
      | some recode => if recode name = name then (none, d) else d.getDizPos E (recode name)

/-! ## Descriptions -/

/-- `iswdigit` -/
def isDigit (c : WChar) : Bool := 0x30 ≤ c ∧ c ≤ 0x39

/-- The loop of `GetDizTextAddr` over `SizeText`: what follows the size in the text. -/
def skipSize : WStr → WStr → Option WStr
  | [], dizPtr => some dizPtr
  | _ :: _, [] => none
  | s :: size, c :: dizPtr =>
      if c = 0x2C ∨ c = DOT then skipSize (s :: size) dizPtr
      else if s = c then skipSize size dizPtr
      else none

/-- `"%llu"` -/
def sizeText (fileSize : UInt64) : WStr := L (Nat.toDigits 10 fileSize.toNat)

/-- The description in what follows the name. -/
def descriptionIn (fileSize : UInt64) (rest : WStr) : WStr :=
  let dizText := rest.dropWhile isSpace
  if dizText.head?.any isDigit then
    match skipSize (sizeText fileSize) dizText with
    | some (c :: dizPtr) => if isSpace c then dizPtr.dropWhile isSpace else dizText
    | _ => dizText
  else dizText

/-- `GetDizTextAddr` -/
def getDizTextAddr (d : DizList) (name : WStr) (fileSize : UInt64) : Option WStr × DizList :=
  match d.getDizPosEx E name with
  | (none, d) => (none, d)
  | (some (dizPos, textPos), d) =>
      (some (descriptionIn fileSize ((d.record dizPos).dizText.drop textPos)), d)

/-- `AddRecord` -/
def addRecord (d : DizList) (dizText : WStr) : DizList :=
  { d with dizData := d.dizData ++ [.ofText dizText], needRebuild := true, modified := true }

/-- The loop of `DeleteDiz` over what follows the record. -/
def markContinuation : List DizRecord → List DizRecord
  | [] => []
  | r :: rest => if r.continues then { r with deleted := true } :: markContinuation rest else r :: rest

/-- The record at a position is marked, and the lines that go on with it. -/
def markAt : Nat → List DizRecord → List DizRecord
  | _, [] => []
  | 0, r :: rest => { r with deleted := true } :: markContinuation rest
  | dizPos + 1, r :: rest => r :: markAt dizPos rest

/-- `DeleteDiz` -/
def deleteDiz (d : DizList) (name : WStr) : Bool × DizList :=
  match d.getDizPosEx E name with
  | (none, d) => (false, d)
  | (some (dizPos, _), d) =>
      (true, { d with dizData := markAt dizPos d.dizData, modified := true, needRebuild := true })

/-- `InsertQuote` -/
def insertQuote (str : WStr) : WStr :=
  let str := if str.head? = some QUOTE then str else QUOTE :: str
  if str.length = 1 ∨ str.getLast? ≠ some QUOTE then str ++ [QUOTE] else str

/-- `QuoteSpaceOnly` -/
def quoteSpaceOnly (str : WStr) : WStr := if SPACE ∈ str then insertQuote str else str

/-- `fmt::LeftAlign() << fmt::Expand(expand) << str` -/
def leftAlign (expand : Nat) (str : WStr) : WStr :=
  str ++ List.replicate (expand - str.length) SPACE

/-- The line `AddDizText` makes; `startPos` is `Opt.Diz.StartPos`. -/
def line (startPos : Int) (name dizText : WStr) : WStr :=
  leftAlign (if startPos > 1 then (startPos - 2).toNat else 0) (quoteSpaceOnly name)
    ++ SPACE :: dizText

/-- `AddDizText` -/
def addDizText (startPos : Int) (d : DizList) (name dizText : WStr) : DizList :=
  (d.deleteDiz E name).2.addRecord (line startPos name dizText)

/-- `CopyDiz`, with both lists as they are after it. The lists are not the same one: each caller has a
list of its own to copy to. -/
def copyDiz (startPos : Int) (src : DizList) (name destName : WStr) (destDiz : DizList) :
    Bool × DizList × DizList :=
  match src.getDizPosEx E name with
  | (none, src) => (false, src, destDiz)
  | (some (dizPos, textPos), src) =>
      let dizText := ((src.record dizPos).dizText.drop textPos).dropWhile isSpace
      let continuation := (src.dizData.drop (dizPos + 1)).takeWhile DizRecord.continues
      (true, src, (continuation.map (·.dizText)).foldl addRecord
        (destDiz.addDizText E startPos destName dizText))

end DizList

end Far2l.Diz
