/-
Far2l.Diz.Flush — `DizList::Flush` of `far/src/dizlist.cpp`.

Memory does not run out. The file system is what is stored under each name;
`apiSetFileAttributes` changes nothing in it and succeeds. The messages to the
user are left out.
-/
import Far2l.Diz.DizList
import Far2l.File.CachedWrite
import Far2l.WinPort.StringCodepages

namespace Far2l.Diz

open Far2l.WinPort Far2l.File

/-! ## Code pages -/

/-- The code page a list is saved in. -/
inductive Page where
  | utf8
  | table (cp : CpTable)

namespace Page

/-- The bytes a character is to need at most. -/
def bytesPerChar : Page → Nat
  | .utf8 => 3
  | .table _ => 1

/-- `WideCharToMultiByte` with a text and its NUL, and room for `Size` bytes. -/
def convert (page : Page) (dizText : WStr) : Converted Byte :=
  let src := dizText ++ [0]
  let size := src.length * page.bytesPerChar
  match page with
  | .utf8 => wideCharToMultiByte .CP_UTF8 0 src src.length size false false
  | .table cp => wideCharToTable cp src src.length size

/-- The first bytes of the file. -/
def signature : Page → List Byte
  | .utf8 => [0xEF, 0xBB, 0xBF]
  | .table _ => []

end Page

/-- What is set in the options, and the code pages of the system. -/
structure Settings where
  saveInUTF : Bool
  ansiByDefault : Bool
  roUpdate : Bool
  /-- The first of `strListNames`. -/
  listName : WStr
  acp : CpTable
  oemcp : CpTable
  acp_nul : (acp.encodeChar 0).length = 1
  oemcp_nul : (oemcp.encodeChar 0).length = 1

/-- `CodePage` -/
def Settings.page (S : Settings) : Page :=
  if S.saveInUTF then .utf8 else .table (if S.ansiByDefault then S.acp else S.oemcp)

/-! ## The file system -/

/-- A file. -/
structure StoredFile where
  content : List Byte
  readOnly : Bool := false
deriving DecidableEq

/-- What is stored under each name. -/
abbrev Disk := WStr → Option StoredFile

/-- What the operations on the file come to: whether it can be opened, how the writes to it go, and
whether it can be deleted. -/
structure Outcomes where
  opens : Bool
  writes : Writes
  deletes : Bool

/-! ## Saving -/

/-- `"\r\n"` -/
def EOL : List Byte := [0x0D, 0x0A]

/-- The loop of `Flush` over the records: `AnyError`, `EmptyDiz` and the writer. -/
def saveRecords (page : Page) (writes : Writes) :
    List DizRecord → Bool → CachedWrite → Bool × Bool × CachedWrite
  | [], emptyDiz, cache => (false, emptyDiz, cache)
  | r :: rest, emptyDiz, cache =>
      if r.deleted then saveRecords page writes rest emptyDiz cache
      else
        let done := page.convert r.dizText
        if done.ret ≠ 0 ∧ done.ret - 1 ≠ 0 then
          match cache.write (done.stored.take (done.ret - 1).toNat) writes with
          | (false, cache) => (true, emptyDiz, cache)
          | (true, cache) =>
              match cache.write EOL writes with
              | (false, cache) => (true, false, cache)
              | (true, cache) => saveRecords page writes rest false cache
        else saveRecords page writes rest emptyDiz cache

/-- What `Flush` does with the open file. -/
def save (page : Page) (writes : Writes) (records : List DizRecord) : Bool × Bool × CachedWrite :=
  match page with
  | .utf8 =>
      match CachedWrite.write Page.utf8.signature writes {} with
      | (false, cache) => (true, true, cache)
      | (true, cache) => finish (saveRecords .utf8 writes records true cache)
  | .table cp => finish (saveRecords (.table cp) writes records true {})
where
  /-- The last flush. -/
  finish : Bool × Bool × CachedWrite → Bool × Bool × CachedWrite
    | (true, emptyDiz, cache) => (true, emptyDiz, cache)
    | (false, emptyDiz, cache) =>
        match cache.flush writes with
        | (flushed, cache) => (!flushed, emptyDiz, cache)

/-- `AddEndSlash` -/
def addEndSlash (path : WStr) : WStr :=
  if path.getLast? = some 0x2F then path else path ++ [0x2F]

/-- The name of the file, where there is one. -/
def DizList.fileName (S : Settings) (d : DizList) (path dizName : Option WStr) : Option WStr :=
  match dizName with
  | some dizName => some dizName
  | none =>
      if d.strDizFileName = [] then
        if d.dizData = [] then none else path.map fun path => addEndSlash path ++ S.listName
      else some d.strDizFileName

/-- What `Flush` returns and leaves behind. `opened` is whether the file has been opened, if that was
tried, and `writes` how often it has then been written to. -/
structure Flushed where
  ret : Bool
  list : DizList
  disk : Disk
  opened : Option Bool := none
  writes : Nat := 0

/-- What follows the closing of the file. -/
def finishFlush (O : Outcomes) (d : DizList) (name : WStr) (disk : Disk) (anyError emptyDiz : Bool)
    (opened : Option Bool) (writes : Nat) : Flushed :=
  if ¬ emptyDiz ∧ ¬ anyError then
    { ret := true, list := { d with modified := false }, disk, opened, writes }
  else
    let disk : Disk := if O.deletes then Function.update disk name none else disk
    if anyError then { ret := false, list := d, disk, opened, writes }
    else { ret := true, list := { d with modified := false }, disk, opened, writes }

/-- `Flush` -/
def DizList.flush (S : Settings) (O : Outcomes) (path dizName : Option WStr) (disk : Disk)
    (d : DizList) : Flushed :=
  if ¬ d.modified then { ret := true, list := d, disk }
  else
    match d.fileName S path dizName with
    | none => { ret := false, list := d, disk }
    | some name =>
        let d := { d with strDizFileName := name }
        if (disk name).any (·.readOnly) ∧ ¬ S.roUpdate then { ret := false, list := d, disk }
        else if d.dizData = [] then finishFlush O d name disk false true none 0
        else if ¬ O.opens then finishFlush O d name disk false true (some false) 0
        else
          match save S.page O.writes d.dizData with
          | (anyError, emptyDiz, cache) =>
              let file : StoredFile :=
                { content := cache.file.content, readOnly := (disk name).any (·.readOnly) }
              finishFlush O d name (Function.update disk name (some file)) anyError emptyDiz (some true)
                cache.file.writes

end Far2l.Diz
