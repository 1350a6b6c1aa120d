/-
Far2l.Delete.ScanTree — a directory tree, and `ScanTree` of `far/src/scantree.cpp`
as `ShellDelete` makes it: `ScanTree(TRUE, TRUE, FALSE)` with the mask `*`.

A path is below the selected directory and has its innermost name first. The
scan returns each directory twice and does not enter links. Directories can be
read, and are read before anything in them is removed.
-/
import Far2l.Lib.DepthFirst

namespace Far2l.Delete

/-- A file name. -/
abbrev Name : Type := List Char

abbrev Path : Type := List Name

/-- A link may lead to anything; a `file` is what is neither a directory nor a link. -/
inductive Kind where
  | file | link | directory
  deriving DecidableEq

/-- A directory with all that is in it. `children` are listed in the order of the system. -/
structure Tree where
  kind : Path → Kind
  children : Path → List Name
  distinct : ∀ d, (children d).Nodup
  root : kind [] = .directory

/-- The paths at which there is something. -/
inductive Tree.Entry (t : Tree) : Path → Prop where
  | root : t.Entry []
  | child {d : Path} {n : Name} (h : t.Entry d) (hd : t.kind d = .directory)
      (hn : n ∈ t.children d) : t.Entry (n :: d)

/-- `FILE_ATTRIBUTE_DIRECTORY` and `FILE_ATTRIBUTE_REPARSE_POINT`. -/
structure Attributes where
  directory : Bool
  reparsePoint : Bool
  deriving DecidableEq

/-- A link to a directory. -/
def Attributes.IsDirSymLink (a : Attributes) : Prop :=
  a.directory = true ∧ a.reparsePoint = true

instance (a : Attributes) : Decidable a.IsDirSymLink := inferInstanceAs (Decidable (_ ∧ _))

/-- The attributes that are listed. Where a link leads to, only the system knows, and it may change
when entries are removed. -/
def Tree.attributes (t : Tree) (p : Path) (answer : Attributes) : Attributes :=
  match t.kind p with
  | .file => ⟨false, false⟩
  | .link => ⟨answer.directory, true⟩
  | .directory => ⟨true, false⟩

/-- `ScanTree`: the directory it is in, and for this one and each above it the names that have not
been listed. -/
structure ScanTree where
  findPath : Path
  scanDirStack : List (List Name)
  secondDirName : Bool := false

namespace ScanTree

/-- `SetFindPath`. -/
def setFindPath (t : Tree) : ScanTree where
  findPath := []
  scanDirStack := [t.children []]

/-- `CheckForEnterSubdir`. -/
def checkForEnterSubdir (S : ScanTree) (t : Tree) (p : Path) (data : Attributes) : ScanTree :=
  if data.directory && !data.reparsePoint then
    { S with findPath := p, scanDirStack := t.children p :: S.scanDirStack }
  else S

def leaveSubdir (S : ScanTree) : ScanTree :=
  { S with findPath := S.findPath.tail, scanDirStack := S.scanDirStack.tail }

/-- `SkipDir` leaves the directory the scan is in, whichever that is. -/
def skipDir (S : ScanTree) : ScanTree := S.leaveSubdir

def isDirSearchDone (S : ScanTree) : Bool := S.secondDirName

/-- `GetNextName`. When a directory comes for the second time its name is looked up as a mask, and
then `answer` may be about another entry. -/
def getNextName (t : Tree) (answer : Attributes) (S : ScanTree) :
    Option (Path × Attributes) × ScanTree :=
  match S.scanDirStack with
  | [] => (none, { S with secondDirName := false })
  | [[]] => (none, { S.leaveSubdir with secondDirName := false })
  | [] :: _ :: _ => (some (S.findPath, answer), { S.leaveSubdir with secondDirName := true })
  | (name :: names) :: dirs =>
      let p := name :: S.findPath
      let data := t.attributes p answer
      let S : ScanTree := { S with scanDirStack := names :: dirs, secondDirName := false }
      (some (p, data), S.checkForEnterSubdir t p data)

end ScanTree

end Far2l.Delete
