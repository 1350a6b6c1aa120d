/-
Far2l.Delete.ShellDelete — `ShellDelete` of `far/src/delete.cpp` for one selected
directory that is not a link, without the recycle bin, wiping and descriptions.

What the system answers to a call, and the user to a question, is the next of a
list of replies; nobody cancels. Nothing else changes the tree meanwhile, so that
an entry is there until it is removed, and no removal ends with `ENOENT`. What
`apiMakeWritable` does to the modes of the entries is left out.
-/
import Far2l.Delete.ScanTree
import Far2l.Lib.Action

namespace Far2l.Delete

/-- Whether to delete a directory that is not empty. -/
inductive FolderAnswer where
  | delete | all | skip

/-- What to do about an entry that could not be removed. -/
inductive ErrorAnswer where
  | retry | skip | skipAll

/-- Whether to delete a file that was made writable. -/
inductive ReadOnlyAnswer where
  | delete | all | skip | skipAll

/-- A reply: each call and each question takes from it what it asks for. -/
structure Reply where
  succeeds : Bool := true
  attributes : Attributes := ⟨true, false⟩
  folder : FolderAnswer := .delete
  error : ErrorAnswer := .retry
  readOnly : ReadOnlyAnswer := .delete

/-- `Opt.Confirm`. -/
structure Confirm where
  ro : Bool
  deleteFolder : Bool

/-- The variables of `delete.cpp` that hold answers which were given for all; `none` is -1. -/
structure Modes where
  readOnlyDeleteMode : Option ReadOnlyAnswer := none
  skipMode : Option ErrorAnswer := none
  skipFoldersMode : Option ErrorAnswer := none
  deleteAllFolders : Bool

/-- What has become of the entries: those that are removed, those whose removal failed and was
skipped, with the attributes they were seen with, and the directories that were skipped when the
user was asked about them. -/
structure Tally where
  removed : List Path := []
  skipped : List (Path × Attributes) := []
  declined : List Path := []

structure Deletion where
  scTree : ScanTree
  modes : Modes
  tally : Tally := {}

/-- `DELETE_SUCCESS` or `DELETE_YES`, and `DELETE_SKIP`. -/
inductive DeleteCode where
  | success | skip
  deriving DecidableEq

/-- A program of the deletion. -/
abbrev Run (α : Type) : Type := Action Deletion Reply α

open Far2l.Action

/-- The answer that was given for all, or else the user's. -/
def answerOr {α : Type} (mode : Option α) (ask : Reply → α) : Run α :=
  match mode with
  | some answer => pure answer
  | none => call fun S reply => (ask reply, S)

variable (t : Tree) (confirm : Confirm)

/-! ## Removal -/

/-- Nothing is in it any more. -/
def Tree.isEmpty (removed : List Path) (p : Path) : Bool :=
  t.kind p ≠ .directory || (t.children p).all fun n => removed.contains (n :: p)

/-- A system call that removes an entry of the `kinds` it is for. -/
def removing (kinds : Kind → Bool) (p : Path) : Run Bool :=
  tried fun S reply =>
    if reply.succeeds && kinds (t.kind p) && t.isEmpty S.tally.removed p then
      some { S with tally.removed := p :: S.tally.removed }
    else none

/-- `remove`, and `sdc_remove` also. -/
def remove (p : Path) : Run Bool := removing t (fun _ => true) p

def sdcUnlink (p : Path) : Run Bool := removing t (· ≠ .directory) p

def apiRemoveDirectory (p : Path) : Run Bool := removing t (· = .directory) p

/-- `sdc_lstat` tells that there is a link. -/
def isSymlink (p : Path) : Run Bool :=
  call fun S reply => (reply.succeeds && t.kind p = .link, S)

/-- `apiMakeWritable`: whether there was something to be changed. -/
def apiMakeWritable : Run Bool := call fun S reply => (reply.succeeds, S)

/-- `AskDeleteReadOnly`. -/
def askDeleteReadOnly : Run DeleteCode := do
  if ← apiMakeWritable then
    modify fun S => if confirm.ro then S else { S with modes.readOnlyDeleteMode := some .all }
    let S ← state
    match ← answerOr S.modes.readOnlyDeleteMode Reply.readOnly with
    | .delete => pure .success
    | .all => do
        modify fun S => { S with modes.readOnlyDeleteMode := some .all }
        pure .success
    | .skip => pure .skip
    | .skipAll => do
        modify fun S => { S with modes.readOnlyDeleteMode := some .skipAll }
        pure .skip
  else pure .success

/-- `ShellRemoveFile` and `ERemoveDirectory`: an attempt has failed. `mode` is the answer that was
given for all. -/
def askFailed (mode : Modes → Option ErrorAnswer) (skipAll : Modes → Modes) :
    Run (Option DeleteCode) := do
  let S ← state
  match ← answerOr (mode S.modes) Reply.error with
  | .retry => pure none
  | .skip => pure (some .skip)
  | .skipAll => do
      modify fun S => { S with modes := skipAll S.modes }
      pure (some .skip)

/-- `ShellRemoveFile`: what its loop does once `AskDeleteRO` is there. -/
def removeFileOnce (p : Path) : Run (Option DeleteCode) := do
  if ← remove t p then pure (some .success)
  else askFailed Modes.skipMode fun M => { M with skipMode := some .skip }

/-- `ShellRemoveFile`: a simple removal first. -/
def shellRemoveFile (p : Path) : Run DeleteCode := do
  if ← remove t p then pure .success
  else
    match ← askDeleteReadOnly confirm with
    | .skip => pure .skip
    | .success => loop (removeFileOnce t p)

/-- `ERemoveDirectory`: how an attempt goes. -/
def tryRemoveDirectory (p : Path) : Run Bool := do
  if ← isSymlink t p then
    if ← sdcUnlink t p then pure true
    else apiRemoveDirectory t p
  else apiRemoveDirectory t p

/-- `ERemoveDirectory`: the body of its loop. -/
def removeDirectoryOnce (p : Path) : Run (Option DeleteCode) := do
  if ← tryRemoveDirectory t p then pure (some .success)
  else askFailed Modes.skipFoldersMode fun M => { M with skipFoldersMode := some .skipAll }

/-- `ERemoveDirectory`. -/
def eRemoveDirectory (p : Path) : Run DeleteCode := loop (removeDirectoryOnce t p)

/-! ## The loop -/

/-- A removal has been skipped. -/
def Deletion.skip (p : Path) (data : Attributes) (S : Deletion) : Deletion :=
  { S with tally.skipped := (p, data) :: S.tally.skipped }

/-- A directory is skipped before anything in it is removed. -/
def Deletion.decline (p : Path) (S : Deletion) : Deletion :=
  { S with tally.declined := p :: S.tally.declined }

def Deletion.skipDir (S : Deletion) : Deletion := { S with scTree := S.scTree.skipDir }

/-- A directory that is not empty is asked about: whether it is to be deleted. -/
def confirmFolder (p : Path) : Run Bool := do
  let S ← state
  if !S.modes.deleteAllFolders && !t.isEmpty S.tally.removed p then
    match ← answerOr none Reply.folder with
    | .delete => pure true
    | .all => do
        modify fun S => { S with modes.deleteAllFolders := true }
        pure true
    | .skip => do
        modify (Deletion.decline p)
        pure false
  else pure true

/-- The branch of a link to a directory. -/
def deleteLink (p : Path) (data : Attributes) : Run Unit := do
  match ← eRemoveDirectory t p with
  | .success => pure ()
  | .skip => do
      modify (Deletion.skip p data)
      modify Deletion.skipDir

/-- The branch of another directory, which is removed when it comes for the second time. -/
def deleteDirectory (p : Path) (data : Attributes) : Run Unit := do
  let S ← state
  if S.scTree.isDirSearchDone then
    match ← eRemoveDirectory t p with
    | .success => pure ()
    | .skip => modify (Deletion.skip p data)
  else if ← confirmFolder t p then pure ()
  else modify Deletion.skipDir

/-- The branch of everything else. -/
def deleteFile (p : Path) (data : Attributes) : Run Unit := do
  match ← shellRemoveFile t confirm p with
  | .success => pure ()
  | .skip => modify (Deletion.skip p data)

def getNextName : Run (Option (Path × Attributes)) :=
  call fun S reply =>
    ((S.scTree.getNextName t reply.attributes).1,
      { S with scTree := (S.scTree.getNextName t reply.attributes).2 })

def deleteEntry (p : Path) (data : Attributes) : Run Unit :=
  if data.directory then
    if data.reparsePoint then deleteLink t p data else deleteDirectory t p data
  else deleteFile t confirm p data

/-- The loop over `ScTree.GetNextName`: one entry. -/
def deleteNext : Run (Option Unit) := do
  match ← getNextName t with
  | none => pure (some ())
  | some (p, data) => do
      deleteEntry t confirm p data
      pure none

/-- `ShellDelete`: the directory branch. -/
def deleteSelected : Run Unit := do
  if ← confirmFolder t [] then
    loop (deleteNext t confirm)
    match ← eRemoveDirectory t [] with
    | .success => pure ()
    | .skip => modify (Deletion.skip [] ⟨true, false⟩)
  else pure ()

/-- The state at the beginning. -/
def Deletion.initial : Deletion where
  scTree := .setFindPath t
  modes := { deleteAllFolders := !confirm.deleteFolder }

/-- `ShellDelete`, with what has become of the entries when it is done. -/
def shellDelete (replies : List Reply) : Option Tally :=
  match deleteSelected t confirm (.initial t confirm) replies with
  | .returned _ S _ => some S.tally
  | _ => none

/-! ## What is promised -/

/-- A skip was given for what is at `p`, for a directory above it or for something below it. -/
def Tally.Excused (T : Tally) (p : Path) : Prop :=
  (∃ s ∈ T.skipped, p <:+ s.1) ∨ (∃ d ∈ T.declined, p <:+ d ∨ d <:+ p)

/-- Exactly what was not skipped has been removed. -/
structure Tally.Exact (T : Tally) (t : Tree) : Prop where
  removed_or_excused : ∀ p, t.Entry p → p ∈ T.removed ∨ T.Excused p
  spared : ∀ d ∈ T.declined, ∀ p, d <:+ p → p ∉ T.removed
  entries : ∀ p ∈ T.removed, t.Entry p

/-- A skipped link to a directory was the last entry of the directory it is in. -/
def Tally.LinksLast (T : Tally) (t : Tree) : Prop :=
  ∀ s ∈ T.skipped, s.2.IsDirSymLink → ∃ n d, s.1 = n :: d ∧ (t.children d).getLast? = some n

end Far2l.Delete
