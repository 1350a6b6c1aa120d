/-
Far2l.NetRocks.Transfer — `OpXfer::Transfer` of `NetRocks/src/Op/OpXfer.cpp`, with
`SymlinkCopy`, `FileDelete`, `CopyAttributes` and `WhatOnErrorWrap`.

What the hosts and the user answer is the next of a list of replies. A call that
throws may have taken effect all the same. `DirectoryDelete` removes empty
directories only, and `FileCopyLoop` is a call here: it is modelled in
`Far2l.NetRocks.FileCopyLoop`. Counters and messages are left out, and so are the
errors that the user has answered for all: the answer is the reply's either way.
-/
import Far2l.Lib.Action
import Far2l.Utils.Chars

namespace Far2l.NetRocks

/-- A path, as bytes. -/
abbrev Path : Type := List Byte

/-- `'/'` -/
def slash : Byte := 0x2F

/-! ## Modes and answers -/

/-- `FileInformation`; times are numbers. -/
structure FileInformation where
  modificationTime : Nat := 0
  size : Nat := 0
  mode : Nat := 0

def S_IFMT : Nat := 0o170000
def S_ISLNK (mode : Nat) : Bool := mode &&& S_IFMT = 0o120000
def S_ISREG (mode : Nat) : Bool := mode &&& S_IFMT = 0o100000
def S_ISDIR (mode : Nat) : Bool := mode &&& S_IFMT = 0o040000

/-- `S_IRUSR | S_IWUSR` -/
def EXTRA_NEEDED_MODE : Nat := 0o600

inductive XferKind where
  | XK_COPY
  | XK_MOVE
deriving DecidableEq

/-- `XOA_ASK` is also `XOA_CANCEL`. -/
inductive XferOverwriteAction where
  | XOA_ASK
  | XOA_SKIP
  | XOA_RESUME
  | XOA_OVERWRITE
  | XOA_OVERWRITE_IF_NEWER
  | XOA_CREATE_DIFFERENT_NAME
  | XOA_OVERWRITE_IF_NEWER_OTHERWISE_ASK
deriving DecidableEq

/-- What the user answers to an error. -/
inductive ErrorAction where
  | WEA_SKIP
  | WEA_RETRY
  | WEA_RECOVERY
  | WEA_CANCEL
deriving DecidableEq

/-- How a call ends. -/
inductive CallEnd where
  | returns
  | throws (tookEffect : Bool)
  /-- `ProtocolUnsupportedError` -/
  | unsupported
  /-- `AbortError` -/
  | aborts

/-- A reply: each call and each question takes from it what it asks for. -/
structure XferReply where
  ending : CallEnd := .returns
  info : FileInformation := {}
  target : Path := []
  error : ErrorAction := .WEA_CANCEL
  overwrite : XferOverwriteAction := .XOA_ASK
  remember : Bool := false
  copied : Bool := true

/-- The exception on its way. -/
inductive Thrown where
  | error
  | unsupported
  | abort
deriving DecidableEq

/-! ## The operation -/

/-- What has happened to an entry: the target that was chosen for it, the one of the symlink that
was created, whether `SymlinkCopy` has come to its end without one, and whether `Rename`,
`FileCopyLoop` and `FileDelete` have done their work on it. -/
structure Fate where
  path : Path
  isLink : Bool
  chosen : Option Path := none
  made : Option Path := none
  unmade : Bool := false
  renamed : Bool := false
  copied : Bool := false
  deleted : Bool := false

/-- What does not change. -/
structure XferConfig where
  baseDir : Path
  dstDir : Path
  kind : XferKind
  onSiteMove : Bool
  smartSymlinksCopy : Bool
  useOfChmod : Nat
  diffnameSuffix : Path
  /-- `_entries` -/
  entries : List (Path × FileInformation)

/-- `OpXfer` while it transfers. The first one of `fates` is the entry's whose turn it is. -/
structure Xfer where
  defaultXoa : XferOverwriteAction
  /-- `e.second` -/
  info : FileInformation := {}
  symlinkTarget : Path := []
  created : Bool := false
  thrown : Thrown := .error
  /-- The entries whose turn is over, the last one first. -/
  turned : List (Path × FileInformation) := []
  fates : List Fate := []

/-- A program of the transfer. -/
abbrev Step (α : Type) : Type := Action Xfer XferReply α

namespace Xfer

open Far2l.Action

variable (cfg : XferConfig)

/-- The fate of the entry whose turn it is. -/
def onFate (f : Fate → Fate) (x : Xfer) : Xfer :=
  { x with fates := match x.fates with
    | [] => []
    | fate :: fates => f fate :: fates }

/-! ## Calls and errors -/

/-- A call of a host. -/
def hostCall (effect : Xfer → XferReply → Xfer) : Step Unit :=
  partly fun x reply => match reply.ending with
    | .returns => (some (), effect x reply)
    | .throws tookEffect => (none, { if tookEffect then effect x reply else x with thrown := .error })
    | .unsupported => (none, { x with thrown := .unsupported })
    | .aborts => (none, { x with thrown := .abort })

/-- A call that changes nothing here. -/
def bareCall : Step Unit := hostCall fun x _ => x

/-- Where an operation that is being aborted throws `AbortError`. -/
def checkAborting : Step Unit :=
  partly fun x reply => match reply.ending with
    | .aborts => (none, { x with thrown := .abort })
    | _ => (some (), x)

def query : Step ErrorAction := call fun x reply => (reply.error, x)

/-- The handler of `WhatOnErrorWrap`. -/
def onError : Step (Option Unit) := do
  let x ← state
  if x.thrown = .abort then throws
  else
    match ← query with
    | .WEA_SKIP => pure (some ())
    | .WEA_RETRY =>
        bareCall
        checkAborting
        pure none
    | .WEA_RECOVERY =>
        checkAborting
        pure none
    | .WEA_CANCEL =>
        modify fun x => { x with thrown := .abort }
        throws

/-- `WhatOnErrorWrap` -/
def whatOnErrorWrap (fn : Step Unit) : Step Unit :=
  loop (catching (do fn; pure (some ())) onError)

def fileDelete : Step Unit :=
  whatOnErrorWrap (hostCall fun x _ => x.onFate fun fate => { fate with deleted := true })

/-! ## Symlinks -/

/-- What is in front of the last slash. -/
def parentPath (path : Path) : Path := ((path.reverse.dropWhile (· ≠ slash)).drop 1).reverse

/-- The parts of a target between its slashes. -/
def components : Path → List Path
  | [] => [[]]
  | ch :: target =>
      if ch = slash then [] :: components target
      else
        match components target with
        | [] => [[ch]]
        | component :: rest => (ch :: component) :: rest

/-- `refined` with one more component. -/
def refine (refined component : Path) : Path :=
  if component = [] ∨ component = [0x2E] then refined
  else if component = [0x2E, 0x2E] then parentPath refined
  else if refined ≠ [] ∧ refined.getLast? ≠ some slash then refined ++ slash :: component
  else refined ++ component

/-- The target that `SymlinkCopy` chooses, if it does not dismiss the symlink. -/
def chooseTarget (pathSrc pathDst target : Path) : Option Path :=
  if target = [] then none
  else if ¬ cfg.smartSymlinksCopy then some target
  else if target.head? = some slash then
    if target ∈ cfg.entries.map Prod.fst then
      let ups := (pathDst.drop cfg.baseDir.length).count slash
      some ((List.replicate ups [0x2E, 0x2E, slash]).flatten ++ target.drop cfg.baseDir.length)
    else none
  else
    let refined := (components target).foldl refine (parentPath pathSrc)
    if refined ∈ cfg.entries.map Prod.fst then some target else none

/-- `SymlinkQuery` -/
def symlinkQuery : Step Unit := do
  modify fun x => { x with symlinkTarget := [] }
  hostCall fun x reply => { x with symlinkTarget := reply.target }

/-- The creation: `created` is set before the call, and what is not supported is passed over. -/
def symlinkCreate (target : Path) : Step Unit :=
  catching
    (do
      modify fun x => { x with created := true }
      hostCall fun x _ => x.onFate fun fate => { fate with made := some target })
    (do
      let x ← state
      if x.thrown = .unsupported then pure () else throws)

/-- `SymlinkCopy` -/
def symlinkCopy (pathSrc pathDst : Path) : Step Bool := do
  whatOnErrorWrap symlinkQuery
  let x ← state
  match chooseTarget cfg pathSrc pathDst x.symlinkTarget with
  | none => pure false
  | some target =>
      modify fun x => { x.onFate fun fate => { fate with chosen := some target } with
        created := false }
      whatOnErrorWrap (symlinkCreate target)
      modify fun x => x.onFate fun fate => { fate with unmade := fate.made.isNone }
      let x ← state
      pure x.created

/-! ## Attributes and directories -/

/-- `SetMode`, once more without the special bits where it fails with them. -/
def setMode : Step Unit :=
  catching bareCall
    (do
      let x ← state
      if x.info.mode &&& 0o7000 = 0 then throws else bareCall)

/-- `CopyAttributes` of the entry whose turn it is. -/
def copyAttributes : Step Unit := do
  whatOnErrorWrap bareCall
  let x ← state
  if cfg.useOfChmod = 2 ∨ (cfg.useOfChmod = 0 ∧ x.info.mode ||| EXTRA_NEEDED_MODE = x.info.mode) then
    pure ()
  else whatOnErrorWrap setMode

/-- `DirectoryCopy`, where there is no directory yet. -/
def directoryCopy (existing : Option FileInformation) : Step Unit :=
  match existing with
  | none => whatOnErrorWrap bareCall
  | some _ => pure ()

/-- `IsDstPathExists` -/
def isDstPathExists : Step Bool :=
  call fun x reply => (match reply.ending with
    | .returns => true
    | _ => false, x)

/-- The part of the destination up to one of its slashes is made. -/
def ensurePart : Step Unit :=
  whatOnErrorWrap (do
    if ← isDstPathExists then pure () else bareCall)

def ensureParts : Nat → Step Unit
  | 0 => pure ()
  | n + 1 => do
      ensurePart
      ensureParts n

/-- `EnsureDstDirExists` -/
def ensureDstDirExists : Step Unit := do
  if ← isDstPathExists then pure ()
  else ensureParts (if cfg.dstDir = [] then 0 else (cfg.dstDir.drop 1).count slash + 1)

/-! ## `Transfer` -/

/-- `GetInformation` of the destination. -/
def getExisting : Step (Option FileInformation) :=
  call fun x reply => (match reply.ending with
    | .returns => some reply.info
    | _ => none, x)

/-- `GetInformation` of what a symlink leads to. -/
def getTargetInformation : Step Unit := hostCall fun x reply => { x with info := reply.info }

/-- A move deletes the source. -/
def deleteMoved : Step Unit := if cfg.kind = .XK_MOVE then fileDelete else pure ()

/-- An entry that is a symlink: whether its turn is over. -/
def transferLink (pathSrc pathDst : Path) (existing : Option FileInformation) : Step Bool := do
  match existing with
  | some _ =>
      checkAborting
      pure true
  | none =>
      if ← symlinkCopy cfg pathSrc pathDst then
        deleteMoved cfg
        checkAborting
        pure true
      else
        whatOnErrorWrap getTargetInformation
        let x ← state
        if S_ISREG x.info.mode ∨ S_ISDIR x.info.mode then pure false
        else
          checkAborting
          pure true

/-- What to do about a file. -/
inductive FileChoice where
  | cancel
  | skip
  | copyTo (pathDst : Path)

/-- `ConfirmOverwrite::Ask` -/
def confirmOverwrite : Step XferOverwriteAction :=
  call fun x reply =>
    (reply.overwrite,
      if reply.overwrite ≠ .XOA_ASK ∧ reply.remember then { x with defaultXoa := reply.overwrite }
      else x)

/-- What the action comes to, once it is known. -/
def resolve (pathDst : Path) (existing info : FileInformation) : XferOverwriteAction → FileChoice
  | .XOA_OVERWRITE_IF_NEWER =>
      if existing.modificationTime < info.modificationTime then .copyTo pathDst else .skip
  | .XOA_RESUME => if existing.size < info.size then .copyTo pathDst else .skip
  | .XOA_CREATE_DIFFERENT_NAME => .copyTo (pathDst ++ cfg.diffnameSuffix)
  | .XOA_SKIP => .skip
  | _ => .copyTo pathDst

/-- What to do about a file that may be there already. -/
def chooseFile (pathDst : Path) : Option FileInformation → Step FileChoice
  | none => pure (.copyTo pathDst)
  | some existing => do
      let x ← state
      let xoa := if x.defaultXoa = .XOA_OVERWRITE_IF_NEWER_OTHERWISE_ASK then
          if existing.modificationTime < x.info.modificationTime then .XOA_OVERWRITE else .XOA_ASK
        else x.defaultXoa
      if xoa = .XOA_ASK then
        let answer ← confirmOverwrite
        if answer = .XOA_ASK then pure .cancel
        else pure (resolve cfg pathDst existing x.info answer)
      else pure (resolve cfg pathDst existing x.info xoa)

/-- `Rename` on the site itself. -/
def rename : Step Bool :=
  catching
    (do
      hostCall fun x _ => x.onFate fun fate => { fate with renamed := true }
      pure true)
    (pure false)

def onSiteRename : Step Bool := if cfg.onSiteMove then rename else pure false

/-- `FileCopyLoop` -/
def fileCopyLoop : Step Bool :=
  partly fun x reply => match reply.ending with
    | .returns =>
        (some reply.copied,
          if reply.copied then x.onFate fun fate => { fate with copied := true } else x)
    | .aborts => (none, { x with thrown := .abort })
    | _ => (none, { x with thrown := .error })

/-- A file is renamed, or copied and perhaps deleted. -/
def transferFile : Step Unit := do
  if ← onSiteRename cfg then pure ()
  else
    if ← fileCopyLoop then
      copyAttributes cfg
      deleteMoved cfg
      checkAborting
    else checkAborting

/-- An entry that is not a symlink, or whose target is copied: `false` where all is cancelled. -/
def transferContent (pathDst : Path) (existing : Option FileInformation) : Step Bool := do
  let x ← state
  if S_ISDIR x.info.mode then
    directoryCopy existing
    checkAborting
    pure true
  else
    match ← chooseFile cfg pathDst existing with
    | .cancel => pure false
    | .skip => pure true
    | .copyTo pathDst =>
        transferFile cfg
        pure true

/-- `path_dst` -/
def dstPath (pathSrc : Path) : Path := cfg.dstDir ++ pathSrc.drop cfg.baseDir.length

/-- An entry's turn begins. -/
def beginTurn (pathSrc : Path) (info : FileInformation) (x : Xfer) : Xfer :=
  { x with
    info := info
    fates := { path := pathSrc, isLink := S_ISLNK info.mode } :: x.fates }

/-- An entry's turn: `false` where all is cancelled. -/
def transferEntry (pathSrc : Path) (info : FileInformation) : Step Bool := do
  modify (beginTurn pathSrc info)
  let existing ← getExisting
  if S_ISLNK info.mode then
    if ← transferLink cfg pathSrc (dstPath cfg pathSrc) existing then pure true
    else transferContent cfg (dstPath cfg pathSrc) existing
  else transferContent cfg (dstPath cfg pathSrc) existing

def transferEntries : List (Path × FileInformation) → Step Bool
  | [] => pure true
  | (pathSrc, info) :: entries => do
      if ← transferEntry cfg pathSrc info then
        modify fun x => { x with turned := (pathSrc, x.info) :: x.turned }
        transferEntries entries
      else pure false

/-- `DirectoryDelete` of a directory that is moved. -/
def directoryDelete : Step Unit :=
  if cfg.kind = .XK_MOVE then whatOnErrorWrap bareCall else pure ()

/-- A directory is finished: its attributes are copied, and a move deletes it. -/
def finishDirectory (info : FileInformation) : Step Unit :=
  if S_ISDIR info.mode then do
    modify fun x => { x with info := info }
    copyAttributes cfg
    directoryDelete cfg
  else pure ()

/-- The directories, the last one first. -/
def finishDirectories : List (Path × FileInformation) → Step Unit
  | [] => pure ()
  | (_, info) :: turned => do
      finishDirectory cfg info
      finishDirectories turned

/-- `Transfer` -/
def transfer : Step Unit := do
  ensureDstDirExists cfg
  if ← transferEntries cfg cfg.entries then
    let x ← state
    finishDirectories cfg x.turned
  else pure ()

end Xfer

end Far2l.NetRocks
