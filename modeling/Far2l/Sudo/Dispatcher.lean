/-
Far2l.Sudo.Dispatcher — the dispatcher of `WinPort/src/sudo/sudo_dispatcher.cpp`:
`OnSudoDispatch` with what it does for each command, on Linux.

What a system call ends with is up to the kernel, which may go by all the calls
that were made before. `fork` with `system` is one call here, and so is the
`ioctl` with the `open` around it. The dispatcher does not run out of memory.
-/
import Far2l.Sudo.Transaction

namespace Far2l.Sudo

/-! ## System calls -/

/-- An `errno` that says something. -/
abbrev Errno : Type := { e : Int32 // e ≠ 0 }

inductive StatCall where
  | statfs
  | statvfs
  | stat
  | lstat
deriving DecidableEq

/-- The structure that is filled in. -/
def StatCall.size : StatCall → Nat
  | .statfs => 120
  | .statvfs => 112
  | .stat => 144
  | .lstat => 144

inductive PathAndModeCall where
  | mkdir
  | chmod
deriving DecidableEq

inductive OnePathCall where
  | rmdir
  | remove
  | unlink
deriving DecidableEq

inductive TwoPathsCall where
  | rename
  | symlink
  | link
deriving DecidableEq

/-- `struct timespec` -/
abbrev Timespec : Type := Struct 16

/-- `struct dirent` -/
abbrev Dirent : Type := Struct 280

/-- The size of a buffer, which is also an `ssize_t`. -/
abbrev BufSize : Type := { n : UInt64 // n.toNat < 2 ^ 63 }

inductive Syscall where
  | execute (cmd : List Byte) (noWait : Int32)
  | open_ (path : List Byte) (flags : Int32) (mode : UInt32)
  | statCommon (call : StatCall) (path : List Byte)
  | opendir (path : List Byte)
  | closedir (dir : UInt64)
  | readdir (dir : UInt64)
  | pathAndMode (call : PathAndModeCall) (path : List Byte) (mode : UInt32)
  | onePath (call : OnePathCall) (path : List Byte)
  | chdir (path : List Byte)
  | getcwd
  | chown (path : List Byte) (owner group : UInt32)
  | utimens (path : List Byte) (atime mtime : Timespec)
  | futimens (file : Nat) (atime mtime : Timespec)
  | twoPaths (call : TwoPathsCall) (path1 path2 : List Byte)
  | realpath (path : List Byte)
  | readlink (path : List Byte) (bufsiz : UInt64)
  | fsFlagsGet (path : List Byte)
  | fsFlagsSet (path : List Byte) (flags : UInt64)
  | fchmod (file : Nat) (mode : UInt32)
  | mkfifo (path : List Byte) (mode : UInt32)
  | mknod (path : List Byte) (mode : UInt32) (dev : UInt64)

/-- What a call gives where it succeeds. -/
def Syscall.Result : Syscall → Type
  | .execute _ _ => { r : Int32 // r ≠ -1 }
  | .open_ _ _ _ => Nat
  | .statCommon call _ => Struct call.size
  | .opendir _ => { dir : UInt64 // dir ≠ 0 }
  | .readdir _ => Option Dirent
  | .getcwd => Str
  | .realpath _ => Str
  | .readlink _ bufsiz => { buf : List Byte // buf.length ≤ bufsiz.toNat }
  | .fsFlagsGet _ => UInt64
  | _ => Unit

/-- What the calls end with. -/
abbrev Kernel : Type := List Syscall → (call : Syscall) → Except Errno call.Result

/-! ## Commands -/

inductive SudoCommand where
  | SUDO_CMD_INVALID
  | SUDO_CMD_PING
  | SUDO_CMD_EXECUTE
  | SUDO_CMD_OPEN
  | SUDO_CMD_STATFS
  | SUDO_CMD_STATVFS
  | SUDO_CMD_STAT
  | SUDO_CMD_LSTAT
  | SUDO_CMD_OPENDIR
  | SUDO_CMD_CLOSEDIR
  | SUDO_CMD_READDIR
  | SUDO_CMD_MKDIR
  | SUDO_CMD_CHDIR
  | SUDO_CMD_RMDIR
  | SUDO_CMD_REMOVE
  | SUDO_CMD_UNLINK
  | SUDO_CMD_CHMOD
  | SUDO_CMD_CHOWN
  | SUDO_CMD_UTIMENS
  | SUDO_CMD_FUTIMENS
  | SUDO_CMD_RENAME
  | SUDO_CMD_SYMLINK
  | SUDO_CMD_LINK
  | SUDO_CMD_REALPATH
  | SUDO_CMD_READLINK
  | SUDO_CMD_FSFLAGSGET
  | SUDO_CMD_FSFLAGSSET
  | SUDO_CMD_FCHMOD
  | SUDO_CMD_MKFIFO
  | SUDO_CMD_MKNOD
deriving DecidableEq

/-- The commands in their order. -/
def sudoCommands : List SudoCommand :=
  [.SUDO_CMD_INVALID, .SUDO_CMD_PING, .SUDO_CMD_EXECUTE, .SUDO_CMD_OPEN, .SUDO_CMD_STATFS,
    .SUDO_CMD_STATVFS, .SUDO_CMD_STAT, .SUDO_CMD_LSTAT, .SUDO_CMD_OPENDIR, .SUDO_CMD_CLOSEDIR,
    .SUDO_CMD_READDIR, .SUDO_CMD_MKDIR, .SUDO_CMD_CHDIR, .SUDO_CMD_RMDIR, .SUDO_CMD_REMOVE,
    .SUDO_CMD_UNLINK, .SUDO_CMD_CHMOD, .SUDO_CMD_CHOWN, .SUDO_CMD_UTIMENS, .SUDO_CMD_FUTIMENS,
    .SUDO_CMD_RENAME, .SUDO_CMD_SYMLINK, .SUDO_CMD_LINK, .SUDO_CMD_REALPATH, .SUDO_CMD_READLINK,
    .SUDO_CMD_FSFLAGSGET, .SUDO_CMD_FSFLAGSSET, .SUDO_CMD_FCHMOD, .SUDO_CMD_MKFIFO,
    .SUDO_CMD_MKNOD]

instance : Pod SudoCommand where
  size := 4
  bytes cmd := leBytes 4 (sudoCommands.idxOf cmd)
  ofBytes bs := sudoCommands.getD (leNat bs) .SUDO_CMD_INVALID
  length_bytes cmd := length_leBytes 4 _
  ofBytes_bytes cmd := by cases cmd <;> rfl

/-! ## The dispatcher's functions -/

/-- What the dispatcher knows: the directories that are open (`OpenedDirs`), and the calls it has
made. -/
structure Opened where
  dirs : List UInt64 := []
  calls : List Syscall := []

namespace Dispatcher

variable (K : Kernel)

/-- A system call: where it fails, it sets `errno`. -/
def syscall (call : Syscall) : Fn Opened (Option call.Result) := do
  let p ← Prog.state
  Prog.modify fun p => { p with own := { p.own with calls := p.own.calls ++ [call] } }
  match K p.own.calls call with
  | .ok r => pure (some r)
  | .error e => do
      setErrno e.1
      pure none

/-- What an `int` function returns. -/
def returned {α : Type} : Option α → Int32
  | some _ => 0
  | none => -1

/-- `int r = ...; bt.SendInt(r); if (r==-1) bt.SendErrno();` -/
def sendReturned (call : Syscall) : Fn Opened Unit := do
  let r ← syscall K call
  sendPOD (returned r)
  if returned r = -1 then sendErrno else pure ()

/-- `int r = ...; bt.SendInt(r); if (r != 0) bt.SendErrno();` -/
def sendNonZero (call : Syscall) : Fn Opened Unit := do
  let r ← syscall K call
  sendPOD (returned r)
  if returned r ≠ 0 then sendErrno else pure ()

def onExecute : Fn Opened Unit := do
  let cmd ← recvStr
  let noWait ← recvPOD Int32
  match ← syscall K (.execute cmd noWait) with
  | some r => sendPOD r.1
  | none => do
      sendPOD (-1 : Int32)
      sendErrno

def onOpen : Fn Opened Unit := do
  let path ← recvStr
  let flags ← recvPOD Int32
  let mode ← recvPOD UInt32
  match ← syscall K (.open_ path flags mode) with
  | some (file : Nat) => do
      sendPOD (0 : Int32)
      sendFD file
  | none => do
      let r ← errno
      sendPOD (if r ≠ 0 then r else -1)

def onStatCommon (call : StatCall) : Fn Opened Unit := do
  let path ← recvStr
  match ← syscall K (.statCommon call path) with
  | some (s : Struct call.size) => do
      sendPOD (0 : Int32)
      sendPOD s
  | none => sendPOD (-1 : Int32)

/-- `closedir` of a directory that was open. -/
def closeOpened (dir : UInt64) (opened : Bool) : Fn Opened Int32 := do
  if opened then
    let r ← syscall K (.closedir dir)
    pure (returned r)
  else pure (-1)

def onCloseDir : Fn Opened Unit := do
  let dir ← recvPOD UInt64
  let p ← Prog.state
  Prog.modify fun p => { p with own := { p.own with dirs := p.own.dirs.filter (· ≠ dir) } }
  sendPOD (← closeOpened K dir (dir ∈ p.own.dirs))

def onOpenDir : Fn Opened Unit := do
  let path ← recvStr
  let r ← syscall K (.opendir path)
  let dir : UInt64 := match r with
    | some dir => dir.1
    | none => 0
  Prog.modify fun p => { p with own := { p.own with dirs := dir :: p.own.dirs } }
  sendPOD dir
  if dir = 0 then sendErrno else pure ()

/-- `readdir` of a directory that is open. -/
def readOpened (dir : UInt64) (opened : Bool) : Fn Opened (Option Dirent) := do
  if opened then
    match ← syscall K (.readdir dir) with
    | some (de : Option Dirent) => pure de
    | none => pure none
  else pure none

def onReadDir : Fn Opened Unit := do
  let dir ← recvPOD UInt64
  recvErrno
  let p ← Prog.state
  match ← readOpened K dir (dir ∈ p.own.dirs) with
  | some de => do
      sendPOD (0 : Int32)
      sendPOD de
  | none => do
      let err ← errno
      sendPOD (if err ≠ 0 then err else -1)

def onPathAndMode (call : PathAndModeCall) : Fn Opened Unit := do
  let path ← recvStr
  let mode ← recvPOD UInt32
  sendReturned K (.pathAndMode call path mode)

def onOnePathCommon (call : OnePathCall) : Fn Opened Unit := do
  let path ← recvStr
  sendReturned K (.onePath call path)

def onChDir : Fn Opened Unit := do
  let path ← recvStr
  let r ← syscall K (.chdir path)
  sendPOD (returned r)
  if returned r = -1 then sendErrno
  else
    match ← syscall K .getcwd with
    | some (cwd : Str) => sendStr cwd
    | none => sendStr ⟨[], by decide⟩

def onChOwn : Fn Opened Unit := do
  let path ← recvStr
  let owner ← recvPOD UInt32
  let group ← recvPOD UInt32
  sendReturned K (.chown path owner group)

def onUTimens : Fn Opened Unit := do
  let path ← recvStr
  let atime ← recvPOD Timespec
  let mtime ← recvPOD Timespec
  sendReturned K (.utimens path atime mtime)

def onFUTimens : Fn Opened Unit := do
  let file ← recvFD
  let atime ← recvPOD Timespec
  let mtime ← recvPOD Timespec
  sendReturned K (.futimens file atime mtime)

def onTwoPaths (call : TwoPathsCall) : Fn Opened Unit := do
  let path1 ← recvStr
  let path2 ← recvStr
  sendReturned K (.twoPaths call path1 path2)

def onRealPath : Fn Opened Unit := do
  let path ← recvStr
  match ← syscall K (.realpath path) with
  | some (resolved : Str) => do
      sendPOD (0 : Int32)
      sendStr resolved
  | none => do
      let err ← errno
      sendPOD (if err ≠ 0 then err else -1)

def onReadLink : Fn Opened Unit := do
  let path ← recvStr
  let bufsiz ← recvPOD UInt64
  match ← syscall K (.readlink path bufsiz) with
  | some (buf : { buf : List Byte // buf.length ≤ bufsiz.toNat }) => do
      let r := Int64.ofNat buf.1.length
      sendPOD r
      if 0 ≤ r ∧ r ≤ bufsiz.toInt64 then sendBuf buf.1 else sendErrno
  | none => do
      sendPOD (-1 : Int64)
      sendErrno

def onFSFlagsGet : Fn Opened Unit := do
  let path ← recvStr
  match ← syscall K (.fsFlagsGet path) with
  | some (flags : UInt64) => do
      sendPOD (0 : Int32)
      sendPOD flags
  | none => do
      sendPOD (-1 : Int32)
      sendErrno

def onFSFlagsSet : Fn Opened Unit := do
  let path ← recvStr
  let flags ← recvPOD UInt64
  match ← syscall K (.fsFlagsSet path flags) with
  | some _ => sendPOD (0 : Int32)
  | none => do
      sendPOD (-1 : Int32)
      sendErrno

def onFChMod : Fn Opened Unit := do
  let file ← recvFD
  let mode ← recvPOD UInt32
  let r ← syscall K (.fchmod file mode)
  sendPOD (returned r)

def onMkFifo : Fn Opened Unit := do
  let path ← recvStr
  let mode ← recvPOD UInt32
  sendNonZero K (.mkfifo path mode)

def onMkNod : Fn Opened Unit := do
  let path ← recvStr
  let mode ← recvPOD UInt32
  let dev ← recvPOD UInt64
  sendNonZero K (.mknod path mode dev)

/-- `OnSudoDispatch` -/
def onSudoDispatch : SudoCommand → Fn Opened Unit
  | .SUDO_CMD_INVALID => .fail
  | .SUDO_CMD_PING => pure ()
  | .SUDO_CMD_EXECUTE => onExecute K
  | .SUDO_CMD_OPEN => onOpen K
  | .SUDO_CMD_STATFS => onStatCommon K .statfs
  | .SUDO_CMD_STATVFS => onStatCommon K .statvfs
  | .SUDO_CMD_STAT => onStatCommon K .stat
  | .SUDO_CMD_LSTAT => onStatCommon K .lstat
  | .SUDO_CMD_OPENDIR => onOpenDir K
  | .SUDO_CMD_CLOSEDIR => onCloseDir K
  | .SUDO_CMD_READDIR => onReadDir K
  | .SUDO_CMD_MKDIR => onPathAndMode K .mkdir
  | .SUDO_CMD_CHDIR => onChDir K
  | .SUDO_CMD_RMDIR => onOnePathCommon K .rmdir
  | .SUDO_CMD_REMOVE => onOnePathCommon K .remove
  | .SUDO_CMD_UNLINK => onOnePathCommon K .unlink
  | .SUDO_CMD_CHMOD => onPathAndMode K .chmod
  | .SUDO_CMD_CHOWN => onChOwn K
  | .SUDO_CMD_UTIMENS => onUTimens K
  | .SUDO_CMD_FUTIMENS => onFUTimens K
  | .SUDO_CMD_RENAME => onTwoPaths K .rename
  | .SUDO_CMD_SYMLINK => onTwoPaths K .symlink
  | .SUDO_CMD_LINK => onTwoPaths K .link
  | .SUDO_CMD_REALPATH => onRealPath K
  | .SUDO_CMD_READLINK => onReadLink K
  | .SUDO_CMD_FSFLAGSGET => onFSFlagsGet K
  | .SUDO_CMD_FSFLAGSSET => onFSFlagsSet K
  | .SUDO_CMD_FCHMOD => onFChMod K
  | .SUDO_CMD_MKFIFO => onMkFifo K
  | .SUDO_CMD_MKNOD => onMkNod K

/-- What `sudo_dispatcher_with_socket` does over and over. -/
def serve : Fn Opened Unit := do
  let cmd ← recvPOD SudoCommand
  onSudoDispatch K cmd
  sendPOD cmd

end Dispatcher

end Far2l.Sudo
