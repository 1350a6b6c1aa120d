/-
Far2l.Sudo.ClientApi — the proxied functions of
`WinPort/src/sudo/sudo_client_api.cpp`, from the denial of their local attempt,
with `ClientTransaction` of `sudo_client.cpp`, on Linux.

The connection is there and is not lost, so nothing throws. A function gives its
caller a value and `errno`. Paths are sent as they are: how they are reconstructed
is modelled in `Far2l.Sudo.CurDir`.
-/
import Far2l.Sudo.Dispatcher

namespace Far2l.Sudo

/-- `IsAccessDeniedErrno` -/
inductive Denial where
  | EACCES
  | EPERM
deriving DecidableEq

def Denial.errno : Denial → Int32
  | .EACCES => 13
  | .EPERM => 1

/-- What a function gives its caller. -/
inductive Ret where
  /-- -1, or a null pointer -/
  | failed
  /-- 0 -/
  | ok
  | int (r : Int32)
  | file (file : Nat)
  /-- what is filled in -/
  | bytes (bs : List Byte)
  | flags (flags : UInt64)
  /-- a directory of the dispatcher, by a local one that stands for it -/
  | dir (dir : UInt64)
deriving DecidableEq

/-- What the client knows: `s_c2s_dir`, from local directories to the dispatcher's. -/
structure Registered where
  dirs : List (Nat × UInt64) := []

namespace ClientApi

/-! ## Transactions -/

/-- `ClientTransaction::Finalize` -/
def finalize (cmd : SudoCommand) : Fn Registered Unit := do
  if (← recvPOD SudoCommand) = cmd then pure () else .fail

/-- `ClientTransaction`, from its constructor to its destructor. -/
def transaction {α : Type} (cmd : SudoCommand) (body : Fn Registered α) : Fn Registered α := do
  sendPOD cmd
  let r ← body
  finalize cmd
  pure r

/-- The local attempt is denied. -/
def denied (denial : Denial) : Fn Registered Unit := setErrno denial.errno

/-- `r = ct.RecvInt(); if (r==-1) ct.RecvErrno(); else errno = saved_errno;` -/
def recvReturned (saved : Int32) : Fn Registered Ret := do
  let r ← recvPOD Int32
  if r = -1 then do
    recvErrno
    pure .failed
  else do
    setErrno saved
    pure .ok

/-- `r = ct.RecvInt(); if (r != 0) ct.RecvErrno();` -/
def recvNonZero : Fn Registered Ret := do
  let r ← recvPOD Int32
  if r ≠ 0 then do
    recvErrno
    pure .failed
  else pure .ok

/-! ## The functions -/

/-- `no_wait ? 1 : 0` -/
def flag (noWait : Bool) : Int32 := if noWait then 1 else 0

/-- `sudo_client_execute` -/
def sudoClientExecute (cmd : Str) (noWait : Bool) : Fn Registered Ret :=
  transaction .SUDO_CMD_EXECUTE do
    sendStr cmd
    sendPOD (flag noWait)
    let r ← recvPOD Int32
    if r = -1 then do
      recvErrno
      pure .failed
    else pure (.int r)

def sdcOpen (denial : Denial) (path : Str) (flags : Int32) (mode : UInt32) : Fn Registered Ret := do
  let saved ← errno
  denied denial
  transaction .SUDO_CMD_OPEN do
    sendStr path
    sendPOD flags
    sendPOD mode
    let remoteErrno ← recvPOD Int32
    if remoteErrno = 0 then do
      let r ← recvFD
      setErrno saved
      pure (.file r)
    else do
      setErrno remoteErrno
      pure .failed

/-- `common_stat` -/
def commonStat (cmd : SudoCommand) (call : StatCall) (path : Str) : Fn Registered Ret :=
  transaction cmd do
    sendStr path
    let r ← recvPOD Int32
    if r = 0 then do
      let buf ← recvPOD (Struct call.size)
      pure (.bytes buf.1)
    else pure .failed

/-- The functions that call `common_stat`. -/
def statOf (cmd : SudoCommand) (call : StatCall) (denial : Denial) (path : Str) :
    Fn Registered Ret := do
  let saved ← errno
  denied denial
  let r ← commonStat cmd call path
  if r = .failed then pure r
  else do
    setErrno saved
    pure r

def sdcStatfs : Denial → Str → Fn Registered Ret := statOf .SUDO_CMD_STATFS .statfs
def sdcStatvfs : Denial → Str → Fn Registered Ret := statOf .SUDO_CMD_STATVFS .statvfs
def sdcStat : Denial → Str → Fn Registered Ret := statOf .SUDO_CMD_STAT .stat
def sdcLstat : Denial → Str → Fn Registered Ret := statOf .SUDO_CMD_LSTAT .lstat

def sdcFchmod (denial : Denial) (file : Nat) (mode : UInt32) : Fn Registered Ret := do
  let saved ← errno
  denied denial
  transaction .SUDO_CMD_FCHMOD do
    sendFD file
    sendPOD mode
    let r ← recvPOD Int32
    if r = 0 then do
      setErrno saved
      pure .ok
    else pure .failed

/-- `s_c2s_dir.Register` -/
def register (dir : Nat) (remote : UInt64) : Fn Registered Unit :=
  Prog.modify fun p =>
    { p with own := ⟨(dir, remote) :: p.own.dirs.filter fun entry => entry.1 ≠ dir⟩ }

/-- The request of `sdc_opendir`: the saved `errno`, and the dispatcher's directory. -/
def opendirRequest (denial : Denial) (path : Str) : Fn Registered (Int32 × UInt64) := do
  let saved ← errno
  denied denial
  sendPOD SudoCommand.SUDO_CMD_OPENDIR
  sendStr path
  let remote ← recvPOD UInt64
  pure (saved, remote)

/-- The dispatcher's directory has been opened, or not; `local_` is how the `opendir` of
`s_c2s_dir.Register` ends. -/
def opendirReply (local_ : Except Errno Nat) (saved : Int32) (remote : UInt64) :
    Fn Registered Ret := do
  if remote = 0 then do
    recvErrno
    finalize .SUDO_CMD_OPENDIR
    pure .failed
  else
    match local_ with
    | .ok dir => do
        register dir remote
        setErrno saved
        finalize .SUDO_CMD_OPENDIR
        pure (.dir remote)
    | .error e => do
        setErrno e.1
        finalize .SUDO_CMD_OPENDIR
        transaction .SUDO_CMD_CLOSEDIR do
          sendPOD remote
          let _ ← recvPOD Int32
          pure .failed

def sdcOpendir (denial : Denial) (path : Str) (local_ : Except Errno Nat) : Fn Registered Ret := do
  let (saved, remote) ← opendirRequest denial path
  opendirReply local_ saved remote

/-- `sdc_closedir` of a directory of the dispatcher; the process's own are closed without it. -/
def sdcClosedir (dir : Nat) : Fn Registered Ret := do
  let p ← Prog.state
  match p.own.dirs.lookup dir with
  | some remote => do
      Prog.modify fun p => { p with own := ⟨p.own.dirs.filter fun entry => entry.1 ≠ dir⟩ }
      transaction .SUDO_CMD_CLOSEDIR do
        sendPOD remote
        let r ← recvPOD Int32
        pure (if r = 0 then .ok else .failed)
  | none => .fail

/-- `sdc_readdir` of a directory of the dispatcher; the process's own are read without it. -/
def sdcReaddir (dir : Nat) : Fn Registered Ret := do
  let p ← Prog.state
  match p.own.dirs.lookup dir with
  | some remote =>
      transaction .SUDO_CMD_READDIR do
        sendPOD remote
        sendErrno
        let err ← recvPOD Int32
        if err = 0 then do
          let dirent ← recvPOD Dirent
          pure (.bytes dirent.1)
        else do
          setErrno err
          pure .failed
  | none => .fail

/-- `common_path_and_mode` -/
def commonPathAndMode (cmd : SudoCommand) (denial : Denial) (path : Str) (mode : UInt32) :
    Fn Registered Ret := do
  let saved ← errno
  denied denial
  transaction cmd do
    sendStr path
    sendPOD mode
    recvReturned saved

def sdcMkdir : Denial → Str → UInt32 → Fn Registered Ret := commonPathAndMode .SUDO_CMD_MKDIR
def sdcChmod : Denial → Str → UInt32 → Fn Registered Ret := commonPathAndMode .SUDO_CMD_CHMOD

/-- `common_one_path` -/
def commonOnePath (cmd : SudoCommand) (denial : Denial) (path : Str) : Fn Registered Ret := do
  let saved ← errno
  denied denial
  transaction cmd do
    sendStr path
    recvReturned saved

def sdcRmdir : Denial → Str → Fn Registered Ret := commonOnePath .SUDO_CMD_RMDIR
def sdcRemove : Denial → Str → Fn Registered Ret := commonOnePath .SUDO_CMD_REMOVE
def sdcUnlink : Denial → Str → Fn Registered Ret := commonOnePath .SUDO_CMD_UNLINK

def sdcChdir (denial : Denial) (path : Str) : Fn Registered Ret := do
  let saved ← errno
  denied denial
  let r2 ← transaction .SUDO_CMD_CHDIR do
    sendStr path
    let r2 ← recvPOD Int32
    if r2 = -1 then do
      recvErrno
      pure r2
    else do
      let _ ← recvStr
      pure r2
  if r2 = 0 then do
    setErrno saved
    pure .ok
  else pure .failed

def sdcChown (denial : Denial) (path : Str) (owner group : UInt32) : Fn Registered Ret := do
  let saved ← errno
  denied denial
  transaction .SUDO_CMD_CHOWN do
    sendStr path
    sendPOD owner
    sendPOD group
    recvReturned saved

def sdcUtimens (denial : Denial) (path : Str) (atime mtime : Timespec) : Fn Registered Ret := do
  let saved ← errno
  denied denial
  transaction .SUDO_CMD_UTIMENS do
    sendStr path
    sendPOD atime
    sendPOD mtime
    recvReturned saved

def sdcFutimens (denial : Denial) (file : Nat) (atime mtime : Timespec) : Fn Registered Ret := do
  let saved ← errno
  denied denial
  transaction .SUDO_CMD_FUTIMENS do
    sendFD file
    sendPOD atime
    sendPOD mtime
    recvReturned saved

/-- `common_two_paths` -/
def commonTwoPaths (cmd : SudoCommand) (denial : Denial) (path1 path2 : Str) :
    Fn Registered Ret := do
  let saved ← errno
  denied denial
  transaction cmd do
    sendStr path1
    sendStr path2
    recvReturned saved

def sdcRename : Denial → Str → Str → Fn Registered Ret := commonTwoPaths .SUDO_CMD_RENAME
def sdcSymlink : Denial → Str → Str → Fn Registered Ret := commonTwoPaths .SUDO_CMD_SYMLINK
def sdcLink : Denial → Str → Str → Fn Registered Ret := commonTwoPaths .SUDO_CMD_LINK

def sdcRealpath (denial : Denial) (path : Str) : Fn Registered Ret := do
  let saved ← errno
  denied denial
  transaction .SUDO_CMD_REALPATH do
    sendStr path
    let err ← recvPOD Int32
    if err = 0 then do
      let s ← recvStr
      setErrno saved
      pure (.bytes s)
    else do
      setErrno err
      pure .failed

def sdcReadlink (denial : Denial) (path : Str) (bufsiz : BufSize) : Fn Registered Ret := do
  let saved ← errno
  denied denial
  transaction .SUDO_CMD_READLINK do
    sendStr path
    sendPOD bufsiz.1
    let r ← recvPOD Int64
    if 0 ≤ r ∧ r ≤ bufsiz.1.toInt64 then do
      let buf ← recvBuf r.toNatClampNeg
      setErrno saved
      pure (.bytes buf)
    else do
      recvErrno
      pure .failed

def sdcFsFlagsGet (denial : Denial) (path : Str) : Fn Registered Ret := do
  denied denial
  transaction .SUDO_CMD_FSFLAGSGET do
    sendStr path
    let r ← recvPOD Int32
    if r = 0 then do
      let flags ← recvPOD UInt64
      pure (.flags flags)
    else do
      recvErrno
      pure .failed

def sdcFsFlagsSet (denial : Denial) (path : Str) (flags : UInt64) : Fn Registered Ret := do
  denied denial
  transaction .SUDO_CMD_FSFLAGSSET do
    sendStr path
    sendPOD flags
    recvNonZero

def sdcMkfifo (denial : Denial) (path : Str) (mode : UInt32) : Fn Registered Ret := do
  denied denial
  transaction .SUDO_CMD_MKFIFO do
    sendStr path
    sendPOD mode
    recvNonZero

def sdcMknod (denial : Denial) (path : Str) (mode : UInt32) (dev : UInt64) : Fn Registered Ret := do
  denied denial
  transaction .SUDO_CMD_MKNOD do
    sendStr path
    sendPOD mode
    sendPOD dev
    recvNonZero

end ClientApi

/-! ## Proxied operations -/

/-- A call of one of the functions. -/
inductive ProxyOp where
  | execute (cmd : Str) (noWait : Bool)
  | open_ (path : Str) (flags : Int32) (mode : UInt32)
  | statCommon (call : StatCall) (path : Str)
  | opendir (path : Str) (local_ : Except Errno Nat)
  | closedir (dir : Nat)
  | readdir (dir : Nat)
  | pathAndMode (call : PathAndModeCall) (path : Str) (mode : UInt32)
  | onePath (call : OnePathCall) (path : Str)
  | chdir (path : Str)
  | chown (path : Str) (owner group : UInt32)
  | utimens (path : Str) (atime mtime : Timespec)
  | futimens (file : Nat) (atime mtime : Timespec)
  | twoPaths (call : TwoPathsCall) (path1 path2 : Str)
  | realpath (path : Str)
  | readlink (path : Str) (bufsiz : BufSize)
  | fsFlagsGet (path : Str)
  | fsFlagsSet (path : Str) (flags : UInt64)
  | fchmod (file : Nat) (mode : UInt32)
  | mkfifo (path : Str) (mode : UInt32)
  | mknod (path : Str) (mode : UInt32) (dev : UInt64)

namespace ProxyOp

/-- What the client does. -/
def program (denial : Denial) : ProxyOp → Fn Registered Ret
  | .execute cmd noWait => ClientApi.sudoClientExecute cmd noWait
  | .open_ path flags mode => ClientApi.sdcOpen denial path flags mode
  | .statCommon .statfs path => ClientApi.sdcStatfs denial path
  | .statCommon .statvfs path => ClientApi.sdcStatvfs denial path
  | .statCommon .stat path => ClientApi.sdcStat denial path
  | .statCommon .lstat path => ClientApi.sdcLstat denial path
  | .opendir path local_ => ClientApi.sdcOpendir denial path local_
  | .closedir dir => ClientApi.sdcClosedir dir
  | .readdir dir => ClientApi.sdcReaddir dir
  | .pathAndMode .mkdir path mode => ClientApi.sdcMkdir denial path mode
  | .pathAndMode .chmod path mode => ClientApi.sdcChmod denial path mode
  | .onePath .rmdir path => ClientApi.sdcRmdir denial path
  | .onePath .remove path => ClientApi.sdcRemove denial path
  | .onePath .unlink path => ClientApi.sdcUnlink denial path
  | .chdir path => ClientApi.sdcChdir denial path
  | .chown path owner group => ClientApi.sdcChown denial path owner group
  | .utimens path atime mtime => ClientApi.sdcUtimens denial path atime mtime
  | .futimens file atime mtime => ClientApi.sdcFutimens denial file atime mtime
  | .twoPaths .rename path1 path2 => ClientApi.sdcRename denial path1 path2
  | .twoPaths .symlink path1 path2 => ClientApi.sdcSymlink denial path1 path2
  | .twoPaths .link path1 path2 => ClientApi.sdcLink denial path1 path2
  | .realpath path => ClientApi.sdcRealpath denial path
  | .readlink path bufsiz => ClientApi.sdcReadlink denial path bufsiz
  | .fsFlagsGet path => ClientApi.sdcFsFlagsGet denial path
  | .fsFlagsSet path flags => ClientApi.sdcFsFlagsSet denial path flags
  | .fchmod file mode => ClientApi.sdcFchmod denial file mode
  | .mkfifo path mode => ClientApi.sdcMkfifo denial path mode
  | .mknod path mode dev => ClientApi.sdcMknod denial path mode dev

end ProxyOp

end Far2l.Sudo
