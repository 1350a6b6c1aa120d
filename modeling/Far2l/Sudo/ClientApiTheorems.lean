/-
Far2l.Sudo.ClientApiTheorems — what a proxied function gives its caller.

The client's part of a transaction and the dispatcher's are evaluated apart from
each other: the one on what it receives, the other on what it is sent. That they
fit is that each has consumed what the other has sent.
-/
import Far2l.Sudo.ClientApi

namespace Far2l.Sudo

/-! ## The dispatcher's part -/

section

variable {σ : Type}

@[simp] theorem state_run (p : Process σ) (input : List Item) :
    (Prog.state : Fn σ (Process σ)).run p input = some (p, p, input, []) := rfl

@[simp] theorem modify_run (f : Process σ → Process σ) (p : Process σ) (input : List Item) :
    (Prog.modify f : Fn σ Unit).run p input = some ((), f p, input, []) := rfl

end

namespace Dispatcher

variable {K : Kernel}

/-- What a system call leaves. -/
def after (K : Kernel) (call : Syscall) (p : Process Opened) : Process Opened where
  errno := match K p.own.calls call with
    | .ok _ => p.errno
    | .error e => e.1
  own := { p.own with calls := p.own.calls ++ [call] }

@[simp] theorem syscall_run (call : Syscall) (p : Process Opened) (input : List Item) :
    (syscall K call).run p input = some ((K p.own.calls call).toOption, after K call p, input, []) := by
  rw [syscall, Prog.run_bind, state_run]
  cases hK : K p.own.calls call with
  | ok r => simp only [Option.bind_some, Prog.andThen, Prog.run_bind, modify_run, hK, after, pure_run,
      Option.map_some, Except.toOption, List.append_nil]
  | error e => simp only [Option.bind_some, Prog.andThen, Prog.run_bind, modify_run, hK, after,
      pure_run, setErrno_run, Option.map_some, Except.toOption, List.append_nil]

end Dispatcher

/-! ## Transactions -/

/-- What the caller is to be given. -/
def Syscall.ret : (call : Syscall) → Except Errno call.Result → Ret
  | _, .error _ => .failed
  | .execute _ _, .ok r => .int r.1
  | .open_ _ _ _, .ok file => .file file
  | .statCommon _ _, .ok s => .bytes s.1
  | .opendir _, .ok dir => .dir dir.1
  | .readdir _, .ok none => .failed
  | .readdir _, .ok (some de) => .bytes de.1
  | .getcwd, .ok cwd => .bytes cwd.1
  | .realpath _, .ok resolved => .bytes resolved.1
  | .readlink _ _, .ok buf => .bytes buf.1
  | .fsFlagsGet _, .ok flags => .flags flags
  | _, .ok _ => .ok

/-- The `errno` the caller is to see: the dispatcher's where the call failed, and else its own. -/
def expected {α : Type} (saved : Int32) : Except Errno α → Int32
  | .ok _ => saved
  | .error e => e.1

/-- The client and the dispatcher between two operations. -/
structure Proxy where
  client : Process Registered
  dispatcher : Process Opened

variable {K : Kernel} {denial : Denial} {st : Proxy}

/-- An operation of the client begins, while the dispatcher waits. -/
def begun (K : Kernel) (denial : Denial) (op : ProxyOp) (st : Proxy) :
    Joined (Process Registered) (Process Opened) Item Ret :=
  ⟨op.program denial, st.client, Dispatcher.serve K, st.dispatcher, [], []⟩

/-- It has ended: nothing is on its way, and the dispatcher waits. -/
def ended (K : Kernel) (ret : Ret) (st : Proxy) :
    Joined (Process Registered) (Process Opened) Item Ret :=
  ⟨.done ret, st.client, Dispatcher.serve K, st.dispatcher, [], []⟩

/-- **An operation's transaction**: in whatever order the two processes take their steps, it ends with
both streams empty. -/
def Transacts (K : Kernel) (denial : Denial) (op : ProxyOp) (st : Proxy) (ret : Ret) (st' : Proxy) :
    Prop :=
  Ends (Joined.Step (Dispatcher.serve K)) (begun K denial op st) (ended K ret st')

theorem stopped_ended (ret : Ret) (st : Proxy) :
    Stopped (Joined.Step (Dispatcher.serve K)) (ended K ret st) := by
  intro b hb
  cases hb with
  | client h => exact nomatch h
  | server h => exact nomatch h

/-- The client's part and the dispatcher's fit. -/
theorem transacts {op : ProxyOp} {ret : Ret} {c' : Process Registered} {d' : Process Opened}
    (request reply : List Item) (hsent : (op.program denial).sent st.client [] = request)
    (hserved : (Dispatcher.serve K).run st.dispatcher request = some ((), d', [], reply))
    (hdone : (op.program denial).run st.client reply = some (ret, c', [], request)) :
    Transacts K denial op st ret ⟨c', d'⟩ := by
  obtain ⟨n, hn⟩ := Joined.exchange hsent hserved hdone
  exact hn.ends Joined.diamond (stopped_ended ret _)

/-- What an operation gives that leaves the directories as they are: the call's value, and the right
`errno` where `right` says so. -/
def Gives (K : Kernel) (denial : Denial) (op : ProxyOp) (st : Proxy) (call : Syscall) (right : Prop) :
    Prop :=
  ∃ e d', Transacts K denial op st (call.ret (K st.dispatcher.own.calls call))
      ⟨⟨e, st.client.own⟩, d'⟩
    ∧ d'.own.dirs = st.dispatcher.own.dirs
    ∧ (e = expected st.client.errno (K st.dispatcher.own.calls call) ↔ right)

attribute [local simp] Prog.run_bind Prog.sent_bind Prog.andThen Except.toOption
  ClientApi.transaction ClientApi.finalize ClientApi.denied ProxyOp.program Dispatcher.serve
  Dispatcher.onSudoDispatch Syscall.ret

/-! ## Functions that return 0 or -1 -/

/-- What the dispatcher sends about such a call. -/
def status {α : Type} : Except Errno α → List Item
  | .ok _ => pod (0 : Int32)
  | .error e => pod (-1 : Int32) ++ pod e.1

/-- What the client makes of it. -/
def given {α : Type} : Except Errno α → Ret
  | .ok _ => .ok
  | .error _ => .failed

namespace Dispatcher

variable (call : Syscall) (d : Process Opened) (rest : List Item)

@[simp] theorem sendReturned_run : (sendReturned K call).run d rest
    = some ((), after K call d, rest, status (K d.own.calls call)) := by
  rw [sendReturned]
  cases hK : K d.own.calls call with
  | ok r => simp [hK, returned, status]
  | error e => simp [hK, returned, status, after]

@[simp] theorem sendNonZero_run : (sendNonZero K call).run d rest
    = some ((), after K call d, rest, status (K d.own.calls call)) := by
  rw [sendNonZero]
  cases hK : K d.own.calls call with
  | ok r => simp [hK, returned, status]
  | error e => simp [hK, returned, status, after]

end Dispatcher

namespace ClientApi

variable {α : Type} (out : Except Errno α) (c : Process Registered) (rest : List Item) (saved : Int32)

@[simp] theorem recvReturned_run : (recvReturned saved).run c (status out ++ rest)
    = some (given out, ⟨expected saved out, c.own⟩, rest, []) := by
  rw [recvReturned]
  cases out with
  | ok r => simp [status, given, expected]
  | error e => simp [status, given, expected]

@[simp] theorem recvReturned_waits : (recvReturned saved).run c [] = none := rfl

@[simp] theorem recvReturned_sent : (recvReturned saved).sent c [] = [] := rfl

@[simp] theorem recvNonZero_run : recvNonZero.run c (status out ++ rest)
    = some (given out, ⟨expected c.errno out, c.own⟩, rest, []) := by
  rw [recvNonZero]
  cases out with
  | ok r => simp [status, given, expected]
  | error e => simp [status, given, expected]

@[simp] theorem recvNonZero_waits : recvNonZero.run c [] = none := rfl

@[simp] theorem recvNonZero_sent : recvNonZero.sent c [] = [] := rfl

end ClientApi

/-- `errno` is right where the call failed, and where it did not if it has been restored. -/
theorem expected_iff {α : Type} {found saved : Int32} {out : Except Errno α} :
    expected found out = expected saved out ↔ (out.isOk = true → found = saved) := by
  cases out with
  | ok r => exact ⟨fun h _ => h, fun h => h rfl⟩
  | error e => exact ⟨fun _ h => Bool.noConfusion h, fun _ => rfl⟩

theorem serve_run {cmd : SudoCommand} {d : Process Opened} {args : List Item} (d' : Process Opened)
    (reply : List Item)
    (h : (Dispatcher.onSudoDispatch K cmd).run d args = some ((), d', [], reply)) :
    (Dispatcher.serve K).run d (pod cmd ++ args) = some ((), d', [], reply ++ pod cmd) := by
  rw [Dispatcher.serve, Prog.run_bind, recvPOD_run, Option.bind_some, Prog.andThen, Prog.run_bind, h]
  simp

/-- An operation that is one transaction. -/
theorem transaction_gives {op : ProxyOp} {call : Syscall} {right : Prop} (cmd : SudoCommand)
    (args reply : List Item) (e : Int32) (d' : Process Opened)
    (hsent : (op.program denial).sent st.client [] = pod cmd ++ args)
    (hserved : (Dispatcher.onSudoDispatch K cmd).run st.dispatcher args = some ((), d', [], reply))
    (hdone : (op.program denial).run st.client (reply ++ pod cmd)
      = some (call.ret (K st.dispatcher.own.calls call), ⟨e, st.client.own⟩, [], pod cmd ++ args))
    (hdirs : d'.own.dirs = st.dispatcher.own.dirs)
    (hright : e = expected st.client.errno (K st.dispatcher.own.calls call) ↔ right) :
    Gives K denial op st call right :=
  ⟨e, d', transacts _ _ hsent (serve_run d' reply hserved) hdone, hdirs, hright⟩

/-- One whose call returns 0 or -1, and after which `errno` is restored. -/
theorem restored_gives {op : ProxyOp} {call : Syscall} (cmd : SudoCommand) (args : List Item)
    (hsent : (op.program denial).sent st.client [] = pod cmd ++ args)
    (hserved : (Dispatcher.onSudoDispatch K cmd).run st.dispatcher args
      = some ((), Dispatcher.after K call st.dispatcher, [], status (K st.dispatcher.own.calls call)))
    (hdone : (op.program denial).run st.client (status (K st.dispatcher.own.calls call) ++ pod cmd)
      = some (given (K st.dispatcher.own.calls call),
        ⟨expected st.client.errno (K st.dispatcher.own.calls call), st.client.own⟩, [],
        pod cmd ++ args))
    (hret : ∀ out, call.ret out = given out) : Gives K denial op st call True :=
  transaction_gives cmd args _ _ _ hsent hserved ((hret _).symm ▸ hdone) rfl (iff_of_true rfl trivial)

/-- One after which it is not. -/
theorem kept_gives {op : ProxyOp} {call : Syscall} (cmd : SudoCommand) (args : List Item)
    (hsent : (op.program denial).sent st.client [] = pod cmd ++ args)
    (hserved : (Dispatcher.onSudoDispatch K cmd).run st.dispatcher args
      = some ((), Dispatcher.after K call st.dispatcher, [], status (K st.dispatcher.own.calls call)))
    (hdone : (op.program denial).run st.client (status (K st.dispatcher.own.calls call) ++ pod cmd)
      = some (given (K st.dispatcher.own.calls call),
        ⟨expected denial.errno (K st.dispatcher.own.calls call), st.client.own⟩, [],
        pod cmd ++ args))
    (hret : ∀ out, call.ret out = given out) :
    Gives K denial op st call
      ((K st.dispatcher.own.calls call).isOk = true → denial.errno = st.client.errno) :=
  transaction_gives cmd args _ _ _ hsent hserved ((hret _).symm ▸ hdone) rfl expected_iff

/-! ## Operations that restore `errno` -/

theorem pathAndMode_gives (call : PathAndModeCall) (path : Str) (mode : UInt32) :
    Gives K denial (.pathAndMode call path mode) st (.pathAndMode call path.1 mode) True := by
  have hret : ∀ out, (Syscall.pathAndMode call path.1 mode).ret out = given out := by
    rintro (e | r)
    · rfl
    · rfl
  cases call with
  | mkdir =>
    refine restored_gives .SUDO_CMD_MKDIR (str path ++ pod mode) ?_ ?_ ?_ hret
    · simp [ClientApi.sdcMkdir, ClientApi.commonPathAndMode]
    · simp [Dispatcher.onPathAndMode]
    · simp [ClientApi.sdcMkdir, ClientApi.commonPathAndMode]
  | chmod =>
    refine restored_gives .SUDO_CMD_CHMOD (str path ++ pod mode) ?_ ?_ ?_ hret
    · simp [ClientApi.sdcChmod, ClientApi.commonPathAndMode]
    · simp [Dispatcher.onPathAndMode]
    · simp [ClientApi.sdcChmod, ClientApi.commonPathAndMode]

theorem onePath_gives (call : OnePathCall) (path : Str) :
    Gives K denial (.onePath call path) st (.onePath call path.1) True := by
  have hret : ∀ out, (Syscall.onePath call path.1).ret out = given out := by
    rintro (e | r)
    · rfl
    · rfl
  cases call with
  | rmdir =>
    refine restored_gives .SUDO_CMD_RMDIR (str path) ?_ ?_ ?_ hret
    · simp [ClientApi.sdcRmdir, ClientApi.commonOnePath]
    · simp [Dispatcher.onOnePathCommon]
    · simp [ClientApi.sdcRmdir, ClientApi.commonOnePath]
  | remove =>
    refine restored_gives .SUDO_CMD_REMOVE (str path) ?_ ?_ ?_ hret
    · simp [ClientApi.sdcRemove, ClientApi.commonOnePath]
    · simp [Dispatcher.onOnePathCommon]
    · simp [ClientApi.sdcRemove, ClientApi.commonOnePath]
  | unlink =>
    refine restored_gives .SUDO_CMD_UNLINK (str path) ?_ ?_ ?_ hret
    · simp [ClientApi.sdcUnlink, ClientApi.commonOnePath]
    · simp [Dispatcher.onOnePathCommon]
    · simp [ClientApi.sdcUnlink, ClientApi.commonOnePath]

theorem twoPaths_gives (call : TwoPathsCall) (path1 path2 : Str) :
    Gives K denial (.twoPaths call path1 path2) st (.twoPaths call path1.1 path2.1) True := by
  have hret : ∀ out, (Syscall.twoPaths call path1.1 path2.1).ret out = given out := by
    rintro (e | r)
    · rfl
    · rfl
  cases call with
  | rename =>
    refine restored_gives .SUDO_CMD_RENAME (str path1 ++ str path2) ?_ ?_ ?_ hret
    · simp [ClientApi.sdcRename, ClientApi.commonTwoPaths]
    · simp [Dispatcher.onTwoPaths]
    · simp [ClientApi.sdcRename, ClientApi.commonTwoPaths]
  | symlink =>
    refine restored_gives .SUDO_CMD_SYMLINK (str path1 ++ str path2) ?_ ?_ ?_ hret
    · simp [ClientApi.sdcSymlink, ClientApi.commonTwoPaths]
    · simp [Dispatcher.onTwoPaths]
    · simp [ClientApi.sdcSymlink, ClientApi.commonTwoPaths]
  | link =>
    refine restored_gives .SUDO_CMD_LINK (str path1 ++ str path2) ?_ ?_ ?_ hret
    · simp [ClientApi.sdcLink, ClientApi.commonTwoPaths]
    · simp [Dispatcher.onTwoPaths]
    · simp [ClientApi.sdcLink, ClientApi.commonTwoPaths]

theorem chown_gives (path : Str) (owner group : UInt32) :
    Gives K denial (.chown path owner group) st (.chown path.1 owner group) True := by
  refine restored_gives .SUDO_CMD_CHOWN (str path ++ (pod owner ++ pod group)) ?_ ?_ ?_ ?_
  · simp [ClientApi.sdcChown]
  · simp [Dispatcher.onChOwn]
  · simp [ClientApi.sdcChown]
  · rintro (e | r)
    · rfl
    · rfl

theorem utimens_gives (path : Str) (atime mtime : Timespec) :
    Gives K denial (.utimens path atime mtime) st (.utimens path.1 atime mtime) True := by
  refine restored_gives .SUDO_CMD_UTIMENS (str path ++ (pod atime ++ pod mtime)) ?_ ?_ ?_ ?_
  · simp [ClientApi.sdcUtimens]
  · simp [Dispatcher.onUTimens]
  · simp [ClientApi.sdcUtimens]
  · rintro (e | r)
    · rfl
    · rfl

theorem futimens_gives (file : Nat) (atime mtime : Timespec) :
    Gives K denial (.futimens file atime mtime) st (.futimens file atime mtime) True := by
  refine restored_gives .SUDO_CMD_FUTIMENS (.fd file :: (pod atime ++ pod mtime)) ?_ ?_ ?_ ?_
  · simp [ClientApi.sdcFutimens]
  · simp [Dispatcher.onFUTimens]
  · simp [ClientApi.sdcFutimens]
  · rintro (e | r)
    · rfl
    · rfl

/-! ## Operations that do not -/

theorem fsFlagsSet_gives (path : Str) (flags : UInt64) :
    Gives K denial (.fsFlagsSet path flags) st (.fsFlagsSet path.1 flags)
      ((K st.dispatcher.own.calls (.fsFlagsSet path.1 flags)).isOk = true →
        denial.errno = st.client.errno) := by
  refine kept_gives .SUDO_CMD_FSFLAGSSET (str path ++ pod flags) ?_ ?_ ?_ ?_
  · simp [ClientApi.sdcFsFlagsSet]
  · simp only [Dispatcher.onSudoDispatch]
    rw [Dispatcher.onFSFlagsSet]
    cases hK : K st.dispatcher.own.calls (.fsFlagsSet path.1 flags) with
    | ok r => simp [hK, status]
    | error e => simp [hK, status, Dispatcher.after]
  · simp [ClientApi.sdcFsFlagsSet]
  · rintro (e | r)
    · rfl
    · rfl

theorem mkfifo_gives (path : Str) (mode : UInt32) :
    Gives K denial (.mkfifo path mode) st (.mkfifo path.1 mode)
      ((K st.dispatcher.own.calls (.mkfifo path.1 mode)).isOk = true →
        denial.errno = st.client.errno) := by
  refine kept_gives .SUDO_CMD_MKFIFO (str path ++ pod mode) ?_ ?_ ?_ ?_
  · simp [ClientApi.sdcMkfifo]
  · simp [Dispatcher.onMkFifo]
  · simp [ClientApi.sdcMkfifo]
  · rintro (e | r)
    · rfl
    · rfl

theorem mknod_gives (path : Str) (mode : UInt32) (dev : UInt64) :
    Gives K denial (.mknod path mode dev) st (.mknod path.1 mode dev)
      ((K st.dispatcher.own.calls (.mknod path.1 mode dev)).isOk = true →
        denial.errno = st.client.errno) := by
  refine kept_gives .SUDO_CMD_MKNOD (str path ++ (pod mode ++ pod dev)) ?_ ?_ ?_ ?_
  · simp [ClientApi.sdcMknod]
  · simp [Dispatcher.onMkNod]
  · simp [ClientApi.sdcMknod]
  · rintro (e | r)
    · rfl
    · rfl

/-! ## Operations with a reply of their own -/

theorem execute_gives (cmd : Str) (noWait : Bool) :
    Gives K denial (.execute cmd noWait) st (.execute cmd.1 (ClientApi.flag noWait)) True := by
  rcases hK : K st.dispatcher.own.calls (.execute cmd.1 (ClientApi.flag noWait)) with
    e | (r : { r : Int32 // r ≠ -1 })
  · refine transaction_gives .SUDO_CMD_EXECUTE (str cmd ++ pod (ClientApi.flag noWait))
      (pod (-1 : Int32) ++ pod e.1) e.1
      (Dispatcher.after K (.execute cmd.1 (ClientApi.flag noWait)) st.dispatcher) ?_ ?_ ?_ rfl
      (by simp [hK, expected])
    · simp [ClientApi.sudoClientExecute]
    · simp [Dispatcher.onExecute, hK, Dispatcher.after]
    · simp [ClientApi.sudoClientExecute, hK]
  · refine transaction_gives .SUDO_CMD_EXECUTE (str cmd ++ pod (ClientApi.flag noWait)) (pod r.1)
      st.client.errno (Dispatcher.after K (.execute cmd.1 (ClientApi.flag noWait)) st.dispatcher)
      ?_ ?_ ?_ rfl (by simp [hK, expected])
    · simp [ClientApi.sudoClientExecute]
    · simp [Dispatcher.onExecute, hK]
    · simp [ClientApi.sudoClientExecute, hK, r.2]

theorem open_gives (path : Str) (flags : Int32) (mode : UInt32) :
    Gives K denial (.open_ path flags mode) st (.open_ path.1 flags mode) True := by
  rcases hK : K st.dispatcher.own.calls (.open_ path.1 flags mode) with e | (file : Nat)
  · refine transaction_gives .SUDO_CMD_OPEN (str path ++ (pod flags ++ pod mode)) (pod e.1) e.1
      (Dispatcher.after K (.open_ path.1 flags mode) st.dispatcher) ?_ ?_ ?_ rfl
      (by simp [hK, expected])
    · simp [ClientApi.sdcOpen]
    · simp [Dispatcher.onOpen, hK, Dispatcher.after, e.2]
    · simp [ClientApi.sdcOpen, hK, e.2]
  · refine transaction_gives .SUDO_CMD_OPEN (str path ++ (pod flags ++ pod mode))
      (pod (0 : Int32) ++ [.fd file]) st.client.errno
      (Dispatcher.after K (.open_ path.1 flags mode) st.dispatcher) ?_ ?_ ?_ rfl
      (by simp [hK, expected])
    · simp [ClientApi.sdcOpen]
    · simp [Dispatcher.onOpen, hK]
    · simp [ClientApi.sdcOpen, hK]

/-- The functions that call `common_stat` leave the local attempt's `errno` where they fail. -/
theorem statOf_gives {op : ProxyOp} (cmd : SudoCommand) (call : StatCall) (path : Str)
    (hprogram : op.program denial = ClientApi.statOf cmd call denial path)
    (hserved : Dispatcher.onSudoDispatch K cmd = Dispatcher.onStatCommon K call) :
    Gives K denial op st (.statCommon call path.1)
      (∀ e, K st.dispatcher.own.calls (.statCommon call path.1) = .error e → denial.errno = e.1) := by
  rcases hK : K st.dispatcher.own.calls (.statCommon call path.1) with e | (s : Struct call.size)
  · refine transaction_gives cmd (str path) (pod (-1 : Int32)) denial.errno
      (Dispatcher.after K (.statCommon call path.1) st.dispatcher) ?_ ?_ ?_ rfl
      (by simp [hK, expected])
    · rw [hprogram]
      simp [ClientApi.statOf, ClientApi.commonStat]
    · rw [hserved]
      simp [Dispatcher.onStatCommon, hK]
    · rw [hprogram]
      simp [ClientApi.statOf, ClientApi.commonStat, hK]
  · refine transaction_gives cmd (str path) (pod (0 : Int32) ++ pod s) st.client.errno
      (Dispatcher.after K (.statCommon call path.1) st.dispatcher) ?_ ?_ ?_ rfl
      (by simp [hK, expected])
    · rw [hprogram]
      simp [ClientApi.statOf, ClientApi.commonStat]
    · rw [hserved]
      simp [Dispatcher.onStatCommon, hK]
    · rw [hprogram]
      simp [ClientApi.statOf, ClientApi.commonStat, hK]

theorem statCommon_gives (call : StatCall) (path : Str) :
    Gives K denial (.statCommon call path) st (.statCommon call path.1)
      (∀ e, K st.dispatcher.own.calls (.statCommon call path.1) = .error e → denial.errno = e.1) := by
  cases call with
  | statfs => exact statOf_gives .SUDO_CMD_STATFS .statfs path rfl rfl
  | statvfs => exact statOf_gives .SUDO_CMD_STATVFS .statvfs path rfl rfl
  | stat => exact statOf_gives .SUDO_CMD_STAT .stat path rfl rfl
  | lstat => exact statOf_gives .SUDO_CMD_LSTAT .lstat path rfl rfl

/-- So does `sdc_fchmod`. -/
theorem fchmod_gives (file : Nat) (mode : UInt32) :
    Gives K denial (.fchmod file mode) st (.fchmod file mode)
      (∀ e, K st.dispatcher.own.calls (.fchmod file mode) = .error e → denial.errno = e.1) := by
  rcases hK : K st.dispatcher.own.calls (.fchmod file mode) with e | (r : Unit)
  · refine transaction_gives .SUDO_CMD_FCHMOD (.fd file :: pod mode) (pod (-1 : Int32)) denial.errno
      (Dispatcher.after K (.fchmod file mode) st.dispatcher) ?_ ?_ ?_ rfl (by simp [hK, expected])
    · simp [ClientApi.sdcFchmod]
    · simp [Dispatcher.onFChMod, hK, Dispatcher.returned]
    · simp [ClientApi.sdcFchmod, hK]
  · refine transaction_gives .SUDO_CMD_FCHMOD (.fd file :: pod mode) (pod (0 : Int32)) st.client.errno
      (Dispatcher.after K (.fchmod file mode) st.dispatcher) ?_ ?_ ?_ rfl (by simp [hK, expected])
    · simp [ClientApi.sdcFchmod]
    · simp [Dispatcher.onFChMod, hK, Dispatcher.returned]
    · simp [ClientApi.sdcFchmod, hK]

theorem chdir_gives (path : Str) : Gives K denial (.chdir path) st (.chdir path.1) True := by
  rcases hK : K st.dispatcher.own.calls (.chdir path.1) with e | (r : Unit)
  · refine transaction_gives .SUDO_CMD_CHDIR (str path) (pod (-1 : Int32) ++ pod e.1) e.1
      (Dispatcher.after K (.chdir path.1) st.dispatcher) ?_ ?_ ?_ rfl (by simp [hK, expected])
    · simp [ClientApi.sdcChdir]
    · simp [Dispatcher.onChDir, hK, Dispatcher.returned, Dispatcher.after]
    · simp [ClientApi.sdcChdir, hK]
  have hcwd : ∃ cwd : Str, (Dispatcher.onChDir K).run st.dispatcher (str path)
      = some ((), Dispatcher.after K .getcwd (Dispatcher.after K (.chdir path.1) st.dispatcher), [],
        pod (0 : Int32) ++ str cwd) := by
    rcases hcwd : K (Dispatcher.after K (.chdir path.1) st.dispatcher).own.calls .getcwd with e | (cwd : Str)
    · exact ⟨⟨[], by decide⟩, by simp [Dispatcher.onChDir, hK, Dispatcher.returned, hcwd]⟩
    · exact ⟨cwd, by simp [Dispatcher.onChDir, hK, Dispatcher.returned, hcwd]⟩
  obtain ⟨cwd, hcwd⟩ := hcwd
  refine transaction_gives .SUDO_CMD_CHDIR (str path) (pod (0 : Int32) ++ str cwd) st.client.errno
    _ ?_ hcwd ?_ rfl (by simp [hK, expected])
  · simp [ClientApi.sdcChdir]
  · simp [ClientApi.sdcChdir, hK]

theorem realpath_gives (path : Str) : Gives K denial (.realpath path) st (.realpath path.1) True := by
  rcases hK : K st.dispatcher.own.calls (.realpath path.1) with e | (resolved : Str)
  · refine transaction_gives .SUDO_CMD_REALPATH (str path) (pod e.1) e.1
      (Dispatcher.after K (.realpath path.1) st.dispatcher) ?_ ?_ ?_ rfl (by simp [hK, expected])
    · simp [ClientApi.sdcRealpath]
    · simp [Dispatcher.onRealPath, hK, Dispatcher.after, e.2]
    · simp [ClientApi.sdcRealpath, hK, e.2]
  · refine transaction_gives .SUDO_CMD_REALPATH (str path) (pod (0 : Int32) ++ str resolved)
      st.client.errno (Dispatcher.after K (.realpath path.1) st.dispatcher) ?_ ?_ ?_ rfl
      (by simp [hK, expected])
    · simp [ClientApi.sdcRealpath]
    · simp [Dispatcher.onRealPath, hK]
    · simp [ClientApi.sdcRealpath, hK]

theorem fsFlagsGet_gives (path : Str) :
    Gives K denial (.fsFlagsGet path) st (.fsFlagsGet path.1)
      ((K st.dispatcher.own.calls (.fsFlagsGet path.1)).isOk = true →
        denial.errno = st.client.errno) := by
  rcases hK : K st.dispatcher.own.calls (.fsFlagsGet path.1) with e | (flags : UInt64)
  · refine transaction_gives .SUDO_CMD_FSFLAGSGET (str path) (pod (-1 : Int32) ++ pod e.1) e.1
      (Dispatcher.after K (.fsFlagsGet path.1) st.dispatcher) ?_ ?_ ?_ rfl
      (by simp [hK, expected, Except.isOk, Except.toBool])
    · simp [ClientApi.sdcFsFlagsGet]
    · simp [Dispatcher.onFSFlagsGet, hK, Dispatcher.after]
    · simp [ClientApi.sdcFsFlagsGet, hK]
  · refine transaction_gives .SUDO_CMD_FSFLAGSGET (str path) (pod (0 : Int32) ++ pod flags)
      denial.errno (Dispatcher.after K (.fsFlagsGet path.1) st.dispatcher) ?_ ?_ ?_ rfl
      (by simp [hK, expected, Except.isOk, Except.toBool])
    · simp [ClientApi.sdcFsFlagsGet]
    · simp [Dispatcher.onFSFlagsGet, hK]
    · simp [ClientApi.sdcFsFlagsGet, hK]

/-- What `readlink` has filled in fits, also as an `ssize_t`. -/
theorem readlink_fits {n : Nat} {bufsiz : BufSize} (h : n ≤ bufsiz.1.toNat) :
    0 ≤ Int64.ofNat n ∧ Int64.ofNat n ≤ bufsiz.1.toInt64 ∧ (Int64.ofNat n).toNatClampNeg = n := by
  have hsmall := bufsiz.2
  have hn : n < 2 ^ 63 := Nat.lt_of_le_of_lt h hsmall
  have hsize : bufsiz.1.toInt64 = Int64.ofNat bufsiz.1.toNat := by
    rw [← UInt64.toInt64_ofNat', UInt64.ofNat_toNat]
  refine ⟨?_, ?_, Int64.toNatClampNeg_ofNat_of_lt hn⟩
  · rw [Int64.le_iff_toInt_le, Int64.toInt_ofNat_of_lt hn]
    exact Int.natCast_nonneg n
  · rw [hsize, Int64.le_iff_toInt_le, Int64.toInt_ofNat_of_lt hn, Int64.toInt_ofNat_of_lt hsmall]
    exact Int.ofNat_le.mpr h

theorem readlink_gives (path : Str) (bufsiz : BufSize) :
    Gives K denial (.readlink path bufsiz) st (.readlink path.1 bufsiz.1) True := by
  rcases hK : K st.dispatcher.own.calls (.readlink path.1 bufsiz.1) with
    e | (buf : { buf : List Byte // buf.length ≤ bufsiz.1.toNat })
  · refine transaction_gives .SUDO_CMD_READLINK (str path ++ pod bufsiz.1)
      (pod (-1 : Int64) ++ pod e.1) e.1 (Dispatcher.after K (.readlink path.1 bufsiz.1) st.dispatcher)
      ?_ ?_ ?_ rfl (by simp [hK, expected])
    · simp [ClientApi.sdcReadlink]
    · simp [Dispatcher.onReadLink, hK, Dispatcher.after]
    · have hneg : ¬ (0 : Int64) ≤ -1 := by decide
      simp [ClientApi.sdcReadlink, hK, hneg]
  · obtain ⟨hpos, hle, hlen⟩ := readlink_fits buf.2
    refine transaction_gives .SUDO_CMD_READLINK (str path ++ pod bufsiz.1)
      (pod (Int64.ofNat buf.1.length) ++ buf.1.map .byte) st.client.errno
      (Dispatcher.after K (.readlink path.1 bufsiz.1) st.dispatcher) ?_ ?_ ?_ rfl
      (by simp [hK, expected])
    · simp [ClientApi.sdcReadlink]
    · simp [Dispatcher.onReadLink, hK, hpos, hle]
    · simp [ClientApi.sdcReadlink, hK, hpos, hle, hlen, recvBuf_run]

end Far2l.Sudo
