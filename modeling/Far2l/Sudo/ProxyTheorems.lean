/-
Far2l.Sudo.ProxyTheorems — how far the sudo proxy is transparent.

Both streams are empty after each operation, in every run and whatever the order of
the processes' steps. The values are right but where a directory of the dispatcher
cannot be given a local one, and `errno` is right but for the operations that do
not send it or do not restore it.
-/
import Far2l.Sudo.ClientApiTheorems
import Mathlib.Data.List.Nodup

namespace Far2l.Sudo

attribute [local simp] Prog.run_bind Prog.sent_bind Prog.andThen Except.toOption
  ClientApi.sdcOpendir ClientApi.opendirRequest ClientApi.opendirReply ClientApi.sdcClosedir
  Dispatcher.onOpenDir Dispatcher.onCloseDir Dispatcher.closeOpened
  ClientApi.transaction ClientApi.finalize ClientApi.denied ProxyOp.program Dispatcher.serve
  Dispatcher.onSudoDispatch

variable {K : Kernel} {denial : Denial} {st : Proxy} {dir : Nat} {remote : UInt64}

/-! ## Directories -/

/-- **Each local directory stands for an open one of the dispatcher**, and no two for the same. -/
structure Linked (st : Proxy) : Prop where
  opened : ∀ entry ∈ st.client.own.dirs, entry.2 ∈ st.dispatcher.own.dirs
  distinct : (st.client.own.dirs.map Prod.snd).Nodup

theorem mem_of_lookup {dirs : List (Nat × UInt64)} (h : dirs.lookup dir = some remote) :
    (dir, remote) ∈ dirs := by
  obtain ⟨front, back, rfl, -⟩ := List.lookup_eq_some_iff.mp h
  exact List.mem_append_right front List.mem_cons_self

theorem readdir_gives (denial : Denial) (hlinked : Linked st) (hdir : st.client.own.dirs.lookup dir = some remote) :
    Gives K denial (.readdir dir) st (.readdir remote)
      (K st.dispatcher.own.calls (.readdir remote) = .ok none → st.client.errno ≠ 0) := by
  have hopen : remote ∈ st.dispatcher.own.dirs := hlinked.opened _ (mem_of_lookup hdir)
  rcases hK : K st.dispatcher.own.calls (.readdir remote) with e | (de : Option Dirent)
  · refine transaction_gives .SUDO_CMD_READDIR (pod remote ++ pod st.client.errno) (pod e.1) e.1
      (Dispatcher.after K (.readdir remote) ⟨st.client.errno, st.dispatcher.own⟩) ?_ ?_ ?_ rfl
      (by simp [hK, expected])
    · simp [ClientApi.sdcReaddir, hdir]
    · simp [Dispatcher.onReadDir, Dispatcher.readOpened, hopen, hK, Dispatcher.after, e.2]
    · simp [ClientApi.sdcReaddir, hdir, hK, Syscall.ret, e.2]
  cases de with
  | none =>
    have hright : (if st.client.errno ≠ 0 then st.client.errno else -1)
        = expected st.client.errno (K st.dispatcher.own.calls (.readdir remote))
        ↔ st.client.errno ≠ 0 := by
      rw [hK]
      show _ = st.client.errno ↔ _
      constructor
      · intro h hzero
        rw [hzero] at h
        exact absurd h (by decide)
      · exact fun h => if_pos h
    refine transaction_gives .SUDO_CMD_READDIR (pod remote ++ pod st.client.errno)
      (pod (if st.client.errno ≠ 0 then st.client.errno else -1)) _
      (Dispatcher.after K (.readdir remote) ⟨st.client.errno, st.dispatcher.own⟩) ?_ ?_ ?_ rfl
      (hright.trans ⟨fun h _ => h, fun h => h rfl⟩)
    · simp [ClientApi.sdcReaddir, hdir]
    · simp [Dispatcher.onReadDir, Dispatcher.readOpened, hopen, hK, Dispatcher.after]
    · have hne : (if st.client.errno ≠ 0 then st.client.errno else -1) ≠ 0 := by
        split
        · assumption
        · decide
      simp only [ProxyOp.program, ClientApi.sdcReaddir, hK, Syscall.ret]
      generalize (if st.client.errno ≠ 0 then st.client.errno else -1) = err at hne
      simp [hdir, hne]
  | some de =>
    refine transaction_gives .SUDO_CMD_READDIR (pod remote ++ pod st.client.errno)
      (pod (0 : Int32) ++ pod de) st.client.errno
      (Dispatcher.after K (.readdir remote) ⟨st.client.errno, st.dispatcher.own⟩) ?_ ?_ ?_ rfl
      (iff_of_true (by rw [hK]; rfl) fun h => by cases h)
    · simp [ClientApi.sdcReaddir, hdir]
    · simp [Dispatcher.onReadDir, Dispatcher.readOpened, hopen, hK]
    · simp [ClientApi.sdcReaddir, hdir, hK, Syscall.ret]

/-- The directories without one of them. -/
theorem Linked.close (h : Linked st) (hdir : st.client.own.dirs.lookup dir = some remote)
    {e e' : Int32} {calls : List Syscall} :
    Linked ⟨⟨e, ⟨st.client.own.dirs.filter fun entry => entry.1 ≠ dir⟩⟩,
      ⟨e', ⟨st.dispatcher.own.dirs.filter (· ≠ remote), calls⟩⟩⟩ := by
  refine ⟨fun entry hentry => ?_, h.distinct.sublist (List.filter_sublist.map _)⟩
  obtain ⟨hmem, hne⟩ := List.mem_filter.mp hentry
  refine List.mem_filter.mpr ⟨h.opened entry hmem, decide_eq_true fun hsame => ?_⟩
  have heq : entry = (dir, remote) :=
    List.inj_on_of_nodup_map h.distinct hmem (mem_of_lookup hdir) hsame
  rw [heq] at hne
  exact absurd rfl (of_decide_eq_true hne)

/-- `sdc_closedir` leaves `errno` as it is. -/
theorem closedir_gives (denial : Denial) (hlinked : Linked st) (hdir : st.client.own.dirs.lookup dir = some remote) :
    ∃ st', Transacts K denial (.closedir dir) st
        ((Syscall.closedir remote).ret (K st.dispatcher.own.calls (.closedir remote))) st'
      ∧ Linked st' ∧ st'.client.errno = st.client.errno := by
  have hopen : remote ∈ st.dispatcher.own.dirs := hlinked.opened _ (mem_of_lookup hdir)
  rcases hK : K st.dispatcher.own.calls (.closedir remote) with e | (r : Unit)
  · refine ⟨_, transacts (pod SudoCommand.SUDO_CMD_CLOSEDIR ++ pod remote) _ ?_
      (serve_run ⟨e.1, st.dispatcher.own.dirs.filter (· ≠ remote),
        st.dispatcher.own.calls ++ [.closedir remote]⟩ (pod (-1 : Int32)) ?_) ?_,
      hlinked.close hdir, rfl⟩
    · simp [ClientApi.sdcClosedir, hdir]
    · simp [Dispatcher.onCloseDir, Dispatcher.closeOpened, hopen, hK, Dispatcher.returned,
        Dispatcher.after]
    · simp [ClientApi.sdcClosedir, hdir, Syscall.ret]
  · refine ⟨_, transacts (pod SudoCommand.SUDO_CMD_CLOSEDIR ++ pod remote) _ ?_
      (serve_run ⟨st.dispatcher.errno, st.dispatcher.own.dirs.filter (· ≠ remote),
        st.dispatcher.own.calls ++ [.closedir remote]⟩ (pod (0 : Int32)) ?_) ?_,
      hlinked.close hdir, rfl⟩
    · simp [ClientApi.sdcClosedir, hdir]
    · simp [Dispatcher.onCloseDir, Dispatcher.closeOpened, hopen, hK, Dispatcher.returned,
        Dispatcher.after]
    · simp [ClientApi.sdcClosedir, hdir, Syscall.ret]

/-- Another directory of the dispatcher is open, that no local one stands for. -/
theorem Linked.open_ (h : Linked st) {e e' : Int32} {calls : List Syscall} :
    Linked ⟨⟨e, st.client.own⟩, ⟨e', ⟨remote :: st.dispatcher.own.dirs, calls⟩⟩⟩ :=
  ⟨fun entry hentry => List.mem_cons_of_mem _ (h.opened entry hentry), h.distinct⟩

/-- A local directory stands for it. -/
theorem Linked.register (h : Linked st) (dir : Nat) (hfresh : remote ∉ st.dispatcher.own.dirs) {e e' : Int32}
    {calls : List Syscall} :
    Linked ⟨⟨e, ⟨(dir, remote) :: st.client.own.dirs.filter fun entry => entry.1 ≠ dir⟩⟩,
      ⟨e', ⟨remote :: st.dispatcher.own.dirs, calls⟩⟩⟩ := by
  have hold : ∀ entry ∈ st.client.own.dirs.filter (fun entry => entry.1 ≠ dir),
      entry.2 ∈ st.dispatcher.own.dirs := fun entry hentry =>
    h.opened entry (List.mem_of_mem_filter hentry)
  refine ⟨fun entry hentry => ?_, List.nodup_cons.mpr ⟨fun hmem => ?_, ?_⟩⟩
  · rcases List.mem_cons.mp hentry with rfl | hentry
    · exact List.mem_cons_self
    · exact List.mem_cons_of_mem _ (hold entry hentry)
  · obtain ⟨entry, hentry, hsame⟩ := List.mem_map.mp hmem
    have hsame : entry.2 = remote := hsame
    exact hfresh (hsame ▸ hold entry hentry)
  · exact h.distinct.sublist (List.filter_sublist.map _)

/-- `sdc_opendir` where the dispatcher's call fails. -/
theorem opendir_fails (denial : Denial) (hlinked : Linked st) (path : Str) (local_ : Except Errno Nat) {e : Errno}
    (hK : K st.dispatcher.own.calls (.opendir path.1) = .error e) :
    ∃ st', Transacts K denial (.opendir path local_) st .failed st' ∧ Linked st'
      ∧ st'.client.errno = e.1 := by
  refine ⟨_, transacts (pod SudoCommand.SUDO_CMD_OPENDIR ++ str path) _ ?_
    (serve_run ⟨e.1, 0 :: st.dispatcher.own.dirs, st.dispatcher.own.calls ++ [.opendir path.1]⟩
      (pod (0 : UInt64) ++ pod e.1) ?_) ?_, hlinked.open_, rfl⟩
  · simp [ClientApi.sdcOpendir, ClientApi.opendirRequest]
  · simp [Dispatcher.onOpenDir, hK, Dispatcher.after]
  · simp [ClientApi.sdcOpendir, ClientApi.opendirRequest, ClientApi.opendirReply]

/-- `sdc_opendir` where both calls succeed. -/
theorem opendir_opens (denial : Denial) (hlinked : Linked st) (dir : Nat) (path : Str)
    {remote : { remote : UInt64 // remote ≠ 0 }}
    (hK : K st.dispatcher.own.calls (.opendir path.1) = .ok remote)
    (hfresh : remote.1 ∉ st.dispatcher.own.dirs) :
    ∃ st', Transacts K denial (.opendir path (.ok dir)) st (.dir remote.1) st' ∧ Linked st'
      ∧ st'.client.errno = st.client.errno := by
  refine ⟨_, transacts (pod SudoCommand.SUDO_CMD_OPENDIR ++ str path) _ ?_
    (serve_run ⟨st.dispatcher.errno, remote.1 :: st.dispatcher.own.dirs,
      st.dispatcher.own.calls ++ [.opendir path.1]⟩ (pod remote.1) ?_) ?_,
    hlinked.register dir hfresh, rfl⟩
  · simp [ClientApi.sdcOpendir, ClientApi.opendirRequest]
  · simp [Dispatcher.onOpenDir, hK, Dispatcher.after, remote.2]
  · simp [ClientApi.sdcOpendir, ClientApi.opendirRequest, ClientApi.opendirReply,
      ClientApi.register, remote.2]

/-- There is no local directory for the dispatcher's: it is closed in another transaction. -/
theorem opendirReply_closes {c : Process Registered} {d d' : Process Opened} (saved reply : Int32)
    (e : Errno) (hremote : remote ≠ 0)
    (hclose : (Dispatcher.onCloseDir K).run d (pod remote) = some ((), d', [], pod reply)) :
    ∃ n, Steps (Joined.Step (Dispatcher.serve K)) n
      ⟨ClientApi.opendirReply (.error e) saved remote, c, Dispatcher.serve K, d, [],
        pod SudoCommand.SUDO_CMD_OPENDIR⟩
      ⟨.done .failed, ⟨e.1, c.own⟩, Dispatcher.serve K, d', [], []⟩ := by
  have hserved : (Dispatcher.serve K).run d (pod SudoCommand.SUDO_CMD_CLOSEDIR ++ pod remote)
      = some ((), d', [], pod reply ++ pod SudoCommand.SUDO_CMD_CLOSEDIR) := serve_run d' _ hclose
  refine Joined.exchange ?_ hserved ?_
  · simp [ClientApi.opendirReply, hremote]
  · simp [ClientApi.opendirReply, hremote]

/-- A directory that has been opened is closed, and the others stay as they were. -/
theorem closeDir_run {d : Process Opened} (hfresh : remote ∉ d.own.dirs) :
    ∃ reply d', (Dispatcher.onCloseDir K).run { d with own := { d.own with dirs := remote :: d.own.dirs } }
        (pod remote) = some ((), d', [], pod (reply : Int32))
      ∧ d'.own.dirs = d.own.dirs := by
  have hother : d.own.dirs.filter (fun dir => !decide (dir = remote)) = d.own.dirs := by
    refine List.filter_eq_self.mpr fun dir hdir => ?_
    have hne : dir ≠ remote := fun h => hfresh (h ▸ hdir)
    rw [decide_eq_false hne]
    rfl
  refine ⟨Dispatcher.returned (K d.own.calls (.closedir remote)).toOption,
    Dispatcher.after K (.closedir remote) d, ?_, rfl⟩
  simp [Dispatcher.onCloseDir, Dispatcher.closeOpened, hother, Dispatcher.after]

/-- `sdc_opendir` where the dispatcher's call succeeds and the process's own does not. -/
theorem opendir_closes (denial : Denial) (hlinked : Linked st) (path : Str) (e : Errno)
    {remote : { remote : UInt64 // remote ≠ 0 }}
    (hK : K st.dispatcher.own.calls (.opendir path.1) = .ok remote)
    (hfresh : remote.1 ∉ st.dispatcher.own.dirs) :
    ∃ st', Transacts K denial (.opendir path (.error e)) st .failed st' ∧ Linked st' := by
  have hfresh' : remote.1 ∉ (Dispatcher.after K (.opendir path.1) st.dispatcher).own.dirs := hfresh
  obtain ⟨reply, d', hclose, hdirs⟩ := closeDir_run (K := K) hfresh'
  have hserved : (Dispatcher.serve K).run st.dispatcher (pod SudoCommand.SUDO_CMD_OPENDIR ++ str path)
      = some ((), _, [], pod remote.1 ++ pod SudoCommand.SUDO_CMD_OPENDIR) :=
    serve_run { Dispatcher.after K (.opendir path.1) st.dispatcher with
      own := { (Dispatcher.after K (.opendir path.1) st.dispatcher).own with
        dirs := remote.1 :: st.dispatcher.own.dirs } } _
      (by simp [Dispatcher.onOpenDir, hK, remote.2]; rfl)
  have hasked : (ClientApi.opendirRequest denial path).run st.client
      ([] ++ (pod remote.1 ++ pod SudoCommand.SUDO_CMD_OPENDIR))
      = some ((st.client.errno, remote.1), ⟨denial.errno, st.client.own⟩,
        pod SudoCommand.SUDO_CMD_OPENDIR, pod SudoCommand.SUDO_CMD_OPENDIR ++ str path) := by
    simp [ClientApi.opendirRequest]
  obtain ⟨n₁, h₁⟩ := Joined.exchange (by simp [ClientApi.opendirRequest]) hserved hasked
  obtain ⟨n₂, h₂⟩ := opendirReply_closes (c := ⟨denial.errno, st.client.own⟩) st.client.errno reply e
    remote.2 hclose
  refine ⟨⟨⟨e.1, st.client.own⟩, d'⟩, ?_, fun entry hentry => ?_, hlinked.distinct⟩
  · have hboth := (Joined.steps_bind (fun r => ClientApi.opendirReply (.error e) r.1 r.2) h₁).trans h₂
    exact hboth.ends Joined.diamond (stopped_ended _ _)
  · rw [hdirs]
    exact hlinked.opened entry hentry

/-! ## Runs -/

/-- The system call an operation stands for. -/
@[simp] def ProxyOp.call (dirs : List (Nat × UInt64)) : ProxyOp → Syscall
  | .execute cmd noWait => .execute cmd.1 (ClientApi.flag noWait)
  | .open_ path flags mode => .open_ path.1 flags mode
  | .statCommon call path => .statCommon call path.1
  | .opendir path _ => .opendir path.1
  | .closedir dir => .closedir ((dirs.lookup dir).getD 0)
  | .readdir dir => .readdir ((dirs.lookup dir).getD 0)
  | .pathAndMode call path mode => .pathAndMode call path.1 mode
  | .onePath call path => .onePath call path.1
  | .chdir path => .chdir path.1
  | .chown path owner group => .chown path.1 owner group
  | .utimens path atime mtime => .utimens path.1 atime mtime
  | .futimens file atime mtime => .futimens file atime mtime
  | .twoPaths call path1 path2 => .twoPaths call path1.1 path2.1
  | .realpath path => .realpath path.1
  | .readlink path bufsiz => .readlink path.1 bufsiz.1
  | .fsFlagsGet path => .fsFlagsGet path.1
  | .fsFlagsSet path flags => .fsFlagsSet path.1 flags
  | .fchmod file mode => .fchmod file mode
  | .mkfifo path mode => .mkfifo path.1 mode
  | .mknod path mode dev => .mknod path.1 mode dev

/-- What the call ends with in the dispatcher. -/
def ProxyOp.outcome (K : Kernel) (st : Proxy) (op : ProxyOp) :
    Except Errno (op.call st.client.own.dirs).Result :=
  K st.dispatcher.own.calls (op.call st.client.own.dirs)

/-- The operations that are proxied: a directory that is read or closed is one of the dispatcher's.
`opendir` gives a directory that is not open yet. -/
def ProxyOp.Can (K : Kernel) (st : Proxy) : ProxyOp → Prop
  | .opendir path _ => ∀ remote : { remote : UInt64 // remote ≠ 0 },
      K st.dispatcher.own.calls (.opendir path.1) = .ok remote → remote.1 ∉ st.dispatcher.own.dirs
  | .closedir dir => (st.client.own.dirs.lookup dir).isSome = true
  | .readdir dir => (st.client.own.dirs.lookup dir).isSome = true
  | _ => True

/-- **When an operation is transparent**, by what the call ends with. -/
def ProxyOp.Meets (K : Kernel) (denial : Denial) (st : Proxy) : ProxyOp → Prop
  -- the dispatcher's `errno` is not sent
  | .statCommon call path =>
      ∀ e, K st.dispatcher.own.calls (.statCommon call path.1) = .error e → denial.errno = e.1
  | .fchmod file mode =>
      ∀ e, K st.dispatcher.own.calls (.fchmod file mode) = .error e → denial.errno = e.1
  | .closedir dir => ∀ remote e, st.client.own.dirs.lookup dir = some remote →
      K st.dispatcher.own.calls (.closedir remote) = .error e → st.client.errno = e.1
  -- `errno` is not restored
  | .fsFlagsGet path => (K st.dispatcher.own.calls (.fsFlagsGet path.1)).isOk = true →
      denial.errno = st.client.errno
  | .fsFlagsSet path flags => (K st.dispatcher.own.calls (.fsFlagsSet path.1 flags)).isOk = true →
      denial.errno = st.client.errno
  | .mkfifo path mode => (K st.dispatcher.own.calls (.mkfifo path.1 mode)).isOk = true →
      denial.errno = st.client.errno
  | .mknod path mode dev => (K st.dispatcher.own.calls (.mknod path.1 mode dev)).isOk = true →
      denial.errno = st.client.errno
  -- the end of a directory is sent as an `errno` that is not 0
  | .readdir dir => ∀ remote, st.client.own.dirs.lookup dir = some remote →
      K st.dispatcher.own.calls (.readdir remote) = .ok none → st.client.errno ≠ 0
  -- a local directory has to stand for the dispatcher's
  | .opendir path local_ =>
      (K st.dispatcher.own.calls (.opendir path.1)).isOk = true → local_.isOk = true
  | _ => True

/-- **An operation is transparent**: it gives what the call gave in the dispatcher, with the
dispatcher's `errno` where the call failed and its own where it did not. -/
def Transparent (K : Kernel) (op : ProxyOp) (st : Proxy) (ret : Ret) (st' : Proxy) : Prop :=
  ret = (op.call st.client.own.dirs).ret (op.outcome K st)
    ∧ st'.client.errno = expected st.client.errno (op.outcome K st)

/-- Between the operations of a run. -/
inductive Reached (K : Kernel) : Proxy → Prop where
  | start (e e' : Int32) : Reached K ⟨⟨e, {}⟩, ⟨e', {}⟩⟩
  /-- The client does something else. -/
  | errno {st : Proxy} (h : Reached K st) (e : Int32) : Reached K ⟨⟨e, st.client.own⟩, st.dispatcher⟩
  | op {st st' : Proxy} (h : Reached K st) {denial : Denial} {op : ProxyOp} {ret : Ret}
      (hcan : op.Can K st) (ht : Transacts K denial op st ret st') : Reached K st'

theorem transparent_iff_of_call {op : ProxyOp} {call : Syscall} {ret : Ret} {st' : Proxy}
    (h : op.call st.client.own.dirs = call) :
    Transparent K op st ret st' ↔ ret = call.ret (K st.dispatcher.own.calls call)
      ∧ st'.client.errno = expected st.client.errno (K st.dispatcher.own.calls call) := by
  subst h
  exact Iff.rfl

/-- An operation that leaves the directories as they are. -/
theorem Gives.transacts {op : ProxyOp} {call : Syscall} {right : Prop}
    (h : Gives K denial op st call right) (hlinked : Linked st)
    (hcall : op.call st.client.own.dirs = call) :
    ∃ ret st', Transacts K denial op st ret st' ∧ Linked st' ∧ (Transparent K op st ret st' ↔ right) := by
  obtain ⟨e, d', ht, hdirs, hright⟩ := h
  refine ⟨_, _, ht, ⟨fun entry hentry => ?_, hlinked.distinct⟩, ?_⟩
  · rw [hdirs]
    exact hlinked.opened entry hentry
  · rw [transparent_iff_of_call hcall, and_iff_right rfl]
    exact hright

/-- What is said of the directory that is looked up is said of the one that is found. -/
theorem forall_lookup_iff {dirs : List (Nat × UInt64)} {P : UInt64 → Prop}
    (h : dirs.lookup dir = some remote) :
    (∀ found, dirs.lookup dir = some found → P found) ↔ P remote := by
  constructor
  · exact fun hall => hall remote h
  · intro hP found hfound
    exact Option.some.inj (h.symm.trans hfound) ▸ hP

theorem closedir_transacts (hlinked : Linked st) (hdir : st.client.own.dirs.lookup dir = some remote) :
    ∃ ret st', Transacts K denial (.closedir dir) st ret st' ∧ Linked st'
      ∧ (Transparent K (.closedir dir) st ret st' ↔ ProxyOp.Meets K denial st (.closedir dir)) := by
  obtain ⟨st', ht, hlinked', he⟩ := closedir_gives (K := K) denial hlinked hdir
  have hcall : ProxyOp.call st.client.own.dirs (.closedir dir) = .closedir remote := by
    rw [ProxyOp.call, hdir]
    rfl
  refine ⟨_, st', ht, hlinked', ?_⟩
  rw [transparent_iff_of_call hcall, and_iff_right rfl, he]
  have hfound : ProxyOp.Meets K denial st (.closedir dir)
      ↔ ∀ e, K st.dispatcher.own.calls (.closedir remote) = .error e → st.client.errno = e.1 := by
    refine Iff.trans ?_ (forall_lookup_iff (P := fun remote => ∀ e,
      K st.dispatcher.own.calls (.closedir remote) = .error e → st.client.errno = e.1) hdir)
    exact ⟨fun h found hf e => h found e hf, fun h found e hf => h found hf e⟩
  rw [hfound]
  cases K st.dispatcher.own.calls (.closedir remote) with
  | ok r => exact iff_of_true rfl fun e h => nomatch h
  | error e => exact ⟨fun h e' he' => Except.error.inj he' ▸ h, fun h => h e rfl⟩

theorem readdir_transacts (hlinked : Linked st) (hdir : st.client.own.dirs.lookup dir = some remote) :
    ∃ ret st', Transacts K denial (.readdir dir) st ret st' ∧ Linked st'
      ∧ (Transparent K (.readdir dir) st ret st' ↔ ProxyOp.Meets K denial st (.readdir dir)) := by
  have hcall : ProxyOp.call st.client.own.dirs (.readdir dir) = .readdir remote := by
    rw [ProxyOp.call, hdir]
    rfl
  obtain ⟨ret, st', ht, hlinked', hright⟩ :=
    (readdir_gives (K := K) denial hlinked hdir).transacts hlinked hcall
  exact ⟨ret, st', ht, hlinked', hright.trans (forall_lookup_iff (P := fun remote =>
    K st.dispatcher.own.calls (.readdir remote) = .ok none → st.client.errno ≠ 0) hdir).symm⟩

/-- **One operation.** -/
theorem op_transacts (denial : Denial) {op : ProxyOp} (hlinked : Linked st) (hcan : op.Can K st) :
    ∃ ret st', Transacts K denial op st ret st' ∧ Linked st'
      ∧ (Transparent K op st ret st' ↔ op.Meets K denial st) := by
  cases op with
  | execute cmd noWait => exact (execute_gives cmd noWait).transacts hlinked rfl
  | open_ path flags mode => exact (open_gives path flags mode).transacts hlinked rfl
  | statCommon call path => exact (statCommon_gives call path).transacts hlinked rfl
  | opendir path local_ =>
    cases hK : K st.dispatcher.own.calls (.opendir path.1) with
    | error e =>
      obtain ⟨st', ht, hlinked', he⟩ := opendir_fails denial hlinked path local_ hK
      have hout : ProxyOp.outcome K st (.opendir path local_) = .error e := hK
      refine ⟨_, st', ht, hlinked', iff_of_true ⟨?_, ?_⟩ ?_⟩
      · rw [hout]
        rfl
      · rw [hout]
        exact he
      · intro hok
        rw [hK] at hok
        exact Bool.noConfusion hok
    | ok remote =>
      have hout : ProxyOp.outcome K st (.opendir path local_) = .ok remote := hK
      cases local_ with
      | ok dir =>
        obtain ⟨st', ht, hlinked', he⟩ :=
          opendir_opens denial hlinked dir path hK (hcan remote hK)
        refine ⟨_, st', ht, hlinked', iff_of_true ⟨?_, ?_⟩ fun _ => rfl⟩
        · rw [hout]
          rfl
        · rw [hout]
          exact he
      | error e =>
        obtain ⟨st', ht, hlinked'⟩ :=
          opendir_closes denial hlinked path e hK (hcan remote hK)
        refine ⟨_, st', ht, hlinked', iff_of_false (fun h => ?_) fun h => ?_⟩
        · have hret := h.1
          rw [hout] at hret
          exact Ret.noConfusion hret
        · have hok : (K st.dispatcher.own.calls (.opendir path.1)).isOk = true := by
            rw [hK]
            rfl
          exact Bool.noConfusion (h hok)
  | closedir dir =>
    obtain ⟨remote, hdir⟩ := Option.isSome_iff_exists.mp hcan
    exact closedir_transacts hlinked hdir
  | readdir dir =>
    obtain ⟨remote, hdir⟩ := Option.isSome_iff_exists.mp hcan
    exact readdir_transacts hlinked hdir
  | pathAndMode call path mode =>
    exact (pathAndMode_gives call path mode).transacts hlinked rfl
  | onePath call path => exact (onePath_gives call path).transacts hlinked rfl
  | chdir path => exact (chdir_gives path).transacts hlinked rfl
  | chown path owner group => exact (chown_gives path owner group).transacts hlinked rfl
  | utimens path atime mtime => exact (utimens_gives path atime mtime).transacts hlinked rfl
  | futimens file atime mtime => exact (futimens_gives file atime mtime).transacts hlinked rfl
  | twoPaths call path1 path2 => exact (twoPaths_gives call path1 path2).transacts hlinked rfl
  | realpath path => exact (realpath_gives path).transacts hlinked rfl
  | readlink path bufsiz => exact (readlink_gives path bufsiz).transacts hlinked rfl
  | fsFlagsGet path => exact (fsFlagsGet_gives path).transacts hlinked rfl
  | fsFlagsSet path flags => exact (fsFlagsSet_gives path flags).transacts hlinked rfl
  | fchmod file mode => exact (fchmod_gives file mode).transacts hlinked rfl
  | mkfifo path mode => exact (mkfifo_gives path mode).transacts hlinked rfl
  | mknod path mode dev => exact (mknod_gives path mode dev).transacts hlinked rfl

/-- **The directories stay linked** in every run. -/
theorem Reached.linked (h : Reached K st) : Linked st := by
  induction h with
  | start e e' => exact ⟨fun entry hentry => absurd hentry List.not_mem_nil, List.nodup_nil⟩
  | errno _ e ih => exact ⟨ih.opened, ih.distinct⟩
  | @op st st' _ denial op ret hcan ht ih =>
    obtain ⟨ret', st'', ht', hlinked, -⟩ := op_transacts denial ih hcan
    have hsame := ht.unique ht'
    have hclient : st'.client = st''.client := congrArg Joined.clientState hsame
    have hdispatcher : st'.dispatcher = st''.dispatcher := congrArg Joined.serverState hsame
    exact ⟨by rw [hclient, hdispatcher]; exact hlinked.opened, by rw [hclient]; exact hlinked.distinct⟩

/-- **The proxy is transparent** just for the operations that meet the condition; after every
operation of every run both streams are empty. -/
theorem reached_transparent_iff {op : ProxyOp} (h : Reached K st) (hcan : op.Can K st) :
    ∃ ret st', Transacts K denial op st ret st' ∧ (Transparent K op st ret st' ↔ op.Meets K denial st) := by
  obtain ⟨ret, st', ht, -, hright⟩ := op_transacts denial h.linked hcan
  exact ⟨ret, st', ht, hright⟩

/-- Nothing is there (`ENOENT`). -/
def emptyKernel : Kernel := fun _ _ => .error ⟨2, by decide⟩

/-- The client and the dispatcher at the start. -/
def fresh : Proxy := ⟨⟨0, {}⟩, ⟨0, {}⟩⟩

/-- `/a` -/
def slashA : Str := ⟨[0x2F, 0x61], by decide⟩

/-- `unlink` of what is not there. -/
theorem reached_transparent_unlink :
    ∃ ret st', Transacts emptyKernel .EACCES (.onePath .unlink slashA) fresh ret st'
      ∧ (Transparent emptyKernel (.onePath .unlink slashA) fresh ret st'
        ↔ ProxyOp.Meets emptyKernel .EACCES fresh (.onePath .unlink slashA)) :=
  reached_transparent_iff (.start 0 0) trivial

/-- `stat` of what is not there gives the `errno` of the local attempt. -/
theorem stat_not_transparent :
    ¬ ∀ (K : Kernel) (denial : Denial) (op : ProxyOp) (st : Proxy) (ret : Ret) (st' : Proxy),
      Reached K st → op.Can K st → Transacts K denial op st ret st' → Transparent K op st ret st' := by
  intro hall
  have hstart : Reached emptyKernel fresh := .start 0 0
  have hcan : ProxyOp.Can emptyKernel fresh (.statCommon .stat slashA) := trivial
  obtain ⟨ret, st', ht, -, hright⟩ := op_transacts .EACCES hstart.linked hcan
  have hmeets := hright.mp (hall _ _ _ _ _ _ hstart hcan ht)
  exact absurd (hmeets ⟨2, by decide⟩ rfl) (by decide)

end Far2l.Sudo
