/-
Far2l.Sudo.Region — which proxied operations start a transaction with the
dispatcher: `sudo_client_region_enter`, `sudo_client_region_leave` and
`TouchClientConnection` of `WinPort/src/sudo/sudo_client.cpp`, on one thread.

Whether a connection can be opened, what the user answers and whether a
transaction fails are parameters of an operation. A transaction that fails
closes the connection.
-/
import Far2l.Lib.Reach

namespace Far2l.Sudo

/-- `SudoClientMode` -/
inductive SudoClientMode where
  | SCM_DISABLE
  | SCM_CONFIRM_MODIFY
  | SCM_CONFIRM_NONE
deriving DecidableEq

/-- `ModifyState` -/
inductive ModifyState where
  | MODIFY_UNDEFINED
  | MODIFY_ALLOWED
  | MODIFY_DENIED
deriving DecidableEq

/-- Why modifications are allowed: the user has confirmed one, or the connection was opened for
one. -/
inductive Grant where
  | confirmed
  | opened
deriving DecidableEq

/-- A transaction that has been started, with what the user had answered by then in the outermost
region. -/
structure Started where
  modify : Bool
  grant : Option Grant
  denied : Bool
deriving DecidableEq

/-- The client, and what has happened. -/
structure Client where
  mode : SudoClientMode
  /-- `thread_client_region_counter` -/
  count : Nat := 0
  silentQuery : Int := 0
  modify : ModifyState := .MODIFY_UNDEFINED
  cancelled : Bool := false
  /-- `s_uds` is not null. -/
  connected : Bool := false
  dropPending : Bool := false
  passwordTimestamp : Int := 0
  passwordExpiration : Int := 0
  /-- why modifications are allowed in the outermost region, and whether one was denied there -/
  grant : Option Grant := none
  denied : Bool := false
  started : List Started := []

/-! ## The proxied operations -/

def O_WRONLY : UInt32 := 0o1
def O_RDWR : UInt32 := 0o2
def O_CREAT : UInt32 := 0o100
def O_TRUNC : UInt32 := 0o1000

/-- The functions that touch the connection before they start a transaction. -/
inductive Operation where
  | execute (modify : Bool)
  | open_ (flags : UInt32)
  | statfs | statvfs | stat | lstat
  | fchmod | opendir | mkdir | chdir
  | rmdir | remove | unlink | chmod | chown | utimens | futimens
  | rename | symlink | link
  | realpath | readlink | fsFlagsGet | fsFlagsSet | mkfifo | mknod
deriving DecidableEq

/-- The argument of `TouchClientConnection`. -/
def Operation.wantModify : Operation → Bool
  | .execute modify => modify
  | .open_ flags => flags &&& (O_CREAT ||| O_RDWR ||| O_TRUNC ||| O_WRONLY) ≠ 0
  | .statfs | .statvfs | .stat | .lstat => false
  | .fchmod => true
  | .opendir => false
  | .mkdir => true
  | .chdir => false
  | .rmdir | .remove | .unlink | .chmod | .chown | .utimens | .futimens => true
  | .rename | .symlink | .link => true
  | .realpath | .readlink | .fsFlagsGet => false
  | .fsFlagsSet | .mkfifo | .mknod => true

/-- What the world does during an operation. -/
structure World where
  /-- `OpenClientConnection` succeeds. -/
  opens : Bool := true
  /-- `ClientConfirm` -/
  confirms : Bool := true
  /-- The transaction fails. -/
  fails : Bool := false
  time : Int := 0

namespace Client

variable (c : Client)

/-! ## Regions -/

/-- `CheckForCloseClientConnection` -/
def checkForCloseClientConnection (time : Int) : Client :=
  if c.count ≠ 0 then c
  else if c.mode ≠ .SCM_DISABLE ∧ !c.dropPending ∧ time - c.passwordTimestamp < c.passwordExpiration
  then c
  else { c with dropPending := false, connected := false }

/-- `sudo_client_region_enter` -/
def regionEnter : Client := { c with count := c.count + 1 }

/-- `sudo_client_region_leave`: the outermost region is left. -/
def forget : Client :=
  { c with cancelled := false, modify := .MODIFY_UNDEFINED, grant := none, denied := false }

/-- `sudo_client_region_leave` -/
def regionLeave (time : Int) : Client :=
  let c := { c with count := c.count - 1 }
  (if c.count = 0 then c.forget else c).checkForCloseClientConnection time

/-- `sudo_client_drop` -/
def drop : Client :=
  if c.count ≠ 0 then { c with dropPending := true } else { c with connected := false }

/-! ## The connection -/

/-- `TouchClientConnection`: the connection has to be opened. -/
def openConnection (wantModify : Bool) (w : World) : Client × Bool :=
  if c.silentQuery > 0 ∧ !wantModify then (c, false)
  else if !w.opens then ({ c with cancelled := true }, false)
  else
    let asks : Bool := wantModify ∧ c.mode = .SCM_CONFIRM_MODIFY
    ({ c with
        connected := true
        -- assume user confirmed also modify operation with this password
        modify := if asks then .MODIFY_ALLOWED else c.modify
        grant := if asks then some .opened else c.grant
        passwordTimestamp := w.time }, true)

/-- `TouchClientConnection`: the user is asked, once in an outermost region. -/
def askModify (w : World) : Client :=
  if c.modify = .MODIFY_UNDEFINED then
    { c with
      modify := if w.confirms then .MODIFY_ALLOWED else .MODIFY_DENIED
      grant := if w.confirms then some .confirmed else c.grant
      denied := if w.confirms then c.denied else true }
  else c

/-- `TouchClientConnection` -/
def touchClientConnection (wantModify : Bool) (w : World) : Client × Bool :=
  if c.count = 0 ∨ c.cancelled then (c, false)
  else if c.mode = .SCM_DISABLE then (c, false)
  else if !c.connected then c.openConnection wantModify w
  else if wantModify ∧ c.mode = .SCM_CONFIRM_MODIFY then
    (c.askModify w, (c.askModify w).modify = .MODIFY_ALLOWED)
  else (c, true)

/-- `ClientTransaction`, from its constructor to its destructor. -/
def transaction (modify : Bool) (w : World) : Client :=
  { c with
    started := c.started ++ [⟨modify, c.grant, c.denied⟩]
    connected := if w.fails then false else c.connected }

/-- A proxied operation whose local attempt was denied. -/
def proxied (op : Operation) (w : World) : Client :=
  let r := c.touchClientConnection op.wantModify w
  if r.2 then r.1.transaction op.wantModify w else r.1

/-! ## Runs -/

/-- What happens on the thread. -/
inductive Op where
  | enter
  | leave (time : Int)
  | silentEnter
  | silentLeave
  | drop
  | proxied (op : Operation) (w : World)
  /-- `readdir`, `closedir`, and `chdir` in an active region: these read without a touch. -/
  | untouched (w : World)

/-- A step. -/
def perform : Op → Client
  | .enter => c.regionEnter
  | .leave time => c.regionLeave time
  | .silentEnter => { c with silentQuery := c.silentQuery + 1 }
  | .silentLeave => { c with silentQuery := c.silentQuery - 1 }
  | .drop => c.drop
  | .proxied op w => c.proxied op w
  | .untouched w => c.transaction false w

/-- Regions are properly nested, and a transaction needs a connection. -/
def Can : Op → Prop
  | .leave _ => 0 < c.count
  | .untouched _ => c.connected = true
  | _ => True

end Client

end Far2l.Sudo

/-! # Modifications are sent only where the user has

allowed them.

A denial holds until the outermost region is left, or until the connection has
been lost and is opened for a modification: the password counts as an answer. -/

namespace Far2l.Sudo

/-- **A modification was allowed**: confirmed and never denied in its outermost region, or the
connection was opened for one there. -/
def Allowed (grant : Option Grant) (denied : Bool) : Prop :=
  grant = some .opened ∨ (grant = some .confirmed ∧ denied = false)

namespace Client

variable {c : Client}

/-- **What `ModifyState` stands for.** -/
structure Answered (c : Client) : Prop where
  mode : c.mode = .SCM_CONFIRM_MODIFY
  undefined : c.modify = .MODIFY_UNDEFINED → c.grant = none ∧ c.denied = false
  allowed : c.modify = .MODIFY_ALLOWED → Allowed c.grant c.denied
  outside : c.count = 0 → c.modify = .MODIFY_UNDEFINED
  started : ∀ t ∈ c.started, t.modify = true → Allowed t.grant t.denied

theorem Answered.checkForClose (h : c.Answered) (time : Int) :
    (c.checkForCloseClientConnection time).Answered := by
  rw [checkForCloseClientConnection]
  split
  · exact h
  · split
    · exact h
    · exact ⟨h.mode, h.undefined, h.allowed, h.outside, h.started⟩

theorem Answered.regionLeave (h : c.Answered) (time : Int) : (c.regionLeave time).Answered := by
  rw [Client.regionLeave]
  refine Answered.checkForClose ?_ time
  split
  · exact ⟨h.mode, fun _ => ⟨rfl, rfl⟩, fun hm => ModifyState.noConfusion hm, fun _ => rfl, h.started⟩
  · next hin =>
    exact ⟨h.mode, h.undefined, h.allowed, fun hout => absurd hout hin, h.started⟩

theorem Answered.askModify (h : c.Answered) (hin : c.count ≠ 0) (w : World) :
    (c.askModify w).Answered := by
  rw [Client.askModify]
  split
  · next hundef =>
    obtain ⟨-, hdenied⟩ := h.undefined hundef
    cases hconf : w.confirms with
    | true =>
      exact ⟨h.mode, fun hm => ModifyState.noConfusion hm, fun _ => .inr ⟨rfl, hdenied⟩,
        fun hout => absurd hout hin, h.started⟩
    | false =>
      exact ⟨h.mode, fun hm => ModifyState.noConfusion hm, fun hm => ModifyState.noConfusion hm,
        fun hout => absurd hout hin, h.started⟩
  · exact h

/-- Where the connection is touched for a modification with success, one is allowed. -/
theorem Answered.touch (h : c.Answered) (wantModify : Bool) (w : World) :
    (c.touchClientConnection wantModify w).1.Answered
    ∧ ((c.touchClientConnection wantModify w).2 = true → wantModify = true →
        Allowed (c.touchClientConnection wantModify w).1.grant
          (c.touchClientConnection wantModify w).1.denied) := by
  rw [touchClientConnection]
  split
  · exact ⟨h, fun hr => Bool.noConfusion hr⟩
  next hin =>
  rw [not_or] at hin
  split
  · exact ⟨h, fun hr => Bool.noConfusion hr⟩
  split
  · rw [openConnection]
    split
    · exact ⟨h, fun hr => Bool.noConfusion hr⟩
    split
    · exact ⟨⟨h.mode, h.undefined, h.allowed, h.outside, h.started⟩, fun hr => Bool.noConfusion hr⟩
    · dsimp only
      cases wantModify with
      | true =>
        have hasks : (true = true ∧ c.mode = .SCM_CONFIRM_MODIFY) := ⟨rfl, h.mode⟩
        rw [decide_eq_true hasks]
        exact ⟨⟨h.mode, fun hm => ModifyState.noConfusion hm, fun _ => .inl rfl,
          fun hout => absurd hout hin.1, h.started⟩, fun _ _ => .inl rfl⟩
      | false =>
        have hasks : ¬ (false = true ∧ c.mode = .SCM_CONFIRM_MODIFY) := fun h => Bool.noConfusion h.1
        rw [decide_eq_false hasks]
        exact ⟨⟨h.mode, h.undefined, h.allowed, h.outside, h.started⟩, fun _ hm => Bool.noConfusion hm⟩
  split
  · have hask := h.askModify hin.1 w
    exact ⟨hask, fun hr _ => hask.allowed (of_decide_eq_true hr)⟩
  · next hnot =>
    exact ⟨h, fun _ hm => absurd ⟨hm, h.mode⟩ hnot⟩

theorem Answered.transaction (h : c.Answered) {modify : Bool}
    (hallowed : modify = true → Allowed c.grant c.denied) (w : World) :
    (c.transaction modify w).Answered := by
  refine ⟨h.mode, h.undefined, h.allowed, h.outside, fun t ht hm => ?_⟩
  rcases List.mem_append.mp ht with ht | ht
  · exact h.started t ht hm
  · obtain rfl := List.mem_singleton.mp ht
    exact hallowed hm

theorem Answered.proxied (h : c.Answered) (op : Operation) (w : World) :
    (c.proxied op w).Answered := by
  obtain ⟨htouch, hallowed⟩ := h.touch op.wantModify w
  rw [Client.proxied]
  split
  · next hr => exact htouch.transaction (hallowed hr) w
  · exact htouch

/-- **One step** keeps what `ModifyState` stands for. -/
theorem Answered.perform (h : c.Answered) (op : Op) : (c.perform op).Answered := by
  cases op with
  | enter => exact ⟨h.mode, h.undefined, h.allowed, fun hout => absurd hout (Nat.succ_ne_zero _), h.started⟩
  | leave time => exact h.regionLeave time
  | silentEnter => exact ⟨h.mode, h.undefined, h.allowed, h.outside, h.started⟩
  | silentLeave => exact ⟨h.mode, h.undefined, h.allowed, h.outside, h.started⟩
  | drop =>
    show c.drop.Answered
    rw [drop]
    split
    · exact ⟨h.mode, h.undefined, h.allowed, h.outside, h.started⟩
    · exact ⟨h.mode, h.undefined, h.allowed, h.outside, h.started⟩
  | proxied op w => exact h.proxied op w
  | untouched w => exact h.transaction (fun hm => Bool.noConfusion hm) w

/-- A client that has just been configured. -/
def configured : Client := { mode := .SCM_CONFIRM_MODIFY }

/-- The connection is opened to read, a modification is denied, the connection is lost, and the next
modification opens it. -/
def deniedThenLost : Client :=
  [Op.enter, .proxied .stat {}, .proxied .mkdir { confirms := false }, .proxied .stat { fails := true },
    .proxied .mkdir {}].foldl perform configured

end Client

end Far2l.Sudo
