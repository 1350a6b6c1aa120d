/-
Far2l.TTY.ClipboardTransfer — data on their way to the clipboard of the host:
`SetDataThread` of `WinPort/src/Backend/TTY/TTYFar2lClipboardBackend.cpp`, and
the server of `Far2l.VT.Far2lExtensions` behind it.

Steps are messages, which the server handles in the order in which they are
sent. A thread may be cancelled after any chunk, and messages of the application
may come between its own. A new transfer waits for the thread of the one before
it, and the thread counts as one that has the clipboard open.

Left out are the cache, the sleeps, and the fallback, after which nothing more is
sent.
-/
import Far2l.VT.Far2lExtensions
import Far2l.Lib.Reach

namespace Far2l.TTY

open VT VTFar2lExtensios

def CHUNK_SIZE : Nat := 0x4000

/-- Data that are to be put on the clipboard. They are in memory that `ClipboardAlloc` gave. -/
structure Transfer where
  format : UInt32
  data : List Byte
  /-- `_features & FARTTY_FEATCLIP_CHUNKED_SET` -/
  chunkedSet : Bool
  size_pos : 0 < data.length
  size_le : data.length ≤ CLIPBOARD_ALLOC_MAX

/-- `len` bytes from `ofs` on; there is no answer where they go past the end. -/
def readAt (data : List Byte) (ofs len : Nat) : Option (List Byte) :=
  if ofs + len ≤ data.length then some ((data.drop ofs).take len) else none

/-- What `ThreadProc` is doing. -/
inductive SetDataThread where
  /-- There is no thread, or it has ended. -/
  | idle
  /-- The bytes before `ofs` have been sent in `i` chunks. -/
  | sending (t : Transfer) (i ofs : Nat)
  /-- It has been cancelled, and is about to post the chunk without length. -/
  | discarding
  /-- It has sent its last message, and is about to call `OnClipboardClose`. -/
  | ending
  /-- It was the last that had the clipboard open, and is about to send `ClipboardClose`. -/
  | closing

/-- A transfer whose last piece has been sent, and whether the server had the clipboard open and
memory for the data. -/
structure Completed where
  transfer : Transfer
  opened : Bool
  allocated : Bool

/-- `TTYFar2lClipboardBackend`, the server, and what has happened: the transfers completed, and the
calls of `SetClipboardData`. -/
structure Link where
  /-- `_no_fallback_open_counter` -/
  openCounter : Int := 0
  /-- how often the application has the clipboard open -/
  opens : Nat := 0
  thread : SetDataThread := .idle
  ext : VTFar2lExtensios := {}
  /-- A read went past the end of the data. -/
  overrun : Bool := false
  completed : List Completed := []
  handed : List (Nat × Option (List Byte)) := []

namespace Link

variable (L : Link)

/-! ## Messages -/

/-- The calls of `SetClipboardData`, after a command with this effect. -/
def logHanded : Effect → List (Nat × Option (List Byte)) → List (Nat × Option (List Byte))
  | .handed fmt data, log => log ++ [(fmt, data)]
  | _, log => log

/-- The server handles a message. -/
def deliver (H : Host) (now : Nat) (S : StackSerializer) : Link :=
  let a := L.ext.onInteract H now S
  { L with ext := a.ext, handed := logHanded a.effect L.handed }

/-- The message of a chunk. -/
def chunkMessage (chunk : List Byte) : StackSerializer :=
  clipMessage FARTTY_INTERACT_CLIP_SETDATACHUNK
    ((({} : StackSerializer).push chunk).pushNum 2 (CHUNK_SIZE / 2 ^ 8))

/-- The chunk without length. -/
def discardMessage : StackSerializer :=
  clipMessage FARTTY_INTERACT_CLIP_SETDATACHUNK (({} : StackSerializer).pushNum 2 0)

/-- The message of the last piece. -/
def dataMessage (format : UInt32) (piece : List Byte) : StackSerializer :=
  clipMessage FARTTY_INTERACT_CLIP_SETDATA
    (((({} : StackSerializer).push piece).pushNum 4 piece.length).pushNum 4 format.toNat)

/-- The message of `OnClipboardOpen`. -/
def openMessage (clientId : List Byte) : StackSerializer :=
  clipMessage FARTTY_INTERACT_CLIP_OPEN (({} : StackSerializer).pushStr clientId)

/-- The message of `OnClipboardClose`. -/
def closeMessage : StackSerializer := clipMessage FARTTY_INTERACT_CLIP_CLOSE {}

/-! ## The thread -/

/-- `ThreadProc`: `OnClipboardClose`. -/
def threadEnds : Link :=
  { L with
    openCounter := L.openCounter - 1
    thread := if L.openCounter - 1 > 0 then .idle else .closing }

/-- `ThreadProc`: one turn of the loop, up to the test of `_cancel`. -/
def sendChunk (H : Host) (now : Nat) (t : Transfer) (i ofs : Nat) (cancelled : Bool) : Link :=
  match readAt t.data ofs CHUNK_SIZE with
  | none => { L with overrun := true }
  | some chunk =>
      { L.deliver H now (chunkMessage chunk) with
        thread := if cancelled then .discarding else .sending t (i + 1) (ofs + CHUNK_SIZE) }

/-- `ThreadProc` behind the loop. -/
def sendLast (H : Host) (now : Nat) (t : Transfer) (ofs : Nat) : Link :=
  match readAt t.data ofs (t.data.length - ofs) with
  | none => { L with overrun := true }
  | some piece =>
      let done : Completed := ⟨t, L.ext.clipboardOpens > 0, H.malloc t.data.length⟩
      { L.deliver H now (dataMessage t.format piece) with
        thread := .ending
        completed := L.completed ++ [done] }

/-- `ThreadProc`: what the thread sends next. -/
def threadStep (H : Host) (now : Nat) (cancelled : Bool) : Link :=
  match L.thread with
  | .idle => L
  | .sending t i ofs =>
      if t.chunkedSet ∧ t.data.length - ofs > CHUNK_SIZE then L.sendChunk H now t i ofs cancelled
      else L.sendLast H now t ofs
  | .discarding => { L.deliver H now discardMessage with thread := .ending }
  | .ending => L.threadEnds
  | .closing => { L.deliver H now closeMessage with thread := .idle }

/-! ## The application -/

/-- `OnClipboardOpen`, where the message is sent. -/
def firstOpen (H : Host) (now : Nat) (clientId : List Byte) : Link :=
  let a := L.ext.onInteract H now (openMessage clientId)
  let opened := (a.reply.bind fun S => S.popNum 1).map Prod.fst = some 1
  let openCounter := if L.openCounter + 1 ≤ 0 then 1 else L.openCounter + 1
  { L.deliver H now (openMessage clientId) with
    openCounter := if opened then openCounter else openCounter - 1
    opens := if opened then L.opens + 1 else L.opens }

/-- `OnClipboardOpen` -/
def onClipboardOpen (H : Host) (now : Nat) (clientId : List Byte) : Link :=
  if L.openCounter + 1 > 1 then { L with openCounter := L.openCounter + 1, opens := L.opens + 1 }
  else L.firstOpen H now clientId

/-- `OnClipboardClose` -/
def onClipboardClose (H : Host) (now : Nat) : Link :=
  let closed := { L with openCounter := L.openCounter - 1, opens := L.opens - 1 }
  if L.openCounter - 1 > 0 then closed else closed.deliver H now closeMessage

/-- `OnClipboardSetData`: the thread is started, and has the clipboard open. -/
def onClipboardSetData (t : Transfer) : Link :=
  { L with openCounter := L.openCounter + 1, thread := .sending t 0 0 }

/-! ## Runs -/

/-- A step of the thread, or a call of the application. -/
inductive Op where
  | thread (H : Host) (now : Nat) (cancelled : Bool)
  | open_ (H : Host) (now : Nat) (clientId : List Byte)
  | close (H : Host) (now : Nat)
  | setData (t : Transfer)
  /-- a command that neither sets data nor opens or closes the clipboard -/
  | command (H : Host) (now : Nat) (code : Byte) (args : StackSerializer)

/-- An operation. -/
def perform : Op → Link
  | .thread H now cancelled => L.threadStep H now cancelled
  | .open_ H now clientId => L.onClipboardOpen H now clientId
  | .close H now => L.onClipboardClose H now
  | .setData t => L.onClipboardSetData t
  | .command H now code args => L.deliver H now (clipMessage code args)

/-- The commands that are not among the other operations. -/
def PlainCommand (code : Byte) : Prop :=
  code ≠ FARTTY_INTERACT_CLIP_OPEN ∧ code ≠ FARTTY_INTERACT_CLIP_CLOSE
    ∧ code ≠ FARTTY_INTERACT_CLIP_SETDATACHUNK ∧ code ≠ FARTTY_INTERACT_CLIP_SETDATA

/-- What the application can do: it closes what it has opened, and sets data while it has the
clipboard open; `OnClipboardSetData` waits for the thread before it. -/
def Can : Op → Prop
  | .close _ _ => 0 < L.opens
  | .setData _ => 0 < L.opens ∧ L.thread = .idle
  | .command _ _ code _ => PlainCommand code
  | _ => True

end Link

/-- **What a completed transfer is to hand** to `SetClipboardData`: its own data, byte for byte; null
where the server has no memory, and nothing where it does not have the clipboard open. -/
def Completed.hands (c : Completed) : List (Nat × Option (List Byte)) :=
  if c.opened then [(c.transfer.format.toNat, if c.allocated then some c.transfer.data else none)]
  else []

end Far2l.TTY
