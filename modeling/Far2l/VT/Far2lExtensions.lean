/-
Far2l.VT.Far2lExtensions — the clipboard of the host for an application in the
terminal: `far/src/vt/VTFar2lExtensios.cpp`.

What the host answers to a command (`OpenClipboard`, `GetClipboardData` and the
rest) is a parameter of the command, `Host`, and so is the tick count: a command
takes no time. Left out is what does not concern the clipboard: the other
commands of `OnInteract`, and the input that is passed on to the application.
-/
import Far2l.Utils.StackSerializer

namespace Far2l.VT

/-! ## Constants -/

def CLIPBOARD_READ_ALLOWANCE_EXPIRATION_MSEC : Nat := 5000

def CLIPBOARD_READ_ALLOWANCE_PROLONGS : Nat := 3

def FARTTY_INTERACT_CLIPBOARD : Byte := 0x63
def FARTTY_INTERACT_CLIP_OPEN : Byte := 0x6F
def FARTTY_INTERACT_CLIP_CLOSE : Byte := 0x63
def FARTTY_INTERACT_CLIP_EMPTY : Byte := 0x65
def FARTTY_INTERACT_CLIP_ISAVAIL : Byte := 0x61
def FARTTY_INTERACT_CLIP_SETDATACHUNK : Byte := 0x53
def FARTTY_INTERACT_CLIP_SETDATA : Byte := 0x73
def FARTTY_INTERACT_CLIP_GETDATA : Byte := 0x67
def FARTTY_INTERACT_CLIP_GETDATAID : Byte := 0x69
def FARTTY_INTERACT_CLIP_REGISTER_FORMAT : Byte := 0x72

/-- `FARTTY_FEATCLIP_DATA_ID | FARTTY_FEATCLIP_CHUNKED_SET` -/
def FARTTY_FEATCLIP_ALL : Nat := 3

def CF_TEXT : Nat := 1
def CF_UNICODETEXT : Nat := 13

/-- What `ClipboardAlloc` allocates at most. -/
def CLIPBOARD_ALLOC_MAX : Nat := 0x7fffff00

/-! ## The host -/

/-- What the host does during a command. -/
structure Host where
  /-- what the user, or the list of known clients, answers `ClipboardAuthorize`; -1 is 255 -/
  authorize : List Byte → Byte := fun _ => 1
  openClipboard : Bool := true
  closeClipboard : Bool := true
  emptyClipboard : Bool := true
  isClipboardFormatAvailable : Nat → Bool := fun _ => false
  getClipboardData : Nat → Option (List Byte) := fun _ => none
  setClipboardData : Bool := true
  registerClipboardFormat : List Byte → Nat := fun _ => 0
  /-- is there memory for so many bytes? -/
  malloc : Nat → Bool := fun _ => true
  crc64 : Nat → List Byte → Nat := fun id _ => id

/-- `ClipboardAlloc` -/
def Host.clipboardAlloc (H : Host) (bytes : Nat) : Bool :=
  0 < bytes ∧ bytes ≤ CLIPBOARD_ALLOC_MAX ∧ H.malloc bytes

/-- `wcsnlen` and `strnlen`, for characters of `width` bytes. -/
def textUnits (width : Nat) : (fuel : Nat) → List Byte → Nat
  | 0, _ => 0
  | fuel + 1, data =>
      if data.length < width ∨ (data.take width).all (· = 0) then 0
      else textUnits width fuel (data.drop width) + 1

/-- How many bytes of characters stand before a zero. -/
def textLength (width : Nat) (data : List Byte) : Nat := width * textUnits width data.length data

/-- `CalculateDataID`; zero stands for no data. -/
def calculateDataID (H : Host) (fmt : Nat) (data : Option (List Byte)) : Nat :=
  let bytes := data.getD []
  let len :=
    if fmt = CF_UNICODETEXT then textLength 4 bytes
    else if fmt = CF_TEXT then textLength 1 bytes
    else bytes.length
  let id := if len ≠ 0 then H.crc64 len (bytes.take len) else len
  if id = 0 then 1 else id

/-! ## The members -/

/-- The members of `VTFar2lExtensios`. -/
structure VTFar2lExtensios where
  clipboardOpens : Nat := 0
  ctrlAltCCounter : Nat := 0
  clipboardReadAllowance : Nat := 0
  clipboardReadAllowanceProlongs : Nat := 0
  clipboardChunks : List Byte := []

/-- What a command has done with the clipboard of the host. -/
inductive Effect where
  | none
  /-- Its contents have gone into the reply. -/
  | returned (data : List Byte)
  /-- `SetClipboardData` has been called, with null or these bytes. -/
  | handed (fmt : Nat) (data : Option (List Byte))
deriving DecidableEq

/-- What a command leaves behind; it has no reply when it has thrown. -/
structure Answer where
  ext : VTFar2lExtensios
  reply : Option StackSerializer
  effect : Effect := .none

namespace VTFar2lExtensios

variable (X : VTFar2lExtensios)

/-- The reply is one `char`. -/
def replyChar (out : Byte) : StackSerializer := ({} : StackSerializer).push [out]

/-- `true` and `false` as `char`. -/
def charOf (b : Bool) : Byte := if b then 1 else 0

/-! ## Reading is allowed for a while -/

/-- `IsAllowedClipboardRead` -/
def isAllowedClipboardRead (now : Nat) : Bool :=
  if now ≥ X.clipboardReadAllowance then
    now - X.clipboardReadAllowance < CLIPBOARD_READ_ALLOWANCE_EXPIRATION_MSEC
  else
    (0xffffffff - X.clipboardReadAllowance) + now < CLIPBOARD_READ_ALLOWANCE_EXPIRATION_MSEC

/-- `AllowClipboardRead` -/
def allowClipboardRead (now : Nat) (prolong : Bool) : VTFar2lExtensios :=
  if prolong then
    if X.clipboardReadAllowanceProlongs ≥ CLIPBOARD_READ_ALLOWANCE_PROLONGS then X
    else
      { X with
        clipboardReadAllowanceProlongs := X.clipboardReadAllowanceProlongs + 1
        clipboardReadAllowance := now }
  else { X with clipboardReadAllowanceProlongs := 0, clipboardReadAllowance := now }

/-! ## Input -/

/-- `MOUSE_EVENT_RECORD`, as far as it is read here. -/
structure MouseEvent where
  dwButtonState : UInt32

/-- `KEY_EVENT_RECORD`, as far as it is read here. -/
structure KeyEvent where
  bKeyDown : Bool
  wVirtualKeyCode : UInt16
  dwControlKeyState : UInt32

/-- The middle button pastes. -/
def MouseEvent.pastes (e : MouseEvent) : Bool := e.dwButtonState &&& 0x0004 ≠ 0

/-- `LEFT_CTRL_PRESSED | RIGHT_CTRL_PRESSED` -/
def KeyEvent.ctrl (e : KeyEvent) : Bool := e.dwControlKeyState &&& 0x000C ≠ 0

/-- `RIGHT_ALT_PRESSED | LEFT_ALT_PRESSED` -/
def KeyEvent.alt (e : KeyEvent) : Bool := e.dwControlKeyState &&& 0x0003 ≠ 0

/-- `SHIFT_PRESSED` -/
def KeyEvent.shift (e : KeyEvent) : Bool := e.dwControlKeyState &&& 0x0010 ≠ 0

/-- The key is Ctrl+Alt+C, which the third time lets the host kill the shell. -/
def KeyEvent.kills (e : KeyEvent) : Bool :=
  e.ctrl ∧ e.alt ∧ !e.shift ∧ e.wVirtualKeyCode = 0x43

/-- The key is one of `VK_SHIFT`, `VK_MENU`, `VK_CONTROL`, `VK_RCONTROL`. -/
def KeyEvent.modifies (e : KeyEvent) : Bool :=
  e.wVirtualKeyCode ∈ ([0x10, 0x12, 0x11, 0xA3] : List UInt16)

/-- The key is Ctrl+V or Shift+Ins. -/
def KeyEvent.pastes (e : KeyEvent) : Bool :=
  e.bKeyDown ∧ ((!e.alt ∧ e.ctrl ∧ e.wVirtualKeyCode = 0x56)
    ∨ (!e.alt ∧ !e.ctrl ∧ e.shift ∧ e.wVirtualKeyCode = 0x2D))

/-- `OnInputMouse` -/
def onInputMouse (now : Nat) (e : MouseEvent) : VTFar2lExtensios :=
  if e.pastes then X.allowClipboardRead now false else X

/-- `OnInputKey`: the count of Ctrl+Alt+C. -/
def countKills (e : KeyEvent) : VTFar2lExtensios :=
  if e.bKeyDown then
    if e.kills then { X with ctrlAltCCounter := X.ctrlAltCCounter + 1 }
    else if !e.modifies then { X with ctrlAltCCounter := 0 }
    else X
  else X

/-- `OnInputKey`; `false` lets the host kill the shell. -/
def onInputKey (now : Nat) (e : KeyEvent) : VTFar2lExtensios × Bool :=
  let X := X.countKills e
  if e.bKeyDown ∧ e.kills ∧ X.ctrlAltCCounter = 3 then (X, false)
  else (if e.pastes then X.allowClipboardRead now false else X, true)

/-! ## Commands -/

/-- `ClipboardAuthorize` -/
def clipboardAuthorize (H : Host) (clientId : List Byte) : Byte :=
  if clientId.length < 0x20 ∨ clientId.length > 0x100 then 0
  else if clientId.any fun c =>
      (c < 0x30 ∨ c > 0x39) ∧ (c < 0x61 ∨ c > 0x7A) ∧ c ≠ 0x2D ∧ c ≠ 0x5F then 0
  else H.authorize clientId

/-- `OnInteract_ClipboardOpen` -/
def onInteractClipboardOpen (H : Host) (S : StackSerializer) : Answer :=
  let X := { X with clipboardChunks := [] }
  match S.popStr with
  | none => { ext := X, reply := none }
  | some (clientId, _) =>
      let authorized := clipboardAuthorize H clientId
      let out := if authorized = 1 then charOf H.openClipboard else authorized
      { ext :=
          { X with
            clipboardOpens := if authorized = 1 ∧ H.openClipboard then X.clipboardOpens + 1
              else X.clipboardOpens }
        reply := some ((({} : StackSerializer).pushNum 8 FARTTY_FEATCLIP_ALL).push [out]) }

/-- `OnInteract_ClipboardClose` -/
def onInteractClipboardClose (H : Host) : Answer :=
  let out : Byte := if X.clipboardOpens > 0 then charOf H.closeClipboard else 255
  { ext :=
      { X with
        clipboardChunks := []
        clipboardOpens := if X.clipboardOpens > 0 ∧ H.closeClipboard then X.clipboardOpens - 1
          else X.clipboardOpens
        clipboardReadAllowanceProlongs := 0 }
    reply := some (replyChar out) }

/-- `OnInteract_ClipboardEmpty` -/
def onInteractClipboardEmpty (H : Host) : Answer :=
  { ext := X
    reply := some (replyChar (if X.clipboardOpens > 0 then charOf H.emptyClipboard else 255)) }

/-- `OnInteract_ClipboardIsFormatAvailable` -/
def onInteractClipboardIsFormatAvailable (H : Host) (S : StackSerializer) : Answer :=
  { ext := X
    reply := (S.popNum 4).map fun r => replyChar (charOf (H.isClipboardFormatAvailable r.1)) }

/-- `OnInteract_ClipboardSetDataChunk`; the chunk that is not there leaves zeros behind. -/
def onInteractClipboardSetDataChunk (S : StackSerializer) : Answer :=
  if X.clipboardOpens > 0 then
    match S.popNum 2 with
    | none => { ext := X, reply := none }
    | some (encodedChunkSize, S) =>
        if encodedChunkSize ≠ 0 then
          let chunkSize := encodedChunkSize * 2 ^ 8
          match S.pop chunkSize with
          | none =>
              { ext := { X with
                  clipboardChunks := X.clipboardChunks ++ List.replicate chunkSize 0 }
                reply := none }
          | some (chunk, _) =>
              { ext := { X with clipboardChunks := X.clipboardChunks ++ chunk }, reply := some {} }
        else { ext := { X with clipboardChunks := [] }, reply := some {} }
  else { ext := X, reply := some {} }

/-- `OnInteract_ClipboardSetData`: `SetClipboardData` is called. -/
def handClipboardData (H : Host) (fmt : Nat) (data : Option (List Byte)) : Answer :=
  let reply : StackSerializer :=
    if H.setClipboardData then ({} : StackSerializer).pushNum 8 (calculateDataID H fmt data) else {}
  { ext := { X with clipboardChunks := [] }
    reply := some (reply.push [charOf H.setClipboardData])
    effect := .handed fmt data }

/-- `OnInteract_ClipboardSetData`; the lengths are 32 bits wide. -/
def onInteractClipboardSetData (H : Host) (S : StackSerializer) : Answer :=
  if X.clipboardOpens > 0 then
    match S.popNum 4 with
    | none => { ext := X, reply := none }
    | some (fmt, S) =>
        match S.popNum 4 with
        | none => { ext := X, reply := none }
        | some (len, S) =>
            let chunksSize := X.clipboardChunks.length % 2 ^ 32
            let total := (len + chunksSize) % 2 ^ 32
            if len ≠ 0 ∧ total ≥ len then
              if H.clipboardAlloc total then
                match S.pop len with
                | none => { ext := X, reply := none }
                | some (piece, _) =>
                    X.handClipboardData H fmt (some (X.clipboardChunks.take chunksSize ++ piece))
              else X.handClipboardData H fmt none
            else X.handClipboardData H fmt none
  else { ext := { X with clipboardChunks := [] }, reply := some (replyChar 255) }

/-- `OnInteract_ClipboardGetData` -/
def onInteractClipboardGetData (H : Host) (now : Nat) (S : StackSerializer) : Answer :=
  if X.clipboardOpens > 0 then
    let allowed := X.isAllowedClipboardRead now
    match S.popNum 4 with
    | none => { ext := X, reply := none }
    | some (fmt, _) =>
        let data := if allowed then H.getClipboardData fmt else none
        let id := if data = none then 0 else calculateDataID H fmt data
        let bytes := data.getD []
        { ext := if allowed then X.allowClipboardRead now true else X
          reply := some (((({} : StackSerializer).pushNum 8 id).push bytes).pushNum 4 bytes.length)
          effect := (data.map Effect.returned).getD .none }
  else { ext := X, reply := some (S.pushNum 4 0xffffffff) }

/-- `OnInteract_ClipboardGetDataID` -/
def onInteractClipboardGetDataID (H : Host) (now : Nat) (S : StackSerializer) : Answer :=
  if X.clipboardOpens > 0 ∧ X.isAllowedClipboardRead now then
    match S.popNum 4 with
    | none => { ext := X, reply := none }
    | some (fmt, _) =>
        let data := H.getClipboardData fmt
        let id := if data = none then 0 else calculateDataID H fmt data
        { ext := X
          reply := some (({} : StackSerializer).pushNum 8 id)
          effect := (data.map Effect.returned).getD .none }
  else { ext := X, reply := some (({} : StackSerializer).pushNum 8 0) }

/-- `OnInteract_ClipboardRegisterFormat` -/
def onInteractClipboardRegisterFormat (H : Host) (S : StackSerializer) : Answer :=
  { ext := X
    reply := S.popStr.map fun r =>
      ({} : StackSerializer).pushNum 4 (H.registerClipboardFormat r.1) }

/-- `OnInteract_Clipboard`, with the code of the command. -/
def onInteractClipboard (H : Host) (now : Nat) (code : Byte) (S : StackSerializer) : Answer :=
  if code = FARTTY_INTERACT_CLIP_OPEN then X.onInteractClipboardOpen H S
  else if code = FARTTY_INTERACT_CLIP_CLOSE then X.onInteractClipboardClose H
  else if code = FARTTY_INTERACT_CLIP_EMPTY then X.onInteractClipboardEmpty H
  else if code = FARTTY_INTERACT_CLIP_ISAVAIL then X.onInteractClipboardIsFormatAvailable H S
  else if code = FARTTY_INTERACT_CLIP_SETDATACHUNK then X.onInteractClipboardSetDataChunk S
  else if code = FARTTY_INTERACT_CLIP_SETDATA then X.onInteractClipboardSetData H S
  else if code = FARTTY_INTERACT_CLIP_GETDATA then X.onInteractClipboardGetData H now S
  else if code = FARTTY_INTERACT_CLIP_GETDATAID then X.onInteractClipboardGetDataID H now S
  else if code = FARTTY_INTERACT_CLIP_REGISTER_FORMAT then X.onInteractClipboardRegisterFormat H S
  else { ext := X, reply := some S }

/-- `OnInteract`, for the commands of the clipboard. -/
def onInteract (H : Host) (now : Nat) (S : StackSerializer) : Answer :=
  match S.popNum 1 with
  | none => { ext := X, reply := none }
  | some (code, S) =>
      if UInt8.ofNat code = FARTTY_INTERACT_CLIPBOARD then
        match S.popNum 1 with
        | none => { ext := X, reply := none }
        | some (code, S) => X.onInteractClipboard H now (UInt8.ofNat code) S
      else { ext := X, reply := some {} }

/-! ## Messages of the application -/

/-- A message of the application to the clipboard. -/
def clipMessage (code : Byte) (args : StackSerializer) : StackSerializer :=
  (args.push [code]).push [FARTTY_INTERACT_CLIPBOARD]

theorem onInteract_clipMessage (H : Host) (now : Nat) (code : Byte) (args : StackSerializer) :
    X.onInteract H now (clipMessage code args) = X.onInteractClipboard H now code args := by
  have hclip : UInt8.ofNat FARTTY_INTERACT_CLIPBOARD.toNat = FARTTY_INTERACT_CLIPBOARD := rfl
  rw [onInteract, clipMessage, StackSerializer.popNum_push_singleton]
  dsimp only
  rw [if_pos hclip, StackSerializer.popNum_push_singleton]
  dsimp only
  rw [UInt8.ofNat_toNat]

end VTFar2lExtensios

end Far2l.VT
