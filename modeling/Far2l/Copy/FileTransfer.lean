/-
Far2l.Copy.FileTransfer — `ShellFileTransfer` of `far/src/copy.cpp`, which copies
one file, as it is built for Linux.

What the system answers to a call, and the user to a question, is the next of a
list of replies. Copy-on-write is off and the destination is not `/dev/null`;
the progress that is shown, extended attributes, modes and times are left out.
The buffer is small enough for `DWORD`.
-/
import Far2l.Copy.DiskFile
import Far2l.Lib.Action

namespace Far2l.Copy

/-- A reply: a call fails or succeeds, and a question is answered by Cancel or Retry. `n` is the
count of a read or a write, or the time. -/
inductive Reply where
  | no
  | yes (n : Nat)

def Reply.succeeds : Reply → Bool
  | .no => false
  | .yes _ => true

def Reply.count : Reply → Nat
  | .no => 0
  | .yes n => n

/-! ## The buffer -/

/-- `USE_PAGE_SIZE`, and the alignment of holes. -/
def PAGE : Nat := 0x1000

def COPY_PIECE_MINIMAL : Nat := 0x10000

def alignPageUp (v : Nat) : Nat := if v % PAGE = 0 then v else v + (PAGE - v % PAGE)

/-- `ShellCopyBuffer`: `bytes` are the whole `Capacity`. -/
structure ShellCopyBuffer where
  bytes : List Byte
  size : Nat
  size_pos : 0 < size
  size_le : size ≤ bytes.length
  aligned : bytes.length % PAGE = 0

namespace ShellCopyBuffer

theorem length_overwritten (bytes data : List Byte) :
    ((data ++ bytes.drop data.length).take bytes.length).length = bytes.length := by
  rw [List.length_take, List.length_append, List.length_drop]
  omega

/-- Data is put at the beginning of the buffer. -/
def load (B : ShellCopyBuffer) (data : List Byte) : ShellCopyBuffer where
  bytes := (data ++ B.bytes.drop data.length).take B.bytes.length
  size := B.size
  size_pos := B.size_pos
  size_le := by rw [length_overwritten]; exact B.size_le
  aligned := by rw [length_overwritten]; exact B.aligned

/-- `Do`: the size follows the time in milliseconds that a piece has taken. -/
def resize (B : ShellCopyBuffer) (stopwatch : Int) : ShellCopyBuffer :=
  if stopwatch < 100 then
    if B.size < B.bytes.length then
      { B with
        size := min (B.size * 2) B.bytes.length
        size_pos := by have := B.size_pos; have := B.size_le; omega
        size_le := Nat.min_le_right _ _ }
    else B
  else if h : stopwatch ≥ 1000 ∧ B.size > COPY_PIECE_MINIMAL then
    { B with
      size := max (B.size / 2) COPY_PIECE_MINIMAL
      size_pos := Nat.lt_of_lt_of_le (by decide) (Nat.le_max_right _ _)
      size_le := Nat.le_trans
        (Nat.max_le.mpr ⟨Nat.div_le_self _ _, Nat.le_of_lt h.2⟩) B.size_le }
  else B

end ShellCopyBuffer

/-! ## Holes -/

/-- The loop of `LookupNextHole` from the offset `i`. -/
def lookupFrom (data : List Byte) : Nat → Nat → Nat × Nat
  | 0, _ => (data.length, 0)
  | fuel + 1, i =>
      if i < data.length then
        let zeroesCount := ((data.drop i).takeWhile (· = 0)).length
        if zeroesCount ≥ PAGE then (i, zeroesCount / PAGE * PAGE)
        else lookupFrom data fuel (i + PAGE)
      else (data.length, 0)

/-- `LookupNextHole`: the offset of the next hole and its size, which is 0 when there is none. -/
def lookupNextHole (data : List Byte) (offset : Nat) : Nat × Nat :=
  let offsetMisalignment := offset % PAGE
  lookupFrom data (data.length + 1) (if offsetMisalignment = 0 then 0 else PAGE - offsetMisalignment)

/-! ## The transfer -/

/-- What `PieceCopy` has written of a piece: how much was read, how much it has asked the
destination to take, and how much that was. -/
structure Piece where
  bytesRead : Nat
  writeSize : Nat
  bytesWritten : Nat

/-- `ShellFileTransfer`, its files, and the pieces it has copied. `destExists` tells whether the
destination has a name. -/
structure ShellFileTransfer where
  srcFile : DiskFile
  destFile : DiskFile
  destExists : Bool := true
  copyBuffer : ShellCopyBuffer
  sparseFiles : Bool
  writeThrough : Bool
  noBuffering : Bool := false
  appendPos : Option Nat := none
  stopwatch : Int := 0
  curCopiedSize : Nat
  lastWriteWasHole : Bool := false
  isDone : Bool := false
  pieces : List Piece := []

/-- A program of the transfer. -/
abbrev Run (α : Type) : Type := Action ShellFileTransfer Reply α

namespace ShellFileTransfer

open Far2l.Action

/-! ### Calls -/

/-- `RetryCancel`. -/
def retryCancel (T : ShellFileTransfer) (reply : Reply) : Bool × ShellFileTransfer :=
  (reply.succeeds, { T with stopwatch := 0 })

/-- `_SrcFile.Read` to the buffer: not less than one byte, except at the end of the file. -/
def readSrc (T : ShellFileTransfer) : Reply → Option (Nat × ShellFileTransfer)
  | .no => none
  | .yes n =>
      let data := (T.srcFile.content.drop T.srcFile.pos).take (min (max n 1) T.copyBuffer.size)
      some (data.length, { T with
        srcFile := { T.srcFile with pos := T.srcFile.pos + data.length }
        copyBuffer := T.copyBuffer.load data })

/-- `_DestFile.Write`: not less than one byte is taken. -/
def writeDest (data : List Byte) (T : ShellFileTransfer) :
    Reply → Option (Nat × ShellFileTransfer)
  | .no => none
  | .yes n =>
      if T.destFile.isOpen then
        let taken := data.take (max n 1)
        some (taken.length, { T with destFile := T.destFile.write taken })
      else none

/-- `_SrcFile.SetPointer` from the current position. -/
def seekSrc (distance : Int) (T : ShellFileTransfer) : Reply → Option ShellFileTransfer
  | .no => none
  | .yes _ => (T.srcFile.seek (T.srcFile.pos + distance)).map fun F => { T with srcFile := F }

/-- `_DestFile.SetPointer` to an absolute position. -/
def seekDestTo (pos : Int) (T : ShellFileTransfer) : Reply → Option ShellFileTransfer
  | .no => none
  | .yes _ => (T.destFile.seek pos).map fun F => { T with destFile := F }

/-- `_DestFile.SetPointer` from the current position. -/
def seekDest (distance : Int) (T : ShellFileTransfer) : Reply → Option ShellFileTransfer :=
  T.seekDestTo (T.destFile.pos + distance)

/-- `_DestFile.SetEnd`. -/
def setEndDest (T : ShellFileTransfer) : Reply → Option ShellFileTransfer
  | .no => none
  | .yes _ => T.destFile.setEnd.map fun F => { T with destFile := F }

/-- A call without a result, in a loop. -/
def noResult (f : ShellFileTransfer → Reply → Option ShellFileTransfer) (T : ShellFileTransfer)
    (reply : Reply) : Option (Unit × ShellFileTransfer) :=
  (f T reply).map fun T => ((), T)

/-- A question, or a call whose effect is not modelled. -/
def asks : Run Bool := call fun T reply => (reply.succeeds, T)

/-- `GetProcessUptimeMSec`. -/
def uptime : Run Nat := call fun T reply => (reply.count, T)

def closeSrc : Run Unit := modify fun T => { T with srcFile := T.srcFile.close }

/-- `_DestFile.Close`: the descriptor is gone even when the call fails. -/
def closeDest : Run Bool := do
  modify fun T => { T with destFile := T.destFile.close }
  asks

/-! ### Pieces -/

/-- `PieceWrite`. -/
def pieceWrite (data : List Byte) : Run Nat := do
  let bytesWritten ← retrying (writeDest data) retryCancel
  modify fun T => { T with lastWriteWasHole := false }
  return bytesWritten

/-- `PieceWriteHole`. -/
def pieceWriteHole (size : Nat) : Run Nat := do
  retrying (noResult (seekDest size)) retryCancel
  modify fun T => { T with lastWriteWasHole := true }
  return size

/-- `PieceCopy`: the loop that writes a piece of a sparse file. -/
def writeSparse (data : List Byte) : Nat → Nat → Run Nat
  | 0, bytesWritten => return bytesWritten
  | fuel + 1, bytesWritten => do
      if bytesWritten < data.length then
        let T ← state
        let rest := data.drop bytesWritten
        let hole := lookupNextHole rest (T.curCopiedSize + bytesWritten)
        let leadingNonzeroesWritten ←
          (if hole.1 ≠ 0 then pieceWrite (rest.take hole.1) else pure 0 : Run Nat)
        if hole.2 ≠ 0 ∧ leadingNonzeroesWritten = hole.1 then
          let holeWritten ← pieceWriteHole hole.2
          writeSparse data fuel (bytesWritten + leadingNonzeroesWritten + holeWritten)
        else writeSparse data fuel (bytesWritten + leadingNonzeroesWritten)
      else return bytesWritten

/-- `PieceCopy`: a piece that has been read is written. -/
def writePiece (data : List Byte) : Run Nat := do
  let T ← state
  if T.sparseFiles then writeSparse data data.length 0 else pieceWrite data

/-- `PieceCopy`: after a write of another length than what was read. -/
def adjust (piece : Piece) : Run Nat := do
  if piece.bytesWritten > piece.bytesRead then
    orThrow (seekDest (piece.bytesRead - piece.writeSize))
    orThrow setEndDest
    return piece.bytesRead
  else
    if piece.bytesWritten < piece.bytesRead then
      orThrow (seekSrc (piece.bytesWritten - piece.bytesRead))
    return piece.bytesWritten

/-- `PieceCopy`. -/
def pieceCopy : Run Nat := do
  let bytesRead ← retrying readSrc retryCancel
  if bytesRead = 0 then return 0
  else
    let T ← state
    let writeSize := if T.noBuffering then alignPageUp bytesRead else bytesRead
    let bytesWritten ← writePiece (T.copyBuffer.bytes.take writeSize)
    let piece : Piece := ⟨bytesRead, writeSize, bytesWritten⟩
    modify fun T => { T with pieces := T.pieces ++ [piece] }
    adjust piece

/-! ### The whole file -/

/-- `Do`: the stopwatch is started when more than a piece is left. The sizes are 64 bits wide. -/
def startStopwatch : Run Unit := do
  let T ← state
  if ((T.srcFile.content.length : Int) - T.curCopiedSize) % 2 ^ 64 > T.copyBuffer.size then
    let time ← uptime
    modify fun T => { T with stopwatch := time }
  else modify fun T => { T with stopwatch := 0 }

/-- `Do`: the size of the buffer follows the stopwatch. -/
def stopStopwatch (bytesWritten : Nat) : Run Unit := do
  let T ← state
  if T.stopwatch ≠ 0 ∧ bytesWritten = T.copyBuffer.size then
    let time ← uptime
    modify fun T =>
      { T with
        stopwatch := time - T.stopwatch
        copyBuffer := T.copyBuffer.resize (time - T.stopwatch) }

/-- The loop of `Do`; it tells whether the file has been read to its end. -/
def copyPieces : Nat → Run Bool
  | 0 => stuck
  | fuel + 1 => do
      let cancelled ← asks
      if cancelled then return false
      else
        startStopwatch
        let bytesWritten ← pieceCopy
        if bytesWritten = 0 then return true
        else
          modify fun T => { T with curCopiedSize := T.curCopiedSize + bytesWritten }
          stopStopwatch bytesWritten
          copyPieces fuel

/-- `Do`: a hole at the end becomes a part of the file. -/
def endHole : Run Unit := do
  let T ← state
  if T.lastWriteWasHole then retrying (noResult setEndDest) retryCancel

/-- `Do`: the end. -/
def finish : Run Unit := do
  closeSrc
  endHole
  let closed ← closeDest
  if closed then modify fun T => { T with isDone := true } else throws

/-- `Do`, for as many pieces as the fuel allows. -/
def doTransfer (fuel : Nat) : Run Unit := do
  let ended ← copyPieces fuel
  if ended then finish

/-! ### Constructor and destructor -/

/-- `_DestFile.Open`: `OPEN_EXISTING` or `CREATE_ALWAYS`. -/
def openDest (append : Bool) (T : ShellFileTransfer) : Reply → Option ShellFileTransfer
  | .no => none
  | .yes _ => some { T with
      destFile := { T.destFile.opened with content := if append then T.destFile.content else [] }
      destExists := true }

/-- The constructor opens the destination, without the flags if it is not possible with them. -/
def openWithFlags (append : Bool) : Run Bool := do
  modify fun T => { T with
    noBuffering := T.writeThrough && T.srcFile.content.length > 32 * PAGE }
  let T ← state
  let dstOpened ← tried (openDest append)
  if T.writeThrough ∧ ¬dstOpened then
    modify fun T => { T with noBuffering := false }
    let dstOpened ← tried (openDest append)
    if dstOpened then modify fun T => { T with writeThrough := false }
    return dstOpened
  else return dstOpened

/-- `ShellFileTransfer::ShellFileTransfer`. -/
def construct (append : Bool) : Run Unit := do
  let srcOpened ← asks
  if srcOpened then
    modify fun T => { T with srcFile := T.srcFile.opened }
    let dstOpened ← openWithFlags append
    if dstOpened then
      if append then
        let T ← state
        let sought ← tried (seekDestTo T.destFile.content.length)
        if sought then modify fun T => { T with appendPos := some T.destFile.content.length }
        else
          closeSrc
          let _ ← tried setEndDest
          let _ ← closeDest
          throws
    else
      closeSrc
      throws
  else throws

/-- `ShellFileTransfer::~ShellFileTransfer` before `_Done`; it tells whether the calls that clean up
have succeeded. -/
def discard : Run Bool := do
  closeSrc
  modify fun T => { T with curCopiedSize := 0 }
  let T ← state
  match T.appendPos with
  | some appendPos =>
      let sought ← tried (seekDestTo appendPos)
      let cut ← tried setEndDest
      let _ ← closeDest
      return sought && cut
  | none =>
      let _ ← tried setEndDest
      let _ ← closeDest
      tried fun T reply => if reply.succeeds then some { T with destExists := false } else none

end ShellFileTransfer

/-! ### A copy from its beginning to its end -/

/-- What is copied: the source, the destination before, and the settings. -/
structure Task where
  src : List Byte
  dest : List Byte
  append : Bool
  sparseFiles : Bool
  writeThrough : Bool
  copyBuffer : ShellCopyBuffer
  curCopiedSize : Nat := 0

/-- How a copy ends. -/
inductive Ending where
  /-- The constructor has thrown. -/
  | notOpened (T : ShellFileTransfer)
  /-- `Do` has set `_Done`. -/
  | done (T : ShellFileTransfer)
  /-- `Do` has been cancelled or has thrown, and the destructor has run. -/
  | discarded (T : ShellFileTransfer) (cleaned : Bool)

namespace Task

/-- What is kept of the destination. -/
def previous (t : Task) : List Byte := if t.append then t.dest else []

/-- The transfer before its constructor. -/
def start (t : Task) : ShellFileTransfer where
  srcFile := { content := t.src }
  destFile := { content := t.dest }
  copyBuffer := t.copyBuffer
  sparseFiles := t.sparseFiles
  writeThrough := t.writeThrough
  curCopiedSize := t.curCopiedSize

/-- The object is destroyed. -/
def destroy (T : ShellFileTransfer) (replies : List Reply) : Option Ending :=
  if T.isDone then some (.done T)
  else
    match ShellFileTransfer.discard T replies with
    | .returned cleaned T _ => some (.discarded T cleaned)
    | _ => none

/-- `ShellFileTransfer(...).Do()`, and how it ends, if it does. -/
def run (t : Task) (fuel : Nat) (replies : List Reply) : Option Ending :=
  match ShellFileTransfer.construct t.append t.start replies with
  | .waits => none
  | .threw T _ => some (.notOpened T)
  | .returned _ T replies =>
      match ShellFileTransfer.doTransfer fuel T replies with
      | .waits => none
      | .threw T replies => destroy T replies
      | .returned _ T replies => destroy T replies

end Task

end Far2l.Copy
