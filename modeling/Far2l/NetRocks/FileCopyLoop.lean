/-
Far2l.NetRocks.FileCopyLoop — `OpXfer::FileCopyLoop` of
`NetRocks/src/Op/OpXfer.cpp`, which copies one file between two hosts.

What the hosts and the user answer is the next of a list of replies: a call may
throw, and may have done a part of its work by then. The source does not change.
Progress that is shown, times and the mode of the file are left out.
-/
import Far2l.Lib.Action
import Far2l.Utils.Chars

namespace Far2l.NetRocks

/-- A reply. `n` is the count of a read, the size of the buffer, the answer to a question, or what a
call that throws has done. -/
inductive Reply where
  | throws (n : Nat)
  | returns (n : Nat)

/-- `_base_host` and `_dst_host`. -/
inductive Site where
  | base
  | dst
deriving DecidableEq

/-- `FileCopyLoop`, its files, and what has happened. `truncated` tells whether `FilePut` at the
beginning has taken effect, `resumedOld` whether a retry has gone on from the size of a destination
that was not truncated. -/
structure FileCopy where
  src : List Byte
  dst : Option (List Byte)
  /-- `info.size` -/
  infoSize : Nat
  /-- `_io_buf.Size()` -/
  ioBufSize : Nat
  indicted : Option Site := none
  aborting : Bool := false
  /-- `_state.stats.file_complete` -/
  statsComplete : Nat := 0
  /-- `file_complete` -/
  fileComplete : Nat := 0
  readerPos : Nat := 0
  writerPos : Nat := 0
  truncated : Bool := false
  resumedOld : Bool := false

/-- A program of the copy. -/
abbrev Run (α : Type) : Type := Action FileCopy Reply α

/-- Bytes are written at `pos`. -/
def writeAt (content : List Byte) (pos : Nat) (bytes : List Byte) : List Byte :=
  content.take pos ++ List.replicate (pos - content.length) 0 ++ bytes
    ++ content.drop (pos + bytes.length)

namespace FileCopy

open Far2l.Action

/-! ## Calls -/

/-- A call that does nothing but succeed or throw. -/
def bareCall : Run Unit :=
  partly fun c reply => match reply with
    | .returns _ => (some (), c)
    | .throws _ => (none, c)

/-- `ReInitialize` of the host that is indicted. -/
def reInitialize : Run Unit := bareCall

/-- `IFileWriter::WriteComplete` -/
def writeComplete : Run Unit := bareCall

/-- `ProgressStateUpdate`: throws `AbortError` when the operation is being aborted. -/
def progressStateUpdate : Run Unit :=
  partly fun c reply => match reply with
    | .returns _ => (some (), c)
    | .throws _ => (none, { c with aborting := true })

/-- The copy goes on from the size of the destination. -/
def resumed (c : FileCopy) : FileCopy := { c with resumedOld := c.resumedOld || !c.truncated }

/-- `_dst_host->GetSize` -/
def getSizeDst : Run Nat :=
  partly fun c reply => match reply, c.dst with
    | .returns _, some content => (some content.length, c.resumed)
    | _, _ => (none, c)

/-- `_base_host->GetSize` -/
def getSizeBase : Run Nat :=
  partly fun c reply => match reply with
    | .returns _ => (some c.src.length, c)
    | .throws _ => (none, c)

/-- `_base_host->FileGet` -/
def fileGet : Run Unit :=
  partly fun c reply => match reply with
    | .returns _ => (some (), { c with readerPos := c.fileComplete })
    | .throws _ => (none, c)

/-- `FilePut` takes effect. -/
def opened (c : FileCopy) : FileCopy :=
  if c.fileComplete = 0 then { c with dst := some [], truncated := true, writerPos := 0 }
  else { c with dst := some (c.dst.getD []), writerPos := c.fileComplete }

/-- `_dst_host->FilePut` -/
def filePut : Run Unit :=
  partly fun c reply => match reply with
    | .returns _ => (some (), c.opened)
    | .throws n => (none, if n = 0 then c else c.opened)

/-- `IFileReader::Read`: a part of the rest that is not empty, or nothing at the end. -/
def read (askPiece : Nat) : Run (List Byte) :=
  partly fun c reply => match reply with
    | .returns n =>
        let piece := (c.src.drop c.readerPos).take (min (max n 1) askPiece)
        (some piece, { c with readerPos := c.readerPos + piece.length })
    | .throws _ => (none, c)

/-- `IFileWriter::Write`; where it throws, it may have written a part. -/
def write (piece : List Byte) : Run Unit :=
  partly fun c reply =>
    let written (bytes : List Byte) : FileCopy :=
      { c with
        dst := c.dst.map fun content => writeAt content c.writerPos bytes
        writerPos := c.writerPos + bytes.length }
    match reply with
    | .returns _ => (some (), written piece)
    | .throws n => (none, written (piece.take n))

/-- `_io_buf.Desire` -/
def desire : Run Unit :=
  call fun c reply => match reply with
    | .returns n => ((), { c with ioBufSize := n })
    | .throws _ => ((), c)

/-- `WhatOnErrorAction` -/
inductive WhatOnErrorAction where
  | WEA_SKIP
  | WEA_RETRY
  | WEA_CANCEL
deriving DecidableEq

/-- `_wea_state->Query` -/
def query : Run WhatOnErrorAction :=
  call fun c reply => (match reply with
    | .returns 0 => .WEA_SKIP
    | .returns 1 => .WEA_RETRY
    | _ => .WEA_CANCEL, c)

def indict (site : Option Site) : Run Unit := modify fun c => { c with indicted := site }

/-! ## `FileCopyLoop` -/

/-- Where the copy begins, or goes on after an error. -/
def findStart : Run Unit := do
  let c ← state
  match c.indicted with
  | some _ =>
      reInitialize
      indict (some .dst)
      let size ← getSizeDst
      progressStateUpdate
      modify fun c => { c with statsComplete := size, fileComplete := size }
  | none =>
      progressStateUpdate
      modify fun c => { c with fileComplete := c.statsComplete }

/-- Both files are opened. -/
def openFiles : Run Unit := do
  indict (some .base)
  fileGet
  indict (some .dst)
  filePut
  let c ← state
  if c.ioBufSize = 0 then throws else pure ()

/-- How much is asked for: one byte more than the rest, when that is little. -/
def askPiece (c : FileCopy) : Nat :=
  if c.infoSize < c.fileComplete + c.ioBufSize ∧ c.infoSize > c.fileComplete then
    c.infoSize - c.fileComplete + 1
  else c.ioBufSize

/-- Nothing has been read: less than the source has is an error. -/
def checkSize : Run Unit := do
  let c ← state
  if c.fileComplete < c.infoSize then
    let actualSize ← getSizeBase
    if c.fileComplete < actualSize then
      modify fun c => { c with infoSize := actualSize }
      throws
    else modify fun c => { c with infoSize := c.fileComplete }
  else pure ()

/-- The end of the source. -/
def finish : Run (Option Unit) := do
  checkSize
  indict (some .dst)
  writeComplete
  pure (some ())

/-- `WriteComplete` where the end of the source is known already. -/
def completeIf (fastComplete : Bool) : Run Unit :=
  if fastComplete then writeComplete else pure ()

/-- A piece that has been read is written. -/
def put (askPiece : Nat) (piece : List Byte) : Run (Option Unit) := do
  indict (some .dst)
  write piece
  modify fun c => { c with fileComplete := c.fileComplete + piece.length }
  let c ← state
  let fastComplete : Bool := piece.length < askPiece ∧ c.fileComplete = c.infoSize
  completeIf fastComplete
  desire
  indict none
  progressStateUpdate
  modify fun c => { c with statsComplete := c.fileComplete }
  pure (if fastComplete then some () else none)

/-- One turn of the inner loop. -/
def copyPiece : Run (Option Unit) := do
  indict (some .base)
  let c ← state
  let piece ← read c.askPiece
  if piece = [] then finish else put c.askPiece piece

/-- What is tried. -/
def attempt : Run (Option Bool) := do
  findStart
  openFiles
  loop copyPiece
  pure (some true)

/-- The handler. -/
def onError : Run (Option Bool) := do
  let c ← state
  if c.aborting ∨ c.indicted = none then throws
  else
    match ← query with
    | .WEA_SKIP =>
        progressStateUpdate
        pure (some false)
    | .WEA_RETRY =>
        progressStateUpdate
        pure none
    | .WEA_CANCEL => throws

/-- `FileCopyLoop` -/
def fileCopyLoop : Run Bool := loop (catching attempt onError)

/-- `FileCopyLoop` is entered for a source and an earlier content of the destination. -/
def entered (src : List Byte) (dst : Option (List Byte)) (ioBufSize : Nat) : FileCopy where
  src := src
  dst := dst
  infoSize := src.length
  ioBufSize := ioBufSize

end FileCopy

end Far2l.NetRocks
