/-
Far2l.NetRocks.FTPDataCommand — data commands of
`NetRocks/src/Protocol/FTP/ProtocolFTP.cpp`, with the replies that
`FTPConnection::RecvResponseFromTransport` reads.

A data connection brings pieces, and is then closed in order or fails. The
control connection brings bytes, and then nothing more. What a line of a
directory means is a parameter. Output to `stderr` is left out, and so are the
bytes that are sent.
-/
import Far2l.Utils.Chars
import Far2l.Lib.Reach

namespace Far2l.NetRocks

/-! ## Replies -/

/-- `'0'` to `'9'` -/
def digitValue (ch : Byte) : Option Nat :=
  if 0x30 ≤ ch ∧ ch ≤ 0x39 then some (ch.toNat - 0x30) else none

/-- The digits at the front of a string, as a number. -/
def digitsValue : Nat → List Byte → Nat
  | n, [] => n
  | n, ch :: s =>
      match digitValue ch with
      | some d => digitsValue (10 * n + d) s
      | none => n

def isSpace (ch : Byte) : Bool := ch = 0x20 ∨ (0x09 ≤ ch ∧ ch ≤ 0x0D)

/-- `atoi`, as it is kept in an `unsigned int` -/
def atoi (s : List Byte) : Nat :=
  match s.dropWhile isSpace with
  | 0x2D :: s => (2 ^ 32 - digitsValue 0 s % 2 ^ 32) % 2 ^ 32
  | 0x2B :: s => digitsValue 0 s % 2 ^ 32
  | s => digitsValue 0 s % 2 ^ 32

/-- `'\n'` -/
def newline : Byte := 0x0A

def MAX_RESPONSE : Nat := 0x100000

/-- `RecvResponseFromTransport`, character by character: the code, or nothing where it throws, and
what is left on the control connection. `str` has been read, `cnt` lines of it, and `ofs` is where
the last line begins. -/
def recvResponse (str : List Byte) (cnt ofs : Nat) (mtch : List Byte) :
    List Byte → Option Nat × List Byte
  | [] => (none, [])
  | ch :: control =>
      if str.length > MAX_RESPONSE then (none, ch :: control)
      else
        let str := str ++ [ch]
        if ch ≠ newline then recvResponse str cnt ofs mtch control
        else
          let p := str.length - 1
          let cnt := cnt + 1
          if cnt = 1 ∧ p - ofs > 3 ∧ str[ofs + 3]? = some 0x2D then
            recvResponse str cnt (p + 1) ((str.drop ofs).take 3 ++ [0x20]) control
          else if cnt = 1 ∨ (p ≥ 4 ∧ (str.drop ofs).take 4 = mtch) then
            let out := atoi (str.drop ofs)
            (some (if out = 0 then atoi str else out), control)
          else recvResponse str cnt (p + 1) mtch control

def recvResponseFromTransport (control : List Byte) : Option Nat × List Byte :=
  recvResponse [] 0 0 [] control

/-! ## The data connection -/

/-- What a data connection brings: pieces that are not empty, and then its end. -/
structure DataConnection where
  pieces : List { piece : List Byte // piece ≠ [] }
  inOrder : Bool

/-- `recv`: a part of what has come, or 0 at an end in order, or -1. -/
def DataConnection.recv (d : DataConnection) (len : Nat) : Int × List Byte × DataConnection :=
  match d.pieces with
  | [] => (if d.inOrder then 0 else -1, [], d)
  | piece :: pieces =>
      if h : piece.val.drop len = [] then
        (piece.val.length, piece.val, { d with pieces := pieces })
      else (len, piece.val.take len, { d with pieces := ⟨piece.val.drop len, h⟩ :: pieces })

/-! ## Data commands -/

/-- What a member returns, and what is told about it. -/
inductive Event (Entry : Type) where
  /-- `Read` of up to `len` has returned; `received` has come, and `connected` tells whether the
  connection has not failed. -/
  | read (len : Nat) (received : List Byte) (connected : Bool) (returned : Nat)
  | write
  | writeComplete
  | entry (e : Entry)
  /-- `Enum` returns `false`. -/
  | noMore
  /-- An exception. -/
  | threw
deriving DecidableEq

/-- `FTPDataCommand`, its connections, and what has happened: the code of the final reply that was
consumed, which ends of the data connection were met, and the events. -/
structure FTPDataCommand (Entry : Type) where
  /-- `_conn` is set. -/
  conn : Bool := true
  /-- `_data_transport` is set. -/
  dataTransport : Bool := true
  /-- `_read_buffer` -/
  readBuffer : List Byte := []
  data : DataConnection
  control : List Byte
  finalReply : Option Nat := none
  endRead : Bool := false
  endListed : Bool := false
  completing : Bool := false
  log : List (Event Entry) := []

namespace FTPDataCommand

variable {Entry : Type}

/-- `EnsureFinalized`; `false` where it throws. -/
def ensureFinalized (c : FTPDataCommand Entry) : Bool × FTPDataCommand Entry :=
  let c := { c with dataTransport := false }
  if c.conn then
    match recvResponseFromTransport c.control with
    | (some code, control) =>
        (true, { c with conn := false, control := control, finalReply := some code })
    | (none, control) => (false, { c with conn := false, control := control })
  else (true, c)

/-- `~FTPDataCommand` -/
def destroy (c : FTPDataCommand Entry) : FTPDataCommand Entry := c.ensureFinalized.2

def logged (c : FTPDataCommand Entry) (e : Event Entry) : FTPDataCommand Entry :=
  { c with log := c.log ++ [e] }

/-! ## `FTPFileIO` -/

/-- `FTPFileIO::Read`: what `Recv` returns becomes a `size_t`. -/
def read (c : FTPDataCommand Entry) (len : Nat) : FTPDataCommand Entry :=
  let (r, received, data) := c.data.recv len
  { c with data := data, endRead := c.endRead || c.data.pieces.isEmpty }.logged
    (.read len received (decide (0 ≤ r)) (r % 2 ^ 64).toNat)

/-- `FTPFileIO::Write` -/
def write (c : FTPDataCommand Entry) (sent : Bool) : FTPDataCommand Entry :=
  c.logged (if sent then .write else .threw)

/-- `FTPFileIO::WriteComplete` -/
def writeComplete (c : FTPDataCommand Entry) : FTPDataCommand Entry :=
  let (ok, c) := { c with completing := true }.ensureFinalized
  c.logged (if ok then .writeComplete else .threw)

inductive FileOp where
  | read (len : Nat)
  | write (sent : Bool)
  | writeComplete

def performFile (c : FTPDataCommand Entry) : FileOp → FTPDataCommand Entry
  | .read len => c.read len
  | .write sent => c.write sent
  | .writeComplete => c.writeComplete

/-- There is a data connection to read and to write. -/
def CanFile (c : FTPDataCommand Entry) : FileOp → Prop
  | .read len => c.dataTransport = true ∧ len < 2 ^ 64
  | .write _ => c.dataTransport = true
  | .writeComplete => True

/-! ## `FTPBaseDirectoryEnumer` -/

/-- `'\r'` or `'\n'` -/
def isEol (ch : Byte) : Bool := ch = 0x0D ∨ ch = newline

/-- The first line of the buffer, without its end, and what comes behind its end. -/
def takeLine (buffer : List Byte) : Option (List Byte × List Byte) :=
  match buffer.idxOf? newline with
  | none => none
  | some p =>
      let p := if p > 0 ∧ buffer[p - 1]? = some 0x0D then p - 1 else p
      some (buffer.take p, (buffer.drop (p + 1)).dropWhile isEol)

/-- The lines of the buffer, up to the first one that is an entry. -/
def parseLines (onParseLine : List Byte → Option Entry) : Nat → List Byte →
    Option Entry × List Byte
  | 0, buffer => (none, buffer)
  | fuel + 1, buffer =>
      match takeLine buffer with
      | none => (none, buffer)
      | some (line, rest) =>
          match onParseLine line with
          | some e => (some e, rest)
          | none => parseLines onParseLine fuel rest

def MAX_LINE : Nat := 0x100000

/-- The outer loop of `Enum`; every turn but the last one takes a part of what has come. -/
def enumLoop (onParseLine : List Byte → Option Entry) : Nat → FTPDataCommand Entry →
    FTPDataCommand Entry
  | 0, c => c
  | fuel + 1, c =>
      match parseLines onParseLine c.readBuffer.length c.readBuffer with
      | (some e, buffer) => { c with readBuffer := buffer }.logged (.entry e)
      | (none, buffer) =>
          if buffer.length > MAX_LINE then { c with readBuffer := buffer }.logged .threw
          else
            let (r, received, data) := c.data.recv 0x1000
            if r ≤ 0 then
              let (ok, c) := { c with
                readBuffer := buffer, data := data, endListed := true }.ensureFinalized
              c.logged (if ok then .noMore else .threw)
            else enumLoop onParseLine fuel
              { c with readBuffer := buffer ++ received, data := data }

/-- How much is still to come. -/
def toCome (d : DataConnection) : Nat := (d.pieces.map fun piece => piece.val.length).sum

/-- `Enum` -/
def enum (onParseLine : List Byte → Option Entry) (c : FTPDataCommand Entry) :
    FTPDataCommand Entry :=
  if c.dataTransport then enumLoop onParseLine (toCome c.data + 1) c else c.logged .noMore

end FTPDataCommand

end Far2l.NetRocks
