/-
Far2l.NetRocks.FTPNavigation — how `ProtocolFTP` goes to a directory, deletes and
renames there: `NetRocks/src/Protocol/FTP/ProtocolFTP.cpp`.

The server has directories, of which one is the home and one the current one; it
carries commands out in the order in which they come, and may refuse any of them.
A reply is the code of a success or of a refusal; only the text of a `PWD` reply is
read. The connection does not fail, and output to `stderr` and the cache of
listings are left out.
-/
import Far2l.Lib.LexicalPath
import Far2l.NetRocks.Location

namespace Far2l.NetRocks

open Far2l.KeyFile (Str A)

/-! ## The server -/

/-- What paths are written with. -/
def ftpPath : PathSyntax Byte where
  sep := SLASH
  dot := DOT
  dot_ne := by decide

/-- A server; `refuses` tells for each command, by its number, whether it is refused. -/
structure FTPServer where
  exists_ : ftpPath.Dir → Bool
  home : ftpPath.Dir
  cur : ftpPath.Dir
  refuses : Nat → Bool
  served : Nat := 0

/-- The commands. `entry` stands for those that name an entry: `DELE`, `RNFR`, `RNTO`. -/
inductive FTPCommand where
  | cwd (path : Str)
  | cwdHome
  | cdup
  | pwd
  | entry (verb path : Str)
deriving DecidableEq

/-- `"`, which stands around the path in a reply to `PWD`. -/
def DOUBLE_QUOTE : Byte := 0x22

/-- What a server replies to `PWD`. -/
def FTPServer.pwdReply (s : FTPServer) : Str :=
  A ['2', '5', '7', ' '] ++ DOUBLE_QUOTE :: (ftpPath.render s.cur ++ [DOUBLE_QUOTE])

/-- A command is carried out, or it is refused: its reply. -/
def FTPServer.exec (s : FTPServer) (command : FTPCommand) : Option Str × FTPServer :=
  if s.refuses s.served then (none, { s with served := s.served + 1 })
  else
    let s := { s with served := s.served + 1 }
    match command with
    | .cwd path =>
        if s.exists_ (ftpPath.resolve s.cur path) then (some [], { s with cur := ftpPath.resolve s.cur path })
        else (none, s)
    | .cwdHome => (some [], { s with cur := s.home })
    | .cdup => (some [], { s with cur := s.cur.tail })
    | .pwd => (some s.pwdReply, s)
    | .entry _ _ => (some [], s)

/-- Commands are carried out one after the other: whether all have succeeded. -/
def FTPServer.execAll (s : FTPServer) : List FTPCommand → Bool × FTPServer
  | [] => (true, s)
  | command :: commands =>
      let (reply, s) := s.exec command
      let (ok, s) := s.execAll commands
      (reply.isSome && ok, s)

/-! ## The client -/

/-- `_cwd` -/
structure FTPCwd where
  parts : List Str
  path : Str
  home : Str
deriving DecidableEq

/-- `PathExplode` -/
def pathExplode (path : Str) : List Str := (strExplode path).filter (· ≠ [DOT])

/-- What `RecvPwdResponse` takes from the text of a reply: what is between its first and its last
quotation mark. -/
def pwdPath (str : Str) : Option Str :=
  if DOUBLE_QUOTE ∈ str ∧ DOUBLE_QUOTE ∈ after DOUBLE_QUOTE str then
    let path := (after DOUBLE_QUOTE (after DOUBLE_QUOTE str).reverse).reverse
    some (if path.head? = some SLASH then path else SLASH :: path)
  else none

/-- `RecvPwdResponse` -/
def FTPCwd.recvPwdResponse (c : FTPCwd) (reply : Option Str) : Option FTPCwd :=
  match reply.bind pwdPath with
  | none => none
  | some path => some { c with path, parts := pathExplode path }

/-- How many components two paths have in common at their beginning. -/
def commonParts : List Str → List Str → Nat
  | part :: parts, part' :: parts' => if part = part' then commonParts parts parts' + 1 else 0
  | _, _ => 0

/-- The way from one directory to another: up to the last one they have in common, and then down. -/
def wayTo (cwdParts parts : List Str) : List FTPCommand :=
  let i := commonParts parts cwdParts
  List.replicate (cwdParts.length - i) .cdup ++ (parts.drop i).map .cwd

/-- The path that is taken for a relative one. -/
def FTPCwd.fullPath (c : FTPCwd) (pathName : Str) : Str :=
  if pathName.head? = some SLASH then pathName else c.home ++ pathName

/-- What `SplitPathAndNavigate` does when the replies have come: `_cwd` is taken from the reply to `PWD`,
or from what has been asked for. -/
def FTPCwd.arrive (c : FTPCwd) (parts : List Str) (reply : Option Str) : FTPCwd :=
  match c.recvPwdResponse reply with
  | some c => c
  | none => { c with parts, path := parts.flatMap (SLASH :: ·) }

/-- The other way to a directory: by the home directory, and the whole path from there. -/
def homeWay (s : FTPServer) (parts : List Str) : Bool × FTPServer :=
  s.execAll [.cwdHome, .cwd (parts.flatMap (· ++ [SLASH]))]

/-- The commands that `SplitPathAndNavigate` sends: whether the server has come to the directory. -/
def navigate (c : FTPCwd) (s : FTPServer) (parts : List Str) : Bool × FTPCwd × FTPServer :=
  let (ok, s) := s.execAll (wayTo c.parts parts)
  let (pwdReply, s) := s.exec .pwd
  if ok then (true, c.arrive parts pwdReply, s)
  else
    let (ok, s) := homeWay s parts
    let (pwdReply, s) := s.exec .pwd
    (ok, c.arrive parts pwdReply, s)

/-- `SplitPathAndNavigate`: the name, where it does not throw. -/
def splitPathAndNavigate (c : FTPCwd) (s : FTPServer) (pathName : Str) (allowEmptyNamePart : Bool) :
    Option Str × FTPCwd × FTPServer :=
  let parts := pathExplode (c.fullPath pathName)
  if parts = [] ∧ ¬ allowEmptyNamePart then (none, c, s)
  else
    let namePart := parts.getLast?.getD []
    if parts.dropLast = c.parts then (some namePart, c, s)
    else
      let (ok, c, s) := navigate c s parts.dropLast
      (if ok then some namePart else none, c, s)

/-- `PathAsRelative` -/
def FTPCwd.pathAsRelative (c : FTPCwd) (path : Str) : Str :=
  let parts := pathExplode path
  let i := commonParts parts c.parts
  [SLASH].intercalate (List.replicate (c.parts.length - i) [DOT, DOT] ++ parts.drop i)

/-! ## Operations on entries -/

/-- What is sent of an entry: the directory the server is in, and the path. -/
structure Sent where
  directory : ftpPath.Dir
  path : Str
deriving DecidableEq

/-- `SimpleDispositionCommand`, which `FileDelete` is: what it has sent. -/
def simpleDispositionCommand (c : FTPCwd) (s : FTPServer) (command path : Str) :
    List Sent × FTPCwd × FTPServer :=
  match splitPathAndNavigate c s path false with
  | (none, c, s) => ([], c, s)
  | (some namePart, c, s) => ([⟨s.cur, namePart⟩], c, (s.exec (.entry command namePart)).2)

/-- `Rename`: what it has sent for the old path, and for the new one. -/
def rename (c : FTPCwd) (s : FTPServer) (pathOld pathNew : Str) :
    Option Sent × Option Sent × FTPCwd × FTPServer :=
  match splitPathAndNavigate c s pathOld false with
  | (none, c, s) => (none, none, c, s)
  | (some nameOld, c, s) =>
      let sentOld : Sent := ⟨s.cur, nameOld⟩
      match s.exec (.entry (A ['R', 'N', 'F', 'R']) nameOld) with
      | (none, s) => (some sentOld, none, c, s)
      | (some _, s) =>
          let sentNew : Sent := ⟨s.cur, c.pathAsRelative pathNew⟩
          match s.exec (.entry (A ['R', 'N', 'T', 'O']) sentNew.path) with
          | (none, s) => (some sentOld, some sentNew, c, s)
          | (some _, s) =>
              let (_, c, s) := splitPathAndNavigate c s pathNew false
              (some sentOld, some sentNew, c, s)

end Far2l.NetRocks
