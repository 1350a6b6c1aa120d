/-
Far2l.NetRocks.Location — `Location` of `NetRocks/src/Location.cpp` and
`SplitLocationSpecification`: locations as text.

Strings hold no NUL. Where `FromString` fails, what it has set by then is left
out.
-/
import Far2l.NetRocks.FTPDataCommand
import Far2l.Utils.ConfigRW
import Mathlib.Data.List.Basic

namespace Far2l.NetRocks

open Far2l.KeyFile (Str A upCase)

/-! ## Strings -/

/-- `':'` -/
def COLON : Byte := 0x3A

/-- `'/'` -/
def SLASH : Byte := 0x2F

/-- `'@'` -/
def AT : Byte := 0x40

/-- `'.'` -/
def DOT : Byte := 0x2E

/-- `'<'` -/
def LESS : Byte := 0x3C

/-- `'>'` -/
def GREATER : Byte := 0x3E

/-- What stands before the first such character. -/
def before (c : Byte) (s : Str) : Str := s.takeWhile (· ≠ c)

/-- What stands behind it. -/
def after (c : Byte) (s : Str) : Str := (s.dropWhile (· ≠ c)).tail

/-- `StrExplode` with `"/"` -/
def strExplode (s : Str) : List Str := (s.splitOn SLASH).filter (· ≠ [])

/-- `strcasecmp` with `"file"` -/
def isFile (protocol : Str) : Bool := protocol.map upCase = A ['F', 'I', 'L', 'E']

/-! ## Locations -/

/-- `Location::ServerKind` -/
inductive ServerKind where
  | SK_URL
  | SK_SITE
deriving DecidableEq

/-- `Location::URL` -/
structure URL where
  protocol : Str := []
  host : Str := []
  username : Str := []
  password : Str := []
  port : UInt32 := 0
deriving DecidableEq

/-- `Location::Path` -/
structure LocationPath where
  components : List Str := []
  absolute : Bool := false
deriving DecidableEq

structure Location where
  serverKind : ServerKind
  url : URL := {}
  server : Str
  path : LocationPath
deriving DecidableEq

/-- What is around it: `sdc_getcwd` gives an absolute path without dots, or nothing; whether
`ProtocolInfoLookup` finds a protocol, and whether that requires a server; and the directories of the
sites. -/
structure LocationEnv where
  curDir : Str
  requireServer : Str → Option Bool
  siteDirectory : Str → Str
  absolute : curDir ≠ [] → curDir.head? = some SLASH
  dotless : [DOT] ∉ strExplode curDir

/-! ## Text to location -/

/-- `SplitLocationSpecification`, for the protocol `file`: the directory. -/
def fileDirectory (E : LocationEnv) (rest : Str) : Str :=
  if rest = [] ∨ rest = [DOT] then E.curDir
  else if rest.take 2 = [DOT, SLASH] then E.curDir ++ rest.tail
  else SLASH :: rest

/-- `SplitLocationSpecification`: the URL and the directory. -/
def splitLocationSpecification (E : LocationEnv) (specification : Str) : Option (URL × Str) :=
  if COLON ∉ specification then none
  else
    let protocol := before COLON specification
    let rest := (after COLON specification).dropWhile (· = SLASH)
    if isFile protocol then some ({ protocol }, fileDirectory E rest)
    else
      let login := if AT ∈ rest then before AT rest else []
      let username := before COLON login
      let password := after COLON login
      let at_ := if AT ∈ rest then after AT rest else rest
      if at_ = [] then
        if E.requireServer protocol = some false then some ({ protocol, username, password }, [])
        else none
      else
        let server := before SLASH at_
        some ({ protocol, host := before COLON server, username, password,
                port := UInt32.ofNat (if COLON ∈ server then atoi (after COLON server) else 0) },
          after SLASH at_)

/-- `server` of a URL. -/
def URL.server (url : URL) : Str :=
  url.protocol ++ COLON :: ((if url.username ≠ [] then url.username ++ [AT] else []) ++ url.host
    ++ if url.port ≠ 0 then COLON :: A (Nat.toDigits 10 url.port.toNat) else [])

/-- `PathFromString` -/
def pathFromString (directory : Str) : LocationPath where
  components := strExplode directory
  absolute := directory.head? = some SLASH

/-- The path that `FromString` takes from a directory. -/
def pathOf (str directory : Str) : LocationPath :=
  if directory = [] then { absolute := str.getLast? = some SLASH } else pathFromString directory

/-- `FromString` -/
def fromString (E : LocationEnv) (str : Str) : Option Location :=
  if str.length > 2 ∧ str.head? = some LESS then
    let rest := after GREATER str.tail
    let server := before GREATER str.tail
    if GREATER ∉ str.tail ∨ server = [] then none
    else
      some { serverKind := .SK_SITE, server,
             path := pathOf str (if rest = [] then E.siteDirectory server else rest.tail) }
  else
    (splitLocationSpecification E str).map fun split =>
      { serverKind := .SK_URL, url := split.1, server := split.1.server, path := pathOf str split.2 }

/-! ## Location to text -/

/-- `ToString` -/
def Location.toString (l : Location) (withServer : Bool) : Str :=
  (if withServer then if l.serverKind = .SK_SITE then LESS :: (l.server ++ [GREATER]) else l.server
    else [])
  ++ (if l.path.absolute then [SLASH] else [])
  ++ if withServer then l.path.components.flatMap (SLASH :: ·) else [SLASH].intercalate l.path.components

end Far2l.NetRocks
