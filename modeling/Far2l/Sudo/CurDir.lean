/-
Far2l.Sudo.CurDir — the current directories of the sudo client: `sdc_chdir` and
the paths of the other functions of `WinPort/src/sudo/sudo_client_api.cpp`, with
`ClientReconstructCurDir`, the override and `ClientInitSequence` of
`sudo_client.cpp`, on one thread.

A directory is known by the names that lead to it, and there are no symlinks:
what a path denotes is in its text. Whether a call succeeds is a parameter; the
empty path is no path, and its calls fail.
-/
import Far2l.Lib.LexicalPath
import Far2l.Sudo.Region
import Far2l.Utils.Chars

namespace Far2l.Sudo

/-- A path, as bytes. -/
abbrev Path : Type := List Byte

/-- `'/'` -/
def slash : Byte := 0x2F

/-- `'.'` -/
def dot : Byte := 0x2E

/-- How paths are written. -/
def posix : PathSyntax Byte := ⟨slash, dot, by decide⟩

/-- A directory. -/
abbrev Dir : Type := posix.Dir

/-- What a path denotes, if it is one. -/
def denote (base : Dir) (path : Path) : Option Dir :=
  if path = [] then none else some (posix.resolve base path)

/-! ## Paths are reconstructed -/

/-- What is behind the last slash. -/
def lastPart (path : Path) : Path := (path.reverse.takeWhile (· ≠ slash)).reverse

/-- What is in front of the last slash. -/
def firstPart (path : Path) : Path := ((path.reverse.dropWhile (· ≠ slash)).drop 1).reverse

/-- `ClientReconstructCurDir` -/
def reconstructCurDir (override path : Path) : Path :=
  if posix.Absolute path ∨ path = [] ∨ override = [] then path
  else if path = [dot] ∨ path = [dot, slash] then override
  else if path = [dot, dot] ∨ path = [dot, dot, slash] then
    if slash ∈ override then firstPart override else override
  else if path.take 2 = [dot, slash] then override ++ path.drop 1
  else override ++ slash :: path

/-- The path arguments of a function that it reconstructs. -/
def Operation.rebuilt (path1 path2 : Path) : Operation → List Path
  | .execute _ | .fchmod | .futimens | .chdir => []
  | .rename => [path1]
  | .symlink | .link => [path2]
  | _ => [path1]

/-- The path arguments of a function that it takes as they are; the text of a symlink is not one. -/
def Operation.asIs (path1 path2 : Path) : Operation → List Path
  | .rename => [path2]
  | .link => [path1]
  | _ => []

/-! ## The directories -/

/-- A path that has been passed to a call: the argument it was made of, the directory that the
argument means, and what the path denotes where it was passed. -/
structure Passed where
  argument : Path
  meant : Dir
  denoted : Option Dir

/-- The client, and the directories of both processes. -/
structure CurDirs where
  client : Client
  /-- the process's current directory -/
  process : Dir
  /-- the dispatcher's, while there is a connection -/
  dispatcher : Dir := []
  /-- `g_curdir_override` -/
  override : Path := []
  /-- `g_recent_curdirs` -/
  recent : List Path := []
  /-- the directory of the last `sdc_chdir` that returned 0 -/
  last : Dir
  passed : List Passed := []

def RECENT_CURDIRS_LIMIT : Nat := 4

/-- How a local call ends. -/
inductive LocalEnd where
  | succeeds
  | denied
  | fails
deriving DecidableEq

/-- How the dispatcher's `chdir` ends: with `getcwd` or without, or the transaction throws with a
part of `cwd` received. -/
inductive RemoteEnd where
  | succeeds (getcwd : Bool)
  | fails
  | throws (received : Path)

/-- What the world does during a function. -/
structure DirWorld where
  touch : World := {}
  /-- The dispatcher's current directory when it is launched. -/
  launched : Dir := []
  /-- `ClientInitSequence` changes it. -/
  initChdir : Bool := true
  localEnd : LocalEnd := .succeeds
  remoteEnd : RemoteEnd := .succeeds true

namespace CurDirs

variable (d : CurDirs)

/-- `ClientCurDirOverrideSet` -/
def curDirOverrideSet (path : Path) : CurDirs :=
  if path = [] then { d with override := [] }
  else
    let recent := d.recent ++ [path]
    { d with override := path, recent := recent.drop (recent.length - RECENT_CURDIRS_LIMIT) }

/-- `ClientCurDirOverrideSetIfRecent` -/
def curDirOverrideSetIfRecent (path : Path) : CurDirs × Bool :=
  if d.client.mode = .SCM_DISABLE ∨ path ∉ d.recent then (d, false)
  else ({ d with override := path, recent := d.recent.erase path ++ [path] }, true)

/-- `IsSudoRegionActive` -/
def isSudoRegionActive : Bool := d.client.connected ∧ d.client.count ≠ 0

/-- `ClientInitSequence`: the override is passed, or `getcwd`. -/
def clientInitSequence (w : DirWorld) : CurDirs :=
  { d with dispatcher :=
      if w.initChdir then
        posix.resolve w.launched (if d.override = [] then posix.render d.process else d.override)
      else w.launched }

/-- `TouchClientConnection`, with the connection that it opens. -/
def touch (wantModify : Bool) (w : DirWorld) : CurDirs × Bool :=
  let t := d.client.touchClientConnection wantModify w.touch
  let opened := if !d.client.connected ∧ t.1.connected then d.clientInitSequence w else d
  ({ opened with client := t.1 }, t.2)

/-- A path is passed to a call in the directory `base`. -/
def pass (base : Dir) (argument path : Path) : CurDirs :=
  { d with passed := d.passed ++ [⟨argument, posix.resolve d.last argument, denote base path⟩] }

/-- The path arguments of a function are passed. -/
def passAll (base : Dir) (override path1 path2 : Path) (op : Operation) : CurDirs :=
  (op.asIs path1 path2).foldl (fun d path => d.pass base path path)
    ((op.rebuilt path1 path2).foldl
      (fun d path => d.pass base path (reconstructCurDir override path)) d)

/-- The connection is touched where the local call is denied. -/
def touchDenied (wantModify : Bool) (w : DirWorld) : CurDirs × Bool :=
  if w.localEnd = .denied then d.touch wantModify w else (d, false)

/-- A function but `sdc_chdir`: the local call, and the dispatcher's. -/
def proxied (op : Operation) (path1 path2 : Path) (w : DirWorld) : CurDirs :=
  let here := d.passAll d.process d.override path1 path2 op
  let t := here.touchDenied op.wantModify w
  if t.2 then
    let there := t.1.passAll t.1.dispatcher d.override path1 path2 op
    { there with client := there.client.transaction op.wantModify w.touch }
  else t.1

/-! ## `sdc_chdir` -/

/-- How the local `chdir` ends. -/
def localChdir (path : Path) (w : DirWorld) : LocalEnd := if path = [] then .fails else w.localEnd

/-- How the dispatcher's ends. -/
def remoteChdir (path : Path) (w : DirWorld) : RemoteEnd :=
  match w.remoteEnd with
  | .succeeds getcwd => if path = [] then .fails else .succeeds getcwd
  | .fails => .fails
  | .throws received => .throws received

/-- The local `chdir`, after which the override is reset. -/
def attempt (path : Path) (w : DirWorld) : CurDirs :=
  let d := d.pass d.process path (reconstructCurDir d.override path)
  { d with
    process := if localChdir (reconstructCurDir d.override path) w = .succeeds then
        posix.resolve d.process (reconstructCurDir d.override path)
      else d.process
    override := [] }

/-- The transaction: `path` has been reconstructed. -/
def transact (argument path : Path) (w : DirWorld) : CurDirs × Bool :=
  let d := d.pass d.dispatcher argument path
  match remoteChdir path w with
  | .succeeds getcwd =>
      let d := { d with
        dispatcher := posix.resolve d.dispatcher path
        client := d.client.transaction false w.touch }
      (if getcwd then d.curDirOverrideSet (posix.render d.dispatcher) else d, true)
  | .fails =>
      ({ d with client := d.client.transaction false w.touch }, localChdir path w = .succeeds)
  | .throws received =>
      let d := { d with client := d.client.transaction false { w.touch with fails := true } }
      (d.curDirOverrideSet received, localChdir path w = .succeeds)

/-- Without a transaction: `path` has been reconstructed. -/
def transactNot (path : Path) (w : DirWorld) : CurDirs × Bool :=
  match localChdir path w with
  | .denied => if d.isSudoRegionActive then (d, false) else d.curDirOverrideSetIfRecent path
  | .succeeds => (if posix.Absolute path then d.curDirOverrideSet path else d, true)
  | .fails => (d, false)

/-- The connection is touched where there is no active region and the local `chdir` is denied. -/
def touchChdir (path : Path) (w : DirWorld) : CurDirs × Bool :=
  if d.isSudoRegionActive then (d, true)
  else if localChdir path w = .denied then d.touch false w
  else (d, false)

/-- `sdc_chdir`: whether it returns 0. -/
def sdcChdir (path : Path) (w : DirWorld) : CurDirs × Bool :=
  let rebuilt := reconstructCurDir d.override path
  let t := (d.attempt path w).touchChdir rebuilt w
  if t.2 then t.1.transact path rebuilt w else t.1.transactNot rebuilt w

/-! ## Runs -/

/-- What happens on the thread. -/
inductive Op where
  | enter
  | leave (time : Int)
  | silentEnter
  | silentLeave
  | drop
  | proxied (op : Operation) (path1 path2 : Path) (w : DirWorld)
  | chdir (path : Path) (w : DirWorld)
  /-- `readdir`, `closedir` -/
  | untouched (w : World)

/-- A function has returned: relative paths are to be relative to `new`, or as before to `old`. -/
def remember (r : CurDirs × Bool) (old new : Dir) : CurDirs :=
  { r.1 with last := if r.2 then new else old }

/-- A step. -/
def perform : Op → CurDirs
  | .enter => { d with client := d.client.perform .enter }
  | .leave time => { d with client := d.client.perform (.leave time) }
  | .silentEnter => { d with client := d.client.perform .silentEnter }
  | .silentLeave => { d with client := d.client.perform .silentLeave }
  | .drop => { d with client := d.client.perform .drop }
  | .proxied op path1 path2 w => d.proxied op path1 path2 w
  | .chdir path w => remember (d.sdcChdir path w) d.last (posix.resolve d.last path)
  | .untouched w => { d with client := d.client.perform (.untouched w) }

/-- Regions are properly nested, and a transaction needs a connection. -/
def Can : Op → Prop
  | .leave _ => 0 < d.client.count
  | .untouched _ => d.client.connected = true
  | _ => True

end CurDirs

end Far2l.Sudo
