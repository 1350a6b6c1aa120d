/-
Far2l.NetRocks.DirectoryEnumCache — the listings of directories that are kept for
a while: `NetRocks/src/Protocol/DirectoryEnumCache.cpp`.

An underlying enumerator has a listing, and gives its entries in order; it may
throw, and it may say that it is at the end when it is, or when it has thrown. The
entries of the cache are shared, and are never freed here; `removed`, `returned`,
`absent` and `given` record what has happened and are read by nothing.
-/
import Far2l.Lib.NodeList
import Far2l.Lib.Reach
import Far2l.Utils.KeyFile
import Mathlib.Logic.Function.Basic

namespace Far2l.NetRocks

open Far2l.KeyFile (Str)

variable {Info : Type}

/-! ## The state -/

/-- `DirCachedListEntry`; `Info` stands for `FileInformation`. -/
structure DirCachedListEntry (Info : Type) where
  name : Str
  owner : Str
  group : Str
  fileInfo : Info
deriving DecidableEq

/-- `DirCacheEntry`, and the names that have been removed since it has last been emptied. -/
structure DirCacheEntry (Info : Type) where
  nodes : NodeList (DirCachedListEntry Info) := []
  ts : Int := 0
  index : List (Str × Nat) := []
  removed : List Str := []

/-- `CachingWrapperDirectoryEnumer`, and its underlying enumerator: the listing, how much of it has
been given, and whether it has thrown. -/
structure CachingWrapper (Info : Type) where
  entry : Nat
  listing : List (DirCachedListEntry Info)
  yielded : Nat := 0
  thrown : Bool := false
  enumedTilTheEnd : Bool := false

/-- `CachedDirectoryEnumer`, with the path it has been got for, what it has returned, and the names that
were removed from its entry before they could be returned. -/
structure CachedEnumer (Info : Type) where
  entry : Nat
  path : Str
  it : Option Nat
  returned : List (DirCachedListEntry Info) := []
  absent : List Str

/-- `DirectoryEnumCache` and all enumerators it has returned, with the listings of the underlying ones;
`touched` is whether an iterator has been used that stood on a removed node. -/
structure EnumCache (Info : Type) where
  entries : Nat → DirCacheEntry Info := fun _ => {}
  entryCount : Nat := 0
  nodeCount : Nat := 0
  cache : Str → Option Nat := fun _ => none
  lastInspection : Int := 0
  wrappers : Nat → Option (CachingWrapper Info) := fun _ => none
  wrapperCount : Nat := 0
  readers : Nat → Option (CachedEnumer Info) := fun _ => none
  readerCount : Nat := 0
  given : List (Str × List (DirCachedListEntry Info)) := []
  touched : Bool := false

namespace EnumCache

/-! ## Operations -/

variable (expiration : Nat)

/-- Whether an entry has not expired. -/
def valid (e : DirCacheEntry Info) (ts : Int) : Bool := ¬ (e.ts > ts ∨ e.ts + expiration < ts)

/-- An entry becomes another one. -/
def setEntry (c : EnumCache Info) (e : Nat) (entry : DirCacheEntry Info) : EnumCache Info :=
  { c with entries := Function.update c.entries e entry }

/-- A path is no longer in the cache. -/
def forget (c : EnumCache Info) (path : Str) : EnumCache Info :=
  { c with cache := Function.update c.cache path none }

/-- The inspection of `GetCachingWrapperDirectoryEnumer`. -/
def inspected (c : EnumCache Info) (ts : Int) : EnumCache Info :=
  if c.lastInspection > ts ∨ c.lastInspection + expiration < ts then
    { c with
      cache := fun path => (c.cache path).filter fun e => valid expiration (c.entries e) ts
      lastInspection := ts }
  else c

/-- A new wrapper for an entry. -/
def addWrapper (c : EnumCache Info) (path : Str) (e : Nat) (listing : List (DirCachedListEntry Info)) :
    EnumCache Info :=
  { c with
    wrappers := Function.update c.wrappers c.wrapperCount (some { entry := e, listing })
    wrapperCount := c.wrapperCount + 1
    given := (path, listing) :: c.given }

/-- `GetCachingWrapperDirectoryEnumer` -/
def getCachingWrapper (c : EnumCache Info) (path : Str) (listing : List (DirCachedListEntry Info))
    (ts : Int) : EnumCache Info :=
  let c := c.inspected expiration ts
  match c.cache path with
  | some e => (c.setEntry e {}).addWrapper path e listing
  | none =>
      ({ c with
          entries := Function.update c.entries c.entryCount {}
          entryCount := c.entryCount + 1
          cache := Function.update c.cache path (some c.entryCount) }).addWrapper path c.entryCount listing

/-- What an underlying enumerator does. -/
inductive SourceOutcome where
  | item
  | throws
  | ends
deriving DecidableEq

/-- The wrapper's `emplace_back`. -/
def emplaceBack (c : EnumCache Info) (e : Nat) (item : DirCachedListEntry Info) : EnumCache Info :=
  { c with
    entries := Function.update c.entries e
      { c.entries e with nodes := (c.entries e).nodes ++ [(c.nodeCount, item)] }
    nodeCount := c.nodeCount + 1 }

/-- `Enum` of a wrapper. -/
def wrapperEnum (c : EnumCache Info) (w : Nat) (outcome : SourceOutcome) : EnumCache Info :=
  match c.wrappers w with
  | none => c
  | some W =>
      match outcome with
      | .item =>
          match W.listing[W.yielded]? with
          | none => c
          | some item =>
              { c.emplaceBack W.entry item with
                wrappers := Function.update c.wrappers w (some { W with yielded := W.yielded + 1 }) }
      | .throws => { c with wrappers := Function.update c.wrappers w (some { W with thrown := true }) }
      | .ends =>
          { c with wrappers := Function.update c.wrappers w (some { W with enumedTilTheEnd := true }) }

/-- The loop of the destructor, where the underlying enumerator gives so many entries more. -/
def drain : Nat → EnumCache Info → Nat → EnumCache Info
  | 0, c, _ => c
  | n + 1, c, w => drain n (c.wrapperEnum w .item) w

/-- `~CachingWrapperDirectoryEnumer`: after `count` entries the underlying enumerator is at its end, or
it throws. -/
def destroyWrapper (c : EnumCache Info) (w count : Nat) (ends : Bool) (ts : Int) : EnumCache Info :=
  match c.wrappers w with
  | none => c
  | some W =>
      let drained := if W.enumedTilTheEnd then c else drain count c w
      let entry := drained.entries W.entry
      { drained.setEntry W.entry { entry with ts := if W.enumedTilTheEnd ∨ ends then ts else 0 } with
        wrappers := Function.update drained.wrappers w none }

/-- `GetCachedDirectoryEnumer` -/
def getCached (c : EnumCache Info) (path : Str) (ts : Int) : EnumCache Info :=
  match c.cache path with
  | none => c
  | some e =>
      if valid expiration (c.entries e) ts then
        { c with
          readers := Function.update c.readers c.readerCount
            (some { entry := e, path, it := (c.entries e).nodes.begin_, absent := (c.entries e).removed })
          readerCount := c.readerCount + 1 }
      else c.forget path

/-- `Enum` of a `CachedDirectoryEnumer`. -/
def readerEnum (c : EnumCache Info) (r : Nat) : EnumCache Info :=
  match c.readers r with
  | none => c
  | some R =>
      match R.it with
      | none => c
      | some n =>
          match (c.entries R.entry).nodes.deref n with
          | none => { c with touched := true }
          | some item =>
              { c with
                readers := Function.update c.readers r (some { R with
                  it := (c.entries R.entry).nodes.next n
                  returned := R.returned ++ [item] }) }

/-- `emplace` into the index. -/
def indexOf : NodeList (DirCachedListEntry Info) → List (Str × Nat) → List (Str × Nat)
  | [], index => index
  | (n, item) :: nodes, index =>
      indexOf nodes (if item.name ∈ index.map Prod.fst then index else index ++ [(item.name, n)])

/-- An entry without a name; the index is built where there is none. -/
def DirCacheEntry.without (entry : DirCacheEntry Info) (name : Str) : DirCacheEntry Info :=
  let index := if entry.index = [] then indexOf entry.nodes [] else entry.index
  match index.find? (·.1 = name) with
  | none => { entry with index, removed := name :: entry.removed }
  | some (_, n) =>
      { entry with
        nodes := entry.nodes.erase n
        index := index.filter (·.1 ≠ name)
        removed := name :: entry.removed }

/-- A name is removed from an entry that is being read. -/
def CachedEnumer.missing (R : CachedEnumer Info) (name : Str) : CachedEnumer Info :=
  if name ∈ R.returned.map (·.name) then R else { R with absent := name :: R.absent }

/-- `Remove` of a name. -/
def removeName (c : EnumCache Info) (path name : Str) (ts : Int) : EnumCache Info :=
  match c.cache path with
  | none => c
  | some e =>
      if valid expiration (c.entries e) ts then
        { c.setEntry e (DirCacheEntry.without (c.entries e) name) with
          readers := fun r => (c.readers r).map fun R =>
            if R.entry = e then CachedEnumer.missing R name else R }
      else c.forget path

/-! ## Runs -/

/-- What can be called. -/
inductive Op (Info : Type) where
  | getCachingWrapper (path : Str) (listing : List (DirCachedListEntry Info)) (ts : Int)
  | wrapperEnum (w : Nat) (outcome : SourceOutcome)
  | destroyWrapper (w count : Nat) (ends : Bool) (ts : Int)
  | getCached (path : Str) (ts : Int)
  | readerEnum (r : Nat)
  | destroyReader (r : Nat)
  | removeName (path name : Str) (ts : Int)
  | remove (path : Str)
  | clear

/-- A step of a run. -/
def step (c : EnumCache Info) : Op Info → EnumCache Info
  | .getCachingWrapper path listing ts => c.getCachingWrapper expiration path listing ts
  | .wrapperEnum w outcome => c.wrapperEnum w outcome
  | .destroyWrapper w count ends ts => c.destroyWrapper w count ends ts
  | .getCached path ts => c.getCached expiration path ts
  | .readerEnum r => c.readerEnum r
  | .destroyReader r => { c with readers := Function.update c.readers r none }
  | .removeName path name ts => c.removeName expiration path name ts
  | .remove path => c.forget path
  | .clear => { c with cache := fun _ => none }

end EnumCache

end Far2l.NetRocks
