/-
Far2l.Hist.PosCache — the positions in files that the viewer and the editor remember:
`far/src/hist/poscache.cpp`.

A position is a section of a key file: its parameters and bookmarks without what they
end with by default, and when it was added. Where there are too many, the sections of
the oldest ones are removed before the next one is added. A file is named here by the
section that `MakeSectionName` makes of its name.
-/
import Far2l.Utils.KeyFileReadSection
import Far2l.Utils.KeyFileValues
import Far2l.WinPort.StringCodepages

namespace Far2l.PosCache

open KeyFile KeyFileTyped

/-! ## Positions -/

/-- `POS_NONE` -/
def POS_NONE : UInt64 := 0xFFFFFFFFFFFFFFFF

/-- `POSCACHE_BOOKMARK_COUNT` -/
abbrev POSCACHE_BOOKMARK_COUNT : Nat := 10

/-- `POSCACHE_PARAM_COUNT` -/
abbrev POSCACHE_PARAM_COUNT : Nat := 5

/-- `POSCACHE_POSITION_COUNT` -/
abbrev POSCACHE_POSITION_COUNT : Nat := 4

/-- An array of bookmarks. -/
abbrev Bookmarks := Vector UInt64 POSCACHE_BOOKMARK_COUNT

/-- `PosCache`; an array of bookmarks may be missing. -/
structure PosCache where
  Param : Vector UInt64 POSCACHE_PARAM_COUNT
  Position : Vector (Option Bookmarks) POSCACHE_POSITION_COUNT

/-- The memory of an array of `DWORD64`. -/
def memory (vs : List UInt64) : List Byte := vs.flatMap fun v => WinPort.bytesOf 8 v.toNat

/-- The array of `DWORD64` that memory is. -/
def array (n : Nat) (bytes : List Byte) : Vector UInt64 n :=
  Vector.ofFn fun i => UInt64.ofNat (WinPort.numberOf ((bytes.drop (8 * i)).take 8))

/-- The loop of `ParamCountToSave` and `PositionCountToSave`: how many values there are up to the last one that is
not `skipped`. -/
def countToSave (skipped : UInt64) (values : List UInt64) : Nat → Nat
  | 0 => 0
  | i + 1 => if values.getD i 0 ≠ skipped then i + 1 else countToSave skipped values i

/-- `ParamCountToSave` -/
def paramCountToSave (param : Vector UInt64 POSCACHE_PARAM_COUNT) : Nat :=
  countToSave 0 param.toList POSCACHE_PARAM_COUNT

/-- The values of an array that is not missing. -/
def valuesOf (position : Option Bookmarks) : List UInt64 := (position.map Vector.toList).getD []

/-- `PositionCountToSave` -/
def positionCountToSave (position : Option Bookmarks) : Nat :=
  if position.isSome then countToSave POS_NONE (valuesOf position) POSCACHE_BOOKMARK_COUNT else 0

/-! ## The section of a position -/

/-- `"Par"` -/
def PAR : Str := A ['P', 'a', 'r']

/-- `"TS"` -/
def TS : Str := A ['T', 'S']

/-- `sprintf(key, "Pos%u", i)` -/
def posKey (i : Nat) : Str := A ['P', 'o', 's'] ++ toDec i

/-- What is stored under the key of an array: its first values, or nothing. -/
def put (K : KeyFileHelper false) (section_ key : Str) (saveCount : Nat) (values : List UInt64) : KeyFileHelper false :=
  if saveCount ≠ 0 then KeyFileTyped.setBytes K section_ key ((memory values).take (saveCount * 8)) 0
  else K.removeKey section_ key

/-- The loop of `AddPosition` over the arrays of bookmarks. -/
def putPositions (section_ : Str) : Nat → List (Option Bookmarks) → KeyFileHelper false → KeyFileHelper false
  | _, [], K => K
  | i, position :: rest, K =>
      putPositions section_ (i + 1) rest
        (put K section_ (posKey i) (positionCountToSave position) (valuesOf position))

/-- `have_some_to_save` -/
def haveSomeToSave (poscache : PosCache) : Bool :=
  paramCountToSave poscache.Param ≠ 0
    || poscache.Position.toList.any fun position => positionCountToSave position ≠ 0

/-- `AddPosition`, with room for the position. -/
def addTo (K : KeyFileHelper false) (section_ : Str) (poscache : PosCache) (time : UInt64) : KeyFileHelper false :=
  let saveCount := paramCountToSave poscache.Param
  let K :=
    if saveCount ≠ 0 then
      KeyFileTyped.setBytes K section_ PAR ((memory poscache.Param.toList).take (saveCount * 8)) 0
    else if haveSomeToSave poscache then K.removeKey section_ PAR
    else K
  if haveSomeToSave poscache then
    KeyFileTyped.setULL (putPositions section_ 0 poscache.Position.toList K) section_ TS time
  else K.removeSection section_

/-- `KeyFileValues::GetBytes`, without a default: what the buffer holds then. -/
def getBytes (values : KeyFileValues) (name : Str) (out : List Byte) : List Byte :=
  match values.value? name with
  | none => out
  | some s => (decodeInto out s).1

/-- `GetPosition`, from the values of the section. -/
def positionOf (values : Option KeyFileValues) (poscache : PosCache) : Bool × PosCache :=
  match values with
  | none => (false, poscache)
  | some values =>
      (true,
        { Param := array _ (getBytes values PAR (List.replicate (POSCACHE_PARAM_COUNT * 8) 0))
          Position := poscache.Position.mapIdx fun i position => position.map fun _ =>
            array _ (getBytes values (posKey i) (List.replicate (POSCACHE_BOOKMARK_COUNT * 8) 0xff)) })

/-! ## The cache -/

/-- `std::sort` by a key: the order of what has the same key is not told. -/
structure StdSort where
  sort : (Str → UInt64) → List Str → List Str
  perm : ∀ (key : Str → UInt64) (names : List Str), (sort key names).Perm names
  sorted : ∀ (key : Str → UInt64) (names : List Str), (sort key names).Pairwise fun a b => key a ≤ key b

/-- When a position was added. -/
def timeStamp (K : KeyFileHelper false) (section_ : Str) : UInt64 := getULL K section_ TS 0

/-- `ApplyElementsLimit` -/
def applyElementsLimit (S : StdSort) (MaxPositionCache : Int32) (K : KeyFileHelper false) : KeyFileHelper false :=
  if Int32.ofNat K.kf.map.entries.length > MaxPositionCache + MaxPositionCache / 4 + 16 then
    let sections := S.sort (timeStamp K) K.enumSections
    let cnt := Int32.ofNat sections.length - MaxPositionCache
    (sections.take cnt.toNatClampNeg).foldl KeyFileHelper.removeSection K
  else K

/-- `FilePositionCache`, and what is in its file. -/
structure Cache where
  file : Str
  kfh : Option (KeyFileHelper false) := none

/-- A call of `AddPosition`: what it is given, the time, whether positions are saved, and whether the file can be
written. -/
structure Call where
  section_ : Str
  poscache : PosCache
  time : UInt64
  savePos : Bool
  written : Bool

namespace Cache

/-- The helper that `AddPosition` works with. -/
def opened (s : Cache) : KeyFileHelper false := s.kfh.getD (configWriter s.file)

/-- `CheckForSave` -/
def checkForSave (K : KeyFileHelper false) (file : Str) (savePos written : Bool) : Cache :=
  if savePos then
    match K.save true with
    | none => { file }
    | some content => if written then { file := content } else { file, kfh := some K }
  else { file, kfh := some K }

variable (S : StdSort) (MaxPositionCache : Int32)

/-- What `ApplyElementsLimit` leaves. -/
def limited (s : Cache) : KeyFileHelper false := applyElementsLimit S MaxPositionCache s.opened

/-- `AddPosition` -/
def addPosition (s : Cache) (c : Call) : Cache :=
  checkForSave (addTo (s.limited S MaxPositionCache) c.section_ c.poscache c.time) s.file c.savePos c.written

/-- The values of a section. -/
def values (s : Cache) (section_ : Str) : Option KeyFileValues :=
  match s.kfh with
  | some K => K.kf.find section_
  | none => readSection s.file section_

/-- `GetPosition` -/
def getPosition (s : Cache) (section_ : Str) (poscache : PosCache) : Bool × PosCache :=
  positionOf (s.values section_) poscache

/-- Calls of `AddPosition`, one after the other. -/
def run (s : Cache) (calls : List Call) : Cache := calls.foldl (addPosition S MaxPositionCache) s

/-- The next call of `AddPosition` evicts a position. -/
def Evicts (s : Cache) (section_ : Str) : Prop :=
  s.opened.kf.find section_ ≠ none ∧ (s.limited S MaxPositionCache).kf.find section_ = none

end Cache

/-! ## Memory -/

theorem memory_append (vs ws : List UInt64) : memory (vs ++ ws) = memory vs ++ memory ws := List.flatMap_append

theorem memory_length : ∀ vs : List UInt64, (memory vs).length = vs.length * 8
  | [] => rfl
  | v :: vs => by
    have ih := memory_length vs
    rw [memory, List.flatMap_cons, List.length_append, WinPort.bytesOf_length, List.length_cons]
    rw [memory] at ih
    omega

/-- Default values are filled memory. -/
theorem memory_replicate {v : UInt64} {fill : Byte} (hv : WinPort.bytesOf 8 v.toNat = List.replicate 8 fill) :
    ∀ n : Nat, memory (List.replicate n v) = List.replicate (n * 8) fill
  | 0 => rfl
  | n + 1 => by
    have ih := memory_replicate hv n
    rw [memory] at ih
    rw [List.replicate_succ, memory, List.flatMap_cons, ih, hv, ← List.replicate_add, Nat.add_comm 8, Nat.succ_mul]

theorem memory_word : ∀ {vs : List UInt64} {i : Nat} (hi : i < vs.length),
    ((memory vs).drop (8 * i)).take 8 = WinPort.bytesOf 8 (vs[i]).toNat
  | v :: vs, 0, _ => by
    rw [memory, List.flatMap_cons, Nat.mul_zero, List.drop_zero]
    exact List.take_left' (WinPort.bytesOf_length 8 v.toNat)
  | v :: vs, i + 1, hi => by
    have ih := memory_word (Nat.lt_of_succ_lt_succ hi)
    have hdrop : 8 * (i + 1) = 8 + 8 * i := by omega
    rw [memory, List.flatMap_cons, hdrop, ← List.drop_drop, List.drop_left' (WinPort.bytesOf_length 8 v.toNat)]
    exact ih

/-- **An array is what its memory is.** -/
theorem array_memory {n : Nat} (vs : Vector UInt64 n) : array n (memory vs.toList) = vs := by
  refine Vector.ext fun i hi => ?_
  have hlength : i < vs.toList.length := by rw [Vector.length_toList]; exact hi
  rw [array, Vector.getElem_ofFn, memory_word hlength, WinPort.numberOf_bytesOf (UInt64.toNat_lt _),
    UInt64.ofNat_toNat, Vector.getElem_toList]

/-! ## What is cut off -/

theorem countToSave_spec (skipped : UInt64) (values : List UInt64) : ∀ n : Nat,
    countToSave skipped values n ≤ n ∧
      ∀ i, countToSave skipped values n ≤ i → i < n → values.getD i 0 = skipped
  | 0 => ⟨Nat.le_refl 0, fun i _ hi => absurd hi (Nat.not_lt_zero i)⟩
  | n + 1 => by
    obtain ⟨hle, hskipped⟩ := countToSave_spec skipped values n
    rw [countToSave]
    split
    · exact ⟨Nat.le_refl _, fun i hi hlt => absurd hlt (Nat.not_lt_of_le hi)⟩
    · next hlast =>
      refine ⟨Nat.le_succ_of_le hle, fun i hi hlt => ?_⟩
      rcases Nat.lt_succ_iff_lt_or_eq.mp hlt with hlt | rfl
      · exact hskipped i hi hlt
      · exact Decidable.not_not.mp hlast

/-- What has been cut off is filled in. -/
theorem cut_restored {skipped : UInt64} {fill : Byte}
    (hskipped : WinPort.bytesOf 8 skipped.toNat = List.replicate 8 fill) (vs : List UInt64) :
    (memory vs).take (countToSave skipped vs vs.length * 8)
        ++ (List.replicate (vs.length * 8) fill).drop (countToSave skipped vs vs.length * 8) = memory vs := by
  obtain ⟨hle, hcut⟩ := countToSave_spec skipped vs vs.length
  generalize countToSave skipped vs vs.length = c at hle hcut ⊢
  have hbehind : vs.drop c = List.replicate (vs.length - c) skipped := by
    refine List.eq_replicate_iff.mpr ⟨List.length_drop, fun v hv => ?_⟩
    obtain ⟨i, hi, rfl⟩ := List.getElem_of_mem hv
    have hi' : c + i < vs.length := by
      rw [List.length_drop] at hi
      omega
    have hvalue := hcut (c + i) (Nat.le_add_right c i) hi'
    rw [List.getD_eq_getElem?_getD, List.getElem?_eq_getElem hi', Option.getD_some] at hvalue
    rw [List.getElem_drop, hvalue]
  have hsplit : memory vs = memory (vs.take c) ++ List.replicate ((vs.length - c) * 8) fill := by
    rw [← memory_replicate hskipped, ← hbehind, ← memory_append, List.take_append_drop]
  have hlength : (memory (vs.take c)).length = c * 8 := by
    rw [memory_length, List.length_take, Nat.min_eq_left hle]
  rw [hsplit, List.take_left' hlength, List.drop_replicate, ← Nat.sub_mul]

/-- What is stored of an array. -/
def textOf (saveCount : Nat) (values : List UInt64) : Option Str :=
  if saveCount ≠ 0 then some (encodeBytes 0 0 ((memory values).take (saveCount * 8))) else none

/-- **An array is read back**: what has been cut off is what the buffer has been filled with. -/
theorem getBytes_textOf {skipped : UInt64} {fill : Byte}
    (hskipped : WinPort.bytesOf 8 skipped.toNat = List.replicate 8 fill) {n : Nat} (vs : Vector UInt64 n)
    {values : KeyFileValues} {name : Str}
    (hvalue : values.value? name = textOf (countToSave skipped vs.toList n) vs.toList) :
    array n (getBytes values name (List.replicate (n * 8) fill)) = vs := by
  have hlength : vs.toList.length = n := Vector.length_toList
  have hrestored := cut_restored hskipped vs.toList
  rw [hlength] at hrestored
  have hle := (countToSave_spec skipped vs.toList n).1
  have hbytes : getBytes values name (List.replicate (n * 8) fill) = memory vs.toList := by
    rw [getBytes, hvalue, textOf]
    generalize countToSave skipped vs.toList n = c at hrestored hle ⊢
    by_cases hnone : c = 0
    · rw [if_neg (not_not_intro hnone)]
      rw [hnone, Nat.zero_mul, List.take_zero, List.drop_zero, List.nil_append] at hrestored
      exact hrestored
    · rw [if_pos hnone]
      have htake : ((memory vs.toList).take (c * 8)).length = c * 8 := by
        rw [List.length_take, memory_length, hlength]
        omega
      dsimp only
      rw [decodeInto_encoded 0 (by rw [htake, List.length_replicate]; omega), htake]
      exact hrestored
  rw [hbytes, array_memory]

/-- Nothing is to be saved of an array that holds only what is skipped. -/
theorem countToSave_eq_zero {skipped : UInt64} {n : Nat} (vs : Vector UInt64 n) :
    countToSave skipped vs.toList n = 0 ↔ ∀ v ∈ vs, v = skipped := by
  have hvalue : ∀ i (hi : i < n), vs.toList.getD i 0 = vs[i] := fun i hi => by
    have hlength : i < vs.toList.length := by rw [Vector.length_toList]; exact hi
    rw [List.getD_eq_getElem?_getD, List.getElem?_eq_getElem hlength, Option.getD_some, Vector.getElem_toList]
  constructor
  · intro hnone v hv
    obtain ⟨i, hi, rfl⟩ := Vector.getElem_of_mem hv
    rw [← hvalue i hi]
    exact (countToSave_spec skipped vs.toList n).2 i (hnone ▸ Nat.zero_le i) hi
  · intro hall
    have hloop : ∀ m : Nat, m ≤ n → countToSave skipped vs.toList m = 0 := by
      intro m
      induction m with
      | zero => exact fun _ => rfl
      | succ m ih =>
        intro hm
        have hlast : vs.toList.getD m 0 = skipped := by
          rw [hvalue m hm]
          exact hall _ (Vector.getElem_mem hm)
        rw [countToSave, if_neg (not_not_intro hlast), ih (Nat.le_of_succ_le hm)]
    exact hloop n (Nat.le_refl n)

namespace PosCache

/-- No array of bookmarks is missing. -/
def Complete (poscache : PosCache) : Prop := ∀ position ∈ poscache.Position, position ≠ none

/-- Only zero parameters and absent bookmarks. -/
def Blank (poscache : PosCache) : Prop :=
  (∀ v ∈ poscache.Param, v = 0) ∧ ∀ position, some position ∈ poscache.Position → ∀ v ∈ position, v = POS_NONE

/-- Nothing of such a position is to be saved. -/
theorem haveSomeToSave_iff (poscache : PosCache) : haveSomeToSave poscache = false ↔ poscache.Blank := by
  have hposition : ∀ position : Option Bookmarks, positionCountToSave position = 0 ↔
      ∀ array, position = some array → ∀ v ∈ array, v = POS_NONE := by
    intro position
    cases position with
    | none => exact iff_of_true rfl fun _ h => absurd h (by simp)
    | some array =>
      refine (countToSave_eq_zero array).trans ⟨fun h _ heq => Option.some.inj heq ▸ h, fun h => h array rfl⟩
  have hparam : paramCountToSave poscache.Param = 0 ↔ ∀ v ∈ poscache.Param, v = 0 := countToSave_eq_zero _
  rw [haveSomeToSave, Bool.or_eq_false_iff, decide_eq_false_iff_not, Decidable.not_not, hparam, List.any_eq_false]
  refine and_congr_right fun _ => ⟨fun h array hmem => ?_, fun h position hmem hsave => ?_⟩
  · have hnone := h (some array) (Vector.mem_toList_iff.mpr hmem)
    rw [decide_eq_true_iff, Decidable.not_not] at hnone
    exact (hposition _).mp hnone array rfl
  · refine of_decide_eq_true hsave ((hposition _).mpr fun array heq => h array ?_)
    rw [← heq]
    exact Vector.mem_toList_iff.mp hmem

end PosCache

/-! ## The section of a position -/

theorem posKey_inj {i j : Nat} (h : posKey i = posKey j) : i = j := by
  have hdigits : toDec (i : Int) = toDec (j : Int) := List.append_cancel_left h
  have hvalue := congrArg (strtol 10) hdigits
  rw [strtol_toDec, strtol_toDec] at hvalue
  exact Int.ofNat_inj.mp hvalue

theorem param_ne_posKey (i : Nat) : PAR ≠ posKey i := fun h =>
  absurd (congrArg (List.take 2) h) (show ([0x50, 0x61] : Str) ≠ [0x50, 0x6F] by decide)

theorem time_ne_posKey (i : Nat) : TS ≠ posKey i := fun h =>
  absurd (congrArg (List.take 1) h) (show ([0x54] : Str) ≠ [0x50] by decide)

section

variable {K K' K'' : KeyFileHelper false} {file section_ : Str}

/-- Only one section is touched. -/
structure Touches (file section_ : Str) (K K' : KeyFileHelper false) : Prop where
  follows : K'.Follows file
  others : ∀ other, other ≠ section_ → K'.kf.find other = K.kf.find other

theorem Touches.trans (h : Touches file section_ K K') (h' : Touches file section_ K' K'') :
    Touches file section_ K K'' :=
  ⟨h'.follows, fun other hne => (h'.others other hne).trans (h.others other hne)⟩

theorem touches_setString (h : K.Follows file) (section_ name value : Str) :
    Touches file section_ K (K.setString section_ name value) :=
  ⟨h.setString section_ name value, fun _ hne => KeyFileHelper.find_setString_other h.ordered hne name value⟩

theorem touches_removeKey (h : K.Follows file) (section_ name : Str) :
    Touches file section_ K (K.removeKey section_ name) :=
  ⟨h.removeKey section_ name, fun other => (KeyFileHelper.find_removeKey h.ordered section_ name other).1⟩

theorem touches_removeSection (h : K.Follows file) (section_ : Str) :
    Touches file section_ K (K.removeSection section_) :=
  ⟨h.removeSection section_, fun other hne => by
    rw [KeyFileHelper.find_removeSection h.ordered, if_neg hne]⟩

theorem touches_put (h : K.Follows file) (section_ key : Str) (saveCount : Nat) (values : List UInt64) :
    Touches file section_ K (put K section_ key saveCount values) ∧
      ∀ name, (put K section_ key saveCount values).kf.value section_ name
        = if name = key then textOf saveCount values else K.kf.value section_ name := by
  rw [put, textOf]
  split
  · refine ⟨touches_setString h _ _ _, fun name => ?_⟩
    rw [KeyFileTyped.setBytes, KeyFileHelper.value_setString h.ordered]
    simp only [true_and]
  · refine ⟨touches_removeKey h _ _, fun name => ?_⟩
    rw [KeyFileHelper.value_removeKey h.ordered]
    simp only [true_and]

/-- The arrays of bookmarks are stored under their keys. -/
theorem putPositions_spec (section_ : Str) : ∀ (positions : List (Option Bookmarks)) (i : Nat)
    {K : KeyFileHelper false}, K.Follows file →
    Touches file section_ K (putPositions section_ i positions K) ∧
    (∀ j (hj : j < positions.length), (putPositions section_ i positions K).kf.value section_ (posKey (i + j))
      = textOf (positionCountToSave positions[j]) (valuesOf positions[j])) ∧
    ∀ name, (∀ j, j < positions.length → name ≠ posKey (i + j)) →
      (putPositions section_ i positions K).kf.value section_ name = K.kf.value section_ name
  | [], _, K, h => ⟨⟨h, fun _ _ => rfl⟩, fun _ hj => absurd hj (Nat.not_lt_zero _), fun _ _ => rfl⟩
  | position :: positions, i, K, h => by
    obtain ⟨hput, hvalue⟩ := touches_put h section_ (posKey i) (positionCountToSave position) (valuesOf position)
    obtain ⟨hrest, hstored, hother⟩ := putPositions_spec section_ positions (i + 1) hput.follows
    refine ⟨hput.trans hrest, fun j hj => ?_, fun name hname => ?_⟩
    · cases j with
      | zero =>
        have hbehind : ∀ j, j < positions.length → posKey (i + 0) ≠ posKey (i + 1 + j) := fun j _ heq => by
          have := posKey_inj heq
          omega
        rw [putPositions, hother _ hbehind, hvalue]
        exact if_pos rfl
      | succ j =>
        have hnext := hstored j (Nat.lt_of_succ_lt_succ hj)
        rw [Nat.add_assoc, Nat.add_comm 1] at hnext
        exact hnext
    · have hfirst : name ≠ posKey i := hname 0 (Nat.succ_pos _)
      have hbehind : ∀ j, j < positions.length → name ≠ posKey (i + 1 + j) := fun j hj => by
        rw [Nat.add_assoc, Nat.add_comm 1]
        exact hname (j + 1) (Nat.succ_lt_succ hj)
      rw [putPositions, hother _ hbehind, hvalue, if_neg hfirst]

/-- The values of a section in which a position is stored. -/
structure Records (values : KeyFileValues) (poscache : PosCache) (time : UInt64) : Prop where
  param : values.value? PAR = textOf (paramCountToSave poscache.Param) poscache.Param.toList
  position : ∀ i (hi : i < POSCACHE_POSITION_COUNT), values.value? (posKey i)
    = textOf (positionCountToSave poscache.Position[i]) (valuesOf poscache.Position[i])
  time : values.value? TS = some (toPrefixedHex time)

/-- **A position that is added is stored**, and no other section is touched. -/
theorem addTo_stores (h : K.Follows file) (section_ : Str) {poscache : PosCache} (time : UInt64)
    (hsome : haveSomeToSave poscache = true) :
    Touches file section_ K (addTo K section_ poscache time) ∧
      ∃ values, (addTo K section_ poscache time).kf.find section_ = some values ∧ Records values poscache time := by
  obtain ⟨hput, hparam⟩ := touches_put h section_ PAR (paramCountToSave poscache.Param) poscache.Param.toList
  obtain ⟨hpositions, hstored, hother⟩ := putPositions_spec section_ poscache.Position.toList 0 hput.follows
  have haddTo : addTo K section_ poscache time
      = KeyFileTyped.setULL (putPositions section_ 0 poscache.Position.toList
          (put K section_ PAR (paramCountToSave poscache.Param) poscache.Param.toList)) section_ TS time := by
    rw [addTo, if_pos hsome, if_pos hsome, put]
  rw [haddTo]
  generalize put K section_ PAR (paramCountToSave poscache.Param) poscache.Param.toList = K1 at *
  generalize putPositions section_ 0 poscache.Position.toList K1 = K2 at *
  have htime := touches_setString hpositions.follows section_ TS (toPrefixedHex time)
  have hvalue : ∀ name, (KeyFileTyped.setULL K2 section_ TS time).kf.value section_ name
      = if name = TS then some (toPrefixedHex time) else K2.kf.value section_ name := fun name => by
    rw [KeyFileTyped.setULL, KeyFileHelper.value_setString hpositions.follows.ordered]
    simp only [true_and]
  refine ⟨(hput.trans hpositions).trans htime, ?_⟩
  obtain ⟨values, hfind, -⟩ : ∃ values, (KeyFileTyped.setULL K2 section_ TS time).kf.find section_ = some values ∧
      values.value? TS = some (toPrefixedHex time) := by
    have := hvalue TS
    rw [if_pos rfl, Sections.value_eq, Option.bind_eq_some_iff] at this
    exact this
  have hread : ∀ name, values.value? name = (KeyFileTyped.setULL K2 section_ TS time).kf.value section_ name :=
    fun name => by rw [Sections.value_eq, hfind]; rfl
  refine ⟨values, hfind, ?_, fun i hi => ?_, ?_⟩
  · rw [hread, hvalue, if_neg (by decide), hother PAR fun j _ => param_ne_posKey _, hparam, if_pos rfl]
  · have hlength : i < poscache.Position.toList.length := by rw [Vector.length_toList]; exact hi
    have hposition := hstored i hlength
    rw [Nat.zero_add, Vector.getElem_toList] at hposition
    rw [hread, hvalue, if_neg (time_ne_posKey i).symm, hposition]
  · rw [hread, hvalue, if_pos rfl]

/-- **A position of which nothing is to be saved is removed.** -/
theorem addTo_blank (h : K.Follows file) (section_ : Str) {poscache : PosCache} (time : UInt64)
    (hnone : haveSomeToSave poscache = false) :
    Touches file section_ K (addTo K section_ poscache time) ∧
      (addTo K section_ poscache time).kf.find section_ = none := by
  have hparam : paramCountToSave poscache.Param = 0 := by
    rw [haveSomeToSave, Bool.or_eq_false_iff, decide_eq_false_iff_not, Decidable.not_not] at hnone
    exact hnone.1
  have haddTo : addTo K section_ poscache time = K.removeSection section_ := by
    rw [addTo, hnone, if_neg Bool.false_ne_true, if_neg Bool.false_ne_true, if_neg (not_not_intro hparam)]
  rw [haddTo]
  refine ⟨touches_removeSection h section_, ?_⟩
  rw [KeyFileHelper.find_removeSection h.ordered, if_pos rfl]

/-- **What is stored is read back.** -/
theorem positionOf_records {values : KeyFileValues} {poscache q : PosCache} {time : UInt64}
    (h : Records values poscache time) (hcomplete : poscache.Complete) (hq : q.Complete) :
    positionOf (some values) q = (true, poscache) := by
  have hparam : array POSCACHE_PARAM_COUNT (getBytes values PAR (List.replicate (POSCACHE_PARAM_COUNT * 8) 0))
      = poscache.Param :=
    getBytes_textOf (show WinPort.bytesOf 8 (0 : UInt64).toNat = List.replicate 8 0 by decide) poscache.Param h.param
  have hposition : (q.Position.mapIdx fun i position => position.map fun _ =>
      array POSCACHE_BOOKMARK_COUNT
        (getBytes values (posKey i) (List.replicate (POSCACHE_BOOKMARK_COUNT * 8) 0xff))) = poscache.Position := by
    refine Vector.ext fun i hi => ?_
    rw [Vector.getElem_mapIdx]
    have hstored := h.position i hi
    cases hasked : q.Position[i] with
    | none => exact absurd hasked (hq _ (Vector.getElem_mem hi))
    | some asked =>
      cases hadded : poscache.Position[i] with
      | none => exact absurd hadded (hcomplete _ (Vector.getElem_mem hi))
      | some bookmarks =>
        rw [hadded] at hstored
        exact congrArg some (getBytes_textOf
          (show WinPort.bytesOf 8 POS_NONE.toNat = List.replicate 8 0xff by decide) bookmarks hstored)
  rw [positionOf, hparam, hposition]

theorem timeStamp_records {values : KeyFileValues} {poscache : PosCache} {time : UInt64}
    (h : Records values poscache time) (hfind : K.kf.find section_ = some values) : timeStamp K section_ = time := by
  have hvalue : K.kf.value section_ TS = some (toPrefixedHex time) := by
    rw [Sections.value_eq, hfind]
    exact h.time
  rw [timeStamp, getULL, hvalue]
  exact numberOf_toPrefixedHex time

end

/-! ## Which positions are evicted -/

section

variable {K : KeyFileHelper false} {file : Str}

theorem removeSections_spec : ∀ (sections : List Str) {K : KeyFileHelper false}, K.Follows file →
    (sections.foldl KeyFileHelper.removeSection K).Follows file ∧
      ∀ name, (sections.foldl KeyFileHelper.removeSection K).kf.find name
        = if name ∈ sections then none else K.kf.find name
  | [], K, h => ⟨h, fun name => (if_neg List.not_mem_nil).symm⟩
  | removed :: sections, K, h => by
    obtain ⟨hfollows, hfind⟩ := removeSections_spec sections (h.removeSection removed)
    refine ⟨hfollows, fun name => ?_⟩
    rw [List.foldl_cons, hfind, KeyFileHelper.find_removeSection h.ordered]
    by_cases hlater : name ∈ sections
    · rw [if_pos hlater, if_pos (List.mem_cons_of_mem _ hlater)]
    · rw [if_neg hlater]
      by_cases hnow : name = removed
      · rw [if_pos hnow, if_pos (List.mem_cons.mpr (Or.inl hnow))]
      · rw [if_neg hnow, if_neg fun h => (List.mem_cons.mp h).elim hnow hlater]

/-- As many positions stay as are allowed. -/
theorem limit_count (n : Nat) {M : Int32} (hM : 1 ≤ M.toInt) (hpos : 0 < (Int32.ofNat n - M).toNatClampNeg) :
    M.toInt + (Int32.ofNat n - M).toNatClampNeg ≤ n := by
  have hlt := M.toInt_lt
  rw [← Int32.toNat_toInt, Int32.toInt_sub, Int32.toInt_ofNat'] at hpos ⊢
  have hsize : Int32.size = 2 ^ 32 := rfl
  rw [hsize, Int.bmod_sub_bmod] at hpos ⊢
  generalize hr : ((n : Int) - M.toInt).bmod (2 ^ 32) = r at hpos ⊢
  rw [Int.bmod] at hr
  split at hr <;> omega

/-- **A position is evicted only if enough others that are not older stay.** -/
theorem applyElementsLimit_spec (S : StdSort) {M : Int32} (hM : 1 ≤ M.toInt) (h : K.Follows file) :
    (applyElementsLimit S M K).Follows file ∧
    (∀ name, (applyElementsLimit S M K).kf.find name = none ∨
      (applyElementsLimit S M K).kf.find name = K.kf.find name) ∧
    ∀ name, K.kf.find name ≠ none → (applyElementsLimit S M K).kf.find name = none →
      ∃ kept : List Str, kept.Nodup ∧ M.toInt ≤ kept.length ∧
        ∀ other ∈ kept, (applyElementsLimit S M K).kf.find other ≠ none ∧ timeStamp K name ≤ timeStamp K other := by
  rw [applyElementsLimit]
  split
  · dsimp only
    have hperm := S.perm (timeStamp K) K.enumSections
    have hsorted := S.sorted (timeStamp K) K.enumSections
    generalize S.sort (timeStamp K) K.enumSections = sections at hperm hsorted ⊢
    generalize hcount : (Int32.ofNat sections.length - M).toNatClampNeg = cnt
    obtain ⟨hfollows, hfind⟩ := removeSections_spec (sections.take cnt) h
    refine ⟨hfollows, fun name => ?_, fun name hthere hgone => ?_⟩
    · rw [hfind]
      split
      · exact Or.inl rfl
      · exact Or.inr rfl
    · have hremoved : name ∈ sections.take cnt := by
        refine Decidable.byContradiction fun hnot => hthere ?_
        rwa [hfind, if_neg hnot] at hgone
      have hnodup : sections.Nodup := hperm.nodup_iff.mpr h.ordered.names_nodup
      have hsplit := List.take_append_drop cnt sections
      refine ⟨sections.drop cnt, hnodup.sublist (List.drop_sublist _ _), ?_, fun other hother => ⟨?_, ?_⟩⟩
      · have hpos : 0 < cnt := Nat.pos_of_ne_zero fun hnone => by
          rw [hnone, List.take_zero] at hremoved
          exact List.not_mem_nil hremoved
        have hlimit := limit_count sections.length hM (hcount.symm ▸ hpos)
        rw [hcount] at hlimit
        rw [List.length_drop]
        omega
      · have hkept : other ∉ sections.take cnt := fun htaken =>
          (List.nodup_append.mp (hsplit.symm ▸ hnodup)).2.2 other htaken other hother rfl
        rw [hfind, if_neg hkept]
        obtain ⟨entry, hentry, hname⟩ := List.mem_map.mp (hperm.mem_iff.mp (List.mem_of_mem_drop hother))
        have hlisted : (other, entry.2) ∈ K.kf.enumeration := by rw [← hname]; exact hentry
        rw [h.ordered.find_iff.mpr hlisted]
        exact Option.some_ne_none _
      · exact (List.pairwise_append.mp (hsplit.symm ▸ hsorted)).2.2 name hremoved other hother
  · exact ⟨h, fun _ => Or.inr rfl, fun name hthere hgone => absurd hgone hthere⟩

end

/-! ## Runs -/

namespace Cache

section

variable (S : StdSort) (M : Int32) {s : Cache}

/-- Where the helper is not dirty, the file holds its sections. -/
def Sound (s : Cache) : Prop := s.opened.Follows s.file

theorem sound_start (file : Str) : Sound { file } := KeyFileHelper.follows_configWriter file

theorem values_eq (s : Cache) (section_ : Str) : s.values section_ = s.opened.kf.find section_ := by
  rw [values, opened]
  cases s.kfh with
  | none => exact readSection_eq s.file section_
  | some K => rfl

/-- Saved or not, the sections are the same. -/
theorem checkForSave_spec {K : KeyFileHelper false} {file : Str} (h : K.Follows file) (savePos written : Bool) :
    (checkForSave K file savePos written).Sound ∧
      ∀ name, (checkForSave K file savePos written).values name = K.kf.find name := by
  have hkept : ({ file, kfh := some K } : Cache).Sound ∧
      ∀ name, ({ file, kfh := some K } : Cache).values name = K.kf.find name := ⟨h, fun _ => rfl⟩
  have hsaved := h.find_saved
  rw [KeyFileHelper.saved] at hsaved
  rw [checkForSave]
  split
  · cases hsave : K.save true with
    | none =>
      rw [hsave] at hsaved
      exact ⟨sound_start file, fun name => (readSection_eq file name).trans (hsaved name)⟩
    | some content =>
      rw [hsave] at hsaved
      dsimp only
      split
      · exact ⟨sound_start content, fun name => (readSection_eq content name).trans (hsaved name)⟩
      · exact hkept
  · exact hkept

/-- **What a call of `AddPosition` leaves.** -/
theorem addPosition_spec (hM : 1 ≤ M.toInt) (h : s.Sound) (c : Call) :
    (s.addPosition S M c).Sound ∧
    (∀ name, name ≠ c.section_ → (s.addPosition S M c).values name = (s.limited S M).kf.find name) ∧
    (c.poscache.Blank → (s.addPosition S M c).values c.section_ = none) ∧
    (¬c.poscache.Blank → ∃ values, (s.addPosition S M c).values c.section_ = some values ∧
      Records values c.poscache c.time) := by
  obtain ⟨hlimited, -, -⟩ := applyElementsLimit_spec S hM h
  have hsome : ∀ {b}, haveSomeToSave c.poscache = b → Touches s.file c.section_ (s.limited S M)
      (addTo (s.limited S M) c.section_ c.poscache c.time) := fun {b} hb => by
    cases b with
    | true => exact (addTo_stores hlimited c.section_ c.time hb).1
    | false => exact (addTo_blank hlimited c.section_ c.time hb).1
  have htouches := hsome rfl
  obtain ⟨hsound, hvalues⟩ := checkForSave_spec htouches.follows c.savePos c.written
  refine ⟨hsound, fun name hne => ?_, fun hblank => ?_, fun hblank => ?_⟩
  · rw [addPosition, hvalues]
    exact htouches.others name hne
  · rw [addPosition, hvalues]
    exact (addTo_blank hlimited c.section_ c.time (c.poscache.haveSomeToSave_iff.mpr hblank)).2
  · have hsave : haveSomeToSave c.poscache = true := by
      rw [← Bool.not_eq_false]
      exact mt c.poscache.haveSomeToSave_iff.mp hblank
    rw [addPosition, hvalues]
    exact (addTo_stores hlimited c.section_ c.time hsave).2

/-- One of these calls evicts a position. -/
def EvictedBy (s : Cache) (section_ : Str) (calls : List Call) : Prop :=
  ∃ earlier c later, calls = earlier ++ c :: later ∧ Evicts S M (s.run S M earlier) section_

theorem sound_run (hM : 1 ≤ M.toInt) : ∀ (calls : List Call) {s : Cache}, s.Sound → (s.run S M calls).Sound
  | [], _, h => h
  | c :: calls, _, h => sound_run hM calls (addPosition_spec S M hM h c).1

/-- A call for another file leaves a position, or evicts it. -/
theorem addPosition_other (hM : 1 ≤ M.toInt) (h : s.Sound) {c : Call} {section_ : Str} (hne : section_ ≠ c.section_) :
    (Evicts S M s section_ → (s.addPosition S M c).values section_ = none) ∧
      (¬Evicts S M s section_ → (s.addPosition S M c).values section_ = s.values section_) := by
  rw [(addPosition_spec S M hM h c).2.1 section_ hne]
  refine ⟨And.right, fun hnot => ?_⟩
  rcases (applyElementsLimit_spec S hM h).2.1 section_ with hgone | hkept
  · have hnever : s.opened.kf.find section_ = none :=
      Decidable.byContradiction fun hthere => hnot ⟨hthere, hgone⟩
    rw [values_eq, hnever]
    exact hgone
  · rw [values_eq]
    exact hkept

/-- **A position stays as long as nothing evicts it**: by induction on the calls for other files. -/
theorem run_others (hM : 1 ≤ M.toInt) {section_ : Str} : ∀ (calls : List Call) {s : Cache}, s.Sound →
    (∀ c ∈ calls, c.section_ ≠ section_) →
    (EvictedBy S M s section_ calls → (s.run S M calls).values section_ = none) ∧
      (¬EvictedBy S M s section_ calls → (s.run S M calls).values section_ = s.values section_)
  | [], s, _, _ => ⟨fun ⟨earlier, c, later, heq, _⟩ => absurd heq (by simp), fun _ => rfl⟩
  | c :: calls, s, h, hother => by
    have hsound := (addPosition_spec S M hM h c).1
    have hne : section_ ≠ c.section_ := (hother c List.mem_cons_self).symm
    obtain ⟨hevicted, hstays⟩ := addPosition_other S M hM h hne
    obtain ⟨hlater, hlater'⟩ := run_others hM calls hsound fun d hd => hother d (List.mem_cons_of_mem _ hd)
    have hcons : EvictedBy S M s section_ (c :: calls) ↔
        Evicts S M s section_ ∨ EvictedBy S M (s.addPosition S M c) section_ calls := by
      constructor
      · rintro ⟨earlier, d, later, heq, hd⟩
        cases earlier with
        | nil => exact Or.inl hd
        | cons e earlier =>
          obtain ⟨rfl, rfl⟩ := List.cons.inj heq
          exact Or.inr ⟨earlier, d, later, rfl, hd⟩
      · rintro (hnow | ⟨earlier, d, later, rfl, hd⟩)
        · exact ⟨[], c, calls, rfl, hnow⟩
        · exact ⟨c :: earlier, d, later, rfl, hd⟩
    show (_ → ((s.addPosition S M c).run S M calls).values section_ = none) ∧
      (_ → ((s.addPosition S M c).run S M calls).values section_ = s.values section_)
    rw [hcons]
    refine ⟨fun heither => ?_, fun hneither => ?_⟩
    · by_cases hafter : EvictedBy S M (s.addPosition S M c) section_ calls
      · exact hlater hafter
      · rw [hlater' hafter]
        exact hevicted (heither.resolve_right hafter)
    · rw [hlater' fun hafter => hneither (Or.inr hafter)]
      exact hstays fun hnow => hneither (Or.inl hnow)

/-- **File positions are remembered.** The latest position of a file is given back as it was added, unless it has been
evicted or there was nothing to save of it. The position that was added last is there; one is evicted only if enough
others that are not older stay. -/
theorem getPosition_latest (hM : 1 ≤ M.toInt) (file : Str) (before : List Call) (c : Call) (after : List Call)
    (hlatest : ∀ d ∈ after, d.section_ ≠ c.section_) (hcomplete : c.poscache.Complete) (q : PosCache)
    (hq : q.Complete) :
    let added := run S M { file } (before ++ [c])
    let s := added.run S M after
    (c.poscache.Blank ∨ EvictedBy S M added c.section_ after → s.getPosition c.section_ q = (false, q)) ∧
    (¬c.poscache.Blank → ¬EvictedBy S M added c.section_ after → s.getPosition c.section_ q = (true, c.poscache)) ∧
    (¬c.poscache.Blank → added.getPosition c.section_ q = (true, c.poscache)) ∧
    (¬c.poscache.Blank → ¬EvictedBy S M added c.section_ after → timeStamp s.opened c.section_ = c.time) ∧
    ∀ (calls : List Call) (section_ : Str), Evicts S M (run S M { file } calls) section_ →
      ∃ kept : List Str, kept.Nodup ∧ M.toInt ≤ kept.length ∧
        ∀ other ∈ kept, ((run S M { file } calls).limited S M).kf.find other ≠ none ∧
          timeStamp (run S M { file } calls).opened section_ ≤ timeStamp (run S M { file } calls).opened other := by
  intro added s
  have hbefore := sound_run S M hM before (sound_start file)
  have hadded_eq : added = (run S M { file } before).addPosition S M c := by
    show List.foldl _ _ _ = _
    rw [List.foldl_append]
    rfl
  obtain ⟨hsound, -, hblank, hstored⟩ := addPosition_spec S M hM hbefore c
  rw [← hadded_eq] at hsound hblank hstored
  obtain ⟨hgone, hstays⟩ := run_others S M hM after hsound hlatest
  have hmissing : s.values c.section_ = none → s.getPosition c.section_ q = (false, q) := fun hnone => by
    rw [getPosition, hnone]
    rfl
  refine ⟨?_, fun hsome hkept => ?_, fun hsome => ?_, fun hsome hkept => ?_, ?_⟩
  · rintro (hnothing | hevicted)
    · refine hmissing ?_
      by_cases hevicted : EvictedBy S M added c.section_ after
      · exact hgone hevicted
      · exact (hstays hevicted).trans (hblank hnothing)
    · exact hmissing (hgone hevicted)
  · obtain ⟨values, hvalues, hrecords⟩ := hstored hsome
    rw [getPosition, show s.values c.section_ = some values from (hstays hkept).trans hvalues]
    exact positionOf_records hrecords hcomplete hq
  · obtain ⟨values, hvalues, hrecords⟩ := hstored hsome
    rw [getPosition, hvalues]
    exact positionOf_records hrecords hcomplete hq
  · obtain ⟨values, hvalues, hrecords⟩ := hstored hsome
    exact timeStamp_records hrecords ((values_eq s c.section_).symm.trans ((hstays hkept).trans hvalues))
  · exact fun calls section_ ⟨hthere, hevicted⟩ =>
      (applyElementsLimit_spec S hM (sound_run S M hM calls (sound_start file))).2.2 section_ hthere hevicted

end

/-- A sort that keeps the order of what has the same key. -/
def stableSort : StdSort where
  sort key names := names.mergeSort fun a b => key a ≤ key b
  perm key names := List.mergeSort_perm names _
  sorted key names := by
    have htrans : ∀ a b c : Str, decide (key a ≤ key b) → decide (key b ≤ key c) → decide (key a ≤ key c) :=
      fun _ _ _ hab hbc => decide_eq_true (UInt64.le_trans (of_decide_eq_true hab) (of_decide_eq_true hbc))
    have htotal : ∀ a b : Str, decide (key a ≤ key b) || decide (key b ≤ key a) := fun a b => by
      rw [Bool.or_eq_true, decide_eq_true_iff, decide_eq_true_iff]
      exact UInt64.le_total _ _
    exact (List.pairwise_mergeSort htrans htotal names).imp of_decide_eq_true

/-- The second line of a file, and no bookmarks. -/
theorem getPosition_latest_line :
    let position : PosCache := ⟨#v[1, 0, 0, 0, 0], Vector.replicate 4 (some (Vector.replicate 10 POS_NONE))⟩
    let c : Call := ⟨[0x61], position, 5, true, true⟩
    (run stableSort 1 { file := [] } ([] ++ [c])).getPosition [0x61] position = (true, position) := by
  intro position c
  have hcomplete : position.Complete := fun array hmem hnone => by
    rw [hnone] at hmem
    exact absurd (Vector.mem_replicate.mp hmem).2 (by simp)
  have hline : ¬position.Blank := fun hblank => by
    have hfirst : position.Param[0] = 0 := hblank.1 _ (Vector.getElem_mem (by decide))
    exact absurd hfirst (by decide)
  exact (getPosition_latest stableSort 1 (by decide) [] [] c [] (fun _ h => absurd h List.not_mem_nil) hcomplete
    position hcomplete).2.2.1 hline

end Cache

end Far2l.PosCache
