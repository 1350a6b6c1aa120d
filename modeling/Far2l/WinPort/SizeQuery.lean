/-
Far2l.WinPort.SizeQuery — what `WideCharToMultiByte` and `MultiByteToWideChar` of
`WinPort/src/APIStringCodepages.cpp` say about the size of a result before they are
given a buffer.

What they return is an `int` here. A source is followed character by character, as a
converter that nothing stops would read it; a buffer stops it.
-/
import Far2l.WinPort.StringCodepagesTheorems

namespace Far2l.WinPort

open Utf

variable {α β : Type}

/-! ## What is returned is an `int` -/

/-- `(int)` -/
def toInt (v : Int) : Int := (v + 2 ^ 31) % 2 ^ 32 - 2 ^ 31

namespace Sized

/-- `TranscodeUTF` -/
def transcodeUTF (S : BytesType α) (T : BytesType β) (flags : Nat) (src : List α) (dstlen : Nat) :
    Converted β :=
  let done := WinPort.transcodeUTF S T flags src dstlen
  { done with ret := toInt done.ret }

/-- `Wide2Bytes<BYTES_TYPE, BYTEREV>` -/
def wide2Bytes (T : BytesType α) (byterev : Bool) (flags : Nat) (src : List WChar)
    (srclen dstlen : Int) : Converted Byte :=
  let srclen : Nat := if srclen < 0 then src.findIdx (· == 0) + 1 else srclen.toNat
  let count : Nat := dstlen.toNat / T.size
  if dstlen > 0 ∧ (count = 0 ∨ (T.size = uint32.size ∧ count < srclen)) then
    { ret := 0, lastError := .ERROR_INSUFFICIENT_BUFFER }
  else
    let done : Converted α :=
      if T.size = uint32.size then -- noop shortcut
        { ret := srclen
          stored := if count ≠ 0 then T.array (uint32.memory (src.take srclen)) srclen else [] }
      else transcodeUTF uint32 T flags (src.take srclen) count
    let stored := if done.ret > 0 ∧ byterev ∧ count ≠ 0 then done.stored.map T.revBytes
      else done.stored
    { ret := if done.ret > 0 then toInt (done.ret * T.size) else done.ret
      stored := T.memory stored
      lastError := done.lastError }

/-- `Bytes2Wide<BYTES_TYPE, BYTEREV>` -/
def bytes2Wide (T : BytesType α) (byterev : Bool) (flags : Nat) (src : List Byte)
    (srclen dstlen : Int) : Converted WChar :=
  let done := WinPort.bytes2Wide T byterev flags src srclen dstlen
  if T.size = uint32.size then done else { done with ret := toInt done.ret }

/-- The `switch` of `WideCharToMultiByte` -/
def toPage (page : CodePage) (flags : Nat) (src : List WChar) (srclen dstlen : Int)
    (defchar used : Bool) : Converted Byte :=
  match page with
  | .CP_UTF16LE => wide2Bytes uint16 false flags src srclen dstlen
  | .CP_UTF16BE => wide2Bytes uint16 true flags src srclen dstlen
  | .CP_UTF32LE => wide2Bytes uint32 false flags src srclen dstlen
  | .CP_UTF32BE => wide2Bytes uint32 true flags src srclen dstlen
  | .CP_UTF8 =>
      if defchar ∨ used then { ret := 0, lastError := .ERROR_INVALID_PARAMETER }
      else wide2Bytes uint8 false flags src srclen dstlen

/-- `WideCharToMultiByte` -/
def wideCharToMultiByte (page : CodePage) (flags : Nat) (src : List WChar) (srclen dstlen : Int)
    (defchar used : Bool) : Converted Byte :=
  if srclen = 0 ∨ dstlen < 0 then { ret := 0, lastError := .ERROR_INVALID_PARAMETER }
  else
    let srclen : Int := if srclen < 0 then (src.findIdx (· == 0) + 1 : Nat) else srclen
    let done := toPage page flags src srclen dstlen defchar used
    if done.ret < 0 then failed done else done

/-- The `switch` of `MultiByteToWideChar` -/
def fromPage (page : CodePage) (flags : Nat) (src : List Byte) (srclen dstlen : Int) :
    Converted WChar :=
  match page with
  | .CP_UTF16LE => bytes2Wide uint16 false flags src srclen dstlen
  | .CP_UTF16BE => bytes2Wide uint16 true flags src srclen dstlen
  | .CP_UTF32LE => bytes2Wide uint32 false flags src srclen dstlen
  | .CP_UTF32BE => bytes2Wide uint32 true flags src srclen dstlen
  | .CP_UTF8 => bytes2Wide uint8 false flags src srclen dstlen

/-- `MultiByteToWideChar` -/
def multiByteToWideChar (page : CodePage) (flags : Nat) (src : List Byte) (srclen dstlen : Int) :
    Converted WChar :=
  if srclen = 0 ∨ dstlen < 0 then { ret := 0, lastError := .ERROR_INVALID_PARAMETER }
  else
    let srclen : Int := if srclen < 0 then (src.findIdx (· == 0) + 1 : Nat) else srclen
    let done := fromPage page flags src srclen dstlen
    if done.ret ≤ 0 then failed done else done

end Sized

/-! ## What a converter that nothing stops makes of a source -/

/-- A character as it is written, or what replaces an ill-formed one. -/
structure Chunk (β : Type) where
  elements : List β
  replaced : Bool

/-- The characters of a source in the other codec, and whether it has been read to its end. -/
structure Outcome (β : Type) where
  chunks : List (Chunk β)
  complete : Bool

namespace Outcome

/-- How many elements the characters have. -/
def size (o : Outcome β) : Nat := (o.chunks.flatMap Chunk.elements).length

/-- An ill-formed character has been replaced within so many elements. -/
def replacedWithin (room : Nat) : List (Chunk β) → Bool
  | [] => false
  | c :: chunks =>
      c.elements.length ≤ room && (c.replaced || replacedWithin (room - c.elements.length) chunks)

/-- **The size is true**: with a room of `n` elements the conversion ends as it does without one, or something has
been replaced; and with less room nothing has. -/
def Told (o : Outcome β) (n : Nat) : Prop :=
  ((n = o.size ∧ o.complete = true) ∨ replacedWithin n o.chunks = true) ∧ replacedWithin (n - 1) o.chunks = false

instance (o : Outcome β) (n : Nat) : Decidable (o.Told n) := inferInstanceAs (Decidable (_ ∧ _))

end Outcome

section

variable (src : Codec α) (dst : Codec β) (replacement : β)

/-- A character that can be read and written, and what is behind it. -/
def readWrite (it : List α) : Option (List β × List α) :=
  match src.read it with
  | none => none
  | some (cp, rest) => (dst.write cp).map fun chs => (chs, rest)

/-- What the converter makes of a source: an ill-formed character is replaced as long as it is not among the last
ones. -/
def outcome : Nat → List α → Outcome β
  | 0, it => ⟨[], it.isEmpty⟩
  | fuel + 1, it =>
      if it.isEmpty then ⟨[], true⟩
      else
        match readWrite src dst it with
        | some (chs, rest) =>
            let o := outcome fuel rest
            ⟨⟨chs, false⟩ :: o.chunks, o.complete⟩
        | none =>
            if it.length < MAX_MB_CHARS_PER_WCHAR then ⟨[], false⟩
            else
              let o := outcome fuel it.tail
              ⟨⟨[replacement], true⟩ :: o.chunks, o.complete⟩

end

/-! ## The loop of `UtfConvert`, character by character -/

/-- A codec reads and writes something for each character. -/
structure Progress (src : Codec α) (dst : Codec β) : Prop where
  read : ∀ {it rest : List α} {cp : Nat}, src.read it = some (cp, rest) → rest.length < it.length
  write : ∀ {cp : Nat} {chs : List β}, dst.write cp = some chs → chs ≠ []

theorem readWrite_progress {src : Codec α} {dst : Codec β} (h : Progress src dst) {it rest : List α} {chs : List β}
    (hread : readWrite src dst it = some (chs, rest)) : rest.length < it.length ∧ chs ≠ [] := by
  rw [readWrite] at hread
  split at hread
  · exact absurd hread (by simp)
  · next cp rest' hcp =>
    obtain ⟨chs', hwrite, heq⟩ := Option.map_eq_some_iff.mp hread
    obtain ⟨rfl, rfl⟩ := Prod.mk.inj heq
    exact ⟨h.read hcp, h.write hwrite⟩

section

variable {src : Codec α} {dst : Codec β} {replacement : β} {it rest : List α} {chs : List β} {pb : PushBack β}
  {out : Flags} {fuel : Nat}

theorem conv_nil (fuel : Nat) : conv src dst fuel [] pb = (true, [], pb) := by
  cases fuel <;> rfl

/-- A character that cannot be read or written stops `conv`. -/
theorem conv_none (hne : it ≠ []) (hread : readWrite src dst it = none) (fuel : Nat) :
    conv src dst fuel it pb = (false, it, pb) := by
  have hempty : it.isEmpty = false := List.isEmpty_eq_false_iff.mpr hne
  cases fuel with
  | zero => rw [conv, hempty]
  | succ fuel =>
    rw [conv, hempty, if_neg Bool.false_ne_true]
    split
    · rfl
    · rw [readWrite] at hread
      split
      · rfl
      · next cp rest hcp =>
        rw [hcp] at hread
        rw [Option.map_eq_none_iff.mp hread]

theorem conv_full (hne : it ≠ []) (hfull : pb.fullyFilled = true) (fuel : Nat) :
    conv src dst fuel it pb = (false, it, pb) := by
  have hempty : it.isEmpty = false := List.isEmpty_eq_false_iff.mpr hne
  cases fuel with
  | zero => rw [conv, hempty]
  | succ fuel => rw [conv, hempty, if_neg Bool.false_ne_true, hfull, if_pos rfl]

/-- A character that can be read and written is pushed. -/
theorem conv_some (hne : it ≠ []) (hfull : pb.fullyFilled = false) (hread : readWrite src dst it = some (chs, rest))
    (fuel : Nat) :
    conv src dst (fuel + 1) it pb =
      match pb.pushAll chs with
      | (true, pb) => conv src dst fuel rest pb
      | (false, pb) => (false, it, pb) := by
  have hempty : it.isEmpty = false := List.isEmpty_eq_false_iff.mpr hne
  rw [readWrite] at hread
  split at hread
  · exact absurd hread (by simp)
  · next cp rest' hcp =>
    obtain ⟨chs', hwrite, heq⟩ := Option.map_eq_some_iff.mp hread
    obtain ⟨rfl, rfl⟩ := Prod.mk.inj heq
    rw [conv, hempty, if_neg Bool.false_ne_true, hfull, if_neg Bool.false_ne_true, hcp]
    dsimp only
    rw [hwrite] <;> rfl

/-- More turns than there are elements make no difference. -/
theorem conv_fuel (h : Progress src dst) : ∀ {fuel : Nat} {it : List α} {pb : PushBack β}, it.length ≤ fuel →
    conv src dst fuel it pb = conv src dst it.length it pb
  | 0, it, pb, hle => by rw [List.length_eq_zero_iff.mp (Nat.le_zero.mp hle)]; rfl
  | fuel + 1, it, pb, hle => by
    by_cases hne : it = []
    · rw [hne, conv_nil, conv_nil]
    cases hfull : pb.fullyFilled with
    | true => rw [conv_full hne hfull, conv_full hne hfull]
    | false =>
      cases hread : readWrite src dst it with
      | none => rw [conv_none hne hread, conv_none hne hread]
      | some r =>
        obtain ⟨chs, rest⟩ := r
        have hless := (readWrite_progress h hread).1
        obtain ⟨n, hn⟩ : ∃ n, it.length = n + 1 := ⟨it.length - 1, by omega⟩
        rw [hn, conv_some hne hfull hread, conv_some hne hfull hread]
        split
        · next pb' _ =>
          have hless' : rest.length ≤ n := by omega
          exact (conv_fuel h (by omega)).trans (conv_fuel h hless').symm
        · rfl

theorem loop_nil : utfConvertLoop src dst replacement false (fuel + 1) [] pb out = (out, pb) := by
  rw [utfConvertLoop, conv_nil]

theorem loop_full (hne : it ≠ []) (hfull : pb.fullyFilled = true) :
    utfConvertLoop src dst replacement false (fuel + 1) it pb out = ({ out with needMoreDst := true }, pb) := by
  rw [utfConvertLoop, conv_full hne hfull]
  dsimp only
  rw [hfull, if_pos rfl]

/-- A character that fits in. -/
theorem loop_char (h : Progress src dst) {pb' : PushBack β} (hfull : pb.fullyFilled = false)
    (hread : readWrite src dst it = some (chs, rest)) (hpush : pb.pushAll chs = (true, pb')) :
    utfConvertLoop src dst replacement false (fuel + 1) it pb out
      = utfConvertLoop src dst replacement false (fuel + 1) rest pb' out := by
  have hless := (readWrite_progress h hread).1
  have hne : it ≠ [] := List.ne_nil_of_length_pos (by omega)
  obtain ⟨n, hn⟩ : ∃ n, it.length = n + 1 := ⟨it.length - 1, by omega⟩
  have hconv : conv src dst it.length it pb = conv src dst rest.length rest pb' := by
    rw [hn, conv_some hne hfull hread, hpush]
    exact conv_fuel h (by omega)
  rw [utfConvertLoop, utfConvertLoop, hconv]

/-- A character that does not fit in. -/
theorem loop_stuck (h : Progress src dst) {pb' : PushBack β} (hfull : pb.fullyFilled = false)
    (hread : readWrite src dst it = some (chs, rest)) (hpush : pb.pushAll chs = (false, pb'))
    (hfull' : pb'.fullyFilled = true) :
    utfConvertLoop src dst replacement false (fuel + 1) it pb out = ({ out with needMoreDst := true }, pb') := by
  have hless := (readWrite_progress h hread).1
  have hne : it ≠ [] := List.ne_nil_of_length_pos (by omega)
  obtain ⟨n, hn⟩ : ∃ n, it.length = n + 1 := ⟨it.length - 1, by omega⟩
  rw [utfConvertLoop, hn, conv_some hne hfull hread, hpush]
  dsimp only
  rw [hfull', if_pos rfl]

/-- An ill-formed character among the last ones is taken for one that is not complete. -/
theorem loop_tail (hne : it ≠ []) (hfull : pb.fullyFilled = false) (hread : readWrite src dst it = none)
    (hlast : it.length < MAX_MB_CHARS_PER_WCHAR) :
    utfConvertLoop src dst replacement false (fuel + 1) it pb out = ({ out with needMoreSrc := true }, pb) := by
  rw [utfConvertLoop, conv_none hne hread]
  dsimp only
  rw [hfull, if_neg Bool.false_ne_true, if_pos (Or.inr hlast), if_pos hlast]

/-- An ill-formed character is replaced. -/
theorem loop_replace (hne : it ≠ []) (hfull : pb.fullyFilled = false) (hread : readWrite src dst it = none)
    (hlast : ¬it.length < MAX_MB_CHARS_PER_WCHAR) :
    utfConvertLoop src dst replacement false (fuel + 1) it pb out
      = utfConvertLoop src dst replacement false fuel it.tail { pb with pushed := pb.pushed ++ [replacement] }
          { out with illformedChars := true } := by
  have hnot : ¬(false = true ∨ it.length < MAX_MB_CHARS_PER_WCHAR) := fun h => h.elim Bool.false_ne_true hlast
  rw [utfConvertLoop, conv_none hne hread]
  dsimp only
  rw [hfull, if_neg Bool.false_ne_true, if_neg hnot, PushBack.pushBack, hfull, if_neg Bool.false_ne_true]

theorem outcome_nil (fuel : Nat) : outcome src dst replacement fuel [] = ⟨[], true⟩ := by
  cases fuel <;> rfl

theorem outcome_some (hne : it ≠ []) (hread : readWrite src dst it = some (chs, rest)) :
    outcome src dst replacement (fuel + 1) it =
      ⟨⟨chs, false⟩ :: (outcome src dst replacement fuel rest).chunks,
        (outcome src dst replacement fuel rest).complete⟩ := by
  rw [outcome, List.isEmpty_eq_false_iff.mpr hne, if_neg Bool.false_ne_true, hread]

theorem outcome_tail (hne : it ≠ []) (hread : readWrite src dst it = none)
    (hlast : it.length < MAX_MB_CHARS_PER_WCHAR) :
    outcome src dst replacement (fuel + 1) it = ⟨[], false⟩ := by
  rw [outcome, List.isEmpty_eq_false_iff.mpr hne, if_neg Bool.false_ne_true, hread]
  exact if_pos hlast

theorem outcome_replace (hne : it ≠ []) (hread : readWrite src dst it = none)
    (hlast : ¬it.length < MAX_MB_CHARS_PER_WCHAR) :
    outcome src dst replacement (fuel + 1) it =
      ⟨⟨[replacement], true⟩ :: (outcome src dst replacement fuel it.tail).chunks,
        (outcome src dst replacement fuel it.tail).complete⟩ := by
  rw [outcome, List.isEmpty_eq_false_iff.mpr hne, if_neg Bool.false_ne_true, hread]
  exact if_neg hlast

theorem size_cons (c : Chunk β) (chunks : List (Chunk β)) (complete : Bool) :
    (⟨c :: chunks, complete⟩ : Outcome β).size = c.elements.length + (⟨chunks, complete⟩ : Outcome β).size := by
  rw [Outcome.size, List.flatMap_cons, List.length_append]
  rfl

/-- **What nothing stops** pushes everything. -/
theorem loop_unbounded (h : Progress src dst) : ∀ {n fuel : Nat} {it : List α} {pushed : List β} {out : Flags},
    it.length ≤ n → it.length < fuel →
    (utfConvertLoop src dst replacement false fuel it ⟨none, pushed⟩ out).2.pushed.length
      = pushed.length + (outcome src dst replacement n it).size
  | n, 0, it, _, _, _, hfuel => absurd hfuel (Nat.not_lt_zero _)
  | 0, fuel + 1, it, pushed, out, hn, _ => by
    rw [List.length_eq_zero_iff.mp (Nat.le_zero.mp hn), loop_nil, outcome_nil]
    rfl
  | n + 1, fuel + 1, it, pushed, out, hn, hfuel => by
    by_cases hne : it = []
    · rw [hne, loop_nil, outcome_nil]
      rfl
    have hfull : (⟨none, pushed⟩ : PushBack β).fullyFilled = false := rfl
    cases hread : readWrite src dst it with
    | some r =>
      obtain ⟨chs, rest⟩ := r
      have hless := (readWrite_progress h hread).1
      have hpush : PushBack.pushAll ⟨none, pushed⟩ chs = (true, ⟨none, pushed ++ chs⟩) :=
        PushBack.pushAll_fits fun n hn => absurd hn (by simp)
      rw [loop_char h hfull hread hpush, loop_unbounded h (n := n) (by omega) (by omega), outcome_some hne hread,
        size_cons, List.length_append]
      exact Nat.add_assoc _ _ _
    | none =>
      by_cases hlast : it.length < MAX_MB_CHARS_PER_WCHAR
      · rw [loop_tail hne hfull hread hlast, outcome_tail hne hread hlast]
        rfl
      · have hpos := List.length_pos_iff.mpr hne
        have htail : it.tail.length = it.length - 1 := List.length_tail
        rw [loop_replace hne hfull hread hlast, loop_unbounded h (n := n) (by omega) (by omega),
          outcome_replace hne hread hlast, size_cons, List.length_append]
        exact Nat.add_assoc _ _ _

/-- What a source begins with takes room. -/
theorem outcome_zero (h : Progress src dst) (hne : it ≠ []) :
    Outcome.replacedWithin 0 (outcome src dst replacement (fuel + 1) it).chunks = false ∧
      ¬(0 = (outcome src dst replacement (fuel + 1) it).size ∧
        (outcome src dst replacement (fuel + 1) it).complete = true) := by
  cases hread : readWrite src dst it with
  | some r =>
    obtain ⟨chs, rest⟩ := r
    have hpos := List.length_pos_iff.mpr (readWrite_progress h hread).2
    rw [outcome_some hne hread, size_cons]
    refine ⟨?_, fun hzero => ?_⟩
    · rw [Outcome.replacedWithin, decide_eq_false (Nat.not_le_of_lt hpos), Bool.false_and]
    · have := hzero.1
      dsimp only at this
      omega
  | none =>
    by_cases hlast : it.length < MAX_MB_CHARS_PER_WCHAR
    · rw [outcome_tail hne hread hlast]
      exact ⟨rfl, fun hzero => Bool.false_ne_true hzero.2⟩
    · rw [outcome_replace hne hread hlast, size_cons]
      refine ⟨rfl, fun hzero => ?_⟩
      have : 0 = [replacement].length + _ := hzero.1
      rw [List.length_singleton] at this
      omega

/-- What a run with so much room leaves. -/
structure Stopped (o : Outcome β) (room : Nat) (pushed : List β) (out : Flags) (r : Flags × PushBack β) : Prop where
  filled : r.2.pushed.length = pushed.length + room
  reported : (r.1.illformedChars = true ∨ r.1.needMoreSrc = true) ↔
    (out.illformedChars = true ∨ out.needMoreSrc = true) ∨ Outcome.replacedWithin room o.chunks = true
  needMoreDst : r.1.needMoreDst = true ↔ out.needMoreDst = true ∨ ¬(room = o.size ∧ o.complete = true)

/-- **A buffer that is not too large is filled**: what has been replaced within it is reported, and that there is more
unless the source ends with it. -/
theorem loop_bounded (h : Progress src dst) : ∀ {n fuel room : Nat} {it : List α} {pushed : List β} {out : Flags},
    it.length ≤ n → it.length < fuel → room ≤ (outcome src dst replacement n it).size →
    Stopped (outcome src dst replacement n it) room pushed out
      (utfConvertLoop src dst replacement false fuel it ⟨some (pushed.length + room), pushed⟩ out)
  | n, 0, _, it, _, _, _, hfuel, _ => absurd hfuel (Nat.not_lt_zero _)
  | n, fuel + 1, room, it, pushed, out, hn, hfuel, hroom => by
    by_cases hne : it = []
    · rw [hne, outcome_nil] at hroom ⊢
      obtain rfl : room = 0 := Nat.le_zero.mp hroom
      rw [loop_nil]
      exact ⟨rfl, (or_iff_left Bool.false_ne_true).symm, (or_iff_left (not_not_intro ⟨rfl, rfl⟩)).symm⟩
    have hpos := List.length_pos_iff.mpr hne
    obtain ⟨n, rfl⟩ : ∃ m, n = m + 1 := ⟨n - 1, by omega⟩
    by_cases hzero : room = 0
    · -- no room is left
      subst hzero
      obtain ⟨hnone, hmore⟩ :
          Outcome.replacedWithin 0 (outcome src dst replacement (n + 1) it).chunks = false ∧
            ¬(0 = (outcome src dst replacement (n + 1) it).size ∧
              (outcome src dst replacement (n + 1) it).complete = true) := outcome_zero h hne
      have hfull : (⟨some (pushed.length + 0), pushed⟩ : PushBack β).fullyFilled = true := decide_eq_true rfl
      rw [loop_full hne hfull]
      exact ⟨rfl, by rw [hnone]; exact (or_iff_left Bool.false_ne_true).symm, iff_of_true rfl (Or.inr hmore)⟩
    have hfull : (⟨some (pushed.length + room), pushed⟩ : PushBack β).fullyFilled = false :=
      decide_eq_false fun heq => by have := Option.some.inj heq; dsimp only at this; omega
    cases hread : readWrite src dst it with
    | some r =>
      obtain ⟨chs, rest⟩ := r
      obtain ⟨hless, hchs⟩ := readWrite_progress h hread
      rw [outcome_some hne hread] at hroom ⊢
      rw [size_cons] at hroom
      have hroom' : room ≤ chs.length + (outcome src dst replacement n rest).size := hroom
      by_cases hfits : chs.length ≤ room
      · have hpush : PushBack.pushAll ⟨some (pushed.length + room), pushed⟩ chs
            = (true, ⟨some (pushed.length + room), pushed ++ chs⟩) :=
          PushBack.pushAll_fits fun m hm => by rw [← Option.some.inj hm]; omega
        have hcapacity : pushed.length + room = (pushed ++ chs).length + (room - chs.length) := by
          rw [List.length_append]
          omega
        have ih : Stopped (outcome src dst replacement n rest) (room - chs.length) (pushed ++ chs) out
            (utfConvertLoop src dst replacement false (fuel + 1) rest
              ⟨some ((pushed ++ chs).length + (room - chs.length)), pushed ++ chs⟩ out) :=
          loop_bounded h (by omega) (by omega) (by omega)
        rw [← hcapacity] at ih
        rw [loop_char h hfull hread hpush]
        refine ⟨by rw [ih.filled, hcapacity], ?_, ?_⟩
        · rw [ih.reported, Outcome.replacedWithin, decide_eq_true hfits, Bool.true_and, Bool.false_or]
        · rw [ih.needMoreDst, size_cons]
          dsimp only
          have hsize : room - chs.length = (outcome src dst replacement n rest).size ↔
              room = chs.length + (outcome src dst replacement n rest).size := by omega
          rw [hsize]
      · obtain ⟨filled, hpush, hfilled⟩ := PushBack.pushAll_overflow
          (Nat.le_add_right pushed.length room) (show pushed.length + room < pushed.length + chs.length by omega)
        have hfull' : (⟨some (pushed.length + room), filled⟩ : PushBack β).fullyFilled = true :=
          decide_eq_true (congrArg some hfilled.symm)
        rw [loop_stuck h hfull hread hpush hfull']
        refine ⟨hfilled, ?_, iff_of_true rfl (Or.inr fun hend => ?_)⟩
        · rw [Outcome.replacedWithin, decide_eq_false hfits, Bool.false_and]
          exact (or_iff_left Bool.false_ne_true).symm
        · have := hend.1
          rw [size_cons] at this
          dsimp only at this
          omega
    | none =>
      by_cases hlast : it.length < MAX_MB_CHARS_PER_WCHAR
      · rw [outcome_tail hne hread hlast] at hroom
        exact absurd (Nat.le_zero.mp hroom) hzero
      · have htail : it.tail.length = it.length - 1 := List.length_tail
        rw [outcome_replace hne hread hlast] at hroom ⊢
        rw [size_cons] at hroom
        have hroom' : room ≤ 1 + (outcome src dst replacement n it.tail).size := hroom
        have hcapacity : pushed.length + room = (pushed ++ [replacement]).length + (room - 1) := by
          rw [List.length_append, List.length_singleton]
          omega
        have ih : Stopped (outcome src dst replacement n it.tail) (room - 1) (pushed ++ [replacement])
            { out with illformedChars := true }
            (utfConvertLoop src dst replacement false fuel it.tail
              ⟨some ((pushed ++ [replacement]).length + (room - 1)), pushed ++ [replacement]⟩
              { out with illformedChars := true }) :=
          loop_bounded h (by omega) (by omega) (by omega)
        rw [← hcapacity] at ih
        rw [loop_replace hne hfull hread hlast]
        have hone : [replacement].length ≤ room := Nat.one_le_iff_ne_zero.mpr hzero
        refine ⟨by rw [ih.filled, hcapacity], ?_, ?_⟩
        · rw [ih.reported, Outcome.replacedWithin, decide_eq_true hone, Bool.true_and, Bool.true_or]
          exact iff_of_true (Or.inl (Or.inl rfl)) (Or.inr rfl)
        · rw [ih.needMoreDst, size_cons]
          dsimp only
          rw [List.length_singleton]
          have hsize : room - 1 = (outcome src dst replacement n it.tail).size ↔
              room = 1 + (outcome src dst replacement n it.tail).size := by omega
          rw [hsize]

end

/-! ## What is replaced within a room -/

theorem replacedWithin_mono : ∀ {chunks : List (Chunk β)} {n m : Nat}, n ≤ m →
    Outcome.replacedWithin n chunks = true → Outcome.replacedWithin m chunks = true
  | [], _, _, _, h => h
  | c :: chunks, n, m, hle, h => by
    rw [Outcome.replacedWithin, Bool.and_eq_true, decide_eq_true_iff, Bool.or_eq_true] at h ⊢
    exact ⟨Nat.le_trans h.1 hle, h.2.imp_right (replacedWithin_mono (Nat.sub_le_sub_right hle _))⟩

theorem replacedWithin_outcome {src : Codec α} {dst : Codec β} (h : Progress src dst) (replacement : β) (it : List α) :
    Outcome.replacedWithin 0 (outcome src dst replacement it.length it).chunks = false := by
  by_cases hne : it = []
  · rw [hne]
    rfl
  · obtain ⟨n, hn⟩ : ∃ n, it.length = n + 1 :=
      ⟨it.length - 1, by have := List.length_pos_iff.mpr hne; omega⟩
    rw [hn]
    exact (outcome_zero h hne).1

/-- The conversion with so much room gives back how much it is. -/
def Outcome.ToldAt (o : Outcome β) (n : Nat) : Prop :=
  (n = o.size ∧ o.complete = true) ∨ Outcome.replacedWithin n o.chunks = true

instance (o : Outcome β) (n : Nat) : Decidable (o.ToldAt n) := inferInstanceAs (Decidable (_ ∨ _))

/-! ## Calls -/

/-- **The size query tells the truth**: a buffer of the size that was told is filled and its size is returned, and a
smaller one is too small. -/
def SizeTrue (call : Int → Converted β) : Prop :=
  0 < (call 0).ret →
    ((call (call 0).ret).ret = (call 0).ret ∧ ((call (call 0).ret).stored.length : Int) = (call 0).ret) ∧
      ∀ k, 0 < k → k < (call 0).ret → (call k).ret = 0 ∧ ((call k).stored.length : Int) ≤ k

/-- **When a size is true**, in elements of `z` places each. -/
theorem sizeTrue_iff {γ : Type} {call : Int → Converted β} {o : Outcome γ} {z r : Nat} (hz : 0 < z) (hr : 0 < r)
    (hle : r ≤ o.size) (hzero : Outcome.replacedWithin 0 o.chunks = false) (hcount : (call 0).ret = (r * z : Nat))
    (hsmall : ∀ d : Nat, 0 < d → d / z = 0 → (call d).ret = 0 ∧ (call d).stored = [])
    (hroom : ∀ d : Nat, 0 < d / z → d / z ≤ r →
      (call d).ret = (if o.ToldAt (d / z) then (d / z * z : Nat) else 0) ∧ (call d).stored.length = d / z * z) :
    SizeTrue call ↔ o.Told r := by
  have hpos : 0 < r * z := Nat.mul_pos hr hz
  have hexact := hroom (r * z) (by rw [Nat.mul_div_cancel r hz]; exact hr)
    (Nat.le_of_eq (Nat.mul_div_cancel r hz))
  rw [Nat.mul_div_cancel r hz] at hexact
  rw [SizeTrue, hcount]
  constructor
  · intro h
    obtain ⟨⟨hret, -⟩, hless⟩ := h (by omega)
    constructor
    · refine Decidable.byContradiction fun hnot => ?_
      have hnot' : ¬o.ToldAt r := hnot
      rw [hexact.1, if_neg hnot'] at hret
      omega
    · by_cases hone : r = 1
      · rw [hone]
        exact hzero
      · have hlt : (r - 1) * z < r * z := Nat.mul_lt_mul_of_pos_right (by omega) hz
        have hprev : 0 < (r - 1) * z := Nat.mul_pos (by omega) hz
        obtain ⟨hret', -⟩ := hless ((r - 1) * z : Nat) (by omega) (by omega)
        have hvalue := (hroom ((r - 1) * z) (by rw [Nat.mul_div_cancel _ hz]; omega)
          (by rw [Nat.mul_div_cancel _ hz]; omega)).1
        rw [Nat.mul_div_cancel _ hz, hret'] at hvalue
        cases hreplaced : Outcome.replacedWithin (r - 1) o.chunks with
        | false => rfl
        | true =>
          rw [if_pos (show o.ToldAt (r - 1) from Or.inr hreplaced)] at hvalue
          omega
  · intro h _
    refine ⟨⟨by rw [hexact.1, if_pos (show o.ToldAt r from h.1)], by rw [hexact.2]⟩, fun k hk hlt => ?_⟩
    obtain ⟨d, rfl⟩ : ∃ d : Nat, k = d := ⟨k.toNat, by omega⟩
    by_cases hnone : d / z = 0
    · obtain ⟨hret, hstored⟩ := hsmall d (by omega) hnone
      rw [hret, hstored]
      exact ⟨rfl, by rw [List.length_nil]; omega⟩
    · have hless : d / z < r := by
        rw [Nat.div_lt_iff_lt_mul hz]
        exact Int.ofNat_lt.mp hlt
      obtain ⟨hret, hstored⟩ := hroom d (Nat.pos_of_ne_zero hnone) (Nat.le_of_lt hless)
      have hnot : ¬o.ToldAt (d / z) := by
        rintro (⟨hend, -⟩ | hreplaced)
        · omega
        · have hprev := replacedWithin_mono (by omega : d / z ≤ r - 1) hreplaced
          rw [h.2] at hprev
          exact Bool.false_ne_true hprev
      have hmul := Nat.div_mul_le_self d z
      rw [hret, hstored, if_neg hnot]
      exact ⟨rfl, by omega⟩

/-! ## `TranscodeUTF` -/

section

variable {S : BytesType α} {T : BytesType β} (h : Progress S.codec T.codec) (src : List α)

include h

/-- What is counted is the size. -/
theorem transcodeUTF_count :
    (transcodeUTF S T 0 src 0).ret = ((outcome S.codec T.codec T.replacement src.length src).size : Int) := by
  have hcount : (utfConvertLoop S.codec T.codec T.replacement false (src.length + 1) src ⟨none, []⟩ {}).2.pushed.length
      = ([] : List β).length + (outcome S.codec T.codec T.replacement src.length src).size :=
    loop_unbounded h (Nat.le_refl src.length) (Nat.lt_succ_self _)
  rw [List.length_nil, Nat.zero_add] at hcount
  rw [transcodeUTF]
  dsimp only
  rw [if_pos rfl, ← hcount]
  rfl

/-- What a buffer that is not too large gets. -/
theorem transcodeUTF_room {room : Nat} (hpos : 0 < room)
    (hroom : room ≤ (outcome S.codec T.codec T.replacement src.length src).size) :
    (transcodeUTF S T 0 src room).stored.length = room ∧
      (transcodeUTF S T 0 src room).ret =
        if (outcome S.codec T.codec T.replacement src.length src).ToldAt room then (room : Int) else 0 := by
  have hstopped : Stopped (outcome S.codec T.codec T.replacement src.length src) room [] {}
      (utfConvertLoop S.codec T.codec T.replacement false (src.length + 1) src
        ⟨some (([] : List β).length + room), []⟩ {}) :=
    loop_bounded h (Nat.le_refl src.length) (Nat.lt_succ_self _) hroom
  rw [List.length_nil, Nat.zero_add] at hstopped
  rw [transcodeUTF]
  dsimp only
  rw [if_neg (by omega)]
  have hrun : utfConvert S.codec T.codec T.replacement (decide (0 &&& MB_ERR_INVALID_CHARS ≠ 0)) src ⟨some room, []⟩
      = utfConvertLoop S.codec T.codec T.replacement false (src.length + 1) src ⟨some room, []⟩ {} := rfl
  rw [hrun]
  generalize utfConvertLoop S.codec T.codec T.replacement false (src.length + 1) src ⟨some room, []⟩ {} = r at *
  obtain ⟨ucr, pb⟩ := r
  obtain ⟨hfilled, hreported, hmore⟩ := hstopped
  have hnone : ¬((({} : Flags).illformedChars = true) ∨ ({} : Flags).needMoreSrc = true) := by decide
  rw [or_iff_right hnone] at hreported
  rw [or_iff_right (show ¬({} : Flags).needMoreDst = true by decide)] at hmore
  rw [List.length_nil, Nat.zero_add] at hfilled
  dsimp only at hfilled hreported hmore ⊢
  generalize outcome S.codec T.codec T.replacement src.length src = o at *
  by_cases hreplaced : Outcome.replacedWithin room o.chunks = true
  · rw [if_pos (hreported.mpr hreplaced), if_pos (show o.ToldAt room from Or.inr hreplaced)]
    exact ⟨hfilled, congrArg Nat.cast hfilled⟩
  · rw [if_neg (mt hreported.mp hreplaced)]
    by_cases hend : room = o.size ∧ o.complete = true
    · rw [if_neg fun hneed => hmore.mp hneed hend, if_pos (show o.ToldAt room from Or.inl hend)]
      exact ⟨hfilled, congrArg Nat.cast hfilled⟩
    · rw [if_pos (hmore.mpr hend), if_neg (show ¬o.ToldAt room from fun htold => htold.elim hend hreplaced)]
      exact ⟨hfilled, rfl⟩

end

/-! ## From wide characters -/

theorem progress32 {dst : Codec β} (hdst : ∀ {cp : Nat} {chs : List β}, dst.write cp = some chs → chs ≠ []) :
    Progress utf32 dst where
  read {it rest cp} h := by
    cases it with
    | nil => exact absurd h (by simp [utf32, read32])
    | cons ch it =>
      have hread : (if ch.toNat < 0x80000000 then some (ch.toNat, it) else none) = some (cp, rest) := h
      split at hread
      · obtain ⟨-, rfl⟩ := Prod.mk.inj (Option.some.inj hread)
        exact Nat.lt_succ_self _
      · exact absurd hread (by simp)
  write := hdst

theorem write32_ne_nil {cp : Nat} {chs : List UInt32} (h : utf32.write cp = some chs) : chs ≠ [] := by
  have hwrite : (if cp < 0x80000000 then some [UInt32.ofNat cp] else none) = some chs := h
  split at hwrite
  · rw [← Option.some.inj hwrite]
    exact List.cons_ne_nil _ _
  · exact absurd hwrite (by simp)

theorem progress_to8 : Progress utf32 utf8 := progress32 fun {cp chs} h => by
  have hwrite : (if cp < 0x80000000 then some (Utf8.write cp) else none) = some chs := h
  split at hwrite
  · rw [← Option.some.inj hwrite]
    exact Utf8.write_ne_nil cp
  · exact absurd hwrite (by simp)

theorem progress_to16 : Progress utf32 utf16 := progress32 fun {cp chs} h => by
  have hwrite : write16 cp = some chs := h
  rw [write16] at hwrite
  split at hwrite
  · rw [← Option.some.inj hwrite]
    exact List.cons_ne_nil _ _
  split at hwrite
  · split at hwrite
    · exact absurd hwrite (by simp)
    · rw [← Option.some.inj hwrite]
      exact List.cons_ne_nil _ _
  split at hwrite
  · rw [← Option.some.inj hwrite]
    exact List.cons_ne_nil _ _
  · exact absurd hwrite (by simp)

theorem progress_from8 : Progress utf8 utf32 := ⟨Utf8.read_length, write32_ne_nil⟩

theorem progress_from16 : Progress utf16 utf32 where
  read {it rest cp} h := by
    have hread : read16 it = some (cp, rest) := h
    rw [read16.eq_def] at hread
    split at hread
    · exact absurd hread (by simp)
    · next ch0 it' =>
      split at hread
      · obtain ⟨-, rfl⟩ := Prod.mk.inj (Option.some.inj hread)
        exact Nat.lt_succ_self _
      split at hread
      · split at hread
        · exact absurd hread (by simp)
        · split at hread
          · obtain ⟨-, rfl⟩ := Prod.mk.inj (Option.some.inj hread)
            simp only [List.length_cons]
            omega
          · exact absurd hread (by simp)
      split at hread
      · exact absurd hread (by simp)
      · obtain ⟨-, rfl⟩ := Prod.mk.inj (Option.some.inj hread)
        exact Nat.lt_succ_self _
  write := write32_ne_nil

/-- A number that an `int` can hold. -/
theorem toInt_of_lt {n : Nat} (h : n < 2 ^ 31) : toInt n = n := by
  rw [toInt]
  omega

/-- A positive `int` is no more than what it was made of. -/
theorem toInt_pos {n : Nat} (h : 0 < toInt n) : ∃ r : Nat, toInt n = r ∧ 0 < r ∧ r ≤ n ∧ r < 2 ^ 31 := by
  rw [toInt] at h ⊢
  exact ⟨((n + 2 ^ 31 : Int) % 2 ^ 32 - 2 ^ 31).toNat, by omega, by omega, by omega, by omega⟩

section

variable {T : BytesType α} (byterev : Bool) (src : List WChar) (srclen : Nat)

/-- How many characters or bytes a source has. -/
def sourceLength {γ : Type} [BEq γ] [OfNat γ 0] (src : List γ) (srclen : Int) : Nat :=
  if srclen < 0 then src.findIdx (· == 0) + 1 else srclen.toNat

theorem sourceLength_natCast {γ : Type} [BEq γ] [OfNat γ 0] (src : List γ) (srclen : Nat) :
    sourceLength src srclen = srclen := by
  rw [sourceLength, if_neg (by omega), Int.toNat_natCast]

/-- What a converter that nothing stops makes of wide characters. -/
def wideOutcome (T : BytesType α) (src : List WChar) (srclen : Int) : Outcome α :=
  outcome uint32.codec T.codec T.replacement (src.take (sourceLength src srclen)).length
    (src.take (sourceLength src srclen))

/-- `Wide2Bytes` where it is no shortcut. -/
theorem wide2Bytes_eq (hsize : T.size ≠ uint32.size) (d : Nat) :
    Sized.wide2Bytes T byterev 0 src srclen d =
      if 0 < d ∧ d / T.size = 0 then { ret := 0, lastError := .ERROR_INSUFFICIENT_BUFFER }
      else
        let done := Sized.transcodeUTF uint32 T 0 (src.take srclen) (d / T.size)
        { ret := if done.ret > 0 then toInt (done.ret * T.size) else done.ret
          stored := T.memory (if done.ret > 0 ∧ byterev ∧ d / T.size ≠ 0 then done.stored.map T.revBytes
            else done.stored)
          lastError := done.lastError } := by
  have hsmall : ((d : Int) > 0 ∧ (d / T.size = 0 ∨ (T.size = uint32.size ∧ d / T.size < srclen))) ↔
      0 < d ∧ d / T.size = 0 :=
    ⟨fun h => ⟨Int.natCast_pos.mp h.1, h.2.resolve_right fun h' => hsize h'.1⟩,
      fun h => ⟨Int.natCast_pos.mpr h.1, Or.inl h.2⟩⟩
  rw [Sized.wide2Bytes, if_neg (show ¬(srclen : Int) < 0 by omega), Int.toNat_natCast, Int.toNat_natCast]
  by_cases hnone : 0 < d ∧ d / T.size = 0
  · exact (if_pos (hsmall.mpr hnone)).trans (if_pos hnone).symm
  · refine (if_neg (mt hsmall.mp hnone)).trans (Eq.trans ?_ (if_neg hnone).symm)
    exact congrArg (fun done : Converted α => ({
      ret := if done.ret > 0 then toInt (done.ret * T.size) else done.ret
      stored := T.memory (if done.ret > 0 ∧ byterev ∧ d / T.size ≠ 0 then done.stored.map T.revBytes
        else done.stored)
      lastError := done.lastError } : Converted Byte)) (if_neg hsize)

/-- `Wide2Bytes` without a buffer. -/
theorem wide2Bytes_count (h : Progress uint32.codec T.codec) (hsize : T.size ≠ uint32.size) :
    (Sized.wide2Bytes T byterev 0 src srclen 0).ret =
      if 0 < toInt (wideOutcome T src srclen).size then toInt (toInt (wideOutcome T src srclen).size * T.size)
      else toInt (wideOutcome T src srclen).size := by
  have hcount := transcodeUTF_count h (src.take srclen)
  have heq := wide2Bytes_eq byterev src srclen hsize 0
  rw [if_neg (fun hboth => Nat.lt_irrefl 0 hboth.1), Nat.zero_div] at heq
  have hret := congrArg Converted.ret heq
  have hdone : (Sized.transcodeUTF uint32 T 0 (src.take srclen) 0).ret
      = toInt (transcodeUTF uint32 T 0 (src.take srclen) 0).ret := rfl
  dsimp only at hret
  rw [hdone, hcount] at hret
  rw [wideOutcome, sourceLength_natCast]
  exact hret

/-- `Wide2Bytes` with a buffer that is not too large. -/
theorem wide2Bytes_room (h : Progress uint32.codec T.codec) (hsize : T.size ≠ uint32.size) {d : Nat}
    (hroom : 0 < d / T.size) (hle : d / T.size ≤ (wideOutcome T src srclen).size)
    (hfits : d / T.size * T.size < 2 ^ 31) :
    (Sized.wide2Bytes T byterev 0 src srclen d).ret
        = (if (wideOutcome T src srclen).ToldAt (d / T.size) then (d / T.size * T.size : Nat) else 0) ∧
      (Sized.wide2Bytes T byterev 0 src srclen d).stored.length = d / T.size * T.size := by
  rw [wideOutcome, sourceLength_natCast] at hle ⊢
  obtain ⟨hstored, hret⟩ := transcodeUTF_room h (src.take srclen) hroom hle
  have hle' : d / T.size ≤ d / T.size * T.size := Nat.le_mul_of_pos_right _ T.size_pos
  have hret' : (Sized.transcodeUTF uint32 T 0 (src.take srclen) (d / T.size)).ret =
      if (outcome uint32.codec T.codec T.replacement (src.take srclen).length (src.take srclen)).ToldAt (d / T.size)
      then ((d / T.size : Nat) : Int) else 0 := by
    rw [Sized.transcodeUTF]
    dsimp only
    rw [hret]
    split
    · exact toInt_of_lt (by omega)
    · rfl
  rw [wide2Bytes_eq byterev src srclen hsize, if_neg fun hboth => by omega]
  dsimp only
  rw [hret']
  constructor
  · split
    · rw [if_pos (Int.natCast_pos.mpr hroom), ← Int.natCast_mul]
      exact toInt_of_lt hfits
    · rfl
  · rw [T.memory_length]
    have hlength : ∀ (c : Prop) [Decidable c] (vs : List α), vs.length = d / T.size →
        (if c then vs.map T.revBytes else vs).length = d / T.size := by
      intro c _ vs hvs
      split
      · rw [List.length_map, hvs]
      · exact hvs
    have hstored' : (Sized.transcodeUTF uint32 T 0 (src.take srclen) (d / T.size)).stored.length = d / T.size := hstored
    rw [hlength _ _ hstored']

/-- The size that is told as an `int` is true, in elements of `z` bytes each. -/
def Outcome.SizeTold (o : Outcome β) (z : Nat) : Prop :=
  0 < toInt o.size → toInt o.size * z < 2 ^ 31 → o.Told (toInt o.size).toNat

instance (o : Outcome β) (z : Nat) : Decidable (o.SizeTold z) := inferInstanceAs (Decidable (_ → _ → _))

/-- A call that passes on what a conversion returns, and nothing less than 0. -/
structure Passes (call conversion : Int → Converted β) : Prop where
  ret : ∀ d : Nat, (call d).ret = max (conversion d).ret 0
  stored : ∀ d : Nat, (call d).stored = (conversion d).stored

/-- **When the size of bytes is true.** -/
theorem wide2Bytes_sizeTrue (h : Progress uint32.codec T.codec) (hsize : T.size = 1 ∨ T.size = 2)
    {call : Int → Converted Byte} (hcall : Passes call fun d => Sized.wide2Bytes T byterev 0 src srclen d) :
    SizeTrue call ↔ (wideOutcome T src srclen).SizeTold T.size := by
  have hne : T.size ≠ uint32.size := by
    rcases hsize with hsize | hsize <;> rw [hsize] <;> decide
  have hcount : (call 0).ret = max (Sized.wide2Bytes T byterev 0 src srclen 0).ret 0 := hcall.ret 0
  rw [wide2Bytes_count byterev src srclen h hne] at hcount
  by_cases hpos : 0 < toInt (wideOutcome T src srclen).size
  · obtain ⟨r, hr, hrpos, hrle, hrlt⟩ := toInt_pos hpos
    rw [if_pos hpos, hr] at hcount
    rw [Outcome.SizeTold, hr, Int.toNat_natCast]
    by_cases hfits : r * T.size < 2 ^ 31
    · rw [← Int.natCast_mul, toInt_of_lt hfits, Int.max_eq_left (Int.natCast_nonneg _)] at hcount
      have hsmall : ∀ d : Nat, 0 < d → d / T.size = 0 → (call d).ret = 0 ∧ (call d).stored = [] := by
        intro d hd hnone
        rw [hcall.ret, hcall.stored, wide2Bytes_eq byterev src srclen hne, if_pos ⟨hd, hnone⟩]
        exact ⟨rfl, rfl⟩
      have hroom : ∀ d : Nat, 0 < d / T.size → d / T.size ≤ r →
          (call d).ret = (if (wideOutcome T src srclen).ToldAt (d / T.size) then (d / T.size * T.size : Nat) else 0) ∧
            (call d).stored.length = d / T.size * T.size := by
        intro d hd hle
        obtain ⟨hret, hstored⟩ := wide2Bytes_room byterev src srclen h hne hd (Nat.le_trans hle hrle)
          (Nat.lt_of_le_of_lt (Nat.mul_le_mul_right _ hle) hfits)
        rw [hcall.ret, hcall.stored, hret, hstored]
        exact ⟨Int.max_eq_left (by split <;> omega), rfl⟩
      rw [sizeTrue_iff T.size_pos hrpos hrle (replacedWithin_outcome h _ _) hcount hsmall hroom]
      refine ⟨fun htold _ _ => htold, fun htold => htold (by omega) ?_⟩
      rw [← Int.natCast_mul]
      exact Int.ofNat_lt.mpr hfits
    · -- the size in bytes is too large for an `int`, and is not told
      refine iff_of_true (fun htold => ?_) fun _ hless => ?_
      · rw [hcount, toInt] at htold
        rcases hsize with hsize | hsize <;> rw [hsize] at htold hfits <;> omega
      · rw [← Int.natCast_mul] at hless
        exact absurd (Int.ofNat_lt.mp hless) hfits
  · rw [if_neg hpos, Int.max_eq_right (Int.not_lt.mp hpos)] at hcount
    refine iff_of_true (fun htold => ?_) fun hpos' => absurd hpos' hpos
    rw [hcount] at htold
    exact absurd htold (Int.lt_irrefl 0)

/-- `Wide2Bytes` where it is a shortcut. -/
theorem wide2Bytes_noop_eq (d : Nat) :
    Sized.wide2Bytes uint32 byterev 0 src srclen d =
      if 0 < d ∧ (d / 4 = 0 ∨ d / 4 < srclen) then { ret := 0, lastError := .ERROR_INSUFFICIENT_BUFFER }
      else
        let stored := if d / 4 ≠ 0 then uint32.array (uint32.memory (src.take srclen)) srclen else []
        { ret := if (srclen : Int) > 0 then toInt (srclen * (4 : Nat)) else srclen
          stored := uint32.memory (if (srclen : Int) > 0 ∧ byterev ∧ d / 4 ≠ 0 then stored.map uint32.revBytes
            else stored) } := by
  have hsmall : ((d : Int) > 0 ∧ (d / 4 = 0 ∨ (uint32.size = uint32.size ∧ d / 4 < srclen))) ↔
      0 < d ∧ (d / 4 = 0 ∨ d / 4 < srclen) :=
    ⟨fun h => ⟨Int.natCast_pos.mp h.1, h.2.imp_right And.right⟩,
      fun h => ⟨Int.natCast_pos.mpr h.1, h.2.imp_right (And.intro rfl)⟩⟩
  rw [Sized.wide2Bytes, if_neg (show ¬(srclen : Int) < 0 by omega), Int.toNat_natCast, Int.toNat_natCast]
  by_cases hnone : 0 < d ∧ (d / 4 = 0 ∨ d / 4 < srclen)
  · exact (if_pos (hsmall.mpr hnone)).trans (if_pos hnone).symm
  · exact (if_neg (mt hsmall.mp hnone)).trans (if_neg hnone).symm

/-- **The shortcut**: four bytes for each wide character. -/
theorem wide2Bytes_noop_sizeTrue {call : Int → Converted Byte}
    (hcall : Passes call fun d => Sized.wide2Bytes uint32 byterev 0 src srclen d) :
    SizeTrue call ↔ (0 < toInt (srclen * 4 : Nat) → srclen * 4 < 2 ^ 31) := by
  by_cases hnone : srclen = 0
  · -- nothing is told
    refine iff_of_true (fun htold => ?_) fun _ => by omega
    have hcount : (call 0).ret = max (Sized.wide2Bytes uint32 byterev 0 src srclen 0).ret 0 := hcall.ret 0
    rw [hcount, hnone] at htold
    exact absurd htold (Int.lt_irrefl 0)
  have hpos : (srclen : Int) > 0 := by omega
  have hcount : (call 0).ret = max (toInt (srclen * 4 : Nat)) 0 := by
    have heq := wide2Bytes_noop_eq byterev src srclen 0
    rw [if_neg fun hboth => Nat.lt_irrefl 0 hboth.1] at heq
    have hret := congrArg Converted.ret heq
    dsimp only at hret
    rw [if_pos hpos, ← Int.natCast_mul] at hret
    exact (hcall.ret 0).trans (congrArg (max · 0) hret)
  have hless : ∀ d : Nat, 0 < d → d / 4 < srclen → (call d).ret = 0 ∧ (call d).stored = [] := by
    intro d hd hlt
    rw [hcall.ret, hcall.stored, wide2Bytes_noop_eq, if_pos ⟨hd, Or.inr hlt⟩]
    exact ⟨rfl, rfl⟩
  by_cases htold : 0 < toInt (srclen * 4 : Nat)
  · rw [Int.max_eq_left (Int.le_of_lt htold)] at hcount
    by_cases hfits : srclen * 4 < 2 ^ 31
    · refine iff_of_true (fun _ => ?_) fun _ => hfits
      rw [toInt_of_lt hfits] at hcount
      rw [hcount]
      refine ⟨?_, fun k hk hlt => ?_⟩
      · have heq := wide2Bytes_noop_eq byterev src srclen (srclen * 4)
        have hdiv : srclen * 4 / 4 = srclen := by omega
        rw [hdiv, if_neg (by omega), if_pos hpos] at heq
        rw [hcall.ret, hcall.stored, heq]
        dsimp only
        rw [← Int.natCast_mul, toInt_of_lt hfits, uint32.memory_length]
        have hlength : ∀ (c : Prop) [Decidable c] (vs : List WChar), vs.length = srclen →
            (if c then vs.map uint32.revBytes else vs).length = srclen := by
          intro c _ vs hvs
          split
          · rw [List.length_map, hvs]
          · exact hvs
        have harray : (uint32.array (uint32.memory (src.take srclen)) srclen).length = srclen :=
          (List.length_map _).trans List.length_range
        rw [if_pos hnone, hlength _ _ harray]
        exact ⟨Int.max_eq_left (Int.natCast_nonneg _), rfl⟩
      · obtain ⟨d, rfl⟩ : ∃ d : Nat, k = d := ⟨k.toNat, by omega⟩
        obtain ⟨hret, hstored⟩ := hless d (by omega) (by omega)
        rw [hret, hstored]
        exact ⟨rfl, by rw [List.length_nil]; omega⟩
    · -- a size that is not an `int`, told as if it were
      refine iff_of_false (fun h => ?_) fun h => hfits (h htold)
      obtain ⟨⟨hret, -⟩, -⟩ := h (by rw [hcount]; exact htold)
      obtain ⟨r, hr, hrpos, -, hrlt⟩ := toInt_pos htold
      rw [hcount, hr] at hret
      rw [(hless r hrpos (by omega)).1] at hret
      omega
  · rw [Int.max_eq_right (Int.not_lt.mp htold)] at hcount
    refine iff_of_true (fun h => ?_) fun h => absurd h htold
    rw [hcount] at h
    exact absurd h (Int.lt_irrefl 0)

end

/-! ## To wide characters -/

section

variable {T : BytesType α} (byterev : Bool) (src : List Byte) (srclen : Nat)

/-- What a converter that nothing stops makes of bytes. -/
def bytesOutcome (T : BytesType α) (byterev : Bool) (src : List Byte) (srclen : Int) : Outcome WChar :=
  let units := arranged T byterev (T.array src (sourceLength src srclen / T.size))
  outcome T.codec uint32.codec uint32.replacement units.length units

/-- `Bytes2Wide` where it is no shortcut. -/
theorem bytes2Wide_eq (hsize : T.size ≠ uint32.size) (d : Nat) :
    Sized.bytes2Wide T byterev 0 src srclen d
      = Sized.transcodeUTF T uint32 0 (arranged T byterev (T.array src (srclen / T.size))) d := by
  have hdone : WinPort.bytes2Wide T byterev 0 src srclen d
      = WinPort.transcodeUTF T uint32 0 (arranged T byterev (T.array src (srclen / T.size))) d := by
    rw [WinPort.bytes2Wide, if_neg (show ¬(srclen : Int) < 0 by omega), Int.toNat_natCast, Int.toNat_natCast,
      if_neg hsize]
    by_cases hrev : byterev = true ∧ srclen / T.size > 0
    · rw [if_pos hrev, hrev.1]
      rfl
    · rw [if_neg hrev]
      cases byterev with
      | false => rfl
      | true =>
        have hnone : srclen / T.size = 0 := Nat.eq_zero_of_not_pos fun hpos => hrev ⟨rfl, hpos⟩
        rw [hnone]
        rfl
  exact (if_neg hsize).trans (congrArg (fun done : Converted WChar => { done with ret := toInt done.ret }) hdone)

/-- **When the number of wide characters is true.** -/
theorem bytes2Wide_sizeTrue (h : Progress T.codec uint32.codec) (hsize : T.size ≠ uint32.size)
    {call : Int → Converted WChar} (hcall : Passes call fun d => Sized.bytes2Wide T byterev 0 src srclen d) :
    SizeTrue call ↔ (bytesOutcome T byterev src srclen).SizeTold 1 := by
  rw [bytesOutcome, sourceLength_natCast]
  have hcall' : ∀ d : Nat,
      (call d).ret
        = max (toInt (transcodeUTF T uint32 0 (arranged T byterev (T.array src (srclen / T.size))) d).ret) 0 ∧
      (call d).stored = (transcodeUTF T uint32 0 (arranged T byterev (T.array src (srclen / T.size))) d).stored := by
    intro d
    rw [hcall.ret, hcall.stored, bytes2Wide_eq byterev src srclen hsize]
    exact ⟨rfl, rfl⟩
  generalize arranged T byterev (T.array src (srclen / T.size)) = units at *
  have hcount : (call 0).ret = max (toInt (transcodeUTF T uint32 0 units 0).ret) 0 := (hcall' 0).1
  have hroom : ∀ d : Nat, 0 < d → d ≤ (outcome T.codec uint32.codec uint32.replacement units.length units).size →
      (transcodeUTF T uint32 0 units d).stored.length = d ∧
        (transcodeUTF T uint32 0 units d).ret =
          if (outcome T.codec uint32.codec uint32.replacement units.length units).ToldAt d then (d : Int) else 0 :=
    fun _ => transcodeUTF_room h units
  rw [transcodeUTF_count h units] at hcount
  generalize ho : outcome T.codec uint32.codec uint32.replacement units.length units = o at *
  by_cases hpos : 0 < toInt o.size
  · obtain ⟨r, hr, hrpos, hrle, hrlt⟩ := toInt_pos hpos
    rw [hr, Int.max_eq_left (Int.natCast_nonneg _)] at hcount
    rw [Outcome.SizeTold, hr, Int.toNat_natCast]
    have hroom' : ∀ d : Nat, 0 < d / 1 → d / 1 ≤ r →
        (call d).ret = (if o.ToldAt (d / 1) then (d / 1 * 1 : Nat) else 0) ∧ (call d).stored.length = d / 1 * 1 := by
      intro d hd hle
      rw [Nat.div_one] at hd hle ⊢
      rw [Nat.mul_one]
      obtain ⟨hstored, hret⟩ := hroom d hd (Nat.le_trans hle hrle)
      rw [(hcall' d).1, (hcall' d).2, hstored, hret]
      refine ⟨?_, rfl⟩
      split
      · rw [toInt_of_lt (by omega)]
        exact Int.max_eq_left (Int.natCast_nonneg _)
      · rfl
    have hzero : Outcome.replacedWithin 0 o.chunks = false := ho ▸ replacedWithin_outcome h _ _
    rw [sizeTrue_iff Nat.one_pos hrpos hrle hzero (by rw [Nat.mul_one]; exact hcount)
      (fun d hd hnone => by rw [Nat.div_one] at hnone; omega) hroom']
    exact ⟨fun htold _ _ => htold, fun htold => htold (by omega) (by omega)⟩
  · rw [Int.max_eq_right (Int.not_lt.mp hpos)] at hcount
    refine iff_of_true (fun htold => ?_) fun hpos' => absurd hpos' hpos
    rw [hcount] at htold
    exact absurd htold (Int.lt_irrefl 0)

/-- **The shortcut**: a wide character for each four bytes. -/
theorem bytes2Wide_noop_sizeTrue {call : Int → Converted WChar}
    (hcall : Passes call fun d => Sized.bytes2Wide uint32 byterev 0 src srclen d) : SizeTrue call := by
  have heq : ∀ d : Nat, Sized.bytes2Wide uint32 byterev 0 src srclen d =
      if d ≠ 0 then
        if d < srclen / 4 then { ret := 0, lastError := .ERROR_INSUFFICIENT_BUFFER }
        else { ret := (srclen / 4 : Nat), stored := uint32.array src (srclen / 4) }
      else { ret := (srclen / 4 : Nat) } := by
    intro d
    have hdone : Sized.bytes2Wide uint32 byterev 0 src srclen d = WinPort.bytes2Wide uint32 byterev 0 src srclen d := by
      rw [Sized.bytes2Wide]
      exact if_pos rfl
    rw [hdone, WinPort.bytes2Wide, if_neg (show ¬(srclen : Int) < 0 by omega), Int.toNat_natCast, Int.toNat_natCast]
    exact if_pos rfl
  have hcount : (call 0).ret = (srclen / 4 : Nat) := by
    have hret : (call 0).ret = max (Sized.bytes2Wide uint32 byterev 0 src srclen (0 : Nat)).ret 0 := hcall.ret 0
    rw [hret, heq 0, if_neg (not_not_intro rfl)]
    exact Int.max_eq_left (Int.natCast_nonneg _)
  intro htold
  rw [hcount] at htold ⊢
  have harray : (uint32.array src (srclen / 4)).length = srclen / 4 := (List.length_map _).trans List.length_range
  refine ⟨?_, fun k hk hlt => ?_⟩
  · rw [hcall.ret, hcall.stored, heq, if_pos (by omega), if_neg (Nat.lt_irrefl _)]
    exact ⟨Int.max_eq_left (Int.natCast_nonneg _), congrArg Nat.cast harray⟩
  · obtain ⟨d, rfl⟩ : ∃ d : Nat, k = d := ⟨k.toNat, by omega⟩
    rw [hcall.ret, hcall.stored, heq, if_pos (by omega), if_pos (by omega)]
    exact ⟨rfl, Int.le_of_lt hk⟩

end

/-! ## The code pages -/

/-- When the size of the bytes of a source is true. -/
def WideSizeTold (page : CodePage) (src : List WChar) (srclen : Int) (defchar used : Bool) : Prop :=
  srclen = 0 ∨
    match page with
    | .CP_UTF8 => defchar ∨ used ∨ (wideOutcome uint8 src srclen).SizeTold 1
    | .CP_UTF16LE | .CP_UTF16BE => (wideOutcome uint16 src srclen).SizeTold 2
    | .CP_UTF32LE | .CP_UTF32BE =>
        0 < toInt (sourceLength src srclen * 4 : Nat) → sourceLength src srclen * 4 < 2 ^ 31

/-- When the number of the wide characters of a source is true. -/
def BytesSizeTold (page : CodePage) (src : List Byte) (srclen : Int) : Prop :=
  srclen = 0 ∨
    match page with
    | .CP_UTF8 => (bytesOutcome uint8 false src srclen).SizeTold 1
    | .CP_UTF16LE => (bytesOutcome uint16 false src srclen).SizeTold 1
    | .CP_UTF16BE => (bytesOutcome uint16 true src srclen).SizeTold 1
    | .CP_UTF32LE | .CP_UTF32BE => True

theorem sourceLength_cast {γ : Type} [BEq γ] [OfNat γ 0] (src : List γ) (srclen : Int) :
    (if srclen < 0 then ((src.findIdx (· == 0) + 1 : Nat) : Int) else srclen) = sourceLength src srclen := by
  rw [sourceLength]
  split
  · rfl
  · omega

theorem wideOutcome_sourceLength (T : BytesType α) (src : List WChar) (srclen : Int) :
    wideOutcome T src (sourceLength src srclen) = wideOutcome T src srclen := by
  rw [wideOutcome, sourceLength_natCast, wideOutcome]

theorem bytesOutcome_sourceLength (T : BytesType α) (byterev : Bool) (src : List Byte) (srclen : Int) :
    bytesOutcome T byterev src (sourceLength src srclen) = bytesOutcome T byterev src srclen := by
  rw [bytesOutcome, sourceLength_natCast, bytesOutcome]

/-- What fails returns 0. -/
theorem passes_failed {call : Int → Converted β} (conversion : Int → Converted β) {p : Int → Prop} [DecidablePred p]
    (hp : ∀ ret, ret < 0 → p ret) (hp' : ∀ ret, p ret → ret ≤ 0)
    (h : ∀ d : Nat, call d = if p (conversion d).ret then failed (conversion d) else conversion d) :
    Passes call conversion := by
  refine ⟨fun d => ?_, fun d => ?_⟩
  · rw [h]
    split
    · next h => exact (Int.max_eq_right (hp' _ h)).symm
    · next h => exact (Int.max_eq_left (Int.not_lt.mp (mt (hp _) h))).symm
  · rw [h]
    split <;> rfl

theorem sizeTrue_none {call : Int → Converted β} (h : (call 0).ret = 0) : SizeTrue call := fun hpos =>
  absurd hpos (by rw [h]; exact Int.lt_irrefl 0)

/-- **When `WideCharToMultiByte` tells the truth.** -/
theorem wideCharToMultiByte_sizeTrue (page : CodePage) (src : List WChar) (srclen : Int) (defchar used : Bool) :
    SizeTrue (fun d => Sized.wideCharToMultiByte page 0 src srclen d defchar used) ↔
      WideSizeTold page src srclen defchar used := by
  by_cases hnone : srclen = 0
  · refine iff_of_true (sizeTrue_none ?_) (Or.inl hnone)
    rw [Sized.wideCharToMultiByte, if_pos (Or.inl hnone)]
  have hpasses : Passes (fun d => Sized.wideCharToMultiByte page 0 src srclen d defchar used)
      (fun d => Sized.toPage page 0 src (sourceLength src srclen) d defchar used) :=
    passes_failed _ (p := (· < 0)) (fun _ h => h) (fun _ => Int.le_of_lt) fun d => by
      rw [Sized.wideCharToMultiByte, if_neg (by omega), sourceLength_cast]
  refine Iff.trans ?_ (or_iff_right hnone).symm
  cases page with
  | CP_UTF8 =>
    by_cases hdefault : defchar = true ∨ used = true
    · have hinvalid : ∀ d, Sized.toPage .CP_UTF8 0 src (sourceLength src srclen) d defchar used
          = { ret := 0, lastError := .ERROR_INVALID_PARAMETER } := fun d => if_pos hdefault
      refine iff_of_true (sizeTrue_none ?_) (hdefault.imp_right Or.inl)
      exact (hpasses.ret 0).trans (congrArg (fun done : Converted Byte => max done.ret 0) (hinvalid 0))
    · have hutf8 : (fun d => Sized.toPage .CP_UTF8 0 src (sourceLength src srclen) d defchar used)
          = fun d => Sized.wide2Bytes uint8 false 0 src (sourceLength src srclen) d := funext fun d => if_neg hdefault
      rw [hutf8] at hpasses
      have htrue := wide2Bytes_sizeTrue (T := uint8) false src _ progress_to8 (Or.inl rfl) hpasses
      rw [wideOutcome_sourceLength] at htrue
      have hside : (defchar = true ∨ used = true ∨ (wideOutcome uint8 src srclen).SizeTold 1) ↔
          (wideOutcome uint8 src srclen).SizeTold 1 := by rw [← or_assoc, or_iff_right hdefault]
      exact htrue.trans hside.symm
  | CP_UTF16LE =>
    have htrue := wide2Bytes_sizeTrue (T := uint16) false src _ progress_to16 (Or.inr rfl) hpasses
    rw [wideOutcome_sourceLength] at htrue
    exact htrue
  | CP_UTF16BE =>
    have htrue := wide2Bytes_sizeTrue (T := uint16) true src _ progress_to16 (Or.inr rfl) hpasses
    rw [wideOutcome_sourceLength] at htrue
    exact htrue
  | CP_UTF32LE => exact wide2Bytes_noop_sizeTrue false src _ hpasses
  | CP_UTF32BE => exact wide2Bytes_noop_sizeTrue true src _ hpasses

/-- **When `MultiByteToWideChar` tells the truth.** -/
theorem multiByteToWideChar_sizeTrue (page : CodePage) (src : List Byte) (srclen : Int) :
    SizeTrue (fun d => Sized.multiByteToWideChar page 0 src srclen d) ↔ BytesSizeTold page src srclen := by
  by_cases hnone : srclen = 0
  · refine iff_of_true (sizeTrue_none ?_) (Or.inl hnone)
    rw [Sized.multiByteToWideChar, if_pos (Or.inl hnone)]
  have hpasses : Passes (fun d => Sized.multiByteToWideChar page 0 src srclen d)
      (fun d => Sized.fromPage page 0 src (sourceLength src srclen) d) :=
    passes_failed _ (p := (· ≤ 0)) (fun _ => Int.le_of_lt) (fun _ h => h) fun d => by
      rw [Sized.multiByteToWideChar, if_neg (by omega), sourceLength_cast]
  refine Iff.trans ?_ (or_iff_right hnone).symm
  cases page with
  | CP_UTF8 =>
    have htrue := bytes2Wide_sizeTrue (T := uint8) false src _ progress_from8 (by decide) hpasses
    rw [bytesOutcome_sourceLength] at htrue
    exact htrue
  | CP_UTF16LE =>
    have htrue := bytes2Wide_sizeTrue (T := uint16) false src _ progress_from16 (by decide) hpasses
    rw [bytesOutcome_sourceLength] at htrue
    exact htrue
  | CP_UTF16BE =>
    have htrue := bytes2Wide_sizeTrue (T := uint16) true src _ progress_from16 (by decide) hpasses
    rw [bytesOutcome_sourceLength] at htrue
    exact htrue
  | CP_UTF32LE => exact iff_of_true (bytes2Wide_noop_sizeTrue false src _ hpasses) trivial
  | CP_UTF32BE => exact iff_of_true (bytes2Wide_noop_sizeTrue true src _ hpasses) trivial

/-- **When the size query tells the truth**, for every code page and source. -/
theorem sizeQuery_true_iff (page : CodePage) :
    (∀ (src : List WChar) (srclen : Int) (defchar used : Bool),
      SizeTrue (fun d => Sized.wideCharToMultiByte page 0 src srclen d defchar used) ↔
        WideSizeTold page src srclen defchar used) ∧
    ∀ (src : List Byte) (srclen : Int),
      SizeTrue (fun d => Sized.multiByteToWideChar page 0 src srclen d) ↔ BytesSizeTold page src srclen :=
  ⟨wideCharToMultiByte_sizeTrue page, multiByteToWideChar_sizeTrue page⟩

/-- A letter and a character that is cut off: 1 is told, and a buffer of 1 is too small. -/
theorem size_of_cut_character :
    ¬∀ (page : CodePage) (src : List Byte) (srclen : Int),
      SizeTrue fun d => Sized.multiByteToWideChar page 0 src srclen d := by
  intro h
  have htold : (Sized.multiByteToWideChar .CP_UTF8 0 [0x41, 0xC3] 2 0).ret = 1 := by decide
  obtain ⟨⟨hret, -⟩, -⟩ := h .CP_UTF8 [0x41, 0xC3] 2 (by rw [htold]; exact Int.one_pos)
  rw [htold] at hret
  exact absurd hret (by decide)

end Far2l.WinPort
