/-
Far2l.File.CachedWrite — a file that is written in portions: `CachedWrite` of
`far/src/cache.cpp`.

The buffer has been allocated. The flush of the destructor is left out: where it
still writes, the file has been closed.
-/
import Far2l.Utils.Chars
import Mathlib.Data.List.Basic

namespace Far2l.File

/-! ## Files -/

/-- How the writes to a file go: the n-th stores all its bytes, or so many of them and fails. -/
abbrev Writes := Nat → Option Nat

/-- Every write stores all its bytes. -/
def Writes.perfect : Writes := fun _ => none

/-- A file that is open for writing: what is in it, and how often it has been written to. -/
structure OpenFile where
  content : List Byte := []
  writes : Nat := 0
deriving DecidableEq

/-- `File::Write`, and whether all the bytes have been stored. -/
def OpenFile.write (outcome : Writes) (file : OpenFile) (data : List Byte) : Bool × OpenFile :=
  match outcome file.writes with
  | none => (true, { content := file.content ++ data, writes := file.writes + 1 })
  | some n => (false, { content := file.content ++ data.take n, writes := file.writes + 1 })

/-! ## The buffer -/

/-- `BufferSize` -/
def BufferSize : Nat := 0x10000

theorem nothing_flushed : false = true → ([] : List Byte) = [] := fun _ => rfl

/-- `CachedWrite`; `buffer` is its filled part, of which nothing is left after a flush. -/
structure CachedWrite where
  buffer : List Byte := []
  flushed : Bool := false
  file : OpenFile := {}
  empty_of_flushed : flushed = true → buffer = [] := by first | exact nothing_flushed | decide

namespace CachedWrite

/-- `FreeSize` -/
def freeSize (c : CachedWrite) : Nat := BufferSize - c.buffer.length

/-- What is to be in the file once the buffer has been flushed. -/
def written (c : CachedWrite) : List Byte := c.file.content ++ c.buffer

/-- `Flush` -/
def flush (outcome : Writes) (c : CachedWrite) : Bool × CachedWrite :=
  if c.flushed then (true, c)
  else
    match c.file.write outcome c.buffer with
    | (true, file) => (true, { buffer := [], flushed := true, file, empty_of_flushed := fun _ => rfl })
    | (false, file) => (false, { c with file })

/-- The part of `Write` behind its flush. -/
def put (data : List Byte) (outcome : Writes) (c : CachedWrite) : Bool × CachedWrite :=
  if data.length > c.freeSize then
    match c.file.write outcome data with
    | (result, file) => (result, { c with file })
  else (true, { c with buffer := c.buffer ++ data, flushed := false, empty_of_flushed := nofun })

/-- `Write` -/
def write (data : List Byte) (outcome : Writes) (c : CachedWrite) : Bool × CachedWrite :=
  match if data.length > c.freeSize then c.flush outcome else (true, c) with
  | (true, c) => put data outcome c
  | (false, c) => (false, c)

/-- One write after the other, up to the first that fails. -/
def writeAll (outcome : Writes) : List (List Byte) → CachedWrite → Bool × CachedWrite
  | [], c => (true, c)
  | data :: rest, c =>
      match c.write data outcome with
      | (true, c) => writeAll outcome rest c
      | (false, c) => (false, c)

end CachedWrite

/-! ## Steps of a writer -/

/-- A step that tells whether it has succeeded. -/
abbrev WriterStep := Writes → CachedWrite → Bool × CachedWrite

/-- The writes that a step makes where none fails all go well. -/
def WriterStep.AllGood (X : WriterStep) (outcome : Writes) (c : CachedWrite) : Prop :=
  ∀ i, c.file.writes ≤ i → i < (X .perfect c).2.file.writes → outcome i = none

/-- **A step reports its writes**: where none fails it adds `data` to what is in the file and the
buffer; where those that it then makes all go well, it is the same step; and else it fails, after a
write that has failed. -/
structure Reports (X : WriterStep) (c : CachedWrite) (data : List Byte) : Prop where
  perfect : (X .perfect c).1 = true
  adds : (X .perfect c).2.written = c.written ++ data
  more : c.file.writes ≤ (X .perfect c).2.file.writes
  same : ∀ outcome, X.AllGood outcome c → X outcome c = X .perfect c
  fails : ∀ outcome, ¬ X.AllGood outcome c → (X outcome c).1 = false
    ∧ ∃ i, c.file.writes ≤ i ∧ i < (X outcome c).2.file.writes ∧ outcome i ≠ none

/-- Two steps, the second where the first has succeeded. -/
def WriterStep.andThen (X Y : WriterStep) : WriterStep := fun outcome c =>
  match X outcome c with
  | (true, c) => Y outcome c
  | (false, c) => (false, c)

section

variable {X Y : WriterStep} {data data' : List Byte} {outcome : Writes} {c : CachedWrite}

theorem WriterStep.andThen_of_true (h : (X outcome c).1 = true) :
    X.andThen Y outcome c = Y outcome (X outcome c).2 := by
  rw [andThen]
  rcases hX : X outcome c with ⟨_ | _, c'⟩
  · rw [hX] at h
    exact nomatch h
  · rfl

theorem WriterStep.andThen_of_false (h : (X outcome c).1 = false) :
    X.andThen Y outcome c = (false, (X outcome c).2) := by
  rw [andThen]
  rcases hX : X outcome c with ⟨_ | _, c'⟩
  · rfl
  · rw [hX] at h
    exact nomatch h

theorem Reports.andThen (hX : Reports X c data) (hY : Reports Y (X .perfect c).2 data') :
    Reports (X.andThen Y) c (data ++ data') := by
  have hperfect : X.andThen Y .perfect c = Y .perfect (X .perfect c).2 :=
    WriterStep.andThen_of_true hX.perfect
  refine ⟨?_, ?_, ?_, fun outcome h => ?_, fun outcome h => ?_⟩
  · rw [hperfect]
    exact hY.perfect
  · rw [hperfect, hY.adds, hX.adds, List.append_assoc]
  · rw [hperfect]
    exact Nat.le_trans hX.more hY.more
  · rw [WriterStep.AllGood, hperfect] at h
    have hsame := hX.same outcome fun i hle hlt => h i hle (Nat.lt_of_lt_of_le hlt hY.more)
    rw [hperfect, WriterStep.andThen_of_true (hsame ▸ hX.perfect), hsame]
    exact hY.same outcome fun i hle hlt => h i (Nat.le_trans hX.more hle) hlt
  · rw [WriterStep.AllGood, hperfect] at h
    by_cases hgood : X.AllGood outcome c
    · have hsame := hX.same outcome hgood
      -- the write that fails is one of the second step
      have hsecond : ¬ Y.AllGood outcome (X .perfect c).2 := by
        intro hgood'
        refine h fun i hle hlt => ?_
        by_cases hi : i < (X .perfect c).2.file.writes
        · exact hgood i hle hi
        · exact hgood' i (Nat.le_of_not_lt hi) hlt
      obtain ⟨hres, i, hle, hlt, hfail⟩ := hY.fails outcome hsecond
      rw [WriterStep.andThen_of_true (hsame ▸ hX.perfect), hsame]
      exact ⟨hres, i, Nat.le_trans hX.more hle, hlt, hfail⟩
    · obtain ⟨hres, hfail⟩ := hX.fails outcome hgood
      rw [WriterStep.andThen_of_false hres]
      exact ⟨rfl, hfail⟩

theorem Reports.congr (hX : Reports X c data) (h : ∀ outcome, Y outcome c = X outcome c) :
    Reports Y c data := by
  refine ⟨?_, ?_, ?_, fun outcome hgood => ?_, fun outcome hgood => ?_⟩
  · rw [h]
    exact hX.perfect
  · rw [h]
    exact hX.adds
  · rw [h]
    exact hX.more
  · rw [WriterStep.AllGood, h] at hgood
    rw [h, h]
    exact hX.same outcome hgood
  · rw [WriterStep.AllGood, h] at hgood
    rw [h]
    exact hX.fails outcome hgood

/-- A step that makes one write. -/
theorem Reports.one (hperfect : (X .perfect c).1 = true)
    (hadds : (X .perfect c).2.written = c.written ++ data)
    (hwrites : ∀ outcome, (X outcome c).2.file.writes = c.file.writes + 1)
    (hsame : ∀ outcome, outcome c.file.writes = none → X outcome c = X .perfect c)
    (hfails : ∀ outcome, outcome c.file.writes ≠ none → (X outcome c).1 = false) :
    Reports X c data := by
  have hgood : ∀ outcome, X.AllGood outcome c ↔ outcome c.file.writes = none := by
    intro outcome
    rw [WriterStep.AllGood, hwrites]
    refine ⟨fun h => h _ (Nat.le_refl _) (Nat.lt_succ_self _), fun hnone i hle hlt => ?_⟩
    obtain rfl : i = c.file.writes := by omega
    exact hnone
  refine ⟨hperfect, hadds, by rw [hwrites]; exact Nat.le_succ _, fun outcome h => ?_,
    fun outcome h => ?_⟩
  · exact hsame outcome ((hgood outcome).mp h)
  · have hne := fun hnone => h ((hgood outcome).mpr hnone)
    exact ⟨hfails outcome hne, _, Nat.le_refl _, by rw [hwrites]; exact Nat.lt_succ_self _, hne⟩

/-- A step that makes none. -/
theorem Reports.none (hsame : ∀ outcome, X outcome c = X .perfect c)
    (hperfect : (X .perfect c).1 = true) (hadds : (X .perfect c).2.written = c.written ++ data)
    (hwrites : (X .perfect c).2.file.writes = c.file.writes) : Reports X c data :=
  ⟨hperfect, hadds, Nat.le_of_eq hwrites.symm, fun outcome _ => hsame outcome,
    fun outcome h => absurd (fun i hle hlt => absurd hle (by omega)) h⟩

end

theorem OpenFile.write_of_none {outcome : Writes} {file : OpenFile} {data : List Byte}
    (h : outcome file.writes = none) : file.write outcome data
      = (true, { content := file.content ++ data, writes := file.writes + 1 }) := by
  rw [write, h]

theorem OpenFile.write_of_some {outcome : Writes} {file : OpenFile} {data : List Byte} {n : Nat}
    (h : outcome file.writes = some n) : file.write outcome data
      = (false, { content := file.content ++ data.take n, writes := file.writes + 1 }) := by
  rw [write, h]

namespace CachedWrite

variable {outcome : Writes} {c : CachedWrite}

theorem flush_of_none (hflushed : c.flushed = false) (h : outcome c.file.writes = none) :
    c.flush outcome = (true, { flushed := true, file := (c.file.write .perfect c.buffer).2 }) := by
  rw [flush, if_neg (by rw [hflushed]; decide), OpenFile.write_of_none h]
  rfl

theorem flush_of_some {n : Nat} (hflushed : c.flushed = false) (h : outcome c.file.writes = some n) :
    c.flush outcome = (false, { c with file := (c.file.write outcome c.buffer).2 }) := by
  rw [flush, if_neg (by rw [hflushed]; decide), OpenFile.write_of_some h]

/-- **`Flush` adds nothing.** -/
theorem reports_flush (c : CachedWrite) : Reports (fun outcome c => c.flush outcome) c [] := by
  cases hflushed : c.flushed with
  | true =>
    have hflush : ∀ outcome, c.flush outcome = (true, c) := fun outcome => if_pos hflushed
    refine .none (fun outcome => (hflush outcome).trans (hflush _).symm) ?_ ?_ ?_
    · exact congrArg Prod.fst (hflush _)
    · exact (congrArg (fun r => written r.2) (hflush _)).trans (List.append_nil _).symm
    · exact congrArg (fun r => r.2.file.writes) (hflush _)
  | false =>
    refine .one ?_ ?_ (fun outcome => ?_) (fun outcome hnone => ?_) fun outcome hne => ?_
    · rw [flush_of_none hflushed rfl]
    · rw [flush_of_none hflushed rfl]
      rfl
    · cases h : outcome c.file.writes with
      | none =>
        rw [flush_of_none hflushed h]
        rfl
      | some n =>
        rw [flush_of_some hflushed h, OpenFile.write_of_some h]
    · rw [flush_of_none hflushed hnone, flush_of_none hflushed rfl]
    · obtain ⟨n, h⟩ := Option.ne_none_iff_exists'.mp hne
      rw [flush_of_some hflushed h]

/-- A flush that has succeeded has emptied the buffer. -/
theorem buffer_flush (c : CachedWrite) : (c.flush .perfect).2.buffer = [] := by
  cases hflushed : c.flushed with
  | true =>
    rw [flush, if_pos hflushed]
    exact c.empty_of_flushed hflushed
  | false => rw [flush_of_none hflushed rfl]

/-- What does not fit in is put into the file only when the buffer is empty. -/
theorem reports_put (data : List Byte) (h : data.length > c.freeSize → c.buffer = []) :
    Reports (put data) c data := by
  by_cases hlt : data.length > c.freeSize
  · have hput : ∀ outcome, put data outcome c
        = ((c.file.write outcome data).1, { c with file := (c.file.write outcome data).2 }) :=
      fun outcome => if_pos hlt
    refine .one ?_ ?_ (fun outcome => ?_) (fun outcome hnone => ?_) fun outcome hne => ?_
    · rw [hput]
      rfl
    · rw [hput]
      show (c.file.content ++ data) ++ c.buffer = (c.file.content ++ c.buffer) ++ data
      rw [h hlt, List.append_nil, List.append_nil]
    · rw [hput]
      cases h : outcome c.file.writes with
      | none => rw [OpenFile.write_of_none h]
      | some n => rw [OpenFile.write_of_some h]
    · rw [hput, hput, OpenFile.write_of_none hnone]
      rfl
    · obtain ⟨n, h⟩ := Option.ne_none_iff_exists'.mp hne
      rw [hput, OpenFile.write_of_some h]
  · have hput : ∀ outcome, put data outcome c
        = (true, { c with buffer := c.buffer ++ data, flushed := false, empty_of_flushed := nofun }) :=
      fun outcome => if_neg hlt
    refine .none (fun outcome => (hput outcome).trans (hput _).symm) ?_ ?_ ?_
    · rw [hput]
    · rw [hput, written, written, List.append_assoc]
    · rw [hput]

/-- **`Write` adds its data.** -/
theorem reports_write (c : CachedWrite) (data : List Byte) : Reports (write data) c data := by
  by_cases hlt : data.length > c.freeSize
  · have hwrite : ∀ outcome, write data outcome c
        = WriterStep.andThen (fun outcome c => c.flush outcome) (put data) outcome c := by
      intro outcome
      rw [write, if_pos hlt]
      rfl
    have hsteps := (reports_flush c).andThen (reports_put data fun _ => buffer_flush c)
    rw [List.nil_append] at hsteps
    exact hsteps.congr hwrite
  · have hwrite : ∀ outcome, write data outcome c = put data outcome c := by
      intro outcome
      rw [write, if_neg hlt]
    exact (reports_put data fun h => absurd h hlt).congr hwrite

/-- **All writes add all their data.** -/
theorem reports_writeAll : ∀ (datas : List (List Byte)) (c : CachedWrite),
    Reports (fun outcome c => writeAll outcome datas c) c datas.flatten
  | [], c => .none (fun _ => rfl) rfl (List.append_nil _).symm rfl
  | data :: rest, c => (reports_write c data).andThen (reports_writeAll rest _)

end CachedWrite

end Far2l.File

/-! # The stream that a `CachedWrite` writes.

A write to the file stores everything or nothing. What is in the file and behind it
in the buffer is then what has been accepted, after every call; a step keeps that
whether its writes succeed or fail. -/

namespace Far2l.File.CachedWrite

/-- Writes that store everything, or nothing and fail. -/
def wholeWrites (succeeds : Nat → Bool) : Writes := fun n => if succeeds n then none else some 0

/-- A call. -/
inductive Call where
  | write (data : List Byte)
  | flush

/-- The writer, and the blocks whose `Write` has returned true. -/
structure Stream where
  writer : CachedWrite
  accepted : List Byte := []

variable {succeeds : Nat → Bool}

/-- A call is made. -/
def Stream.call (succeeds : Nat → Bool) (S : Stream) : Call → Stream
  | .write data =>
      let r := S.writer.write data (wholeWrites succeeds)
      { writer := r.2, accepted := if r.1 then S.accepted ++ data else S.accepted }
  | .flush => { S with writer := (S.writer.flush (wholeWrites succeeds)).2 }

/-- A writer to a file that is there. -/
def Stream.start (content : List Byte) : Stream := { writer := { file := { content } } }

/-- A call after the other. -/
def Stream.run (succeeds : Nat → Bool) (content : List Byte) (calls : List Call) : Stream :=
  calls.foldl (Stream.call succeeds) (.start content)

/-- `Flush`: where it fails, it leaves the writer with its buffer. -/
theorem flush_whole (c : CachedWrite) :
    ((c.flush (wholeWrites succeeds)).1 = true ↔ c.flushed = true ∨ succeeds c.file.writes = true)
    ∧ (c.flush (wholeWrites succeeds)).2.written = c.written
    ∧ (c.flush (wholeWrites succeeds)).2.buffer
        = if (c.flush (wholeWrites succeeds)).1 then [] else c.buffer := by
  cases hflushed : c.flushed with
  | true =>
    rw [flush, if_pos hflushed]
    exact ⟨iff_of_true rfl (.inl rfl), rfl, c.empty_of_flushed hflushed⟩
  | false =>
    cases hsucceeds : succeeds c.file.writes with
    | true =>
      have hnone : wholeWrites succeeds c.file.writes = none := if_pos hsucceeds
      rw [flush_of_none hflushed hnone]
      exact ⟨iff_of_true rfl (.inr rfl), List.append_nil _, rfl⟩
    | false =>
      have hsome : wholeWrites succeeds c.file.writes = some 0 :=
        if_neg (by rw [hsucceeds]; exact Bool.false_ne_true)
      rw [flush_of_some hflushed hsome, OpenFile.write_of_some hsome]
      refine ⟨by simp, ?_, rfl⟩
      rw [written, List.take_zero, List.append_nil]
      rfl

/-- The part behind the flush: the block is in the buffer, in the file behind nothing, or nowhere. -/
theorem put_whole (data : List Byte) {c : CachedWrite} (hroom : data.length > c.freeSize → c.buffer = []) :
    (put data (wholeWrites succeeds) c).2.written
      = if (put data (wholeWrites succeeds) c).1 then c.written ++ data else c.written := by
  rw [put]
  split
  · next hlarge =>
    have hempty := hroom hlarge
    cases hsucceeds : succeeds c.file.writes with
    | true =>
      rw [OpenFile.write_of_none (if_pos hsucceeds)]
      simp [written, hempty]
    | false =>
      rw [OpenFile.write_of_some (if_neg (by rw [hsucceeds]; exact Bool.false_ne_true))]
      simp [written]
  · exact (List.append_assoc _ _ _).symm

/-- **`Write` adds the block that it accepts**, and nothing else. -/
theorem write_whole (data : List Byte) (c : CachedWrite) :
    (c.write data (wholeWrites succeeds)).2.written
      = if (c.write data (wholeWrites succeeds)).1 then c.written ++ data else c.written := by
  by_cases hlarge : data.length > c.freeSize
  · obtain ⟨-, hwritten, hbuffer⟩ := @flush_whole succeeds c
    rw [write, if_pos hlarge]
    rcases hflush : c.flush (wholeWrites succeeds) with ⟨_ | _, c'⟩
    · rw [hflush] at hwritten
      exact hwritten
    · rw [hflush] at hwritten hbuffer
      have hempty : c'.buffer = [] := hbuffer
      have hsame : c'.written = c.written := hwritten
      dsimp only
      rw [put_whole data fun _ => hempty, hsame]
  · rw [write, if_neg hlarge]
    exact put_whole data fun h => absurd h hlarge

/-- A call keeps the stream. -/
theorem call_written (S : Stream) (call : Call) {base : List Byte} (h : S.writer.written = base ++ S.accepted) :
    (S.call succeeds call).writer.written = base ++ (S.call succeeds call).accepted := by
  cases call with
  | flush => exact (flush_whole S.writer).2.1.trans h
  | write data =>
    have hwrite := @write_whole succeeds data S.writer
    rw [h] at hwrite
    refine hwrite.trans ?_
    show _ = base ++ if (S.writer.write data (wholeWrites succeeds)).1 then _ else _
    split
    · rw [List.append_assoc]
    · rfl

theorem run_written (base : List Byte) (calls : List Call) :
    (Stream.run succeeds base calls).writer.written = base ++ (Stream.run succeeds base calls).accepted := by
  have hfold : ∀ (calls : List Call) (S : Stream), S.writer.written = base ++ S.accepted →
      (calls.foldl (Stream.call succeeds) S).writer.written
        = base ++ (calls.foldl (Stream.call succeeds) S).accepted := by
    intro calls
    induction calls with
    | nil => exact fun S h => h
    | cons call calls ih => exact fun S h => ih _ (call_written S call h)
  exact hfold calls _ rfl

/-- **The stream is preserved.** After any calls the file and the buffer hold the accepted blocks in
their order. `Flush` tells whether they are all in the file, but where its write of no bytes fails. -/
theorem run_stream (succeeds : Nat → Bool) (base : List Byte) (calls : List Call) :
    let S := Stream.run succeeds base calls
    let r := S.writer.flush (wholeWrites succeeds)
    S.writer.file.content ++ S.writer.buffer = base ++ S.accepted
    ∧ (r.1 = true ↔ r.2.file.content = base ++ S.accepted
        ∧ ¬(S.writer.buffer = [] ∧ S.writer.flushed = false ∧ succeeds S.writer.file.writes = false)) := by
  intro S r
  have hstream : S.writer.written = base ++ S.accepted := run_written base calls
  obtain ⟨hresult, hwritten, hbuffer⟩ := @flush_whole succeeds S.writer
  have hrest : r.2.file.content ++ r.2.buffer = base ++ S.accepted := hwritten.trans hstream
  refine ⟨hstream, fun htrue => ⟨?_, fun hempty => ?_⟩, fun ⟨hcontent, hwrites⟩ => ?_⟩
  · have hnil : r.2.buffer = [] := hbuffer.trans (if_pos htrue)
    rwa [hnil, List.append_nil] at hrest
  · rcases hresult.mp htrue with hflushed | hsucceeds
    · rw [hempty.2.1] at hflushed
      exact nomatch hflushed
    · rw [hempty.2.2] at hsucceeds
      exact nomatch hsucceeds
  · by_contra hfalse
    have hkept : r.2.buffer = S.writer.buffer := hbuffer.trans (if_neg hfalse)
    rw [hcontent, hkept, List.append_right_eq_self] at hrest
    rw [hresult, not_or, Bool.not_eq_true, Bool.not_eq_true] at hfalse
    exact hwrites ⟨hrest, hfalse⟩

/-- **Nothing has been accepted, and `Flush` fails**: its write of no bytes does. -/
theorem flush_nothing_fails :
    let S := Stream.run (fun _ => false) [] []
    let r := S.writer.flush (wholeWrites fun _ => false)
    ¬(r.1 = true ↔ r.2.file.content = S.accepted) := by
  decide

end Far2l.File.CachedWrite
