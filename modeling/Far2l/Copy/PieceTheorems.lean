/-
Far2l.Copy.PieceTheorems — the files are in step after every piece of a copy.

Between two pieces the destination is what was there before followed by what has
been read of the source. One write breaks this: an unbuffered one that takes more
than was read and less than it was given. `PieceCopy` steps back over the whole
page then, and what lies between is lost. The invariants count it.
-/
import Far2l.Copy.FileTransfer
import Mathlib.Data.List.Basic
import Mathlib.Data.List.TakeWhile

namespace Far2l.Copy

/-! ## Lost bytes -/

/-- The destination has taken more than was read, and not all it was given. -/
def Piece.Overlong (p : Piece) : Prop :=
  p.bytesRead < p.bytesWritten ∧ p.bytesWritten < p.writeSize

instance (p : Piece) : Decidable p.Overlong := inferInstanceAs (Decidable (_ ∧ _))

/-- How far `PieceCopy` steps back too far. -/
def Piece.lost (p : Piece) : Nat := if p.Overlong then p.writeSize - p.bytesWritten else 0

/-- The bytes that are missing after some pieces. -/
def lost (pieces : List Piece) : Nat := (pieces.map Piece.lost).sum

theorem lost_append (pieces : List Piece) (p : Piece) :
    lost (pieces ++ [p]) = lost pieces + p.lost := by
  simp [lost]

theorem Piece.lost_eq_zero {p : Piece} : p.lost = 0 ↔ ¬p.Overlong := by
  rw [Piece.lost]
  split
  · next h =>
    have hlt := h.2
    exact iff_of_false (by omega) (not_not.mpr h)
  · next h => exact iff_of_true rfl h

theorem lost_eq_zero : ∀ {pieces : List Piece}, lost pieces = 0 ↔ ∀ p ∈ pieces, ¬p.Overlong
  | [] => by simp [lost]
  | p :: pieces => by
    have hcons : lost (p :: pieces) = p.lost + lost pieces := by simp [lost]
    rw [hcons, Nat.add_eq_zero_iff, Piece.lost_eq_zero, lost_eq_zero, List.forall_mem_cons]

/-! ## Holes -/

/-- A hole is inside the data and holds zeroes, and without one all data comes before it. -/
theorem lookupFrom_spec (data : List Byte) : ∀ (fuel i : Nat),
    (lookupFrom data fuel i).1 + (lookupFrom data fuel i).2 ≤ data.length
      ∧ (data.drop (lookupFrom data fuel i).1).take (lookupFrom data fuel i).2
          = List.replicate (lookupFrom data fuel i).2 0
      ∧ ((lookupFrom data fuel i).2 = 0 → (lookupFrom data fuel i).1 = data.length)
  | 0, _ => by simp [lookupFrom]
  | fuel + 1, i => by
    rw [lookupFrom]
    split
    · next hi =>
      dsimp only
      generalize hzeroes : (data.drop i).takeWhile (· = 0) = zeroes
      split
      · next hpage =>
        have hle : zeroes.length / PAGE * PAGE ≤ zeroes.length := Nat.div_mul_le_self _ _
        have hpre : zeroes <+: data.drop i := hzeroes ▸ List.takeWhile_prefix _
        have hzero : zeroes = List.replicate zeroes.length 0 := by
          refine List.eq_replicate_iff.mpr ⟨rfl, fun b hb => ?_⟩
          rw [← hzeroes] at hb
          have hp := List.mem_takeWhile_imp hb
          exact of_decide_eq_true hp
        have hlen := hpre.length_le
        rw [List.length_drop] at hlen
        refine ⟨by omega, ?_, fun h0 => ?_⟩
        · have htake := List.prefix_iff_eq_take.mp hpre
          calc (data.drop i).take (zeroes.length / PAGE * PAGE)
              = ((data.drop i).take zeroes.length).take (zeroes.length / PAGE * PAGE) := by
                rw [List.take_take, Nat.min_eq_left hle]
            _ = zeroes.take (zeroes.length / PAGE * PAGE) := by rw [← htake]
            _ = List.replicate (zeroes.length / PAGE * PAGE) 0 := by
                rw [hzero, List.take_replicate, List.length_replicate, Nat.min_eq_left hle]
        · have hdiv : 0 < zeroes.length / PAGE := Nat.div_pos hpage (by decide)
          have hpos : 0 < zeroes.length / PAGE * PAGE := Nat.mul_pos hdiv (by decide)
          omega
      · exact lookupFrom_spec data fuel (i + PAGE)
    · exact ⟨Nat.le_refl _, by simp, fun _ => rfl⟩

theorem lookupNextHole_spec (data : List Byte) (offset : Nat) :
    (lookupNextHole data offset).1 + (lookupNextHole data offset).2 ≤ data.length
      ∧ (data.drop (lookupNextHole data offset).1).take (lookupNextHole data offset).2
          = List.replicate (lookupNextHole data offset).2 0
      ∧ ((lookupNextHole data offset).2 = 0 → (lookupNextHole data offset).1 = data.length) :=
  lookupFrom_spec data _ _

theorem le_alignPageUp (v : Nat) : v ≤ alignPageUp v := by
  rw [alignPageUp]
  split <;> omega

/-- A page that begins inside the buffer ends inside it. -/
theorem alignPageUp_le {v capacity : Nat} (h : v ≤ capacity) (hpage : capacity % PAGE = 0) :
    alignPageUp v ≤ capacity := by
  rw [alignPageUp]
  split
  · exact h
  · next hv =>
    rw [PAGE] at *
    omega

/-! ## The invariants -/

/-- Unbuffered writes are possible: the file is large and written through, and not sparse. -/
def Task.Unbuffered (t : Task) : Prop :=
  t.writeThrough = true ∧ t.sparseFiles = false ∧ t.src.length > 32 * PAGE

namespace ShellFileTransfer

/-- What the destructor relies on. -/
structure Kept (t : Task) (T : ShellFileTransfer) : Prop where
  src : T.srcFile.content = t.src
  appendPos : T.appendPos = if t.append then some t.dest.length else none
  notDone : T.isDone = false
  destExists : T.destExists = true
  sparseFiles : T.sparseFiles = t.sparseFiles
  noBuffering : T.noBuffering = true → t.writeThrough = true ∧ t.src.length > 32 * PAGE
  unbuffered : ∀ p ∈ T.pieces, p.Overlong → t.Unbuffered
  previous : lost T.pieces = 0 → t.previous <+: T.destFile.content

/-- `r` bytes of the source have been read behind the first `s` ones, and `data` has been written. -/
structure Written (t : Task) (s r : Nat) (data : List Byte) (T : ShellFileTransfer) : Prop
    extends Kept t T where
  isOpen : T.destFile.isOpen = true
  srcPos : T.srcFile.pos = s + r
  srcLe : s + r ≤ t.src.length
  pos : T.destFile.pos + lost T.pieces = t.previous.length + s + data.length
  length : T.destFile.content.length ≤ T.destFile.pos
  /-- Only a hole is not written yet. -/
  hole : T.lastWriteWasHole = false → T.destFile.content.length = T.destFile.pos
  content : lost T.pieces = 0 →
    cutAt T.destFile.pos T.destFile.content = t.previous ++ t.src.take s ++ data

/-- A piece is complete. -/
def Between (t : Task) (T : ShellFileTransfer) : Prop := ∃ s, Written t s 0 [] T

variable {t : Task} {s r : Nat} {data d : List Byte} {T T' : ShellFileTransfer}

/-- The other fields do not matter. -/
theorem Written.other (h : Written t s r data T) (buffer : ShellCopyBuffer) (stopwatch : Int) (size : Nat) :
    Written t s r data { T with copyBuffer := buffer, stopwatch := stopwatch, curCopiedSize := size } :=
  ⟨⟨h.src, h.appendPos, h.notDone, h.destExists, h.sparseFiles, h.noBuffering, h.unbuffered, h.previous⟩,
    h.isOpen, h.srcPos, h.srcLe, h.pos, h.length, h.hole, h.content⟩

theorem Written.retry (h : Written t s r data T) (reply : Reply) :
    Written t s r data (T.retryCancel reply).2 :=
  h.other _ _ _

/-! ## Writing -/

theorem prefix_cutAt {n : Nat} {content : List Byte} (h : content.length ≤ n) :
    content <+: cutAt n content := by
  rw [cutAt_of_ge h]
  exact List.prefix_append _ _

/-- The destination takes some bytes. -/
theorem Written.write (h : Written t s r d T) (data : List Byte) :
    Written t s r (d ++ data)
      { T with destFile := T.destFile.write data, lastWriteWasHole := false } := by
  have hcontent := content_write h.length data
  have hlen : (T.destFile.write data).content.length = T.destFile.pos + data.length := by
    rw [hcontent, List.length_append, length_cutAt]
  have hpos := h.pos
  refine ⟨⟨h.src, h.appendPos, h.notDone, h.destExists, h.sparseFiles, h.noBuffering, h.unbuffered,
    fun h0 => ?_⟩, h.isOpen, h.srcPos, h.srcLe, ?_, Nat.le_of_eq hlen, fun _ => hlen, fun h0 => ?_⟩
  · show t.previous <+: (T.destFile.write data).content
    rw [hcontent]
    exact ((h.previous h0).trans (prefix_cutAt h.length)).trans (List.prefix_append _ _)
  · show T.destFile.pos + data.length + lost T.pieces = _
    rw [List.length_append]
    omega
  · show cutAt (T.destFile.pos + data.length) (T.destFile.write data).content = _
    rw [← hlen, cutAt_length, hcontent, h.content h0, List.append_assoc]

/-- A hole is left. -/
theorem Written.leaveHole (h : Written t s r d T) (size : Nat) :
    Written t s r (d ++ List.replicate size 0)
      { T with
        destFile := { T.destFile with pos := T.destFile.pos + size }, lastWriteWasHole := true } := by
  have hpos := h.pos
  refine ⟨⟨h.src, h.appendPos, h.notDone, h.destExists, h.sparseFiles, h.noBuffering, h.unbuffered,
    h.previous⟩, h.isOpen, h.srcPos, h.srcLe, ?_, Nat.le_add_right_of_le h.length,
    fun hfalse => Bool.noConfusion hfalse, fun h0 => ?_⟩
  · show T.destFile.pos + size + lost T.pieces = _
    rw [List.length_append, List.length_replicate]
    omega
  · show cutAt (T.destFile.pos + size) T.destFile.content = _
    rw [cutAt_add h.length, h.content h0, List.append_assoc]

/-- **`PieceWrite`** writes at least one byte, or throws. -/
theorem pieceWrite_spec (h : Written t s r d T) (hdata : data ≠ []) :
    (pieceWrite data).Ensures T (fun n T' => 1 ≤ n ∧ n ≤ data.length
      ∧ Written t s r (d ++ data.take n) T') (Kept t) := by
  refine .bind (Q := fun n T' => 1 ≤ n ∧ n ≤ data.length
    ∧ Written t s r (d ++ data.take n) { T' with lastWriteWasHole := false }) ?_ ?_
  · refine .retrying (I := Written t s r d) (fun T h => h.retry) (fun T h reply n T' hwrite => ?_)
      (fun T h => h.toKept) h
    cases reply with
    | no => cases hwrite
    | yes m =>
      rw [writeDest, if_pos h.isOpen] at hwrite
      obtain ⟨rfl, rfl⟩ := Prod.mk.inj (Option.some.inj hwrite)
      have hpos := List.length_pos_iff.mpr hdata
      have htake : data.take (data.take (max m 1)).length = data.take (max m 1) := by
        rw [List.length_take, List.take_eq_take_iff]
        omega
      refine ⟨?_, List.length_take_le' _ _, ?_⟩
      · rw [List.length_take]
        omega
      · rw [htake]
        exact h.write _
  · exact fun n T' ⟨h1, h2, h3⟩ => .bind_modify (.pure ⟨h1, h2, h3⟩)

/-- **`PieceWriteHole`.** -/
theorem pieceWriteHole_spec (h : Written t s r d T) (size : Nat) :
    (pieceWriteHole size).Ensures T (fun n T' => n = size
      ∧ Written t s r (d ++ List.replicate size 0) T') (Kept t) := by
  refine .bind (Q := fun _ T' =>
    Written t s r (d ++ List.replicate size 0) { T' with lastWriteWasHole := true }) ?_ ?_
  · refine .retrying (I := Written t s r d) (fun T h => h.retry) (fun T h reply n T' hseek => ?_)
      (fun T h => h.toKept) h
    cases reply with
    | no => cases hseek
    | yes m =>
      have hopen : T.destFile.isOpen = true ∧ (0 : Int) ≤ T.destFile.pos + size :=
        ⟨h.isOpen, by omega⟩
      rw [noResult, seekDest, seekDestTo, DiskFile.seek, if_pos hopen] at hseek
      obtain ⟨-, rfl⟩ := Prod.mk.inj (Option.some.inj hseek)
      have hto : ((T.destFile.pos : Int) + size).toNat = T.destFile.pos + size := by omega
      rw [hto]
      exact h.leaveHole size
  · exact fun _ T' h => .bind_modify (.pure ⟨rfl, h⟩)

/-- The loop that writes a piece of a sparse file writes all of it. -/
theorem writeSparse_spec (data : List Byte) : ∀ (fuel b : Nat) {T : ShellFileTransfer},
    Written t s r (data.take b) T → b ≤ data.length → data.length ≤ b + fuel →
    (writeSparse data fuel b).Ensures T (fun n T' => n = data.length ∧ Written t s r data T')
      (Kept t)
  | 0, b, T, h, hb, hfuel => by
    have hb' : b = data.length := by omega
    subst hb'
    rw [List.take_length] at h
    exact .pure ⟨rfl, h⟩
  | fuel + 1, b, T, h, hb, hfuel => by
    rw [writeSparse]
    by_cases hlt : b < data.length
    · rw [if_pos hlt]
      refine .bind_state ?_
      dsimp only
      obtain ⟨hle, hzero, hnone⟩ := lookupNextHole_spec (data.drop b) (T.curCopiedSize + b)
      generalize lookupNextHole (data.drop b) (T.curCopiedSize + b) = hole at hle hzero hnone
      rw [List.length_drop] at hle hnone
      refine .bind (Q := fun n T' => n ≤ hole.1 ∧ (hole.1 ≠ 0 → 1 ≤ n)
        ∧ Written t s r (data.take (b + n)) T') ?_ ?_
      · by_cases hlead : hole.1 ≠ 0
        · rw [if_pos hlead]
          have hne : (data.drop b).take hole.1 ≠ [] := by
            refine List.ne_nil_of_length_pos ?_
            rw [List.length_take, List.length_drop]
            omega
          refine (pieceWrite_spec h hne).weaken (fun n T' ⟨h1, h2, h3⟩ => ?_) fun _ h => h
          rw [List.length_take] at h2
          rw [List.take_take, Nat.min_eq_left (by omega), ← List.take_add] at h3
          exact ⟨by omega, fun _ => h1, h3⟩
        · rw [if_neg hlead]
          exact .pure ⟨Nat.zero_le _, fun h => absurd h hlead, h⟩
      · intro n T' ⟨hn, hpos, hw⟩
        by_cases hc : hole.2 ≠ 0 ∧ n = hole.1
        · rw [if_pos hc]
          refine .bind (pieceWriteHole_spec hw hole.2) ?_
          rintro _ T'' ⟨rfl, hw'⟩
          refine writeSparse_spec data fuel (b + n + hole.2) ?_ (by omega) (by omega)
          rw [List.take_add, ← List.drop_drop, hc.2, hzero, ← hc.2]
          exact hw'
        · rw [if_neg hc]
          -- Without a hole, or with some data in front of it, something was written.
          have hn1 : 1 ≤ n := by
            refine hpos fun h0 => hc ⟨fun h2 => ?_, by omega⟩
            have hall := hnone h2
            omega
          exact writeSparse_spec data fuel (b + n) hw (by omega) (by omega)
    · rw [if_neg hlt]
      have hb' : b = data.length := by omega
      subst hb'
      rw [List.take_length] at h
      exact .pure ⟨rfl, h⟩

/-- A piece that has been read is written, as far as the destination takes it. -/
theorem writePiece_spec (h : Written t s r [] T) (hdata : data ≠ []) :
    (writePiece data).Ensures T (fun b T' => 1 ≤ b ∧ b ≤ data.length
      ∧ Written t s r (data.take b) T' ∧ (t.sparseFiles = true → b = data.length)) (Kept t) := by
  have hpos := List.length_pos_iff.mpr hdata
  refine .bind_state ?_
  by_cases hsparse : T.sparseFiles = true
  · rw [if_pos hsparse]
    refine (writeSparse_spec data data.length 0 h (Nat.zero_le _) (by omega)).weaken ?_ fun _ h => h
    rintro n T' ⟨rfl, hw⟩
    rw [List.take_length]
    exact ⟨hpos, Nat.le_refl _, hw, fun _ => rfl⟩
  · rw [if_neg hsparse]
    refine (pieceWrite_spec h hdata).weaken (fun n T' ⟨h1, h2, h3⟩ => ?_) fun _ h => h
    exact ⟨h1, h2, h3, fun hs => absurd (h.sparseFiles.trans hs) hsparse⟩

/-! ## Pieces -/

section Adjust

variable {w b : Nat}

/-- A piece has been written; it is recorded. -/
def record (T : ShellFileTransfer) (piece : Piece) : ShellFileTransfer :=
  { T with pieces := T.pieces ++ [piece] }

theorem lost_record (T : ShellFileTransfer) (piece : Piece) :
    lost (T.record piece).pieces = lost T.pieces + piece.lost := lost_append _ _

theorem Kept.record (h : Kept t T) {piece : Piece} (hpiece : piece.Overlong → t.Unbuffered) :
    Kept t (T.record piece) := by
  refine ⟨h.src, h.appendPos, h.notDone, h.destExists, h.sparseFiles, h.noBuffering,
    fun p hp hover => ?_, fun h0 => ?_⟩
  · rcases List.mem_append.mp hp with hp | hp
    · exact h.unbuffered p hp hover
    · rw [List.mem_singleton.mp hp] at hover
      exact hpiece hover
  · rw [lost_record] at h0
    exact h.previous (by omega)

/-- What `PieceCopy` has written and read of the source, put together. -/
theorem take_append_piece {src : List Byte} {n : Nat} (hdata : data.take r = (src.drop s).take r)
    (hn : n ≤ r) : src.take s ++ data.take n = src.take (s + n) := by
  rw [List.take_add, ← Nat.min_eq_left hn, ← List.take_take, hdata, List.take_take]

/-- Stepping back over what is longer than the piece, and cutting it off. -/
theorem Written.stepBack (h : Written t s r (data.take b) T)
    (hdata : data.take r = (t.src.drop s).take r) (hlen : data.length = w) (hr : r < b) (hb : b ≤ w)
    (hpiece : (⟨r, w, b⟩ : Piece).Overlong → t.Unbuffered) {pos : Nat}
    (hpos : (pos : Int) = T.destFile.pos + (r - w)) :
    Written t (s + r) 0 [] { T.record ⟨r, w, b⟩ with
      destFile := { T.destFile with pos := pos, content := cutAt pos T.destFile.content } } := by
  have hkept := h.toKept.record hpiece
  have hp := h.pos
  rw [List.length_take, Nat.min_eq_left (by omega)] at hp
  have hlost : (⟨r, w, b⟩ : Piece).lost = w - b := by
    rw [Piece.lost]
    split
    · rfl
    · next hover =>
      have hw : ¬b < w := fun hlt => hover ⟨hr, hlt⟩
      omega
  -- Nothing is lost exactly when the destination has taken the whole page.
  have hcut : lost (T.record ⟨r, w, b⟩).pieces = 0 →
      cutAt pos T.destFile.content = t.previous ++ t.src.take (s + r) := by
    intro h0
    rw [lost_record, hlost] at h0
    have hsrc : (t.src.take s).length = s := by
      rw [List.length_take]
      have hle := h.srcLe
      omega
    have hbw : b = w := by omega
    have hposr : pos = t.previous.length + (s + r) := by omega
    have hpiece : (t.src.take s ++ data.take b).take (s + r) = t.src.take (s + r) := by
      have hsr : s ≤ s + r := Nat.le_add_right s r
      rw [List.take_append, hsrc, Nat.add_sub_cancel_left, List.take_take, List.take_take,
        Nat.min_eq_right hsr, Nat.min_eq_left (Nat.le_of_lt hr),
        take_append_piece hdata (Nat.le_refl r)]
    rw [cutAt_take h.length (by omega), h.content (by omega), List.append_assoc, hposr,
      List.take_length_add_append, hpiece]
  have hlength : (cutAt pos T.destFile.content).length = pos := length_cutAt _ _
  refine ⟨⟨hkept.src, hkept.appendPos, hkept.notDone, hkept.destExists, hkept.sparseFiles,
    hkept.noBuffering, hkept.unbuffered, fun h0 => ?_⟩, h.isOpen, h.srcPos, h.srcLe, ?_,
    Nat.le_of_eq hlength, fun _ => hlength, fun h0 => ?_⟩
  · show t.previous <+: cutAt pos T.destFile.content
    rw [hcut h0]
    exact List.prefix_append _ _
  · show pos + lost (T.record ⟨r, w, b⟩).pieces = _
    rw [lost_record, hlost, List.length_nil]
    omega
  · show cutAt pos (cutAt pos T.destFile.content) = _
    have hagain := cutAt_length (cutAt pos T.destFile.content)
    rw [hlength] at hagain
    rw [hagain, hcut h0, List.append_nil]

/-- The source is put back to what has been written. -/
theorem Written.rewind (h : Written t s r (data.take b) T)
    (hdata : data.take r = (t.src.drop s).take r) (hb : b ≤ r) (hbw : b ≤ data.length) {pos : Nat}
    (hpos : pos = s + b) : Written t (s + b) 0 [] { T.record ⟨r, w, b⟩ with
      srcFile := { T.srcFile with pos := pos } } := by
  have hover : ¬(⟨r, w, b⟩ : Piece).Overlong := fun hover => by
    have hlt : r < b := hover.1
    omega
  have hkept := h.toKept.record fun h' => absurd h' hover
  have hlost : lost (T.record ⟨r, w, b⟩).pieces = lost T.pieces := by
    rw [lost_record, Piece.lost_eq_zero.mpr hover, Nat.add_zero]
  have hp := h.pos
  have hle := h.srcLe
  rw [List.length_take, Nat.min_eq_left hbw] at hp
  refine ⟨⟨hkept.src, hkept.appendPos, hkept.notDone, hkept.destExists, hkept.sparseFiles,
    hkept.noBuffering, hkept.unbuffered, hkept.previous⟩, h.isOpen, hpos, by omega, ?_, h.length,
    h.hole, fun h0 => ?_⟩
  · show T.destFile.pos + lost (T.record ⟨r, w, b⟩).pieces = _
    rw [hlost, List.length_nil]
    omega
  · show cutAt T.destFile.pos T.destFile.content = _
    rw [h.content (hlost ▸ h0), List.append_assoc, take_append_piece hdata hb, List.append_nil]

/-- **After a piece of any length the files are in step again**, or the call that puts them there
has thrown. -/
theorem adjust_spec (h : Written t s r (data.take b) T)
    (hdata : data.take r = (t.src.drop s).take r) (hlen : data.length = w) (hr : 1 ≤ r)
    (hb : 1 ≤ b) (hbw : b ≤ w) (hpiece : (⟨r, w, b⟩ : Piece).Overlong → t.Unbuffered) :
    (adjust ⟨r, w, b⟩).Ensures (T.record ⟨r, w, b⟩) (fun n T' => n ≠ 0 ∧ Between t T')
      (Kept t) := by
  have hkept := h.toKept.record hpiece
  rw [adjust]
  dsimp only
  by_cases hlong : b > r
  · rw [if_pos hlong]
    refine .bind (Q := fun _ T2 => ∃ pos : Nat, (pos : Int) = T.destFile.pos + (r - w)
      ∧ T2 = { T.record ⟨r, w, b⟩ with destFile := { T.destFile with pos := pos } }) ?_ ?_
    · refine .orThrow (fun reply T2 hseek => ?_) hkept
      cases reply with
      | no => cases hseek
      | yes m =>
        rw [seekDest, seekDestTo, DiskFile.seek] at hseek
        split at hseek
        · next hok =>
          obtain rfl := Option.some.inj hseek
          exact ⟨_, Int.toNat_of_nonneg hok.2, rfl⟩
        · cases hseek
    · rintro _ _ ⟨pos, hpos, rfl⟩
      refine .bind (Q := fun _ T3 => Written t (s + r) 0 [] T3) ?_ fun _ T3 h3 => ?_
      · refine .orThrow (fun reply T3 hset => ?_) ⟨hkept.src, hkept.appendPos, hkept.notDone,
          hkept.destExists, hkept.sparseFiles, hkept.noBuffering, hkept.unbuffered, hkept.previous⟩
        cases reply with
        | no => cases hset
        | yes m =>
          rw [setEndDest, DiskFile.setEnd, if_pos h.isOpen] at hset
          obtain rfl := Option.some.inj hset
          exact h.stepBack hdata hlen hlong hbw hpiece hpos
      · exact .pure ⟨by omega, _, h3⟩
  · rw [if_neg hlong]
    by_cases hshort : b < r
    · rw [if_pos hshort]
      refine .bind (Q := fun _ T2 => Written t (s + b) 0 [] T2) ?_ fun _ T2 h2 => ?_
      · refine .orThrow (fun reply T2 hseek => ?_) hkept
        cases reply with
        | no => cases hseek
        | yes m =>
          rw [seekSrc, DiskFile.seek] at hseek
          split at hseek
          · next hok =>
            obtain rfl := Option.some.inj hseek
            refine h.rewind hdata (by omega) (by omega) ?_
            have hsrc : (T.record ⟨r, w, b⟩).srcFile.pos = s + r := h.srcPos
            rw [hsrc]
            omega
          · cases hseek
      · exact .pure ⟨by omega, _, h2⟩
    · rw [if_neg hshort]
      have hpos : T.srcFile.pos = s + b := by rw [h.srcPos]; omega
      exact .pure ⟨by omega, _, (h.rewind hdata (by omega) (by omega) hpos : Written t _ _ _ _)⟩

end Adjust

theorem take_length_take (l : List Byte) (n : Nat) : l.take (l.take n).length = l.take n := by
  rw [List.length_take, List.take_eq_take_iff]
  omega

/-- A read fills the beginning of the buffer, and ends at the end of the file only. -/
theorem Written.read (h : Written t s 0 [] T) {reply : Reply} {n : Nat}
    (hread : readSrc T reply = some (n, T')) :
    Written t s n [] T' ∧ n ≤ T'.copyBuffer.bytes.length
      ∧ T'.copyBuffer.bytes.take n = (t.src.drop s).take n ∧ (n = 0 → s = t.src.length) := by
  cases reply with
  | no => cases hread
  | yes m =>
    rw [readSrc] at hread
    obtain ⟨hn, rfl⟩ := Prod.mk.inj (Option.some.inj hread)
    have hsize := T.copyBuffer.size_pos
    have hcapacity := T.copyBuffer.size_le
    have hsrcPos : T.srcFile.pos = s := h.srcPos
    rw [h.src, hsrcPos] at hn ⊢
    obtain ⟨data, hdata⟩ : ∃ data, (t.src.drop s).take (min (max m 1) T.copyBuffer.size) = data :=
      ⟨_, rfl⟩
    have htake : (t.src.drop s).take n = data := by
      rw [← hn, take_length_take, hdata]
    have hlen := congrArg List.length hdata
    rw [hdata] at hn ⊢
    subst hn
    rw [List.length_take, List.length_drop] at hlen
    have hle := h.srcLe
    have hp := h.pos
    refine ⟨⟨⟨h.src, h.appendPos, h.notDone, h.destExists, h.sparseFiles, h.noBuffering,
      h.unbuffered, h.previous⟩, h.isOpen, rfl, by omega, hp, h.length, h.hole, h.content⟩, ?_, ?_,
      fun h0 => by omega⟩
    · show data.length ≤ ((data ++ T.copyBuffer.bytes.drop data.length).take
        T.copyBuffer.bytes.length).length
      rw [ShellCopyBuffer.length_overwritten]
      omega
    · show ((data ++ T.copyBuffer.bytes.drop data.length).take T.copyBuffer.bytes.length).take
        data.length = _
      rw [List.take_take, Nat.min_eq_left (by omega), List.take_append_of_le_length (Nat.le_refl _),
        List.take_length, htake]

/-- **`PieceCopy`** keeps the files in step; it returns 0 at the end of the source. -/
theorem pieceCopy_spec (h : Between t T) :
    pieceCopy.Ensures T (fun n T' => Between t T' ∧ (n = 0 → T'.srcFile.pos = t.src.length))
      (Kept t) := by
  obtain ⟨s, h⟩ := h
  refine .bind (Q := fun n T' => Written t s n [] T' ∧ n ≤ T'.copyBuffer.bytes.length
      ∧ T'.copyBuffer.bytes.take n = (t.src.drop s).take n ∧ (n = 0 → s = t.src.length)) ?_ ?_
  · exact .retrying (I := Written t s 0 []) (fun T h => h.retry) (fun T h reply n T' => h.read)
      (fun T h => h.toKept) h
  · intro n T' ⟨h, hn, hdata, hend⟩
    by_cases h0 : n = 0
    · rw [if_pos h0]
      subst h0
      exact .pure ⟨⟨s, h⟩, fun _ => h.srcPos.trans (hend rfl)⟩
    · rw [if_neg h0]
      refine .bind_state ?_
      dsimp only
      obtain ⟨w, hw⟩ : ∃ w, (if T'.noBuffering = true then alignPageUp n else n) = w := ⟨_, rfl⟩
      have hwn : n ≤ w ∧ w ≤ T'.copyBuffer.bytes.length := by
        rw [← hw]
        split
        · exact ⟨le_alignPageUp n, alignPageUp_le hn T'.copyBuffer.aligned⟩
        · exact ⟨Nat.le_refl n, hn⟩
      rw [hw]
      have hlen : (T'.copyBuffer.bytes.take w).length = w := by
        rw [List.length_take, Nat.min_eq_left hwn.2]
      have hread : (T'.copyBuffer.bytes.take w).take n = (t.src.drop s).take n := by
        rw [List.take_take, Nat.min_eq_left hwn.1, hdata]
      have hne : T'.copyBuffer.bytes.take w ≠ [] := List.ne_nil_of_length_pos (by omega)
      refine .bind (writePiece_spec h hne) fun b T2 ⟨hb1, hbw, hwritten, hsparse⟩ => ?_
      refine .bind_modify ?_
      rw [hlen] at hbw hsparse
      refine (adjust_spec hwritten hread hlen (by omega) hb1 hbw fun hover => ?_).weaken ?_
        fun _ h => h
      · -- Only an unbuffered write is longer than what was read.
        have hover1 : n < b := hover.1
        have hover2 : b < w := hover.2
        have hbuf : T'.noBuffering = true := by
          refine Classical.byContradiction fun hbuf => ?_
          rw [if_neg hbuf] at hw
          omega
        have hfile := h.noBuffering hbuf
        refine ⟨hfile.1, Bool.eq_false_iff.mpr fun hs => ?_, hfile.2⟩
        have hall := hsparse hs
        omega
      · exact fun m T3 ⟨hm, h3⟩ => ⟨h3, fun hm0 => absurd hm0 hm⟩

end ShellFileTransfer

end Far2l.Copy
