/-
Far2l.Copy.FileTransferTheorems — a file copy is exact or undone.

The files are in step when the constructor is done, and the loop of `Do` keeps
them so. Then the source has been copied when it is at its end, and before that
the destructor finds what was there before at the beginning of the destination.
-/
import Far2l.Copy.PieceTheorems

namespace Far2l.Copy

namespace ShellFileTransfer

variable {t : Task} {s : Nat} {T T' : ShellFileTransfer}

/-! ## The whole file -/

/-- The other fields do not matter. -/
theorem Between.other (h : Between t T) (buffer : ShellCopyBuffer) (stopwatch : Int) (size : Nat) :
    Between t { T with copyBuffer := buffer, stopwatch := stopwatch, curCopiedSize := size } := by
  obtain ⟨s, h⟩ := h
  exact ⟨s, h.other _ _ _⟩

theorem startStopwatch_spec (h : Between t T) :
    startStopwatch.Ensures T (fun _ T' => Between t T') (Kept t) := by
  refine .bind_state ?_
  split
  · refine .bind (Q := fun _ T' => Between t T') (.call fun _ => h) fun n T' h' => .modify ?_
    exact h'.other _ _ _
  · exact .modify (h.other _ _ _)

theorem stopStopwatch_spec (h : Between t T) (n : Nat) :
    (stopStopwatch n).Ensures T (fun _ T' => Between t T') (Kept t) := by
  refine .bind_state ?_
  split
  · refine .bind (Q := fun _ T' => Between t T') (.call fun _ => h) fun n T' h' => .modify ?_
    exact h'.other _ _ _
  · exact .pure h

/-- **The loop of `Do`** keeps the files in step, until the source is at its end. -/
theorem copyPieces_spec : ∀ (fuel : Nat) {T : ShellFileTransfer}, Between t T →
    (copyPieces fuel).Ensures T
      (fun ended T' => Between t T' ∧ (ended = true → T'.srcFile.pos = t.src.length)) (Kept t)
  | 0, _, _ => .stuck
  | fuel + 1, T, h => by
    refine .bind (Q := fun _ T' => Between t T') (.call fun _ => h) fun cancelled T h => ?_
    cases cancelled with
    | true => exact .pure ⟨h, fun hfalse => Bool.noConfusion hfalse⟩
    | false =>
      refine .bind (startStopwatch_spec h) fun _ T h => ?_
      refine .bind (pieceCopy_spec h) fun n T ⟨h, hend⟩ => ?_
      by_cases hn : n = 0
      · rw [if_pos hn]
        exact .pure ⟨h, fun _ => hend hn⟩
      · rw [if_neg hn]
        refine .bind_modify ?_
        have h' : Between t { T with curCopiedSize := T.curCopiedSize + n } :=
          h.other _ _ _
        exact .bind (stopStopwatch_spec h' n) fun _ T h => copyPieces_spec fuel h

/-- `_Done` is set. -/
structure Finished (t : Task) (T : ShellFileTransfer) : Prop where
  isDone : T.isDone = true
  destExists : T.destExists = true
  unbuffered : ∀ p ∈ T.pieces, p.Overlong → t.Unbuffered
  length : T.destFile.content.length + lost T.pieces = t.previous.length + t.src.length
  content : lost T.pieces = 0 → T.destFile.content = t.previous ++ t.src

theorem endHole_spec (h : Written t s 0 [] T) :
    endHole.Ensures T (fun _ T' => Written t s 0 [] T'
      ∧ T'.destFile.content.length = T'.destFile.pos) (Kept t) := by
  refine .bind_state ?_
  by_cases hhole : T.lastWriteWasHole = true
  · rw [if_pos hhole]
    refine .retrying (I := Written t s 0 []) (fun T h => h.retry) (fun T h reply _ T' hset => ?_)
      (fun T h => h.toKept) h
    cases reply with
    | no => cases hset
    | yes m =>
      rw [noResult, setEndDest, DiskFile.setEnd, if_pos h.isOpen] at hset
      obtain ⟨-, rfl⟩ := Prod.mk.inj (Option.some.inj hset)
      have hlen : (cutAt T.destFile.pos T.destFile.content).length = T.destFile.pos :=
        length_cutAt _ _
      refine ⟨⟨⟨h.src, h.appendPos, h.notDone, h.destExists, h.sparseFiles, h.noBuffering,
        h.unbuffered, fun h0 => (h.previous h0).trans (prefix_cutAt h.length)⟩, h.isOpen, h.srcPos,
        h.srcLe, h.pos, Nat.le_of_eq hlen, fun _ => hlen, fun h0 => ?_⟩, hlen⟩
      show cutAt T.destFile.pos (cutAt T.destFile.pos T.destFile.content) = _
      have hagain := cutAt_length (cutAt T.destFile.pos T.destFile.content)
      rw [hlen] at hagain
      rw [hagain, h.content h0]
  · rw [if_neg hhole]
    exact .pure ⟨h, h.hole (Bool.eq_false_iff.mpr hhole)⟩

theorem finish_spec (h : Between t T) (hend : T.srcFile.pos = t.src.length) :
    finish.Ensures T (fun _ T' => Finished t T') (Kept t) := by
  obtain ⟨s, h⟩ := h
  have hs : s = t.src.length := h.srcPos.symm.trans hend
  subst hs
  refine .bind_modify ?_
  have hclosed : Written t t.src.length 0 [] { T with srcFile := T.srcFile.close } :=
    ⟨⟨h.src, h.appendPos, h.notDone, h.destExists, h.sparseFiles, h.noBuffering, h.unbuffered,
      h.previous⟩, h.isOpen, h.srcPos, h.srcLe, h.pos, h.length, h.hole, h.content⟩
  refine .bind (endHole_spec hclosed) fun _ T ⟨h, hlen⟩ => ?_
  have hpos := h.pos
  have hdone : Finished t { T with destFile := T.destFile.close, isDone := true } := by
    refine ⟨rfl, h.destExists, h.unbuffered, ?_, fun h0 => ?_⟩
    · show T.destFile.content.length + lost T.pieces = _
      rw [hlen]
      exact hpos
    · show T.destFile.content = _
      have hcontent := h.content h0
      rw [← hlen, cutAt_length, List.take_length, List.append_nil] at hcontent
      exact hcontent
  have hkept : Kept t { T with destFile := T.destFile.close } :=
    ⟨h.src, h.appendPos, h.notDone, h.destExists, h.sparseFiles, h.noBuffering, h.unbuffered,
      h.previous⟩
  refine .bind (Q := fun _ T' => T' = { T with destFile := T.destFile.close }) ?_ ?_
  · exact .bind_modify (.call fun _ => rfl)
  · rintro closed _ rfl
    cases closed with
    | true => exact .modify hdone
    | false => exact .throws hkept

/-- **`Do`** sets `_Done` at the end of the source, or leaves a transfer that can be undone. -/
theorem doTransfer_spec (fuel : Nat) (h : Between t T) :
    (doTransfer fuel).Ensures T (fun _ T' => Finished t T' ∨ Kept t T') (Kept t) := by
  refine .bind (copyPieces_spec fuel h) fun ended T ⟨h, hend⟩ => ?_
  cases ended with
  | true => exact (finish_spec h (hend rfl)).weaken (fun _ _ h => .inl h) fun _ h => h
  | false =>
    obtain ⟨s, h⟩ := h
    exact .pure (.inr h.toKept)

/-! ## Constructor and destructor -/

/-- Both files have been opened. -/
structure Opened (t : Task) (T : ShellFileTransfer) : Prop where
  src : T.srcFile.content = t.src ∧ T.srcFile.pos = 0
  dest : T.destFile = { content := t.previous, pos := 0, isOpen := true }
  appendPos : T.appendPos = none
  notDone : T.isDone = false
  destExists : T.destExists = true
  sparseFiles : T.sparseFiles = t.sparseFiles
  noBuffering : T.noBuffering = true → t.writeThrough = true ∧ t.src.length > 32 * PAGE
  pieces : T.pieces = []
  noHole : T.lastWriteWasHole = false

theorem openDest_some {reply : Reply} (h : openDest t.append T reply = some T') :
    T' = { T with
      destFile := { T.destFile.opened with content := if t.append then T.destFile.content else [] }
      destExists := true } := by
  cases reply with
  | no => cases h
  | yes m => exact (Option.some.inj h).symm

theorem openWithFlags_spec (hsrc : T = { t.start with srcFile := t.start.srcFile.opened }) :
    (openWithFlags t.append).Ensures T (fun ok T' => ok = true → Opened t T') (fun _ => True) := by
  subst hsrc
  have hprevious : (if t.append = true then t.dest else []) = t.previous := rfl
  refine .bind_modify (.bind_state ?_)
  -- The first attempt, and what is the same after its failure.
  refine .bind (Q := fun ok T' => (ok = true → Opened t T') ∧ (ok = false → T' =
    { t.start with
      srcFile := t.start.srcFile.opened
      noBuffering := t.writeThrough && t.src.length > 32 * PAGE })) ?_ fun ok T' ⟨hok, hfail⟩ => ?_
  · refine .tried (fun reply T' hopen => ⟨fun _ => ?_, fun h => Bool.noConfusion h⟩)
      ⟨fun h => Bool.noConfusion h, fun _ => rfl⟩
    rw [openDest_some hopen]
    refine ⟨⟨rfl, rfl⟩, ?_, rfl, rfl, rfl, rfl, fun hbuf => ?_, rfl, rfl⟩
    · rw [← hprevious]
      rfl
    · have hboth := (Bool.and_eq_true _ _).mp hbuf
      exact ⟨hboth.1, of_decide_eq_true hboth.2⟩
  · split
    · next hagain =>
      refine .bind_modify ?_
      have hT' := hfail (Bool.eq_false_iff.mpr hagain.2)
      subst hT'
      refine .bind (Q := fun ok T' => ok = true → Opened t T') ?_ fun ok T' hok => ?_
      · refine .tried (fun reply T' hopen _ => ?_) fun h => Bool.noConfusion h
        rw [openDest_some hopen]
        refine ⟨⟨rfl, rfl⟩, ?_, rfl, rfl, rfl, rfl, fun hbuf => Bool.noConfusion hbuf, rfl, rfl⟩
        rw [← hprevious]
        rfl
      · cases ok with
        | true =>
          have hopened := hok rfl
          exact .bind_modify (.pure fun _ => ⟨hopened.src, hopened.dest, hopened.appendPos,
            hopened.notDone, hopened.destExists, hopened.sparseFiles, hopened.noBuffering,
            hopened.pieces, hopened.noHole⟩)
        | false => exact .pure fun h => Bool.noConfusion h
    · exact .pure hok

/-- Both files are open, and the destination is at its end. -/
theorem Opened.written (h : Opened t T) : Written t 0 0 [] { T with
    destFile := { T.destFile with pos := t.previous.length }
    appendPos := if t.append then some t.dest.length else none } := by
  have hcontent : T.destFile.content = t.previous := by rw [h.dest]
  have hlost : lost T.pieces = 0 := by rw [h.pieces]; rfl
  refine ⟨⟨h.src.1, rfl, h.notDone, h.destExists, h.sparseFiles, h.noBuffering, ?_, fun _ => ?_⟩,
    ?_, h.src.2, Nat.zero_le _, ?_, ?_, fun _ => ?_, fun _ => ?_⟩
  · show ∀ p ∈ T.pieces, p.Overlong → t.Unbuffered
    rw [h.pieces]
    exact fun p hp => absurd hp List.not_mem_nil
  · show t.previous <+: T.destFile.content
    simp only [hcontent, List.prefix_refl]
  · show T.destFile.isOpen = true
    rw [h.dest]
  · exact congrArg (t.previous.length + ·) hlost
  · show T.destFile.content.length ≤ t.previous.length
    rw [hcontent]
  · show T.destFile.content.length = t.previous.length
    rw [hcontent]
  · show cutAt t.previous.length T.destFile.content = _
    rw [hcontent, cutAt_length, List.take_zero, List.append_nil, List.append_nil]

/-- **The constructor** leaves both files in step, or throws. -/
theorem construct_spec (t : Task) :
    (construct t.append).Ensures t.start (fun _ T' => Between t T') (fun _ => True) := by
  refine .bind (Q := fun _ T' => T' = t.start) (.call fun _ => rfl) ?_
  rintro srcOpened _ rfl
  cases srcOpened with
  | false => exact .throws trivial
  | true =>
    refine .bind_modify (.bind (openWithFlags_spec rfl) fun dstOpened T hopened => ?_)
    cases dstOpened with
    | false => exact .bind_modify (.throws trivial)
    | true =>
      have h := hopened rfl
      have hlength : T.destFile.content.length = t.previous.length := by rw [h.dest]
      rw [if_pos rfl]
      by_cases happend : t.append = true
      · rw [if_pos happend]
        have hdest : t.previous = t.dest := if_pos happend
        have hwritten := h.written
        rw [if_pos happend] at hwritten
        refine .bind_state ?_
        refine .bind (Q := fun sought T' => sought = true →
          T' = { T with destFile := { T.destFile with pos := t.previous.length } }) ?_ ?_
        · refine .tried (fun reply T' hseek _ => ?_) fun hfalse => Bool.noConfusion hfalse
          cases reply with
          | no => cases hseek
          | yes m =>
            have hok : T.destFile.isOpen = true ∧ (0 : Int) ≤ T.destFile.content.length :=
              ⟨by rw [h.dest], Int.natCast_nonneg _⟩
            rw [seekDestTo, DiskFile.seek, if_pos hok, hlength] at hseek
            exact (Option.some.inj hseek).symm
        · intro sought T' hsought
          cases sought with
          | true =>
            obtain rfl := hsought rfl
            refine .modify ⟨0, ?_⟩
            show Written t 0 0 [] { T with
              destFile := { T.destFile with pos := t.previous.length }
              appendPos := some T.destFile.content.length }
            rw [hlength, hdest] at *
            exact hwritten
          | false =>
            refine .bind_modify (.bind (Q := fun _ _ => True) ?_ fun _ _ _ => ?_)
            · exact .tried (fun _ _ _ => trivial) trivial
            · exact .bind (Q := fun _ _ => True) (.bind_modify (.call fun _ => trivial))
                fun _ _ _ => .throws trivial
      · rw [if_neg happend]
        have hdest : t.previous = [] := if_neg happend
        have hwritten := h.written
        rw [if_neg happend, hdest, show ({ T.destFile with pos := ([] : List Byte).length } : DiskFile) = T.destFile by
          rw [h.dest, hdest]; rfl, ← h.appendPos] at hwritten
        exact .pure ⟨0, hwritten⟩

/-- **The destructor** removes the destination, or puts back its end. -/
theorem discard_spec (h : Kept t T) :
    discard.Ensures T (fun cleaned T' => T'.pieces = T.pieces ∧ (cleaned = true →
      if t.append then T'.destExists = true ∧ (lost T.pieces = 0 → T'.destFile.content = t.dest)
      else T'.destExists = false)) (fun _ => True) := by
  refine .bind_modify (.bind_modify (.bind_state ?_))
  dsimp only
  rw [h.appendPos]
  by_cases happend : t.append = true
  · rw [if_pos happend]
    simp only [if_pos happend]
    have hprevious : lost T.pieces = 0 → t.dest <+: T.destFile.content := by
      have hdest : t.previous = t.dest := if_pos happend
      rw [← hdest]
      exact h.previous
    refine .bind (Q := fun sought T' => T'.pieces = T.pieces ∧ T'.destExists = true
      ∧ T'.destFile.content = T.destFile.content
      ∧ (sought = true → T'.destFile.pos = t.dest.length)) ?_ ?_
    · refine .tried (fun reply T' hseek => ?_)
        ⟨rfl, h.destExists, rfl, fun hfalse => Bool.noConfusion hfalse⟩
      cases reply with
      | no => cases hseek
      | yes m =>
        rw [seekDestTo, DiskFile.seek] at hseek
        split at hseek
        · obtain rfl := Option.some.inj hseek
          exact ⟨rfl, h.destExists, rfl, fun _ => Int.toNat_natCast _⟩
        · cases hseek
    · rintro sought T1 ⟨hpieces, hexists, hcontent, hpos⟩
      refine .bind (Q := fun cut T' => T'.pieces = T.pieces ∧ T'.destExists = true
        ∧ (sought = true → cut = true → lost T.pieces = 0 → T'.destFile.content = t.dest)) ?_ ?_
      · refine .tried (fun reply T' hset => ?_)
          ⟨hpieces, hexists, fun _ hfalse => Bool.noConfusion hfalse⟩
        cases reply with
        | no => cases hset
        | yes m =>
          rw [setEndDest, DiskFile.setEnd] at hset
          split at hset
          · obtain rfl := Option.some.inj hset
            refine ⟨hpieces, hexists, fun hsought _ h0 => ?_⟩
            show cutAt T1.destFile.pos T1.destFile.content = t.dest
            rw [hpos hsought, hcontent, cutAt_of_isPrefix (hprevious h0)]
          · cases hset
      · rintro cut T2 ⟨hpieces2, hexists2, hcut⟩
        refine .bind (Q := fun _ T' => T' = { T2 with destFile := T2.destFile.close })
          (.bind_modify (.call fun _ => rfl)) ?_
        rintro _ _ rfl
        refine .pure ⟨hpieces2, fun hboth => ⟨hexists2, ?_⟩⟩
        have hboth := (Bool.and_eq_true _ _).mp hboth
        exact hcut hboth.1 hboth.2
  · rw [if_neg happend]
    simp only [if_neg happend]
    refine .bind (Q := fun _ T' => T'.pieces = T.pieces) ?_ fun _ T1 h1 => ?_
    · refine .tried (fun reply T' hset => ?_) rfl
      cases reply with
      | no => cases hset
      | yes m =>
        rw [setEndDest, DiskFile.setEnd] at hset
        split at hset
        · obtain rfl := Option.some.inj hset
          rfl
        · cases hset
    · refine .bind (Q := fun _ T' => T'.pieces = T.pieces) (.bind_modify (.call fun _ => h1))
        fun _ T2 h2 => .tried (fun reply T' hdelete => ?_) ⟨h2, fun hfalse => Bool.noConfusion hfalse⟩
      split at hdelete
      · obtain rfl := Option.some.inj hdelete
        exact ⟨h2, fun _ => rfl⟩
      · cases hdelete

end ShellFileTransfer

/-! ## A copy from its beginning to its end -/

variable {t : Task}

/-- The pieces that have been copied. -/
def Ending.pieces : Ending → List Piece
  | .notOpened _ => []
  | .done T => T.pieces
  | .discarded T _ => T.pieces

/-- The copy is exact, or undone. -/
def Ending.Exact (t : Task) : Ending → Prop
  | .notOpened _ => True
  | .done T => T.destExists = true ∧ T.destFile.content = t.previous ++ t.src
  | .discarded T cleaned => cleaned = true →
      if t.append then T.destExists = true ∧ T.destFile.content = t.dest else T.destExists = false

open ShellFileTransfer

/-- What is known of an ending. -/
theorem ending_done {T : ShellFileTransfer} (h : Finished t T) :
    (Ending.Exact t (.done T) ↔ ∀ p ∈ T.pieces, ¬p.Overlong)
      ∧ ∀ p ∈ T.pieces, p.Overlong → t.Unbuffered := by
  refine ⟨⟨fun hexact => ?_, fun hnot => ?_⟩, h.unbuffered⟩
  · have hlen := congrArg List.length hexact.2
    have hlength := h.length
    rw [List.length_append] at hlen
    exact lost_eq_zero.mp (by omega)
  · exact ⟨h.destExists, h.content (lost_eq_zero.mpr hnot)⟩

theorem destroy_kept {T : ShellFileTransfer} {replies : List Reply} {e : Ending} (h : Kept t T)
    (he : Task.destroy T replies = some e) :
    ((∀ p ∈ e.pieces, ¬p.Overlong) → e.Exact t) ∧ (∀ T', e ≠ .done T')
      ∧ ∀ p ∈ e.pieces, p.Overlong → t.Unbuffered := by
  rw [Task.destroy, h.notDone, if_neg Bool.false_ne_true] at he
  have hspec := discard_spec h replies
  cases hrun : discard T replies with
  | threw T' rest => rw [hrun] at he; cases he
  | waits => rw [hrun] at he; cases he
  | returned cleaned T' rest =>
    rw [hrun] at he hspec
    obtain ⟨hpieces, hclean⟩ := hspec
    obtain rfl := Option.some.inj he
    refine ⟨fun hnot hcleaned => ?_, fun T' heq => (by cases heq), ?_⟩
    · have hclean := hclean hcleaned
      have h0 : lost T.pieces = 0 := by
        rw [← hpieces]
        exact lost_eq_zero.mpr hnot
      split at hclean
      · next happend =>
        rw [if_pos happend]
        exact ⟨hclean.1, hclean.2 h0⟩
      · next happend =>
        rw [if_neg happend]
        exact hclean
    · show ∀ p ∈ T'.pieces, p.Overlong → t.Unbuffered
      rw [hpieces]
      exact h.unbuffered

/-- **A copy is exact or undone** when no unbuffered write of a piece takes more than was read and
less than it was given; and a copy that is done is exact only then. -/
theorem run_exact {fuel : Nat} {replies : List Reply} {e : Ending}
    (h : t.run fuel replies = some e) :
    ((∀ p ∈ e.pieces, ¬p.Overlong) → e.Exact t)
      ∧ (∀ T, e = .done T → e.Exact t → ∀ p ∈ T.pieces, ¬p.Overlong)
      ∧ ∀ p ∈ e.pieces, p.Overlong → t.Unbuffered := by
  have hkept : ∀ {T replies}, Kept t T → Task.destroy T replies = some e →
      ((∀ p ∈ e.pieces, ¬p.Overlong) → e.Exact t)
        ∧ (∀ T, e = .done T → e.Exact t → ∀ p ∈ T.pieces, ¬p.Overlong)
        ∧ ∀ p ∈ e.pieces, p.Overlong → t.Unbuffered := by
    intro T replies hT he
    obtain ⟨hexact, hnot, hkind⟩ := destroy_kept hT he
    exact ⟨hexact, fun T' heq => absurd heq (hnot T'), hkind⟩
  have hconstruct := construct_spec t replies
  rw [Task.run] at h
  cases hopen : construct t.append t.start replies with
  | waits => rw [hopen] at h; cases h
  | threw T rest =>
    rw [hopen] at h
    obtain rfl := Option.some.inj h
    exact ⟨fun _ => trivial, fun T' heq => (by cases heq), fun p hp => absurd hp List.not_mem_nil⟩
  | returned u T rest =>
    rw [hopen] at h hconstruct
    have hdo := doTransfer_spec fuel hconstruct rest
    dsimp only at h
    cases hrun : doTransfer fuel T rest with
    | waits => rw [hrun] at h; cases h
    | threw T' rest' =>
      rw [hrun] at h hdo
      exact hkept hdo h
    | returned u' T' rest' =>
      rw [hrun] at h hdo
      rcases hdo with hdone | hT'
      · have h : Task.destroy T' rest' = some e := h
        rw [Task.destroy, if_pos hdone.isDone] at h
        obtain rfl := Option.some.inj h
        obtain ⟨hiff, hkind⟩ := ending_done hdone
        refine ⟨hiff.mpr, fun T'' heq hexact => ?_, hkind⟩
        cases heq
        exact hiff.mp hexact
      · exact hkept hT' h

/-! ## A short append, and a full disk -/

/-- A page, read in pieces of two bytes. -/
def pageBuffer : ShellCopyBuffer where
  bytes := List.replicate 0x1000 0
  size := 2
  size_pos := by decide
  size_le := by rw [List.length_replicate]; decide
  aligned := by rw [List.length_replicate]; rfl

def appendTask : Task where
  src := [1, 2, 3]
  dest := [9]
  append := true
  sparseFiles := false
  writeThrough := false
  copyBuffer := pageBuffer

/-- Three bytes are appended; the first write takes one of two. -/
theorem run_exact_append :
    ∃ e, appendTask.run 4 [.yes 0, .yes 0, .yes 0, .no, .yes 5, .yes 2, .yes 1, .yes 0, .no, .yes 2,
        .yes 2, .no, .yes 2, .yes 0] = some e
      ∧ ((∀ p ∈ e.pieces, ¬p.Overlong) → e.Exact appendTask)
      ∧ (∀ T, e = .done T → e.Exact appendTask → ∀ p ∈ T.pieces, ¬p.Overlong)
      ∧ ∀ p ∈ e.pieces, p.Overlong → appendTask.Unbuffered := by
  obtain ⟨e, he⟩ := Option.isSome_iff_exists.mp
    (show (appendTask.run 4 [.yes 0, .yes 0, .yes 0, .no, .yes 5, .yes 2, .yes 1, .yes 0, .no,
      .yes 2, .yes 2, .no, .yes 2, .yes 0]).isSome = true by decide +kernel)
  exact ⟨e, he, run_exact he⟩

/-- A file of 131172 bytes, written through in one piece: the disk takes 257 of the 264 blocks of
512 bytes that the pages have. `PieceCopy` steps back over the rest of the last page, and 3584 bytes
of the file with it. -/
theorem run_shortens {src : List Byte} {B : ShellCopyBuffer} (hlen : src.length = 131172)
    (hbytes : B.bytes.length = 0x800000) (hsize : B.size = 0x40000) :
    ∃ T, (⟨src, [], false, false, true, B, 0⟩ : Task).run 2 [.yes 0, .yes 0, .no, .yes 131172,
        .yes 131584, .yes 0, .yes 0, .no, .yes 0, .yes 0] = some (.done T)
      ∧ T.destFile.content.length = 127588 := by
  have hdrop : src.drop 131172 = [] := List.drop_of_length_le (by omega)
  have hPAGE : PAGE = 4096 := rfl
  simp [Task.run, Task.start, Task.destroy, construct, openWithFlags, openDest, DiskFile.opened,
    doTransfer, copyPieces, startStopwatch, stopStopwatch, finish, closeSrc, closeDest, endHole,
    pieceCopy, readSrc, ShellCopyBuffer.load, writePiece, pieceWrite, writeDest, DiskFile.write,
    adjust, seekDest, seekDestTo, DiskFile.seek, setEndDest, DiskFile.setEnd, DiskFile.close,
    alignPageUp, asks, Reply.succeeds, Action.call, Action.tried, Action.orThrow,
    Action.retrying, Action.modify, Action.state, Action.bind, Action.pure, bind, pure,
    length_cutAt, hlen, hbytes, hsize, hdrop, hPAGE]

/-- The buffer of 8 MB after two fast pieces. -/
def largeBuffer : ShellCopyBuffer where
  bytes := List.replicate 0x800000 0
  size := 0x40000
  size_pos := by decide
  size_le := by rw [List.length_replicate]; decide
  aligned := by rw [List.length_replicate]; rfl

/-- **A copy that is done is shorter than its source.** -/
theorem run_not_exact :
    ∃ T, (⟨List.replicate 131172 1, [], false, false, true, largeBuffer, 0⟩ : Task).run 2
        [.yes 0, .yes 0, .no, .yes 131172, .yes 131584, .yes 0, .yes 0, .no, .yes 0, .yes 0]
          = some (.done T)
      ∧ ¬Ending.Exact ⟨List.replicate 131172 1, [], false, false, true, largeBuffer, 0⟩
          (.done T) := by
  obtain ⟨T, hrun, hlength⟩ := run_shortens List.length_replicate
    (List.length_replicate : (List.replicate 0x800000 (0 : Byte)).length = _)
    (rfl : largeBuffer.size = 0x40000)
  refine ⟨T, hrun, fun hexact => ?_⟩
  have hlen := congrArg List.length hexact.2
  have hsrc : ([] ++ List.replicate 131172 (1 : Byte)).length = 131172 := by
    rw [List.nil_append, List.length_replicate]
  rw [hlength] at hlen
  exact absurd (hlen.trans hsrc) (by decide)

end Far2l.Copy
