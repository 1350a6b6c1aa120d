/-
Far2l.NetRocks.FileCopyLoopTheorems — what a copy that reports success has left
at the destination.

What the destination has is followed as one question: is it a beginning of the
source? Truncation makes it one, a piece that is written keeps the answer, and a
retry that goes on from an older content takes that content's answer over.
-/
import Far2l.NetRocks.FileCopyLoop

namespace Far2l.NetRocks

/-! ## Contents -/

/-- A write at the end. -/
theorem writeAt_length (content bytes : List Byte) :
    writeAt content content.length bytes = content ++ bytes := by
  have hdrop : content.drop (content.length + bytes.length) = [] :=
    List.drop_eq_nil_of_le (Nat.le_add_right _ _)
  rw [writeAt, List.take_length, Nat.sub_self, hdrop, List.replicate_zero, List.append_nil,
    List.append_nil]

/-- The next part of the source, written behind a content, changes nothing about whether that is a
beginning of the source. -/
theorem append_next_isPrefix {content src : List Byte} {n : Nat} :
    content ++ (src.drop content.length).take n <+: src ↔ content <+: src := by
  constructor
  · exact fun h => (List.prefix_append _ _).trans h
  · intro h
    have htake : content ++ (src.drop content.length).take n = src.take (content.length + n) := by
      rw [List.take_add, ← List.prefix_iff_eq_take.mp h]
    rw [htake]
    exact List.take_prefix _ _

/-- A content that is as long as the source is the source where it is a beginning of it. -/
theorem eq_iff_isPrefix {content src : List Byte} (h : src.length ≤ content.length) :
    content = src ↔ content <+: src := by
  constructor
  · rintro rfl
    exact List.prefix_refl _
  · exact fun hprefix => hprefix.eq_of_length_le h

namespace FileCopy

open Far2l.Action

variable {src : List Byte} {old : Option (List Byte)} {c : FileCopy}

/-- **What is at the destination**: the older content until the copy touches it, and then a
beginning of the source, unless a retry has gone on from an older content that is none. -/
structure Trace (src : List Byte) (old : Option (List Byte)) (c : FileCopy) : Prop where
  src_eq : c.src = src
  infoSize : c.infoSize = src.length
  untouched : c.truncated = false → c.resumedOld = false → c.dst = old
  touched : c.truncated = true ∨ c.resumedOld = true →
    ∃ content, c.dst = some content ∧
      (content <+: src ↔ c.resumedOld = false ∨ old.getD [] <+: src)

/-- The destination is touched, and has what is counted. -/
structure Counted (c : FileCopy) : Prop where
  touched : c.truncated = true ∨ c.resumedOld = true
  count : ∀ content, c.dst = some content → content.length = c.fileComplete

/-- Nothing has happened so far. -/
structure Fresh (c : FileCopy) : Prop where
  statsComplete : c.statsComplete = 0
  truncated : c.truncated = false
  resumedOld : c.resumedOld = false

/-- Reader and writer are where the count is. -/
structure AtCount (c : FileCopy) : Prop where
  counted : c.Counted
  readerPos : c.readerPos = c.fileComplete
  writerPos : c.writerPos = c.fileComplete

/-- Before a round of the outer loop. -/
structure Round (src : List Byte) (old : Option (List Byte)) (c : FileCopy) : Prop where
  trace : c.Trace src old
  first : c.indicted = none → c.Fresh

/-- At the end of the source. -/
structure Complete (src : List Byte) (old : Option (List Byte)) (c : FileCopy) : Prop where
  trace : c.Trace src old
  touched : c.truncated = true ∨ c.resumedOld = true
  full : ∀ content, c.dst = some content → src.length ≤ content.length

/-- **The destination of a copy that is complete.** -/
theorem Complete.exact (h : c.Complete src old) :
    c.dst = some src ↔ c.resumedOld = false ∨ old.getD [] <+: src := by
  obtain ⟨content, hdst, hprefix⟩ := h.trace.touched h.touched
  rw [hdst, Option.some_inj, eq_iff_isPrefix (h.full content hdst), hprefix]

/-! ## Calls -/

theorem bareCall_ensures {Q : Unit → FileCopy → Prop} {E : FileCopy → Prop} (hQ : Q () c)
    (hE : E c) : bareCall.Ensures c Q E := by
  refine .partly fun reply => ?_
  cases reply with
  | returns n => exact hQ
  | throws n => exact hE

theorem progressStateUpdate_ensures {Q : Unit → FileCopy → Prop} {E : FileCopy → Prop}
    (hQ : Q () c) (hE : E { c with aborting := true }) : progressStateUpdate.Ensures c Q E := by
  refine .partly fun reply => ?_
  cases reply with
  | returns n => exact hQ
  | throws n => exact hE

theorem getSizeBase_ensures (h : c.Trace src old) :
    getSizeBase.Ensures c (fun size c' => size = src.length ∧ c' = c) (Trace src old) := by
  refine .partly fun reply => ?_
  cases reply with
  | returns n => exact ⟨congrArg List.length h.src_eq, rfl⟩
  | throws n => exact h

/-- What a copy goes on from is what it has written, or the older content. -/
theorem Trace.resumed (h : c.Trace src old) {content : List Byte} (hdst : c.dst = some content) :
    c.resumed.Trace src old ∧ (c.resumed.truncated = true ∨ c.resumed.resumedOld = true) := by
  rw [FileCopy.resumed]
  by_cases htrunc : c.truncated = true
  · have hsame : (c.resumedOld || !c.truncated) = c.resumedOld := by
      rw [htrunc, Bool.not_true, Bool.or_false]
    rw [hsame]
    exact ⟨h, .inl htrunc⟩
  · rw [Bool.not_eq_true] at htrunc
    have htrue : (c.resumedOld || !c.truncated) = true := by
      rw [htrunc, Bool.not_false, Bool.or_true]
    rw [htrue]
    refine ⟨⟨h.src_eq, h.infoSize, fun _ hres => Bool.noConfusion hres,
      fun _ => ⟨content, hdst, ?_⟩⟩, .inr rfl⟩
    have hor : (true = false ∨ old.getD [] <+: src) ↔ old.getD [] <+: src :=
      ⟨fun h => h.elim (fun h => Bool.noConfusion h) (fun h => h), .inr⟩
    dsimp only
    rw [hor]
    cases hres : c.resumedOld with
    | true =>
      obtain ⟨content', hdst', hprefix⟩ := h.touched (.inr hres)
      rw [hdst, Option.some_inj] at hdst'
      rw [hdst', hprefix, hres]
      exact hor
    | false =>
      have hold : old = some content := (h.untouched htrunc hres).symm.trans hdst
      rw [hold, Option.getD_some]

/-- The size of the destination is asked for. -/
theorem getSizeDst_ensures (h : c.Trace src old) :
    getSizeDst.Ensures c
      (fun size c' => c'.Trace src old ∧ (c'.truncated = true ∨ c'.resumedOld = true)
        ∧ ∀ content, c'.dst = some content → content.length = size) (Trace src old) := by
  refine .partly fun reply => ?_
  cases reply with
  | throws n => exact h
  | returns n =>
    cases hdst : c.dst with
    | none => exact h
    | some content =>
      obtain ⟨htrace, htouched⟩ := h.resumed hdst
      refine ⟨htrace, htouched, fun content' hdst' => ?_⟩
      have hsame : some content' = some content := hdst'.symm.trans hdst
      rw [Option.some.inj hsame]

/-! ## The attempt -/

/-- After `findStart` the destination is counted, or this is the first round. -/
def Started (c : FileCopy) : Prop := c.Counted ∨ (c.Fresh ∧ c.fileComplete = 0)

theorem findStart_ensures (h : c.Round src old) :
    findStart.Ensures c (fun _ c' => c'.Trace src old ∧ c'.Started) (Trace src old) := by
  refine .bind_state ?_
  cases hind : c.indicted with
  | none =>
    refine .bind (Q := fun _ c' => c' = c) (progressStateUpdate_ensures rfl ?_) ?_
    · exact ⟨h.trace.src_eq, h.trace.infoSize, h.trace.untouched, h.trace.touched⟩
    rintro ⟨⟩ c' rfl
    have hfresh := h.first hind
    refine .modify ⟨⟨h.trace.src_eq, h.trace.infoSize, h.trace.untouched, h.trace.touched⟩, .inr ?_⟩
    exact ⟨⟨hfresh.statsComplete, hfresh.truncated, hfresh.resumedOld⟩, hfresh.statsComplete⟩
  | some site =>
    refine .bind (Q := fun _ c' => c' = c) (bareCall_ensures rfl h.trace) ?_
    rintro ⟨⟩ c' rfl
    refine .bind_modify (.bind (getSizeDst_ensures ?_) ?_)
    · exact ⟨h.trace.src_eq, h.trace.infoSize, h.trace.untouched, h.trace.touched⟩
    intro size c' ⟨htrace, htouched, hsize⟩
    refine .bind (Q := fun _ c'' => c'' = c') (progressStateUpdate_ensures rfl ?_) ?_
    · exact ⟨htrace.src_eq, htrace.infoSize, htrace.untouched, htrace.touched⟩
    rintro ⟨⟩ c'' rfl
    exact .modify ⟨⟨htrace.src_eq, htrace.infoSize, htrace.untouched, htrace.touched⟩,
      .inl ⟨htouched, hsize⟩⟩

/-- `FilePut` truncates what has been counted as nothing, and leaves the rest. -/
theorem Trace.opened (h : c.Trace src old) (hstart : c.Started) :
    c.opened.Trace src old ∧ c.opened.Counted ∧ c.opened.writerPos = c.opened.fileComplete := by
  rw [FileCopy.opened]
  by_cases hzero : c.fileComplete = 0
  · rw [if_pos hzero]
    refine ⟨⟨h.src_eq, h.infoSize, fun htrunc => Bool.noConfusion htrunc,
      fun _ => ⟨[], rfl, ⟨fun _ => ?_, fun _ => List.nil_prefix⟩⟩⟩, ⟨.inl rfl, ?_⟩, hzero.symm⟩
    · rcases hstart with hcounted | ⟨hfresh, -⟩
      · -- The destination was empty before, so what it was is a beginning of the source.
        obtain ⟨content, hdst, hprefix⟩ := h.touched hcounted.touched
        have hempty : content = [] := List.length_eq_zero_iff.mp ((hcounted.count content hdst).trans hzero)
        exact hprefix.mp (hempty ▸ List.nil_prefix)
      · exact .inl hfresh.resumedOld
    · rintro content hdst
      obtain rfl := Option.some.inj hdst
      exact hzero.symm
  · rw [if_neg hzero]
    rcases hstart with hcounted | ⟨-, hnone⟩
    · obtain ⟨content, hdst, -⟩ := h.touched hcounted.touched
      have hsame : some (c.dst.getD []) = c.dst := by rw [hdst, Option.getD_some]
      rw [hsame]
      exact ⟨⟨h.src_eq, h.infoSize, h.untouched, h.touched⟩, ⟨hcounted.touched, hcounted.count⟩, rfl⟩
    · exact absurd hnone hzero

theorem openFiles_ensures (h : c.Trace src old) (hstart : c.Started) :
    openFiles.Ensures c (fun _ c' => c'.Trace src old ∧ c'.AtCount) (Trace src old) := by
  refine .bind_modify ?_
  have hread : fileGet.Ensures { c with indicted := some .base }
      (fun _ c' => c'.Trace src old ∧ c'.Started ∧ c'.readerPos = c'.fileComplete)
      (Trace src old) := by
    refine .partly fun reply => ?_
    have htrace : ∀ ind pos, ({ c with indicted := ind, readerPos := pos } : FileCopy).Trace src old :=
      fun ind pos => ⟨h.src_eq, h.infoSize, h.untouched, h.touched⟩
    cases reply with
    | throws n => exact htrace _ _
    | returns n =>
      refine ⟨htrace _ _, ?_, rfl⟩
      rcases hstart with hcounted | ⟨hfresh, hzero⟩
      · exact .inl ⟨hcounted.touched, hcounted.count⟩
      · exact .inr ⟨⟨hfresh.statsComplete, hfresh.truncated, hfresh.resumedOld⟩, hzero⟩
  refine .bind hread ?_
  rintro ⟨⟩ c' ⟨htrace, hstart, hreader⟩
  refine .bind_modify ?_
  have hput : filePut.Ensures { c' with indicted := some .dst }
      (fun _ c'' => c''.Trace src old ∧ c''.AtCount) (Trace src old) := by
    have htrace' : ({ c' with indicted := some .dst } : FileCopy).Trace src old :=
      ⟨htrace.src_eq, htrace.infoSize, htrace.untouched, htrace.touched⟩
    have hstart' : ({ c' with indicted := some .dst } : FileCopy).Started := by
      rcases hstart with hcounted | ⟨hfresh, hzero⟩
      · exact .inl ⟨hcounted.touched, hcounted.count⟩
      · exact .inr ⟨⟨hfresh.statsComplete, hfresh.truncated, hfresh.resumedOld⟩, hzero⟩
    obtain ⟨hopened, hcounted, hwriter⟩ := htrace'.opened hstart'
    refine .partly fun reply => ?_
    cases reply with
    | throws n =>
      dsimp only
      split
      · exact htrace'
      · exact hopened
    | returns n =>
      refine ⟨hopened, hcounted, ?_, hwriter⟩
      rw [FileCopy.opened]
      split
      · exact hreader
      · exact hreader
  refine .bind hput ?_
  rintro ⟨⟩ c'' ⟨htrace, hcount⟩
  refine .bind_state ?_
  split
  · exact .throws htrace
  · exact .pure ⟨htrace, hcount⟩

/-! ## The inner loop -/

/-- The end of the source is reached: the destination has as much. -/
theorem finish_ensures (h : c.Trace src old) (hcounted : c.Counted) :
    finish.Ensures c (fun r c' => r = some () ∧ c'.Complete src old) (Trace src old) := by
  have hcheck : checkSize.Ensures c (fun _ c' => c'.Complete src old) (Trace src old) := by
    refine .bind_state ?_
    split
    · next hless =>
      refine .bind (getSizeBase_ensures h) ?_
      rintro size c' ⟨rfl, rfl⟩
      rw [h.infoSize] at hless
      rw [if_pos hless]
      exact .bind_modify (.throws ⟨h.src_eq, rfl, h.untouched, h.touched⟩)
    · next hless =>
      refine .pure ⟨h, hcounted.touched, fun content hdst => ?_⟩
      rw [hcounted.count content hdst, ← h.infoSize]
      exact Nat.le_of_not_lt hless
  refine .bind hcheck ?_
  rintro ⟨⟩ c' ⟨htrace, htouched, hfull⟩
  have htrace' : ({ c' with indicted := some .dst } : FileCopy).Trace src old :=
    ⟨htrace.src_eq, htrace.infoSize, htrace.untouched, htrace.touched⟩
  refine .bind_modify (.bind (Q := fun _ c'' => c''.Complete src old)
    (bareCall_ensures ⟨htrace', htouched, hfull⟩ htrace') ?_)
  rintro ⟨⟩ c'' hcomplete
  exact .pure ⟨rfl, hcomplete⟩

/-- Any part of the next piece may be written. -/
theorem Trace.written (h : c.Trace src old) (hcounted : c.Counted)
    (hwriter : c.writerPos = c.fileComplete) {bytes : List Byte} {n : Nat}
    (hbytes : bytes = (src.drop c.fileComplete).take n) (pos : Nat) :
    ({ c with
        dst := c.dst.map fun content => writeAt content c.writerPos bytes
        writerPos := pos } : FileCopy).Trace src old
    ∧ ∀ content, c.dst.map (fun content => writeAt content c.writerPos bytes) = some content →
        content.length = c.fileComplete + bytes.length := by
  obtain ⟨content, hdst, hprefix⟩ := h.touched hcounted.touched
  have hlen := hcounted.count content hdst
  have hnew : c.dst.map (fun content => writeAt content c.writerPos bytes) = some (content ++ bytes) := by
    rw [hdst, Option.map_some, hwriter, ← hlen, writeAt_length]
  rw [hnew]
  refine ⟨⟨h.src_eq, h.infoSize, fun htrunc hres => ?_, fun _ => ⟨_, rfl, ?_⟩⟩, ?_⟩
  · rcases hcounted.touched with ht | hr
    · exact absurd (htrunc.symm.trans ht) Bool.false_ne_true
    · exact absurd (hres.symm.trans hr) Bool.false_ne_true
  · rw [hbytes, ← hlen, append_next_isPrefix]
    exact hprefix
  · rintro content' hsome
    rw [← Option.some.inj hsome, List.length_append, hlen]

/-- What a piece that is put leaves: the end, or the next piece. -/
theorem put_ensures (h : c.Trace src old) (hcounted : c.Counted)
    (hwriter : c.writerPos = c.fileComplete) {piece : List Byte} {ask n : Nat}
    (hpiece : piece = (src.drop c.fileComplete).take n)
    (hreader : c.readerPos = c.fileComplete + piece.length) :
    (put ask piece).Ensures c (fun r c' => match r with
      | some _ => c'.Complete src old
      | none => c'.Trace src old ∧ c'.AtCount) (Trace src old) := by
  have h₁ : ({ c with indicted := some .dst } : FileCopy).Trace src old :=
    ⟨h.src_eq, h.infoSize, h.untouched, h.touched⟩
  have hcounted₁ : ({ c with indicted := some .dst } : FileCopy).Counted :=
    ⟨hcounted.touched, hcounted.count⟩
  refine .bind_modify ?_
  have hwrite : (write piece).Ensures { c with indicted := some .dst }
      (fun _ c' => c'.Trace src old ∧ (c'.truncated = true ∨ c'.resumedOld = true)
        ∧ c'.fileComplete = c.fileComplete ∧ c'.readerPos = c.fileComplete + piece.length
        ∧ c'.writerPos = c.fileComplete + piece.length
        ∧ ∀ content, c'.dst = some content → content.length = c.fileComplete + piece.length)
      (Trace src old) := by
    refine .partly fun reply => ?_
    cases reply with
    | returns k =>
      obtain ⟨htrace, hlen⟩ := h₁.written hcounted₁ hwriter hpiece (c.writerPos + piece.length)
      exact ⟨htrace, hcounted.touched, rfl, hreader, congrArg (· + piece.length) hwriter, hlen⟩
    | throws k =>
      have hpart : piece.take k = (src.drop c.fileComplete).take (min k n) := by
        rw [hpiece, List.take_take]
      exact (h₁.written hcounted₁ hwriter hpart (c.writerPos + (piece.take k).length)).1
  refine .bind hwrite ?_
  rintro ⟨⟩ c₂ ⟨h₂, htouched₂, hcomplete₂, hreader₂, hwriter₂, hlen₂⟩
  refine .bind_modify (.bind_state ?_)
  dsimp only
  have h₃ : ∀ (ind : Option Site) (size : Nat) (stats : Nat) (abort : Bool),
      ({ c₂ with
          fileComplete := c₂.fileComplete + piece.length
          indicted := ind
          ioBufSize := size
          statsComplete := stats
          aborting := abort } : FileCopy).Trace src old :=
    fun _ _ _ _ => ⟨h₂.src_eq, h₂.infoSize, h₂.untouched, h₂.touched⟩
  generalize hfast : (decide (piece.length < ask
    ∧ c₂.fileComplete + piece.length = c₂.infoSize)) = fast
  refine .bind (Q := fun _ c' => c' = { c₂ with fileComplete := c₂.fileComplete + piece.length }) ?_ ?_
  · cases fast with
    | true => exact bareCall_ensures rfl (h₃ c₂.indicted c₂.ioBufSize c₂.statsComplete c₂.aborting)
    | false => exact .pure rfl
  rintro ⟨⟩ c' rfl
  refine .bind (Q := fun _ c' => ∃ size, c' = { c₂ with
      fileComplete := c₂.fileComplete + piece.length, ioBufSize := size }) (.call fun reply => ?_) ?_
  · cases reply with
    | returns k => exact ⟨k, rfl⟩
    | throws k => exact ⟨c₂.ioBufSize, rfl⟩
  rintro ⟨⟩ c' ⟨size, rfl⟩
  refine .bind_modify (.bind (Q := fun _ c' => c' = { c₂ with
      fileComplete := c₂.fileComplete + piece.length, ioBufSize := size, indicted := none })
    (progressStateUpdate_ensures rfl (h₃ none size c₂.statsComplete true)) ?_)
  rintro ⟨⟩ c' rfl
  refine .bind_modify (.pure ?_)
  cases fast with
  | true =>
    -- The count is exactly the size of the source.
    have hend : c₂.fileComplete + piece.length = c₂.infoSize := (of_decide_eq_true hfast).2
    have hsize : src.length = c.fileComplete + piece.length := by
      rw [← hcomplete₂, hend, h₂.infoSize]
    refine ⟨h₃ none size _ c₂.aborting, htouched₂, fun content hdst => ?_⟩
    exact Nat.le_of_eq (hsize.trans (hlen₂ content hdst).symm)
  | false =>
    refine ⟨h₃ none size _ c₂.aborting, ⟨htouched₂, fun content hdst => ?_⟩, ?_, ?_⟩
    · exact (hlen₂ content hdst).trans (congrArg (· + piece.length) hcomplete₂.symm)
    · exact hreader₂.trans (congrArg (· + piece.length) hcomplete₂.symm)
    · exact hwriter₂.trans (congrArg (· + piece.length) hcomplete₂.symm)

/-- **One turn of the inner loop.** -/
theorem copyPiece_ensures (h : c.Trace src old) (hcount : c.AtCount) :
    copyPiece.Ensures c (fun r c' => match r with
      | some _ => c'.Complete src old
      | none => c'.Trace src old ∧ c'.AtCount) (Trace src old) := by
  have h₁ : ∀ pos, ({ c with indicted := some .base, readerPos := pos } : FileCopy).Trace src old :=
    fun _ => ⟨h.src_eq, h.infoSize, h.untouched, h.touched⟩
  refine .bind_modify (.bind_state ?_)
  generalize ({ c with indicted := some Site.base } : FileCopy).askPiece = ask
  refine .bind (Q := fun piece c' => (∃ n, piece = (src.drop c.fileComplete).take n)
    ∧ c' = { c with indicted := some .base, readerPos := c.fileComplete + piece.length }) ?_ ?_
  · refine .partly fun reply => ?_
    cases reply with
    | throws n => exact h₁ c.readerPos
    | returns n =>
      dsimp only
      rw [h.src_eq, hcount.readerPos]
      exact ⟨⟨_, rfl⟩, rfl⟩
  rintro piece c' ⟨⟨n, hpiece⟩, rfl⟩
  have hcounted : ({ c with indicted := some .base, readerPos := c.fileComplete + piece.length }
      : FileCopy).Counted := ⟨hcount.counted.touched, hcount.counted.count⟩
  split
  · refine (finish_ensures (h₁ _) hcounted).weaken ?_ fun _ hE => hE
    rintro r c' ⟨rfl, hcomplete⟩
    exact hcomplete
  · exact put_ensures (h₁ _) hcounted hcount.writerPos hpiece rfl

/-! ## The whole copy -/

theorem attempt_ensures (h : c.Round src old) :
    attempt.Ensures c (fun r c' => r = some true ∧ c'.Complete src old) (Trace src old) := by
  refine .bind (findStart_ensures h) ?_
  rintro ⟨⟩ c₁ ⟨h₁, hstart⟩
  refine .bind (openFiles_ensures h₁ hstart) ?_
  rintro ⟨⟩ c₂ ⟨h₂, hcount⟩
  refine .bind (Q := fun _ c' => c'.Complete src old)
    (.loop (I := fun c' => c'.Trace src old ∧ c'.AtCount) ?_ ⟨h₂, hcount⟩) ?_
  · intro c' ⟨htrace, hcount'⟩
    refine (copyPiece_ensures htrace hcount').weaken (fun r c'' h => ?_) fun _ hE => hE
    cases r with
    | none => exact h
    | some _ => exact h
  · exact fun _ c₃ hcomplete => .pure ⟨rfl, hcomplete⟩

/-- After an error the copy is given up, skipped or tried again. -/
theorem onError_ensures (h : c.Trace src old) :
    onError.Ensures c (fun r c' => match r with
      | some ok => ok = true → c'.Complete src old
      | none => c'.Round src old) (fun _ => True) := by
  refine .bind_state ?_
  split
  · exact .throws trivial
  · next hind =>
    rw [not_or] at hind
    refine .bind (Q := fun _ c' => c' = c) (.call fun _ => rfl) ?_
    rintro answer c' rfl
    cases answer with
    | WEA_SKIP =>
      refine .bind (progressStateUpdate_ensures (Q := fun _ _ => True) trivial trivial) ?_
      exact fun _ _ _ => .pure fun htrue => Bool.noConfusion htrue
    | WEA_RETRY =>
      refine .bind (Q := fun _ c'' => c'' = c') (progressStateUpdate_ensures rfl trivial) ?_
      rintro ⟨⟩ c'' rfl
      exact .pure ⟨h, fun hnone => absurd hnone hind.2⟩
    | WEA_CANCEL => exact .throws trivial

/-- Whatever the hosts and the user answer, a copy that reports success is complete. -/
theorem fileCopyLoop_ensures (h : c.Round src old) :
    fileCopyLoop.Ensures c (fun ok c' => ok = true → c'.Complete src old) (fun _ => True) := by
  refine .loop (I := Round src old) (fun c' hc' => ?_) h
  refine .catching ((attempt_ensures hc').weaken ?_ fun _ hE => hE) fun c'' hE => ?_
  · rintro r c'' ⟨rfl, hcomplete⟩
    exact fun _ => hcomplete
  · refine (onError_ensures hE).weaken (fun r c'' h => ?_) fun _ hE => hE
    cases r with
    | none => exact h
    | some _ => exact h

theorem entered_round (src : List Byte) (dst : Option (List Byte)) (ioBufSize : Nat) :
    (entered src dst ioBufSize).Round src dst :=
  ⟨⟨rfl, rfl, fun _ _ => rfl, fun h => h.elim (fun h => Bool.noConfusion h)
    (fun h => Bool.noConfusion h)⟩, fun _ => ⟨rfl, rfl, rfl⟩⟩

/-- **A copy that reports success is exact** if and only if no retry has gone on from the size of a
destination that this copy has not truncated, or the older content is a beginning of the source. -/
theorem fileCopyLoop_exact {dst : Option (List Byte)} {ioBufSize : Nat} {replies rest : List Reply}
    (h : fileCopyLoop (entered src dst ioBufSize) replies = .returned true c rest) :
    c.dst = some src ↔ c.resumedOld = false ∨ dst.getD [] <+: src := by
  have hcopy := fileCopyLoop_ensures (entered_round src dst ioBufSize) replies
  rw [h] at hcopy
  exact (hcopy rfl).exact

/-- Two bytes are copied over another one, and nothing fails. -/
def untroubled : List Reply :=
  [.returns 0, .returns 0, .returns 0, .returns 2, .returns 0, .returns 0, .returns 4096,
    .returns 0]

theorem fileCopyLoop_exact_untroubled :
    ∃ c, fileCopyLoop (entered [1, 2] (some [9]) 4096) untroubled = .returned true c []
      ∧ (c.dst = some [1, 2] ↔ c.resumedOld = false ∨ (some [(9 : Byte)]).getD [] <+: [1, 2]) := by
  have hrun : ∃ c, fileCopyLoop (entered [1, 2] (some [9]) 4096) untroubled = .returned true c [] :=
    ⟨_, rfl⟩
  obtain ⟨c, hc⟩ := hrun
  exact ⟨c, hc, fileCopyLoop_exact hc⟩

/-- The source cannot be opened at first, and the user says Retry: the copy goes on from the size of
the older file. -/
def getFailsFirst : List Reply :=
  [.returns 0, .throws 0, .returns 1, .returns 0, .returns 0, .returns 0, .returns 0, .returns 0,
    .returns 0, .returns 1, .returns 0, .returns 0, .returns 4096, .returns 0]

/-- Success is reported, and the first byte is the older one. -/
theorem getFailsFirst_not_exact :
    ¬ ∀ (src : List Byte) (dst : Option (List Byte)) (ioBufSize : Nat) (replies rest : List Reply)
        (c : FileCopy), fileCopyLoop (entered src dst ioBufSize) replies = .returned true c rest →
          c.dst = some src := by
  intro hall
  have hcopied := hall [1, 2] (some [9]) 4096 getFailsFirst [] _ rfl
  have hmixed : some [9, 2] = some [(1 : Byte), 2] := hcopied
  exact absurd hmixed (by decide)

end FileCopy

end Far2l.NetRocks
