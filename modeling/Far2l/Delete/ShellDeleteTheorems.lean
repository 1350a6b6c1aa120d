/-
Far2l.Delete.ShellDeleteTheorems — a deletion removes exactly what was not
skipped, if the links that were skipped are the last entries of their directories.

A removal either takes place or a skip is given, so that after each round of the
loop nothing but the selected directory is due.
-/
import Far2l.Delete.ScanTreeTheorems

namespace Far2l.Delete

open Far2l.Action

variable {t : Tree} {confirm : Confirm} {S S' : Deletion} {p : Path} {data : Attributes}

/-! ## Removals -/

/-- Only the modes may have changed. -/
structure SameTally (S S' : Deletion) : Prop where
  scTree : S'.scTree = S.scTree
  tally : S'.tally = S.tally

theorem SameTally.refl (S : Deletion) : SameTally S S := ⟨rfl, rfl⟩

theorem SameTally.trans {S'' : Deletion} (h : SameTally S S') (h' : SameTally S' S'') :
    SameTally S S'' :=
  ⟨h'.scTree.trans h.scTree, h'.tally.trans h.tally⟩

/-- `p` has been removed, and nothing else has happened to the entries. -/
structure Removes (p : Path) (S S' : Deletion) : Prop where
  scTree : S'.scTree = S.scTree
  tally : S'.tally = { S.tally with removed := p :: S.tally.removed }

theorem SameTally.removes {S'' : Deletion} (h : SameTally S S') (h' : Removes p S' S'') :
    Removes p S S'' :=
  ⟨h'.scTree.trans h.scTree, h'.tally.trans (by rw [h.tally])⟩

/-- An attempt to remove `p`. -/
def Tried (p : Path) (S : Deletion) (done : Bool) (S' : Deletion) : Prop :=
  match done with
  | true => Removes p S S'
  | false => SameTally S S'

/-- What a removal of `p` returns. -/
def Removal (p : Path) (S : Deletion) (code : DeleteCode) (S' : Deletion) : Prop :=
  match code with
  | .success => Removes p S S'
  | .skip => SameTally S S'

/-- Nothing is thrown. -/
abbrev Never (_ : Deletion) : Prop := False

theorem SameTally.tried {S'' : Deletion} {done : Bool} (h : SameTally S S')
    (h' : Tried p S' done S'') : Tried p S done S'' := by
  cases done with
  | true => exact h.removes h'
  | false => exact h.trans h'

theorem removing_spec (kinds : Kind → Bool) (S : Deletion) :
    (removing t kinds p).Ensures S (Tried p S) Never := by
  refine .tried (fun reply S' hS' => ?_) (SameTally.refl S)
  split at hS'
  · obtain rfl := Option.some.inj hS'
    exact ⟨rfl, rfl⟩
  · cases hS'

theorem answerOr_spec {α : Type} (mode : Option α) (ask : Reply → α) (S : Deletion) :
    (answerOr mode ask).Ensures S (fun _ S' => S' = S) Never := by
  cases mode with
  | some answer => exact .pure rfl
  | none => exact .call fun _ => rfl

theorem askDeleteReadOnly_spec (S : Deletion) :
    (askDeleteReadOnly confirm).Ensures S (fun _ S' => SameTally S S') Never := by
  refine .bind (Q := fun _ S' => S' = S) (.call fun _ => rfl) fun writable S' hS' => ?_
  subst hS'
  cases writable with
  | false => exact .pure (SameTally.refl _)
  | true =>
    have hmode : SameTally S'
        (if confirm.ro then S' else { S' with modes.readOnlyDeleteMode := some .all }) := by
      split
      · exact SameTally.refl _
      · exact ⟨rfl, rfl⟩
    refine .bind_modify (.bind_state ?_)
    refine .bind (answerOr_spec _ _ _) fun answer S'' hS'' => ?_
    subst hS''
    cases answer with
    | delete => exact .pure hmode
    | all => exact .bind_modify (.pure ⟨hmode.scTree, hmode.tally⟩)
    | skip => exact .pure hmode
    | skipAll => exact .bind_modify (.pure ⟨hmode.scTree, hmode.tally⟩)

/-- A round of a loop that goes on until `p` has been removed or a skip is given. -/
def Round (p : Path) (S : Deletion) (code : Option DeleteCode) (S' : Deletion) : Prop :=
  match code with
  | some code => Removal p S code S'
  | none => SameTally S S'

theorem askFailed_spec (mode : Modes → Option ErrorAnswer) (skipAll : Modes → Modes)
    {S₀ : Deletion} (h : SameTally S₀ S) :
    (askFailed mode skipAll).Ensures S (Round p S₀) Never := by
  refine .bind_state (.bind (answerOr_spec _ _ _) fun answer S' hS' => ?_)
  subst hS'
  cases answer with
  | retry => exact .pure h
  | skip => exact .pure h
  | skipAll => exact .bind_modify (.pure ⟨h.scTree, h.tally⟩)

theorem removeFileOnce_spec (S₀ S : Deletion) (h : SameTally S₀ S) :
    (removeFileOnce t p).Ensures S (Round p S₀) Never := by
  refine .bind (removing_spec _ S) fun done S' hdone => ?_
  cases done with
  | true => exact .pure (h.removes hdone)
  | false =>
    rw [if_neg Bool.false_ne_true]
    exact askFailed_spec _ _ (h.trans hdone)

theorem tryRemoveDirectory_spec (S : Deletion) :
    (tryRemoveDirectory t p).Ensures S (Tried p S) Never := by
  refine .bind (Q := fun _ S' => S' = S) (.call fun _ => rfl) fun link S' hS' => ?_
  subst hS'
  cases link with
  | false =>
    rw [if_neg Bool.false_ne_true]
    exact removing_spec _ _
  | true =>
    rw [if_pos rfl]
    refine .bind (removing_spec _ _) fun done S'' hdone => ?_
    cases done with
    | true => exact .pure hdone
    | false =>
      rw [if_neg Bool.false_ne_true]
      exact (removing_spec _ _).weaken (fun _ _ h => SameTally.tried hdone h) fun _ => id

theorem removeDirectoryOnce_spec (S₀ S : Deletion) (h : SameTally S₀ S) :
    (removeDirectoryOnce t p).Ensures S (Round p S₀) Never := by
  refine .bind (tryRemoveDirectory_spec S) fun done S' hdone => ?_
  cases done with
  | true => exact .pure (h.removes hdone)
  | false =>
    rw [if_neg Bool.false_ne_true]
    exact askFailed_spec _ _ (h.trans hdone)

/-- A loop of such rounds. -/
theorem removal_loop {round : Run (Option DeleteCode)} (S₀ : Deletion)
    (hround : ∀ S, SameTally S₀ S → round.Ensures S (Round p S₀) Never) (h : SameTally S₀ S) :
    (loop round).Ensures S (Removal p S₀) Never := by
  refine .loop (I := SameTally S₀) (fun S hS => (hround S hS).weaken (fun code S' h => ?_)
    fun _ => id) h
  cases code with
  | none => exact h
  | some code => exact h

/-- **`ShellRemoveFile`** removes the file, or a skip is given. -/
theorem shellRemoveFile_spec (S : Deletion) :
    (shellRemoveFile t confirm p).Ensures S (Removal p S) Never := by
  refine .bind (removing_spec _ S) fun done S' hdone => ?_
  cases done with
  | true => exact .pure hdone
  | false =>
    refine .bind (askDeleteReadOnly_spec S') fun code S'' h => ?_
    have hsame : SameTally S S'' := SameTally.trans hdone h
    cases code with
    | skip => exact .pure hsame
    | success => exact removal_loop S (removeFileOnce_spec S) hsame

/-- **`ERemoveDirectory`** removes the directory or the link, or a skip is given. -/
theorem eRemoveDirectory_spec (S : Deletion) :
    (eRemoveDirectory t p).Ensures S (Removal p S) Never :=
  removal_loop S (removeDirectoryOnce_spec S) (SameTally.refl S)

/-! ## Rounds -/

/-! ## The loop -/

/-- The entries are in order between two rounds: only the selected directory is due. -/
def Between (t : Tree) (S : Deletion) : Prop := Kept t (fun q => q = []) S.scTree S.tally

theorem SameTally.between (h : SameTally S S') (hS : Between t S) : Between t S' := by
  unfold Between
  rw [h.scTree, h.tally]
  exact hS

theorem Removes.between (h : Removes p S S') (hturn : Turn t S.scTree S.tally p data) :
    Between t S' := by
  unfold Between
  rw [h.scTree, h.tally]
  exact hturn.kept.remove hturn.entry

theorem Turn.skipped (hturn : Turn t S.scTree S.tally p data) (hdata : ¬ data.IsDirSymLink) :
    Between t (S.skip p data) :=
  hturn.kept.skip hdata

/-- The turn is still there. -/
theorem SameTally.turn (h : SameTally S S') (hturn : Turn t S.scTree S.tally p data) :
    Turn t S'.scTree S'.tally p data := by
  rw [h.scTree, h.tally]
  exact hturn

theorem deleteLink_spec (hturn : Turn t S.scTree S.tally p data) (hdata : data.IsDirSymLink) :
    (deleteLink t p data).Ensures S (fun _ S' => Between t S') Never := by
  refine .bind (eRemoveDirectory_spec S) fun code S' h => ?_
  cases code with
  | success => exact .pure (Removes.between h hturn)
  | skip => exact .bind_modify (.modify ((SameTally.turn h hturn).skipDir hdata))

theorem deleteFile_spec (hturn : Turn t S.scTree S.tally p data)
    (hdata : ¬ data.IsDirSymLink) :
    (deleteFile t confirm p data).Ensures S (fun _ S' => Between t S') Never := by
  refine .bind (shellRemoveFile_spec S) fun code S' h => ?_
  cases code with
  | success => exact .pure (Removes.between h hturn)
  | skip => exact .modify ((SameTally.turn h hturn).skipped hdata)

/-- The second turn of a directory. -/
theorem deleteDirectory_turn_spec (hturn : Turn t S.scTree S.tally p data)
    (hdata : ¬ data.IsDirSymLink) (hsecond : S.scTree.isDirSearchDone = true) :
    (deleteDirectory t p data).Ensures S (fun _ S' => Between t S') Never := by
  refine .bind_state ?_
  rw [if_pos hsecond]
  refine .bind (eRemoveDirectory_spec S) fun code S' h => ?_
  cases code with
  | success => exact .pure (Removes.between h hturn)
  | skip => exact .modify ((SameTally.turn h hturn).skipped hdata)

/-- The user is asked at most, and `p` may be declined. -/
theorem confirmFolder_spec (S : Deletion) :
    (confirmFolder t p).Ensures S
      (fun goesOn S' => match goesOn with
        | true => SameTally S S'
        | false => SameTally (S.decline p) S') Never := by
  refine .bind_state ?_
  split
  · refine .bind (answerOr_spec _ _ _) fun answer S' hS' => ?_
    subst hS'
    cases answer with
    | delete => exact .pure (SameTally.refl _)
    | all => exact .bind_modify (.pure ⟨rfl, rfl⟩)
    | skip => exact .bind_modify (.pure (SameTally.refl _))
  · exact .pure (SameTally.refl S)

/-- The first turn of a directory. -/
theorem deleteDirectory_entered_spec (h : Entered t S.scTree S.tally p) :
    (deleteDirectory t p data).Ensures S (fun _ S' => Between t S') Never := by
  refine .bind_state ?_
  rw [if_neg (by rw [h.first]; exact Bool.false_ne_true)]
  refine .bind (confirmFolder_spec S) fun goesOn S' hS' => ?_
  cases goesOn with
  | true => exact .pure (SameTally.between hS' h.kept)
  | false =>
    refine .modify ?_
    have hdecline := h.skipDir
    unfold Between Deletion.skipDir
    rw [SameTally.scTree hS', SameTally.tally hS']
    exact hdecline

theorem deleteEntry_spec (hturn : Turn t S.scTree S.tally p data) :
    (deleteEntry t confirm p data).Ensures S (fun _ S' => Between t S') Never := by
  unfold deleteEntry
  cases hdir : data.directory with
  | false => exact deleteFile_spec hturn fun hlink => Bool.false_ne_true (hdir.symm.trans hlink.1)
  | true =>
    cases hlink : data.reparsePoint with
    | true => exact deleteLink_spec hturn ⟨hdir, hlink⟩
    | false =>
      have hdata : ¬ data.IsDirSymLink := fun h => Bool.false_ne_true (hlink.symm.trans h.2)
      exact deleteDirectory_turn_spec hturn hdata (hturn.second hdir hlink)

/-- **One round of the loop.** -/
theorem deleteNext_spec (h : Between t S) :
    (deleteNext t confirm).Ensures S (fun ended S' => match ended with
      | some () => Between t S' ∧ S'.scTree.scanDirStack = []
      | none => Between t S') Never := by
  refine .bind (Q := fun next S' => Returned t S'.tally next S'.scTree)
    (.call fun reply => h.getNextName reply.attributes) fun next S' hnext => ?_
  obtain ⟨scan, modes, tally⟩ := S'
  cases hnext with
  | done hkept hdone => exact .pure ⟨hkept, hdone⟩
  | turn hturn => exact .bind (deleteEntry_spec hturn) fun _ S'' h => .pure h
  | entered hentered =>
    exact .bind (deleteDirectory_entered_spec hentered) fun _ S'' h => .pure h

/-! ## The end -/

/-- Nothing is due and nothing is ahead. -/
theorem Kept.exact_iff {T : Tally} {scan : ScanTree} (h : Kept t (fun _ => False) scan T)
    (hdone : scan.scanDirStack = []) : T.Exact t ↔ T.LinksLast t := by
  obtain ⟨path, stack, second⟩ := scan
  dsimp only at hdone
  subst hdone
  constructor
  · intro hexact
    by_contra hlast
    obtain ⟨g, hg⟩ := h.lost hlast
    rcases hexact.removed_or_excused g hg.entry with hremoved | hexcused
    · exact hg.remains hremoved
    · exact hg.unexcused hexcused
  · intro hlast
    refine ⟨fun q hq => ?_, fun d hd q hq => (h.spared d hd q hq).1, h.entries⟩
    rcases h.accounted hlast q hq with (hfirst | hsecond | hfalse) | hrest
    · exact hfirst.elim
    · exact hsecond.elim
    · exact hfalse.elim
    · exact hrest

/-- The selected directory is declined at the beginning. -/
theorem exact_iff_of_declined :
    Tally.Exact { declined := [[]] } t ↔ Tally.LinksLast { declined := [[]] } t := by
  refine ⟨fun _ s hs => absurd hs List.not_mem_nil, fun _ => ⟨fun q _ => .inr (.inr ?_), ?_, ?_⟩⟩
  · exact ⟨[], List.mem_cons_self, .inr List.nil_suffix⟩
  · exact fun _ _ _ _ => List.not_mem_nil
  · exact fun q hq => absurd hq List.not_mem_nil

theorem deleteSelected_spec :
    (deleteSelected t confirm).Ensures (.initial t confirm)
      (fun _ S' => S'.tally.Exact t ↔ S'.tally.LinksLast t) Never := by
  refine .bind (confirmFolder_spec _) fun goesOn S hS => ?_
  cases goesOn with
  | false =>
    refine .pure ?_
    rw [SameTally.tally hS]
    exact exact_iff_of_declined
  | true =>
    have hbetween : Between t S := SameTally.between hS Kept.initial
    refine .bind (.loop (I := Between t)
      (Q := fun _ S' => Between t S' ∧ S'.scTree.scanDirStack = []) (fun S h => ?_) hbetween)
      fun _ S ⟨hkept, hdone⟩ => ?_
    · refine (deleteNext_spec h).weaken (fun ended S' h => ?_) fun _ => id
      cases ended with
      | none => exact h
      | some _ => exact h
    · -- The selected directory is the last one that is due.
      have hdue : Kept t (fun q => False ∨ q = []) S.scTree S.tally := by
        simpa only [false_or, Between] using hkept
      refine .bind (eRemoveDirectory_spec S) fun code S' h => ?_
      cases code with
      | success =>
        refine .pure ?_
        rw [Removes.tally h]
        exact (hdue.remove .root).exact_iff hdone
      | skip =>
        refine .modify ?_
        have hroot : ¬ Attributes.IsDirSymLink ⟨true, false⟩ := by decide
        have hskip := hdue.skip hroot
        rw [← SameTally.tally h] at hskip
        exact hskip.exact_iff hdone

/-- **A deletion removes exactly what was not skipped** if and only if no link to a directory was
skipped in front of other entries of the directory that it is in. -/
theorem shellDelete_exact {replies : List Reply} {T : Tally}
    (h : shellDelete t confirm replies = some T) : T.Exact t ↔ T.LinksLast t := by
  have hspec := @deleteSelected_spec t confirm replies
  unfold shellDelete at h
  cases hrun : deleteSelected t confirm (.initial t confirm) replies with
  | returned a S rest =>
    rw [hrun] at h hspec
    obtain rfl := Option.some.inj h
    exact hspec
  | threw S rest =>
    rw [hrun] at h
    cases h
  | waits =>
    rw [hrun] at h
    cases h

/-- A directory with a link between two files. -/
def linkFolder : Tree where
  kind p := if p = [] then .directory else if p = [['l']] then .link else .file
  children d := if d = [] then [['f'], ['l'], ['g']] else []
  distinct d := by
    split
    · decide
    · exact List.nodup_nil
  root := rfl

def failed : Reply := { succeeds := false }

def skipError : Reply := { error := .skip }

/-- The link fails and is retried, and the file behind it is skipped. -/
theorem shellDelete_exact_retried :
    Tally.Exact
      { removed := [[['l']], [['f']]]
        skipped := [([], ⟨true, false⟩), ([['g']], ⟨false, false⟩)] } linkFolder := by
  have hrun : shellDelete linkFolder ⟨true, true⟩
      [{}, {}, {}, {}, {}, failed, failed, {}, {}, {}, {}, failed, failed, failed, skipError,
        {}, {}, {}, skipError]
      = some { removed := [[['l']], [['f']]]
               skipped := [([], ⟨true, false⟩), ([['g']], ⟨false, false⟩)] } := rfl
  refine (shellDelete_exact hrun).mpr ?_
  intro s hs hlink
  rcases List.mem_cons.mp hs with rfl | hs
  · exact absurd hlink (by decide)
  · rw [List.mem_singleton.mp hs] at hlink
    exact absurd hlink (by decide)

/-- The link fails and is skipped: then the file behind it stays, and nobody was asked about it. -/
theorem shellDelete_not_exact :
    ¬ ∀ (t : Tree) (confirm : Confirm) (replies : List Reply) (T : Tally),
      shellDelete t confirm replies = some T → T.Exact t := by
  intro h
  have hrun : shellDelete linkFolder ⟨true, true⟩
      [{}, {}, {}, {}, {}, failed, failed, skipError, {}, {}, {}, skipError]
      = some { removed := [[['f']]]
               skipped := [([], ⟨true, false⟩), ([['l']], ⟨true, true⟩)] } := rfl
  have hentry : linkFolder.Entry [['g']] := .child .root rfl (by decide)
  rcases (h _ _ _ _ hrun).removed_or_excused [['g']] hentry with hremoved | ⟨s, hs, hgs⟩ | ⟨d, hd, -⟩
  · exact absurd hremoved (by decide)
  · rcases List.mem_cons.mp hs with rfl | hs
    · exact absurd hgs (by decide)
    · rw [List.mem_singleton.mp hs] at hgs
      exact absurd hgs (by decide)
  · cases hd

end Far2l.Delete
