/-
Far2l.NetRocks.TransferTheorems — what a move has done to the entries that are
gone from the source.

Each entry has one turn, and what happens to it happens there. A program is
described by what it keeps about the fates of the entries, whether it returns or
throws; the errors, the questions and the retries keep everything.
-/
import Far2l.NetRocks.Transfer

namespace Far2l.NetRocks

/-! ## Fates -/

namespace Fate

/-- **An entry that is gone is not lost**: a symlink was created with the target that was chosen, or
its target's content was copied; a file was renamed or copied. -/
def Kept (f : Fate) : Prop :=
  f.deleted = true ∨ f.renamed = true →
    if f.isLink = true then (∃ target, f.made = some target ∧ f.chosen = some target) ∨ f.copied = true
    else f.renamed = true ∨ f.copied = true

/-- **What is true of every fate.** -/
structure Sound (f : Fate) : Prop where
  made : ∀ target, f.made = some target → f.chosen = some target
  deleted : f.deleted = true →
    f.copied = true ∨ (f.isLink = true ∧ (f.made.isSome = true ∨ f.unmade = true))
  unmade : f.unmade = true → f.made = none ∧ f.copied = false ∧ f.renamed = false
  renamed : f.renamed = true → f.made = none

/-- What a fate that is sound says about a symlink. -/
theorem Sound.kept_iff {f : Fate} (h : f.Sound) :
    f.Kept ↔ (f.isLink = true →
      (f.unmade = true → f.deleted = false) ∧ (f.renamed = true → f.copied = true)) := by
  constructor
  · intro hkept hlink
    have hgone := fun hgone => hkept hgone
    simp only [hlink, if_true] at hgone
    refine ⟨fun hunmade => ?_, fun hrenamed => ?_⟩
    · obtain ⟨hnone, hcopied, -⟩ := h.unmade hunmade
      cases hdeleted : f.deleted with
      | false => rfl
      | true =>
        rcases hgone (.inl hdeleted) with ⟨target, hmade, -⟩ | hcopied'
        · cases hnone.symm.trans hmade
        · cases hcopied.symm.trans hcopied'
    · rcases hgone (.inr hrenamed) with ⟨target, hmade, -⟩ | hcopied
      · cases (h.renamed hrenamed).symm.trans hmade
      · exact hcopied
  · intro hcond hgone
    cases hlink : f.isLink with
    | false =>
      rw [if_neg Bool.false_ne_true]
      rcases hgone with hdeleted | hrenamed
      · rcases h.deleted hdeleted with hcopied | ⟨hlink', -⟩
        · exact .inr hcopied
        · cases hlink.symm.trans hlink'
      · exact .inl hrenamed
    | true =>
      rw [if_pos rfl]
      obtain ⟨hunmade, hrenamed⟩ := hcond hlink
      rcases hgone with hdeleted | hmoved
      · rcases h.deleted hdeleted with hcopied | ⟨-, hmade | hnot⟩
        · exact .inr hcopied
        · obtain ⟨target, hmade⟩ := Option.isSome_iff_exists.mp hmade
          exact .inl ⟨target, hmade, h.made target hmade⟩
        · cases (hunmade hnot).symm.trans hdeleted
      · exact .inr (hrenamed hmoved)

/-- Nothing has happened to the entry, but that it may have been renamed. -/
structure Plain (f : Fate) : Prop where
  made : f.made = none
  unmade : f.unmade = false
  deleted : f.deleted = false

/-- Its symlink is being created. -/
structure Linking (target : Path) (f : Fate) : Prop where
  isLink : f.isLink = true
  chosen : f.chosen = some target
  made : f.made = none ∨ f.made = some target
  unmade : f.unmade = false
  renamed : f.renamed = false
  copied : f.copied = false
  deleted : f.deleted = false

/-- Its symlink has been created, or is thought to have been. -/
structure Linked (f : Fate) : Prop where
  isLink : f.isLink = true
  made : ∀ target, f.made = some target → f.chosen = some target
  unmade : f.unmade = f.made.isNone
  renamed : f.renamed = false
  copied : f.copied = false

/-- It has been copied. -/
structure Copied (f : Fate) : Prop where
  made : f.made = none
  unmade : f.unmade = false
  copied : f.copied = true

variable {f : Fate} {target : Path}

theorem Plain.sound (h : f.Plain) : f.Sound where
  made _ hmade := by cases h.made.symm.trans hmade
  deleted hdeleted := by cases h.deleted.symm.trans hdeleted
  unmade hunmade := by cases h.unmade.symm.trans hunmade
  renamed _ := h.made

theorem Linking.sound (h : f.Linking target) : f.Sound where
  made t hmade := by
    rcases h.made with hnone | hsome
    · cases hnone.symm.trans hmade
    · rw [h.chosen, ← hsome, hmade]
  deleted hdeleted := by cases h.deleted.symm.trans hdeleted
  unmade hunmade := by cases h.unmade.symm.trans hunmade
  renamed hrenamed := by cases h.renamed.symm.trans hrenamed

theorem Linked.sound (h : f.Linked) : f.Sound where
  made := h.made
  deleted _ := by
    refine .inr ⟨h.isLink, ?_⟩
    rw [h.unmade]
    cases f.made with
    | none => exact .inr rfl
    | some target => exact .inl rfl
  unmade hunmade := by
    rw [h.unmade] at hunmade
    exact ⟨Option.isNone_iff_eq_none.mp hunmade, h.copied, h.renamed⟩
  renamed hrenamed := by cases h.renamed.symm.trans hrenamed

theorem Copied.sound (h : f.Copied) : f.Sound where
  made _ hmade := by cases h.made.symm.trans hmade
  deleted _ := .inl h.copied
  unmade hunmade := by cases h.unmade.symm.trans hunmade
  renamed _ := h.made

end Fate

/-- What programs are described by: the fates, and `created`. -/
abbrev Record : Type := List Fate × Bool

/-- The turn of an entry: the fates before it are sound. -/
def Turn (P : Fate → Prop) (r : Record) : Prop :=
  ∃ f rest, r.1 = f :: rest ∧ P f ∧ ∀ g ∈ rest, g.Sound

theorem Turn.mono {P Q : Fate → Prop} {r : Record} (h : Turn P r)
    (himp : ∀ f, P f → Q f) : Turn Q r := by
  obtain ⟨f, rest, hfates, hP, hrest⟩ := h
  exact ⟨f, rest, hfates, himp f hP, hrest⟩

theorem Turn.sound {r : Record} (h : Turn Fate.Sound r) : ∀ f ∈ r.1, f.Sound := by
  obtain ⟨f, rest, hfates, hf, hrest⟩ := h
  rw [hfates]
  exact List.forall_mem_cons.mpr ⟨hf, hrest⟩

namespace Xfer

open Far2l.Action

def record (x : Xfer) : Record := (x.fates, x.created)

variable {α β : Type} {cfg : XferConfig} {x : Xfer} {P Q : Record → Prop}

theorem turn_onFate {P Q : Fate → Prop} (h : Turn P x.record) {g : Fate → Fate}
    (hg : ∀ f, P f → Q (g f)) : Turn Q (x.onFate g).record := by
  obtain ⟨f, rest, hfates, hP, hrest⟩ := h
  refine ⟨g f, rest, ?_, hg f hP, hrest⟩
  have hfates : x.fates = f :: rest := hfates
  rw [record, onFate, hfates]

/-! ## What programs keep -/

/-- **A program keeps `P`** about the fates, whether it returns or throws. -/
def Keeps (P : Record → Prop) (fn : Step α) : Prop :=
  ∀ x : Xfer, P x.record → fn.Ensures x (fun _ x' => P x'.record) (fun x' => P x'.record)

namespace Keeps

variable {fn : Step α} {f : α → Step β}

theorem pure {a : α} : Keeps P (Pure.pure a : Step α) := fun _ h => .pure h

theorem throws : Keeps P (Action.throws : Step α) := fun _ h => .throws h

theorem bind (hfn : Keeps P fn) (hf : ∀ a, Keeps P (f a)) : Keeps P (fn >>= f) :=
  fun x h => .bind (hfn x h) fun a x' h' => hf a x' h'

theorem state_bind {f : Xfer → Step β} (hf : ∀ x, Keeps P (f x)) : Keeps P (state >>= f) :=
  fun x h => .bind_state (hf x x h)

theorem ite {c : Prop} [Decidable c] {fn' : Step α} (hfn : Keeps P fn) (hfn' : Keeps P fn') :
    Keeps P (if c then fn else fn') := by
  split
  · exact hfn
  · exact hfn'

theorem modify {g : Xfer → Xfer} (hg : ∀ x, P x.record → P (g x).record) :
    Keeps P (Action.modify g : Step Unit) := fun x h => .modify (hg x h)

theorem call {g : Xfer → XferReply → α × Xfer} (hg : ∀ x r, (g x r).2.record = x.record) :
    Keeps P (Action.call g) := by
  refine fun x h => .call fun r => ?_
  rw [hg]
  exact h

theorem hostCall {effect : Xfer → XferReply → Xfer}
    (heffect : ∀ x r, P x.record → P (effect x r).record) : Keeps P (Xfer.hostCall effect) := by
  refine fun x h => .partly fun r => ?_
  cases r.ending with
  | returns => exact heffect x r h
  | throws tookEffect =>
    cases tookEffect with
    | true => exact heffect x r h
    | false => exact h
  | unsupported => exact h
  | aborts => exact h

theorem bareCall : Keeps P Xfer.bareCall := hostCall fun _ _ h => h

theorem checkAborting : Keeps P Xfer.checkAborting := by
  refine fun x h => .partly fun r => ?_
  cases r.ending with
  | returns => exact h
  | throws tookEffect => exact h
  | unsupported => exact h
  | aborts => exact h

theorem catching {fn handler : Step α} (hfn : Keeps P fn) (hhandler : Keeps P handler) :
    Keeps P (Action.catching fn handler) :=
  fun x h => .catching (hfn x h) fun x' h' => hhandler x' h'

theorem onError : Keeps P Xfer.onError := by
  refine state_bind fun x => ite throws (bind (call fun _ _ => rfl) fun answer => ?_)
  cases answer with
  | WEA_SKIP => exact pure
  | WEA_RETRY => exact bind bareCall fun _ => bind checkAborting fun _ => pure
  | WEA_RECOVERY => exact bind checkAborting fun _ => pure
  | WEA_CANCEL => exact bind (modify fun _ h => h) fun _ => throws

/-- The rule of `WhatOnErrorWrap`: what one call establishes, the retries and the user keep. -/
theorem wrap {fn : Step Unit} (hfn : ∀ x : Xfer, P x.record →
      fn.Ensures x (fun _ x' => Q x'.record) (fun x' => Q x'.record))
    (hQP : ∀ r, Q r → P r) {x : Xfer} (h : P x.record) :
    (Xfer.whatOnErrorWrap fn).Ensures x (fun _ x' => Q x'.record) (fun x' => Q x'.record) := by
  refine .loop (I := fun x' => P x'.record) (fun x' h' => ?_) h
  refine (Ensures.catching (.bind (hfn x' h') fun _ _ h'' => .pure h'')
    fun x'' h'' => onError x'' h'').weaken (fun r x'' h'' => ?_) fun _ h'' => h''
  cases r with
  | none => exact hQP _ h''
  | some _ => exact h''

theorem whatOnErrorWrap {fn : Step Unit} (hfn : Keeps P fn) : Keeps P (Xfer.whatOnErrorWrap fn) :=
  fun _ h => wrap hfn (fun _ h => h) h

theorem copyAttributes : Keeps P (Xfer.copyAttributes cfg) := by
  refine bind (whatOnErrorWrap bareCall) fun _ => state_bind fun x => ite pure (whatOnErrorWrap ?_)
  exact catching bareCall (state_bind fun x => ite throws bareCall)

theorem isDstPathExists : Keeps P Xfer.isDstPathExists := call fun _ _ => rfl

theorem ensurePart : Keeps P Xfer.ensurePart :=
  whatOnErrorWrap (bind isDstPathExists fun _ => ite pure bareCall)

theorem ensureParts : ∀ n : Nat, Keeps P (Xfer.ensureParts n)
  | 0 => pure
  | n + 1 => bind ensurePart fun _ => ensureParts n

theorem ensureDstDirExists : Keeps P (Xfer.ensureDstDirExists cfg) :=
  bind isDstPathExists fun _ => ite pure (ensureParts _)

theorem directoryCopy {existing : Option FileInformation} :
    Keeps P (Xfer.directoryCopy existing) := by
  cases existing with
  | none => exact whatOnErrorWrap bareCall
  | some existing => exact pure

theorem chooseFile {pathDst : Path} {existing : Option FileInformation} :
    Keeps P (Xfer.chooseFile cfg pathDst existing) := by
  cases existing with
  | none => exact pure
  | some existing =>
    refine state_bind fun x => ite (bind ?_ fun answer => ite pure pure) pure
    refine call fun x r => ?_
    dsimp only
    split
    · rfl
    · rfl

theorem finishDirectory {info : FileInformation} : Keeps P (Xfer.finishDirectory cfg info) := by
  refine ite (bind (modify fun _ h => h) fun _ => bind copyAttributes fun _ => ?_) pure
  exact ite (whatOnErrorWrap bareCall) pure

theorem finishDirectories :
    ∀ turned : List (Path × FileInformation), Keeps P (Xfer.finishDirectories cfg turned)
  | [] => pure
  | (_, _) :: turned => bind finishDirectory fun _ => finishDirectories turned

end Keeps

/-! ## A turn -/

/-- `FileDelete` of an entry that has been copied or whose symlink is there. -/
theorem fileDelete_keeps {P : Fate → Prop} (hP : ∀ f, P f → P { f with deleted := true }) :
    Keeps (Turn P) fileDelete :=
  Keeps.whatOnErrorWrap (Keeps.hostCall fun _ _ h => turn_onFate h hP)

theorem deleteMoved_keeps {P : Fate → Prop} (hP : ∀ f, P f → P { f with deleted := true }) :
    Keeps (Turn P) (deleteMoved cfg) :=
  Keeps.ite (fileDelete_keeps hP) Keeps.pure

theorem Linked_deleted (f : Fate) (h : f.Linked) : Fate.Linked { f with deleted := true } :=
  ⟨h.isLink, h.made, h.unmade, h.renamed, h.copied⟩

theorem Copied_deleted (f : Fate) (h : f.Copied) : Fate.Copied { f with deleted := true } :=
  ⟨h.made, h.unmade, h.copied⟩

/-- One try to create a symlink. -/
theorem symlinkCreate_ensures {target : Path} (h : Turn (Fate.Linking target) x.record) :
    (symlinkCreate target).Ensures x
      (fun _ x' => Turn (Fate.Linking target) x'.record ∧ x'.record.2 = true)
      (fun x' => Turn (Fate.Linking target) x'.record ∧ x'.record.2 = true) := by
  have hkeeps : Keeps (fun r => Turn (Fate.Linking target) r ∧ r.2 = true)
      (hostCall fun x _ => x.onFate fun fate => { fate with made := some target }) := by
    refine Keeps.hostCall fun x r h => ⟨turn_onFate h.1 fun f hf => ?_, h.2⟩
    exact ⟨hf.isLink, hf.chosen, .inr rfl, hf.unmade, hf.renamed, hf.copied, hf.deleted⟩
  refine .catching (.bind_modify (hkeeps _ ⟨?_, rfl⟩)) fun x' h' => ?_
  · exact h
  · exact Keeps.state_bind (P := fun r => Turn (Fate.Linking target) r ∧ r.2 = true)
      (fun x => Keeps.ite Keeps.pure Keeps.throws) x' h'

/-- A symlink whose turn begins. -/
structure FreshLink (f : Fate) : Prop where
  plain : f.Plain
  isLink : f.isLink = true
  renamed : f.renamed = false
  copied : f.copied = false

/-- What `SymlinkCopy` leaves: the symlink, or what it began with. -/
theorem symlinkCopy_ensures {pathSrc pathDst : Path} (h : Turn FreshLink x.record) :
    (symlinkCopy cfg pathSrc pathDst).Ensures x
      (fun done x' => if done = true then Turn Fate.Linked x'.record else Turn Fate.Plain x'.record)
      (fun x' => Turn Fate.Sound x'.record) := by
  have hquery : Keeps (Turn FreshLink) (whatOnErrorWrap symlinkQuery) :=
    Keeps.whatOnErrorWrap (Keeps.bind (Keeps.modify fun _ h => h) fun _ => Keeps.hostCall fun _ _ h => h)
  refine .bind ((hquery x h).weaken (fun _ _ h => h) fun _ h => h.mono fun f hf => hf.plain.sound)
    fun _ x₁ h₁ => ?_
  refine .bind_state ?_
  cases htarget : chooseTarget cfg pathSrc pathDst x₁.symlinkTarget with
  | none =>
    refine .pure ?_
    rw [if_neg Bool.false_ne_true]
    exact h₁.mono fun f hf => hf.plain
  | some target =>
    refine .bind_modify ?_
    have hlinking : Turn (Fate.Linking target)
        (x₁.onFate fun fate => { fate with chosen := some target }).record :=
      turn_onFate h₁ fun f hf => ⟨hf.isLink, rfl, .inl hf.plain.made, hf.plain.unmade, hf.renamed,
        hf.copied, hf.plain.deleted⟩
    have hwrap := Keeps.wrap (P := Turn (Fate.Linking target))
      (Q := fun r => Turn (Fate.Linking target) r ∧ r.2 = true)
      (fun _ h => symlinkCreate_ensures h) (fun _ h => h.1) hlinking
    refine .bind (hwrap.weaken (fun _ _ h => h) fun _ h => h.1.mono fun f hf => hf.sound)
      fun _ x₂ ⟨h₂, hcreated⟩ => ?_
    refine .bind_modify (.bind_state (.pure ?_))
    have hlinked : Turn Fate.Linked
        (x₂.onFate fun fate => { fate with unmade := fate.made.isNone }).record := by
      refine turn_onFate h₂ fun f hf => ⟨hf.isLink, fun t hmade => ?_, rfl, hf.renamed, hf.copied⟩
      exact hf.sound.made t hmade
    have hdone : (x₂.onFate fun fate => { fate with unmade := fate.made.isNone }).created = true :=
      hcreated
    rw [if_pos hdone]
    exact hlinked

/-- `WhatOnErrorWrap` and the deletion behind it end a turn soundly. -/
theorem deleteMoved_ensures {P : Fate → Prop} (hP : ∀ f, P f → P { f with deleted := true })
    (hsound : ∀ f, P f → f.Sound) (h : Turn P x.record) :
    (do
      deleteMoved cfg
      checkAborting : Step Unit).Ensures x (fun _ x' => Turn Fate.Sound x'.record)
      (fun x' => Turn Fate.Sound x'.record) :=
  (Keeps.bind (deleteMoved_keeps hP) (fun _ => Keeps.checkAborting) x h).weaken
    (fun _ _ h => h.mono hsound) fun _ h => h.mono hsound

/-- `Rename`, which may have done its work also where it throws. -/
theorem onSiteRename_keeps : Keeps (Turn Fate.Plain) (onSiteRename cfg) := by
  refine Keeps.ite (Keeps.catching (Keeps.bind (Keeps.hostCall fun _ _ h => ?_) fun _ => Keeps.pure)
    Keeps.pure) Keeps.pure
  exact turn_onFate h fun f hf => ⟨hf.made, hf.unmade, hf.deleted⟩

theorem fileCopyLoop_ensures (h : Turn Fate.Plain x.record) :
    fileCopyLoop.Ensures x
      (fun copied x' => if copied = true then Turn Fate.Copied x'.record else Turn Fate.Plain x'.record)
      (fun x' => Turn Fate.Plain x'.record) := by
  refine .partly fun r => ?_
  cases r.ending with
  | returns =>
    dsimp only
    cases r.copied with
    | true => exact turn_onFate h fun f hf => ⟨hf.made, hf.unmade, rfl⟩
    | false => exact h
  | throws tookEffect => exact h
  | unsupported => exact h
  | aborts => exact h

/-- **A file** is renamed, or deleted after it has been copied. -/
theorem transferFile_ensures (h : Turn Fate.Plain x.record) :
    (transferFile cfg).Ensures x (fun _ x' => Turn Fate.Sound x'.record)
      (fun x' => Turn Fate.Sound x'.record) := by
  have hplain : ∀ {x : Xfer}, Turn Fate.Plain x.record → Turn Fate.Sound x.record :=
    fun h => h.mono fun f hf => hf.sound
  refine .bind ((onSiteRename_keeps x h).weaken (fun _ _ h => h) fun _ h => hplain h)
    fun renamed x₁ h₁ => ?_
  split
  · exact .pure (hplain h₁)
  · refine .bind ((fileCopyLoop_ensures h₁).weaken (fun _ _ h => h) fun _ h => hplain h)
      fun copied x₂ h₂ => ?_
    split
    · next hcopied =>
      rw [if_pos hcopied] at h₂
      refine .bind ((Keeps.copyAttributes x₂ h₂).weaken (fun _ _ h => h)
        fun _ h => h.mono fun f hf => hf.sound) fun _ x₃ h₃ => ?_
      exact deleteMoved_ensures Copied_deleted (fun f hf => hf.sound) h₃
    · next hnot =>
      rw [if_neg hnot] at h₂
      exact (Keeps.checkAborting x₂ h₂).weaken (fun _ _ h => hplain h) fun _ h => hplain h

theorem transferContent_ensures {pathDst : Path} {existing : Option FileInformation}
    (h : Turn Fate.Plain x.record) :
    (transferContent cfg pathDst existing).Ensures x (fun _ x' => Turn Fate.Sound x'.record)
      (fun x' => Turn Fate.Sound x'.record) := by
  have hplain : ∀ {x : Xfer}, Turn Fate.Plain x.record → Turn Fate.Sound x.record :=
    fun h => h.mono fun f hf => hf.sound
  refine .bind_state ?_
  split
  · have hkeeps : Keeps (Turn Fate.Plain) (do
        directoryCopy existing
        checkAborting
        pure true : Step Bool) :=
      Keeps.bind Keeps.directoryCopy fun _ => Keeps.bind Keeps.checkAborting fun _ => Keeps.pure
    exact (hkeeps x h).weaken (fun _ _ h => hplain h) fun _ h => hplain h
  · refine .bind ((Keeps.chooseFile x h).weaken (fun _ _ h => h) fun _ h => hplain h)
      fun choice x₁ h₁ => ?_
    cases choice with
    | cancel => exact .pure (hplain h₁)
    | skip => exact .pure (hplain h₁)
    | copyTo pathDst => exact .bind (transferFile_ensures h₁) fun _ _ h₂ => .pure h₂

/-- **A symlink** is over, or nothing has happened to it and its target is copied. -/
theorem transferLink_ensures {pathSrc pathDst : Path} {existing : Option FileInformation}
    (h : Turn FreshLink x.record) :
    (transferLink cfg pathSrc pathDst existing).Ensures x
      (fun done x' => if done = true then Turn Fate.Sound x'.record else Turn Fate.Plain x'.record)
      (fun x' => Turn Fate.Sound x'.record) := by
  have hplain : ∀ {x : Xfer}, Turn Fate.Plain x.record → Turn Fate.Sound x.record :=
    fun h => h.mono fun f hf => hf.sound
  cases existing with
  | some existing =>
    refine .bind ((Keeps.checkAborting x h).weaken (fun _ _ h => h)
      fun _ h => h.mono fun f hf => hf.plain.sound) fun _ x₁ h₁ => .pure ?_
    rw [if_pos rfl]
    exact h₁.mono fun f hf => hf.plain.sound
  | none =>
    refine .bind (symlinkCopy_ensures h) fun done x₁ h₁ => ?_
    split
    · next hdone =>
      rw [if_pos hdone] at h₁
      refine .bind ((deleteMoved_keeps Linked_deleted x₁ h₁).weaken (fun _ _ h => h)
        fun _ h => h.mono fun f hf => hf.sound) fun _ x₂ h₂ => ?_
      refine .bind ((Keeps.checkAborting x₂ h₂).weaken (fun _ _ h => h)
        fun _ h => h.mono fun f hf => hf.sound) fun _ x₃ h₃ => .pure ?_
      rw [if_pos rfl]
      exact h₃.mono fun f hf => hf.sound
    · next hdone =>
      rw [if_neg hdone] at h₁
      have hquery : Keeps (Turn Fate.Plain) (whatOnErrorWrap getTargetInformation) :=
        Keeps.whatOnErrorWrap (Keeps.hostCall fun _ _ h => h)
      refine .bind ((hquery x₁ h₁).weaken (fun _ _ h => h) fun _ h => hplain h) fun _ x₂ h₂ => ?_
      refine .bind_state ?_
      split
      · refine .pure ?_
        rw [if_neg Bool.false_ne_true]
        exact h₂
      · refine .bind ((Keeps.checkAborting x₂ h₂).weaken (fun _ _ h => h) fun _ h => hplain h)
          fun _ x₃ h₃ => .pure ?_
        rw [if_pos rfl]
        exact hplain h₃

/-! ## The whole transfer -/

/-- The fates are sound. -/
def AllSound (r : Record) : Prop := ∀ f ∈ r.1, f.Sound

theorem turn_begin (h : AllSound x.record) {pathSrc : Path} {info : FileInformation} {P : Fate → Prop}
    (hP : P { path := pathSrc, isLink := S_ISLNK info.mode }) :
    Turn P (beginTurn pathSrc info x).record := ⟨_, x.fates, rfl, hP, h⟩

/-- **The turn of an entry.** -/
theorem transferEntry_keeps {pathSrc : Path} {info : FileInformation} :
    Keeps AllSound (transferEntry cfg pathSrc info) := by
  intro x h
  refine .bind_modify ?_
  have hfresh : Turn (fun f => f = { path := pathSrc, isLink := S_ISLNK info.mode })
      (beginTurn pathSrc info x).record := turn_begin h rfl
  refine .bind (((Keeps.call fun _ _ => rfl) _ hfresh).weaken (fun _ _ h => h) fun _ h => ?_)
    fun existing x₁ h₁ => ?_
  · refine (h.mono (Q := Fate.Sound) fun f hf => ?_).sound
    exact (hf ▸ ⟨rfl, rfl, rfl⟩ : f.Plain).sound
  have hplain : Turn Fate.Plain x₁.record := h₁.mono fun f hf => hf ▸ ⟨rfl, rfl, rfl⟩
  split
  · next hlink =>
    have hlinked : Turn FreshLink x₁.record :=
      h₁.mono fun f hf => hf ▸ ⟨⟨rfl, rfl, rfl⟩, hlink, rfl, rfl⟩
    refine .bind ((transferLink_ensures hlinked).weaken (fun _ _ h => h) fun _ h => h.sound)
      fun done x₂ h₂ => ?_
    split
    · next hover =>
      rw [if_pos hover] at h₂
      exact .pure h₂.sound
    · next hover =>
      rw [if_neg hover] at h₂
      exact (transferContent_ensures h₂).weaken (fun _ _ h => h.sound) fun _ h => h.sound
  · exact (transferContent_ensures hplain).weaken (fun _ _ h => h.sound) fun _ h => h.sound

theorem transferEntries_keeps :
    ∀ entries : List (Path × FileInformation), Keeps AllSound (transferEntries cfg entries)
  | [] => Keeps.pure
  | (_, _) :: entries => by
    refine Keeps.bind transferEntry_keeps fun goesOn => Keeps.ite ?_ Keeps.pure
    exact Keeps.bind (Keeps.modify fun _ h => h) fun _ => transferEntries_keeps entries

theorem transfer_keeps : Keeps AllSound (transfer cfg) := by
  refine Keeps.bind Keeps.ensureDstDirExists fun _ => Keeps.bind (transferEntries_keeps _) fun goesOn => ?_
  exact Keeps.ite (Keeps.state_bind fun x => Keeps.finishDirectories _) Keeps.pure

/-- `Transfer` begins. -/
def started (defaultXoa : XferOverwriteAction) : Xfer := { defaultXoa := defaultXoa }

/-- `Transfer` has ended, with or without an exception. -/
def Ends (cfg : XferConfig) (replies : List XferReply) (start x : Xfer) : Prop :=
  ∃ rest, transfer cfg start replies = .returned () x rest ∨ transfer cfg start replies = .threw x rest

/-- The move of one symlink. -/
def moveLink : XferConfig where
  baseDir := [slash]
  dstDir := [slash]
  kind := .XK_MOVE
  onSiteMove := false
  smartSymlinksCopy := false
  useOfChmod := 0
  diffnameSuffix := []
  entries := [([slash, 0x61], { mode := 0o120777 })]

/-- The destination directory is there and the symlink is not; its target is queried, `SymlinkCreate`
ends as `ending` does, and the rest returns. -/
def linkReplies (ending : CallEnd) : List XferReply :=
  [{}, { ending := .throws false }, { target := [0x62] }, { ending := ending }, {}, {}]

end Xfer

end Far2l.NetRocks
