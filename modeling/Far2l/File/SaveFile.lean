/-
Far2l.File.SaveFile — `FileEditor::SaveFile` of `far/src/fileedit.cpp` once its
questions have been answered, for code page UTF-8 without signature.

The content is measured before it is written. Both passes change the line ends of
the lines they come to, so the second finds other lines than the first.
-/
import Far2l.Editor.EditTheorems
import Far2l.Editor.Frame
import Far2l.File.CachedWrite
import Far2l.File.LoadSave

namespace Far2l.File

/-- The `switch` over `TextFormat`, of which `none` is 0. -/
def setTextFormat (textFormat : EolType) (E : Editor) : Editor :=
  if textFormat = .none then E else { E with globalEOL := textFormat.chars }

/-- `ContentSaver`: all is written, and flushed. -/
def contentSaver (datas : List (List Byte)) : WriterStep :=
  WriterStep.andThen (fun writes cw => cw.writeAll writes datas) fun writes cw => cw.flush writes

/-- What `AllocationRequire`, the writes and `SetEnd` come to. -/
structure FileSystem where
  allocates : Nat → Bool
  writes : Writes
  setsEnd : Bool

/-- How the content comes to `ContentSaver`: a text or a line end at a time in `EncodeAndWrite`. -/
structure Portions where
  portions : List Byte → List (List Byte)
  flatten : ∀ bytes, (portions bytes).flatten = bytes

/-- `SaveFile`: whether it succeeds, and the file that is there afterwards. -/
def saveFile (fs : FileSystem) (P : Portions) (textFormat : EolType) (E : Editor) (file : Option (List Byte)) :
    Bool × Option (List Byte) :=
  let measured := saveContent (textFormat ≠ .none) (setTextFormat textFormat E)
  let size := measured.2.length
  if file ≠ none ∧ fs.allocates size = false then (false, file)
  else
    -- what has been required is there as zeros
    let old := file.elim [] fun old => old ++ List.replicate (size - old.length) 0
    let datas := P.portions (saveContent (textFormat ≠ .none) measured.1).2
    match contentSaver datas fs.writes {} with
    | (true, cw) =>
        (true, some (cw.file.content ++ if fs.setsEnd then [] else old.drop cw.file.content.length))
    | (false, cw) =>
        -- the destructor flushes the file, which is still open
        let written := (cw.flush fs.writes).2.file.content
        (false, file.map fun _ => written ++ old.drop written.length)

/-! ## The two passes -/

section

variable {textFormat : Bool} {E : Editor}

/-- What `SaveContent` goes by. -/
def seen (textFormat : Bool) (E : Editor) :
    (Option Ptr → WStr × WStr × Option Ptr) × WStr × Option Ptr × Ptr :=
  (fun p => ((E.edit p).str, (convertEOL textFormat E p).2, E.next p), E.globalEOL, E.topList, E.fresh)

/-- The line ends are replaced by a line end. -/
def Replaces (textFormat : Bool) (globalEOL : WStr) : Prop :=
  textFormat = true → ∃ eol : EolType, eol ≠ .none ∧ globalEOL = eol.chars

theorem convertEOL_true (hne : E.globalEOL ≠ []) (p : Option Ptr) :
    convertEOL true E p = if (E.edit p).getEOL = [] ∧ E.next p = none then (E, [])
      else (E.modifyLine p fun e => e.setEOL E.globalEOL, E.globalEOL) := by
  unfold convertEOL
  by_cases heol : (E.edit p).getEOL = []
  · by_cases hnext : E.next p = none
    · simp [heol, hnext]
    · simp [heol, hnext, hne]
  · simp [heol]

/-- A line end that is replaced is one still. -/
theorem seen_convertEOL (h : Replaces textFormat E.globalEOL) (q : Option Ptr) :
    seen textFormat (convertEOL textFormat E q).1 = seen textFormat E := by
  cases textFormat with
  | false =>
    have hfst : (convertEOL false E q).1 = E := by simp [convertEOL]
    rw [hfst]
  | true =>
    obtain ⟨eol, heol, hglobal⟩ := h rfl
    have hne : eol.chars ≠ [] := fun hnil => heol (Edit.chars_injective hnil)
    rw [convertEOL_true (hglobal ▸ hne)]
    split
    · rfl
    · next hend =>
      refine Prod.ext (funext fun p => ?_) rfl
      dsimp only [seen]
      rw [convertEOL_true (hglobal ▸ hne), convertEOL_true (show E.globalEOL ≠ [] from hglobal ▸ hne),
        apply_ite Prod.snd, apply_ite Prod.snd]
      cases p with
      | none => rfl
      | some p =>
        by_cases hp : some p = q
        · subst hp
          cases hm : E.mem p <;>
            simp_all [Editor.modifyLine, Editor.onLines, LineList.modify, LineList.update, LineList.edit,
              LineList.next, Edit.setEOL, Edit.getEOL]
        · simp [Editor.modifyLine, Editor.onLines, LineList.modify, LineList.update, LineList.edit, LineList.next, hp]

/-- A pass hands on what it goes by, and leaves that to another one. -/
theorem saveLoop_seen : ∀ (fuel : Nat) {E E' : Editor} (p : Option Ptr) (out : List Byte),
    Replaces textFormat E.globalEOL → seen textFormat E' = seen textFormat E →
    (saveLoop textFormat fuel E' p out).2 = (saveLoop textFormat fuel E p out).2
      ∧ seen textFormat (saveLoop textFormat fuel E p out).1 = seen textFormat E
  | 0, _, _, _, _, _, _ => ⟨rfl, rfl⟩
  | fuel + 1, E, E', p, out, h, hseen => by
    unfold saveLoop
    split
    · exact ⟨rfl, rfl⟩
    · have hof {E' : Editor} (hseen : seen textFormat E' = seen textFormat E) :
          ((E'.edit p).str = (E.edit p).str ∧ (convertEOL textFormat E' p).2 = (convertEOL textFormat E p).2 ∧
            E'.next p = E.next p) ∧ Replaces textFormat E'.globalEOL := by
        simp only [seen, Prod.mk.injEq] at hseen
        exact ⟨by simpa using congrFun hseen.1 p, hseen.2.1 ▸ h⟩
      have hfirst := seen_convertEOL h p
      have hfirst' := (seen_convertEOL (hof hseen).2 p).trans hseen
      dsimp only
      rw [(hof hseen).1.1, (hof hseen).1.2.1, (hof hfirst).1.2.2, (hof hfirst').1.2.2]
      obtain ⟨hrest, hlast⟩ := saveLoop_seen fuel (E.next p) _ (hof hfirst).2 (hfirst'.trans hfirst.symm)
      exact ⟨hrest, hlast.trans hfirst⟩

end

/-- **What is measured is written.** -/
theorem saveContent_again (textFormat : EolType) (E : Editor) :
    (saveContent (textFormat ≠ .none) (saveContent (textFormat ≠ .none) (setTextFormat textFormat E)).1).2
      = (saveContent (textFormat ≠ .none) (setTextFormat textFormat E)).2 := by
  have hreplaces : Replaces (textFormat ≠ .none) (setTextFormat textFormat E).globalEOL := by
    intro h
    refine ⟨textFormat, of_decide_eq_true h, ?_⟩
    rw [setTextFormat, if_neg (of_decide_eq_true h)]
  generalize setTextFormat textFormat E = E at *
  have hseen := (saveLoop_seen (E.fresh + 1) E.topList [] hreplaces rfl).2
  have hkept := hseen
  simp only [seen, Prod.mk.injEq] at hkept
  unfold saveContent
  rw [hkept.2.2.1, hkept.2.2.2]
  exact (saveLoop_seen _ _ _ hreplaces hseen).1

theorem contentSaver_reports (P : Portions) (bytes : List Byte) :
    Reports (contentSaver (P.portions bytes)) {} bytes
      ∧ (contentSaver (P.portions bytes) .perfect {}).2.file.content = bytes := by
  have hall := CachedWrite.reports_writeAll (P.portions bytes) {}
  have hreports : Reports (contentSaver (P.portions bytes)) {} _ := hall.andThen (CachedWrite.reports_flush _)
  rw [P.flatten, List.append_nil] at hreports
  have hbuffer : (contentSaver (P.portions bytes) .perfect {}).2.buffer = [] := by
    unfold contentSaver
    rw [WriterStep.andThen_of_true hall.perfect]
    exact CachedWrite.buffer_flush _
  have hadds := hreports.adds
  rw [CachedWrite.written, hbuffer, List.append_nil] at hadds
  exact ⟨hreports, hadds⟩

/-- **A file is saved** exactly when there is room for it and all its writes go well. It is then what has been
measured; where room is wanting it is as it was, and a new one that is not saved is not there. -/
theorem saveFile_right (fs : FileSystem) (P : Portions) (textFormat : EolType) (E : Editor)
    (file : Option (List Byte)) :
    let bytes := (saveContent (textFormat ≠ .none) (setTextFormat textFormat E)).2
    let r := saveFile fs P textFormat E file
    let room := file ≠ none → fs.allocates bytes.length = true
    (r.1 = true ↔ room ∧ (contentSaver (P.portions bytes)).AllGood fs.writes {})
    ∧ (r.1 = true → r.2 = some (bytes ++ if fs.setsEnd then [] else (file.getD []).drop bytes.length))
    ∧ (r.1 = false → file = none ∨ ¬room → r.2 = file) := by
  intro bytes r room
  obtain ⟨hreports, hcontent⟩ := contentSaver_reports P bytes
  have hr : r = saveFile fs P textFormat E file := rfl
  unfold saveFile at hr
  dsimp only at hr
  rw [saveContent_again, show (saveContent _ _).2 = bytes from rfl] at hr
  clear_value bytes r
  subst hr
  by_cases hroom : room
  · have hhas : ¬(file ≠ none ∧ fs.allocates bytes.length = false) := fun h => by simp [hroom h.1] at h
    rw [if_neg hhas]
    by_cases hgood : (contentSaver (P.portions bytes)).AllGood fs.writes {}
    · have hperfect := hreports.perfect
      rw [hreports.same _ hgood]
      generalize contentSaver (P.portions bytes) .perfect {} = done at hperfect hcontent ⊢
      obtain ⟨_ | _, cw⟩ := done
      · cases hperfect
      · refine ⟨iff_of_true rfl ⟨hroom, hgood⟩, fun _ => ?_, fun h => by cases h⟩
        have hcw : cw.file.content = bytes := hcontent
        dsimp only
        rw [hcw]
        cases file <;> simp [List.drop_append]
    · have hfails := (hreports.fails _ hgood).1
      generalize contentSaver (P.portions bytes) fs.writes {} = done at hfails ⊢
      obtain ⟨_ | _, cw⟩ := done
      · refine ⟨iff_of_false Bool.false_ne_true fun h => hgood h.2, fun h => absurd h Bool.false_ne_true, fun _ h => ?_⟩
        rw [h.resolve_right (not_not.mpr hroom)]
        rfl
      · cases hfails
  · have hwants : file ≠ none ∧ fs.allocates bytes.length = false := by simpa [room] using hroom
    rw [if_pos hwants]
    exact ⟨iff_of_false Bool.false_ne_true fun h => hroom h.1, fun h => absurd h Bool.false_ne_true, fun _ _ => rfl⟩

end Far2l.File
