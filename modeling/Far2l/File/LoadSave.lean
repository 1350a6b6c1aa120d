/-
Far2l.File.LoadSave — `FileEditor::LoadFile` and `FileEditor::SaveContent` of
`far/src/fileedit.cpp` for code page UTF-8 without signature.
-/
import Far2l.File.GetString
import Far2l.Editor.Editor
import Far2l.Utils.WideMBTheorems
import Far2l.Editor.Document

namespace Far2l.File

open Far2l.WideMB

/-- `'\r'` and `'\n'` of `TypedStringReader<char>`. -/
def crByte : Byte := 0x0D

@[inherit_doc crByte]
def lfByte : Byte := 0x0A

/-- `DOS_EOL_fmt`. -/
def DOS_EOL_fmt : WStr := [CR, LF]

/-- A file as its reads deliver it; only the read at its end delivers nothing. -/
structure SrcFile where
  reads : List (List Byte)
  delivers : ∀ chunk ∈ reads, chunk ≠ []

/-- The bytes of the file. -/
def SrcFile.bytes (file : SrcFile) : List Byte := file.reads.flatten

/-! ## `LoadFile` -/

/-- `wmemchr`: the string from the first `c` on. -/
def wmemchr (s : WStr) (c : WChar) : Option WStr :=
  if c ∈ s then some (s.dropWhile (· ≠ c)) else none

/-- `CurEOL`: where one of the last three characters is a line end. -/
def curEOL (str : WStr) : Option WStr :=
  let tail := str.drop (str.length - 3)
  (wmemchr tail CR).or (wmemchr tail LF)

/-- The body of the loop of `LoadFile`; the second component is `LastLineCR`. -/
def loadLine (E : Editor) (str : WStr) : Editor × Bool :=
  match curEOL str with
  | some eol => ({ E with globalEOL := eol.takeWhile (· ≠ 0) }.appendString (some str), true)
  | none => (E.appendString (some str), false)

/-- `LoadFile`, into an editor whose lines have been freed. -/
def loadFile (E : Editor) (file : SrcFile) : Editor :=
  let lines := (FileStr.fileLines crByte lfByte file.reads).map mb2Wide
  let (E, lastLineCR) :=
    lines.foldl (fun st str => loadLine st.1 str) ({ E with globalEOL := NATIVE_EOLW }, false)
  if lastLineCR ∨ E.numLastLine = 0 then E.appendString (some []) else E

/-! ## `SaveContent` -/

/-- `EncodeAndWrite` for code page UTF-8. -/
def encodeAndWrite (out : List Byte) (str : WStr) : List Byte :=
  if str = [] then out else out ++ wide2MB str

/-- `SaveContent`: the line end of a line is replaced where the text format says so. -/
def convertEOL (textFormat : Bool) (E : Editor) (curPtr : Option Ptr) : Editor × WStr :=
  let endSeq := (E.edit curPtr).getEOL
  let endSeq :=
    if endSeq = [] ∧ E.next curPtr ≠ none then
      if E.globalEOL ≠ [] then E.globalEOL else DOS_EOL_fmt
    else endSeq
  if textFormat ∧ endSeq ≠ [] then
    (E.modifyLine curPtr fun e => e.setEOL E.globalEOL, E.globalEOL)
  else (E, endSeq)

/-- The loop of `SaveContent`. -/
def saveLoop (textFormat : Bool) : Nat → Editor → Option Ptr → List Byte → Editor × List Byte
  | 0, E, _, out => (E, out)
  | fuel + 1, E, curPtr, out =>
      if curPtr = none then (E, out)
      else
        let saveStr := (E.edit curPtr).str
        let (E, endSeq) := convertEOL textFormat E curPtr
        saveLoop textFormat fuel E (E.next curPtr)
          (encodeAndWrite (encodeAndWrite out saveStr) endSeq)

/-- `SaveContent`: the lines as they are afterwards, and what is written. There are no more
lines than addresses in use. -/
def saveContent (textFormat : Bool) (E : Editor) : Editor × List Byte :=
  saveLoop textFormat (E.fresh + 1) E E.topList []

end Far2l.File

/-! # A file that is loaded and saved unchanged keeps its

bytes.

The bytes of a line survive because `Wide2MB` undoes `MB2Wide` and its line end
can be cut off and put back; the file survives because every line but the last
has a line end, so that `SaveContent` never substitutes one. -/

namespace Far2l.File

open Far2l.WideMB

/-! ## The line end of a line -/

/-- What `SetBinaryString` makes of a string in a new line. -/
def loadedLine (s : WStr) : DocLine := ((splitEol s).1, (splitEol s).2.getD .none)

theorem loadedLine_append (s : WStr) : (loadedLine s).1 ++ (loadedLine s).2.chars = s :=
  Edit.splitEol_append s

/-- A string that ends in a line end character is recognised. -/
theorem loadedLine_eol {s text : WStr} {c : WChar} (hs : s = text ++ [c]) (hc : c = CR ∨ c = LF) :
    (loadedLine s).2 ≠ .none := by
  subst hs
  simp only [loadedLine, splitEol, List.getLast?_concat]
  rcases hc with rfl | rfl
  · simp
  · simp only [show LF ≠ CR by decide, if_false, if_true]
    split
    · split <;> simp
    · simp

/-- `CurEOL` is not found in a string without line end characters. -/
theorem curEOL_of_plain {s : WStr} (hcr : CR ∉ s) (hlf : LF ∉ s) : curEOL s = none := by
  have hsub : ∀ {c : WChar}, c ∈ s.drop (s.length - 3) → c ∈ s := fun h => List.mem_of_mem_drop h
  rw [curEOL, wmemchr, wmemchr, if_neg (fun h => hcr (hsub h)), if_neg (fun h => hlf (hsub h))]
  rfl

/-! ## The bytes of a line -/

/-- What `SaveContent` writes for a line that keeps its line end. -/
def lineBytes (l : DocLine) : List Byte := wide2MB l.1 ++ wide2MB l.2.chars

theorem encodeAndWrite_eq (out : List Byte) (str : WStr) :
    encodeAndWrite out str = out ++ wide2MB str := by
  rw [encodeAndWrite]
  split
  · next h =>
    subst h
    simp [wide2MB, wide2MBLoop, wide2MBUnescapedAppend]
  · rfl

/-- A line end starts with a character that cannot belong to an escape. -/
theorem eol_chars_head {eol : EolType} {c : WChar} {cs : WStr} (h : eol.chars = c :: cs) :
    c ≠ WCHAR_ESCAPING ∧ isLowCaseHexDigit c = false := by
  cases eol with
  | none => simp [EolType.chars] at h
  | cr | lf | crlf | crcrlf =>
    obtain ⟨rfl, -⟩ := List.cons.inj h
    decide

/-- **A line of the file keeps its bytes.** -/
theorem lineBytes_loadedLine (line : List Byte) : lineBytes (loadedLine (mb2Wide line)) = line := by
  have happ := loadedLine_append (mb2Wide line)
  have hvalid := validChar_mb2Wide line
  rw [← happ] at hvalid
  rw [lineBytes, wide2MB_valid _ fun wc hwc => hvalid wc (List.mem_append_left _ hwc),
    wide2MB_valid _ fun wc hwc => hvalid wc (List.mem_append_right _ hwc)]
  generalize loadedLine (mb2Wide line) = l at happ
  cases hchars : l.2.chars with
  | nil =>
    rw [hchars, List.append_nil] at happ
    rw [happ, unescape_mb2Wide, unescape, List.append_nil]
  | cons c cs =>
    obtain ⟨hesc, hhex⟩ := eol_chars_head hchars
    rw [← unescape_append l.1 cs hesc hhex, ← hchars, happ, unescape_mb2Wide]

/-- The line end of the bytes is a line end of the text. -/
theorem mb2Wide_hasEol {line : List Byte} (h : FileStr.HasEol crByte lfByte line) :
    ∃ text c, mb2Wide line = text ++ [c] ∧ (c = CR ∨ c = LF) := by
  obtain ⟨bytes, b, rfl, rfl | rfl⟩ := h
  · obtain ⟨text, htext⟩ := mb2Wide_concat bytes crByte (by decide)
    exact ⟨text, CR, htext, .inl rfl⟩
  · obtain ⟨text, htext⟩ := mb2Wide_concat bytes lfByte (by decide)
    exact ⟨text, LF, htext, .inr rfl⟩

/-- Bytes without a line end are text without one. -/
theorem mb2Wide_plain {line : List Byte} (hcr : crByte ∉ line) (hlf : lfByte ∉ line) :
    CR ∉ mb2Wide line ∧ LF ∉ mb2Wide line :=
  ⟨fun h => hcr (mem_of_mem_mb2Wide h (by decide)), fun h => hlf (mem_of_mem_mb2Wide h (by decide))⟩

/-! ## Loading -/

/-- An editor without lines. -/
structure Vacant (S : LineList) : Prop where
  mem : ∀ p, S.mem p = none
  topList : S.topList = none
  numLastLine : S.numLastLine = 0
  numLine : S.numLine = 0

/-- The editor holds the lines `doc`, with the cursor and the screen at the first one. -/
def Holds (S : LineList) (doc : List DocLine) : Prop :=
  (Vacant S ∧ doc = []) ∨ ∃ ps, S.Wf ps 0 0 ∧ S.document = doc

theorem Holds.append {S : LineList} {doc : List DocLine} (h : Holds S doc) (e : Edit) (n : Int) :
    Holds (S.insertString e none n) (doc ++ [e.content]) := by
  rcases h with ⟨hv, rfl⟩ | ⟨ps, hwf, rfl⟩
  · obtain ⟨hwf, hedit⟩ :=
      LineList.insertString_first hv.mem hv.topList hv.numLastLine hv.numLine e n
    refine .inr ⟨_, hwf, ?_⟩
    rw [hwf.toChained.document_eq, List.map_singleton, (LineList.lineAt_of_edit hedit).1]
    rfl
  · exact .inr ⟨_, (LineList.insertString_append hwf e n).1, hwf.document_append e n⟩

theorem Holds.numLastLine {S : LineList} {doc : List DocLine} (h : Holds S doc) :
    S.numLastLine = 0 ↔ doc = [] := by
  rcases h with ⟨hv, rfl⟩ | ⟨ps, hwf, rfl⟩
  · exact ⟨fun _ => rfl, fun _ => hv.numLastLine⟩
  · have hlt := hwf.cur_lt
    rw [hwf.num, hwf.toChained.document_eq, List.map_eq_nil_iff, ← List.length_eq_zero_iff]
    omega

/-- A new line holds what `SetBinaryString` made of its string. -/
theorem createString_content (E : Editor) (hexp : E.edOpt.expandTabs ≠ .allTabs) (s : WStr) :
    (E.createString (some s)).content = loadedLine s := by
  have hconf : E.conf.tabExpandMode ≠ .allTabs := hexp
  simp only [Editor.createString, Edit.setBinaryString, hconf, if_false, Edit.setCurPos,
    Edit.content, loadedLine]

theorem loadLine_spec {E : Editor} {doc : List DocLine} (h : Holds E.toLineList doc)
    (hexp : E.edOpt.expandTabs ≠ .allTabs) (str : WStr) :
    Holds (loadLine E str).1.toLineList (doc ++ [loadedLine str])
      ∧ (loadLine E str).1.edOpt = E.edOpt
      ∧ (loadLine E str).2 = (curEOL str).isSome := by
  rw [← createString_content E hexp str, loadLine]
  cases curEOL str with
  | none => exact ⟨h.append _ _, rfl, rfl⟩
  | some eol => exact ⟨h.append _ _, rfl, rfl⟩

/-- The loop of `LoadFile` over its lines. -/
theorem foldl_loadLine : ∀ (lines : List WStr) (E : Editor) (lastLineCR : Bool)
    (doc : List DocLine), Holds E.toLineList doc → E.edOpt.expandTabs ≠ .allTabs →
    let r := lines.foldl (fun st str => loadLine st.1 str) (E, lastLineCR)
    Holds r.1.toLineList (doc ++ lines.map loadedLine)
      ∧ r.1.edOpt = E.edOpt
      ∧ r.2 = (lines.getLast?.map fun str => (curEOL str).isSome).getD lastLineCR
  | [], E, lastLineCR, doc, h, _ => ⟨by rw [List.map_nil, List.append_nil]; exact h, rfl, rfl⟩
  | str :: lines, E, lastLineCR, doc, h, hexp => by
    obtain ⟨hline, hopt, hcr⟩ := loadLine_spec h hexp str
    have ih := foldl_loadLine lines (loadLine E str).1 (loadLine E str).2 _ hline
      (by rw [hopt]; exact hexp)
    rw [hopt, List.append_assoc, List.singleton_append] at ih
    refine ⟨ih.1, ih.2.1, ih.2.2.trans ?_⟩
    cases lines with
    | nil => exact hcr
    | cons str' lines => rw [List.getLast?_cons_cons, List.getLast?_cons]; rfl

/-- The lines of a document a file can be saved from as it is: all but the last have a line
end. -/
def EndsKept (doc : List DocLine) : Prop := ∀ l ∈ doc.dropLast, l.2 ≠ .none

theorem WellEnded.dropLast : ∀ {lines : List (List Byte)},
    FileStr.WellEnded crByte lfByte lines →
    ∀ line ∈ lines.dropLast, FileStr.HasEol crByte lfByte line
  | [], _, line, hline => absurd hline List.not_mem_nil
  | [_], _, line, hline => absurd hline List.not_mem_nil
  | l :: l' :: rest, h, line, hline => by
    rw [List.dropLast_cons_cons, List.mem_cons] at hline
    rcases hline with rfl | hline
    · exact h.1
    · exact WellEnded.dropLast h.2 line hline

theorem WellEnded.getLast? : ∀ {lines : List (List Byte)} {line : List Byte},
    FileStr.WellEnded crByte lfByte lines → lines.getLast? = some line →
    FileStr.LineShape crByte lfByte line
  | [_], line, h, hline => by
    rw [List.getLast?_singleton, Option.some.injEq] at hline
    exact hline ▸ h
  | _ :: l' :: rest, line, h, hline => by
    rw [List.getLast?_cons_cons] at hline
    exact WellEnded.getLast? h.2 hline

/-- The lines of a file and what they are loaded as. -/
def loadedDoc (lines : List (List Byte)) : List DocLine := lines.map fun l => loadedLine (mb2Wide l)

theorem loadedDoc_bytes (lines : List (List Byte)) :
    (loadedDoc lines).flatMap lineBytes = lines.flatten := by
  rw [loadedDoc, List.flatMap_map]
  simp only [lineBytes_loadedLine]
  exact List.flatMap_id

theorem loadedLine_hasEol {line : List Byte} (h : FileStr.HasEol crByte lfByte line) :
    (loadedLine (mb2Wide line)).2 ≠ .none := by
  obtain ⟨text, c, htext, hc⟩ := mb2Wide_hasEol h
  exact loadedLine_eol htext hc

theorem loadedDoc_endsKept {lines : List (List Byte)}
    (h : FileStr.WellEnded crByte lfByte lines) : EndsKept (loadedDoc lines) := by
  intro l hl
  rw [loadedDoc, ← List.map_dropLast] at hl
  obtain ⟨line, hline, rfl⟩ := List.mem_map.mp hl
  exact loadedLine_hasEol (WellEnded.dropLast h line hline)

/-- When `LastLineCR` is left set, the last line has a line end as well. -/
theorem loadedDoc_lastLineCR {lines : List (List Byte)}
    (h : FileStr.WellEnded crByte lfByte lines)
    (hcr : lines = [] ∨
      ((lines.map mb2Wide).getLast?.map fun str => (curEOL str).isSome) = some true) :
    ∀ l ∈ loadedDoc lines, l.2 ≠ .none := by
  intro l hl
  obtain ⟨line, hline, rfl⟩ := List.mem_map.mp hl
  rcases List.eq_nil_or_concat lines with rfl | ⟨init, last, rfl⟩
  · exact absurd hline List.not_mem_nil
  rw [List.concat_eq_append] at *
  rcases List.mem_append.mp hline with hinit | hlast
  · exact loadedLine_hasEol (WellEnded.dropLast h line (by rwa [List.dropLast_concat]))
  rw [List.mem_singleton] at hlast
  subst hlast
  rcases WellEnded.getLast? h List.getLast?_concat with heol | ⟨hncr, hnlf⟩
  · exact loadedLine_hasEol heol
  · obtain ⟨hcr', hlf'⟩ := mb2Wide_plain hncr hnlf
    rw [List.map_append, List.map_singleton, List.getLast?_concat, Option.map_some,
      curEOL_of_plain hcr' hlf'] at hcr
    rcases hcr with hcr | hcr
    · simp at hcr
    · simp at hcr

/-- **`LoadFile`** makes an editor whose lines have the bytes of the file, and all but the last
of them have a line end. -/
theorem loadFile_document {E : Editor} (hE : Vacant E.toLineList)
    (hexp : E.edOpt.expandTabs ≠ .allTabs) (file : SrcFile) :
    ∃ ps, (loadFile E file).toLineList.Wf ps 0 0
      ∧ (loadFile E file).document.flatMap lineBytes = file.bytes
      ∧ EndsKept (loadFile E file).document := by
  obtain ⟨hflat, hended⟩ := FileStr.fileLines_spec crByte lfByte file.reads
    file.delivers
  rw [loadFile]
  generalize FileStr.fileLines crByte lfByte file.reads = lines at hflat hended
  obtain ⟨hholds, hopt, hcr⟩ := foldl_loadLine (lines.map mb2Wide)
    { E with globalEOL := NATIVE_EOLW } false [] (.inl ⟨⟨hE.1, hE.2, hE.3, hE.4⟩, rfl⟩) hexp
  revert hholds hopt hcr
  generalize (lines.map mb2Wide).foldl (fun st str => loadLine st.1 str)
    ({ E with globalEOL := NATIVE_EOLW }, false) = r
  obtain ⟨E1, lastLineCR⟩ := r
  intro hholds hopt hcr
  have hexp1 : E1.edOpt.expandTabs ≠ .allTabs := fun h => hexp (by rw [← h]; exact congrArg _ hopt.symm)
  rw [List.nil_append, List.map_map] at hholds
  change Holds E1.toLineList (loadedDoc lines) at hholds
  have hbytes : (loadedDoc lines).flatMap lineBytes = file.bytes :=
    (loadedDoc_bytes lines).trans hflat
  dsimp only at hcr ⊢
  split
  · next hlast =>
    -- the extra empty line takes over the part of the line without a line end
    have happ := hholds.append (E1.createString (some [])) (-1)
    rw [createString_content E1 hexp1] at happ
    rcases happ with ⟨-, hnil⟩ | ⟨ps, hwf, hdoc⟩
    · simp at hnil
    refine ⟨ps, hwf, ?_, ?_⟩
    · show (E1.toLineList.insertString _ _ _).document.flatMap lineBytes = _
      rw [hdoc, List.flatMap_append, List.flatMap_singleton, hbytes]
      simp [lineBytes, loadedLine, splitEol, EolType.chars, wide2MB, wide2MBLoop,
        wide2MBUnescapedAppend]
    · show EndsKept (E1.toLineList.insertString _ _ _).document
      rw [hdoc, EndsKept, List.dropLast_concat]
      refine loadedDoc_lastLineCR hended ?_
      rcases hlast with htrue | hnum
      · rw [htrue] at hcr
        cases hl : (lines.map mb2Wide).getLast? with
        | none =>
          rw [hl] at hcr
          simp at hcr
        | some str =>
          rw [hl, Option.map_some, Option.getD_some] at hcr
          exact .inr (by rw [Option.map_some, ← hcr])
      · exact .inl (List.map_eq_nil_iff.mp (hholds.numLastLine.mp hnum))
  · next hlast =>
    have hne : loadedDoc lines ≠ [] := fun h => hlast (.inr (hholds.numLastLine.mpr h))
    rcases hholds with ⟨-, hnil⟩ | ⟨ps, hwf, hdoc⟩
    · exact absurd hnil hne
    · exact ⟨ps, hwf, by rw [hdoc, hbytes], by rw [hdoc]; exact loadedDoc_endsKept hended⟩

/-! ## Saving -/

/-- A line that has a line end, or is the last one, is written as it is. -/
theorem convertEOL_kept {E : Editor} {ps : List Ptr} (h : E.toLineList.Threaded ps) {i : Nat}
    {p : Ptr} (hp : ps[i]? = some p)
    (hkept : i + 1 < ps.length → (E.lineAt p).2 ≠ .none) :
    convertEOL false E (some p) = (E, (E.lineAt p).2.chars) := by
  have hseq : (E.edit (some p)).getEOL = (E.lineAt p).2.chars := rfl
  have hnot : ¬ ((E.lineAt p).2.chars = [] ∧ E.next (some p) ≠ none) := by
    rintro ⟨hnil, hnext⟩
    rw [h.next_get hp, ne_eq, List.getElem?_eq_none_iff] at hnext
    refine hkept (by omega) ?_
    generalize (E.lineAt p).2 = eol at hnil
    cases eol <;> simp_all [EolType.chars]
  simp only [convertEOL, hseq, if_neg hnot, Bool.false_eq_true, false_and, if_false]

theorem saveLoop_spec {E : Editor} {ps : List Ptr} (h : E.toLineList.Threaded ps)
    (hkept : EndsKept (ps.map E.lineAt)) : ∀ (fuel i : Nat) (out : List Byte),
    ps.length ≤ i + fuel →
    saveLoop false (fuel + 1) E ps[i]? out
      = (E, out ++ ((ps.drop i).map E.lineAt).flatMap lineBytes) := by
  intro fuel
  induction fuel with
  | zero =>
    intro i out hfuel
    have hnone : ps[i]? = none := List.getElem?_eq_none_iff.mpr (by omega)
    rw [hnone, saveLoop, if_pos rfl, List.drop_eq_nil_of_le (by omega)]
    simp
  | succ fuel ih =>
    intro i out hfuel
    cases hp : ps[i]? with
    | none =>
      rw [List.getElem?_eq_none_iff] at hp
      rw [saveLoop, if_pos rfl, List.drop_eq_nil_of_le hp]
      simp
    | some p =>
      obtain ⟨hi, hpi⟩ := List.getElem?_eq_some_iff.mp hp
      have hconv := convertEOL_kept h hp fun hlt => by
        refine hkept _ ?_
        rw [← List.map_dropLast, ← hpi]
        refine List.mem_map_of_mem ?_
        rw [List.dropLast_eq_take]
        exact List.mem_take_iff_getElem.mpr ⟨i, by omega, rfl⟩
      rw [saveLoop, if_neg (by simp), hconv]
      dsimp only
      rw [h.next_get hp, ih (i + 1) _ (by omega), encodeAndWrite_eq, encodeAndWrite_eq,
        List.drop_eq_getElem_cons hi, List.map_cons, List.flatMap_cons, hpi]
      simp only [lineBytes, List.append_assoc]
      rfl

/-- **`SaveContent`** writes the bytes of the lines, when none of them lacks its line end. -/
theorem saveContent_document {E : Editor} {ps : List Ptr} (h : E.toLineList.Chained ps)
    (hkept : EndsKept E.document) :
    saveContent false E = (E, E.document.flatMap lineBytes) := by
  have hlen := h.toThreaded.length_le_fresh
  rw [h.document_eq] at hkept ⊢
  have := saveLoop_spec h.toThreaded hkept E.fresh 0 [] (by omega)
  rw [List.drop_zero, List.nil_append] at this
  rw [saveContent, h.top, this]

/-- **A file that is loaded and saved unchanged keeps its bytes.** The editor is any one whose
lines have been freed, with the expansion of tabs turned off. -/
theorem saveContent_loadFile {E : Editor} (hE : Vacant E.toLineList)
    (hexp : E.edOpt.expandTabs ≠ .allTabs) (file : SrcFile) :
    (saveContent false (loadFile E file)).2 = file.bytes := by
  obtain ⟨ps, hwf, hbytes, hkept⟩ := loadFile_document hE hexp file
  rw [saveContent_document hwf.toChained hkept]
  exact hbytes

theorem vacant_empty (edOpt : EditorOptions) (fullWidth xxxfix : WChar → Bool) :
    Vacant (Editor.empty edOpt fullWidth xxxfix).toLineList := ⟨fun _ => rfl, rfl, rfl, rfl⟩

/-- A file that mixes line ends, in three reads, with a byte that is no UTF-8. -/
def mixedFile : SrcFile where
  reads := [[0x61, 0x0D], [0x0D, 0x62, 0xFF, 0x0A, 0x0D], [0x0D, 0x0A, 0x00]]
  delivers := by decide

theorem saveContent_loadFile_mixed :
    (saveContent false (loadFile (Editor.empty {} (fun _ => false) fun _ => false) mixedFile)).2
      = [0x61, 0x0D, 0x0D, 0x62, 0xFF, 0x0A, 0x0D, 0x0D, 0x0A, 0x00] :=
  saveContent_loadFile (vacant_empty _ _ _) (by decide) mixedFile

end Far2l.File
