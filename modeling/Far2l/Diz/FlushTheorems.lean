/-
Far2l.Diz.FlushTheorems — when `DizList::Flush` loses no description.

`flush_safe_iff` gives the exact condition: a list that is saved can be opened,
no write to it fails, and no description needs more bytes than `Flush` counts for
a character. A file that cannot be opened is reported as saved, a description that
needs more bytes is passed over, and a file is deleted where a write to it fails.
-/
import Far2l.Diz.DizListTheorems
import Far2l.Diz.Flush
import Far2l.WinPort.StringCodepagesTheorems

namespace Far2l.Diz

open Far2l.WinPort Far2l.File

/-! ## What is written for a text -/

namespace Page

/-- The encoding of a text. -/
def encode : Page → List Char → List Byte
  | .utf8, w => WinPort.encode .CP_UTF8 w
  | .table cp, w => cp.encode (L w)

/-- A NUL is one byte. -/
def OneNul : Page → Prop
  | .utf8 => True
  | .table cp => (cp.encodeChar 0).length = 1

/-- The text and its NUL need no more bytes than are counted for their characters. -/
def Fits (page : Page) (w : List Char) : Prop :=
  (page.encode w).length + 1 ≤ (w.length + 1) * page.bytesPerChar

instance (page : Page) (w : List Char) : Decidable (page.Fits w) :=
  inferInstanceAs (Decidable (_ ≤ _))

variable {page : Page} {w : List Char}

theorem encode_nul (h : page.OneNul) :
    ∃ nul : Byte, page.encode (w ++ [Char.ofNat 0]) = page.encode w ++ [nul] := by
  cases page with
  | utf8 =>
    refine ⟨0, ?_⟩
    show WinPort.encode _ _ = _
    rw [WinPort.encode, List.flatMap_append]
    rfl
  | table cp =>
    have h : (cp.encodeChar 0).length = 1 := h
    obtain ⟨nul, hnul⟩ := List.length_eq_one_iff.mp h
    refine ⟨nul, ?_⟩
    show cp.encode (L (w ++ [Char.ofNat 0])) = cp.encode (L w) ++ [nul]
    rw [← hnul, L, List.map_append, CpTable.encode, List.flatMap_append]
    exact congrArg (_ ++ ·) (List.append_nil _)

theorem L_nul : L w ++ [0] = L (w ++ [Char.ofNat 0]) := by
  rw [L, L, List.map_append]
  rfl

theorem L_length : (L w).length = w.length := List.length_map _

theorem encode_nul_length (h : page.OneNul) :
    (page.encode (w ++ [Char.ofNat 0])).length = (page.encode w).length + 1 := by
  obtain ⟨nul, hnul⟩ := encode_nul h (w := w)
  rw [hnul, List.length_append]
  rfl

theorem nul_length : (w ++ [Char.ofNat 0]).length = w.length + 1 := by
  rw [List.length_append]
  rfl

theorem convert_utf8 : convert .utf8 (L w) = wideCharToMultiByte .CP_UTF8 0
    (L (w ++ [Char.ofNat 0]) ++ []) (w ++ [Char.ofNat 0]).length
    (((w ++ [Char.ofNat 0]).length * 3 : Nat) : Int) false false := by
  show wideCharToMultiByte .CP_UTF8 0 (L w ++ [0]) (L w ++ [0]).length
    (((L w ++ [0]).length * 3 : Nat) : Int) false false = _
  rw [L_nul, L_length, List.append_nil]

theorem convert_table {cp : CpTable} : convert (.table cp) (L w)
    = wideCharToTable cp (L (w ++ [Char.ofNat 0])) (L (w ++ [Char.ofNat 0])).length
      ((L (w ++ [Char.ofNat 0])).length : Int) := by
  show wideCharToTable cp (L w ++ [0]) (L w ++ [0]).length (((L w ++ [0]).length * 1 : Nat) : Int) = _
  rw [L_nul, Nat.mul_one]

theorem wideCharToTable_eq {cp : CpTable} {src : List WChar} (hne : src ≠ []) :
    wideCharToTable cp src src.length src.length
      = if (cp.wcstombs src src.length).ret < 0 then failed (cp.wcstombs src src.length)
        else cp.wcstombs src src.length := by
  have hpos := List.length_pos_iff.mpr hne
  have htake : src.take (if (src.length : Int) < 0 then src.findIdx (· == 0) + 1
      else (src.length : Int).toNat) = src := by
    rw [if_neg (by omega), Int.toNat_natCast, List.take_length]
  rw [wideCharToTable, if_neg (by omega)]
  dsimp only
  rw [htake, Int.toNat_natCast]

/-- A text that fits is converted to its encoding. -/
theorem convert_fits (h : page.OneNul) (hfits : page.Fits w) :
    ∃ nul : Byte, page.convert (L w)
      = { ret := (page.encode w).length + 1, stored := page.encode w ++ [nul] } := by
  obtain ⟨nul, hnul⟩ := encode_nul h (w := w)
  have hlength := encode_nul_length h (w := w)
  refine ⟨nul, ?_⟩
  rw [Fits, ← hlength, ← nul_length] at hfits
  rw [← Int.natCast_succ, Nat.succ_eq_add_one, ← hlength, ← hnul]
  cases page with
  | utf8 =>
    rw [convert_utf8]
    exact wideCharToMultiByte_encode .CP_UTF8 (List.concat_ne_nil _ w) (Int.ofNat_le.mpr hfits)
  | table cp =>
    have hne : L (w ++ [Char.ofNat 0]) ≠ [] := fun h => List.concat_ne_nil _ w (List.map_eq_nil_iff.mp h)
    have hfits : (cp.encode (L (w ++ [Char.ofNat 0]))).length ≤ (L (w ++ [Char.ofNat 0])).length := by
      rw [L_length]
      exact Nat.le_trans hfits (Nat.le_of_eq (Nat.mul_one _))
    have hpos : (L (w ++ [Char.ofNat 0])).length ≠ 0 := fun h => hne (List.length_eq_zero_iff.mp h)
    rw [convert_table, wideCharToTable_eq hne, cp.wcstombs_fits hpos hfits]
    exact if_neg (by dsimp only; omega)

/-- What is said to have been written for a text that does not fit is nothing. -/
theorem convert_overflow (h : page.OneNul) (hfits : ¬ page.Fits w) : (page.convert (L w)).ret = 0 := by
  have hlength := encode_nul_length h (w := w)
  rw [Fits, ← hlength, ← nul_length, Nat.not_le] at hfits
  cases page with
  | utf8 =>
    rw [convert_utf8]
    refine wideCharToMultiByte_utf8_overflow (List.concat_ne_nil _ w) ?_ hfits
    rw [nul_length]
    omega
  | table cp =>
    have hne : L (w ++ [Char.ofNat 0]) ≠ [] := fun h => List.concat_ne_nil _ w (List.map_eq_nil_iff.mp h)
    have hpos : (L (w ++ [Char.ofNat 0])).length ≠ 0 := fun h => hne (List.length_eq_zero_iff.mp h)
    have hlt : (L (w ++ [Char.ofNat 0])).length < (cp.encode (L (w ++ [Char.ofNat 0]))).length := by
      rw [L_length]
      exact Nat.lt_of_le_of_lt (Nat.le_of_eq (Nat.mul_one _).symm) hfits
    have hret := cp.wcstombs_overflow hpos hlt
    rw [convert_table, wideCharToTable_eq hne, if_pos (by rw [hret]; decide)]
    rfl

theorem encode_length_le (page : Page) (w : List Char) : w.length ≤ (page.encode w).length := by
  have hflat : ∀ {α : Type} (f : α → List Byte) (xs : List α), (∀ x, 0 < (f x).length) →
      xs.length ≤ (xs.flatMap f).length := by
    intro α f xs hf
    induction xs with
    | nil => exact Nat.le_refl _
    | cons x xs ih =>
      rw [List.flatMap_cons, List.length_append, List.length_cons]
      have := hf x
      omega
  cases page with
  | utf8 => exact hflat _ w fun c => List.length_pos_iff.mpr (String.utf8EncodeChar_ne_nil)
  | table cp =>
    rw [← L_length]
    refine hflat cp.encodeChar (L w) fun c => ?_
    cases cp with
    | sbcs uni2cp => exact Nat.one_pos
    | dbcs uni2cp =>
      show 0 < (dbcsBytes _).length
      rw [dbcsBytes]
      split
      · exact Nat.succ_pos _
      · exact Nat.succ_pos _

end Page

/-! ## The loop -/

/-- The bytes of a text's line, without its end. -/
def Page.bytes (page : Page) (dizText : WStr) : List Byte :=
  (page.convert dizText).stored.take ((page.convert dizText).ret - 1).toNat

/-- The writes for a record. -/
def Page.writesOf (page : Page) (r : DizRecord) : List (List Byte) :=
  if r.deleted then []
  else if (page.convert r.dizText).ret ≠ 0 ∧ (page.convert r.dizText).ret - 1 ≠ 0 then
    [page.bytes r.dizText, EOL]
  else []

section

variable {page : Page} {outcome : Writes} {cache : CachedWrite}

theorem writeAll_cons {data : List Byte} {rest : List (List Byte)} :
    CachedWrite.writeAll outcome (data :: rest) cache = match cache.write data outcome with
      | (true, cache) => CachedWrite.writeAll outcome rest cache
      | (false, cache) => (false, cache) := rfl

variable (page outcome) in
/-- The loop makes the writes for its records, one after the other; where all succeed, it has found a
record if it has made one. -/
theorem saveRecords_eq : ∀ (records : List DizRecord) (emptyDiz : Bool) (cache : CachedWrite),
    ((CachedWrite.writeAll outcome (records.flatMap page.writesOf) cache).1 = true →
      saveRecords page outcome records emptyDiz cache
        = (false, emptyDiz && (records.flatMap page.writesOf).isEmpty,
          (CachedWrite.writeAll outcome (records.flatMap page.writesOf) cache).2))
    ∧ ((CachedWrite.writeAll outcome (records.flatMap page.writesOf) cache).1 = false →
      ∃ emptyDiz', saveRecords page outcome records emptyDiz cache = (true, emptyDiz',
        (CachedWrite.writeAll outcome (records.flatMap page.writesOf) cache).2))
  | [], emptyDiz, cache => by
    refine ⟨fun _ => ?_, fun h => nomatch h⟩
    rw [List.flatMap_nil, List.isEmpty_nil, Bool.and_true]
    rfl
  | r :: rest, emptyDiz, cache => by
    rw [List.flatMap_cons, saveRecords, Page.writesOf]
    cases hdeleted : r.deleted with
    | true =>
      rw [if_pos rfl, if_pos rfl, List.nil_append]
      exact saveRecords_eq rest emptyDiz cache
    | false =>
      rw [if_neg Bool.false_ne_true, if_neg Bool.false_ne_true]
      dsimp only
      by_cases hret : (page.convert r.dizText).ret ≠ 0 ∧ (page.convert r.dizText).ret - 1 ≠ 0
      · rw [if_pos hret, if_pos hret, List.cons_append, List.cons_append, List.nil_append, writeAll_cons,
          Page.bytes]
        rcases cache.write _ outcome with ⟨_ | _, cache'⟩
        · exact ⟨fun h => (nomatch h), fun _ => ⟨_, rfl⟩⟩
        · dsimp only
          rw [writeAll_cons]
          rcases cache'.write EOL outcome with ⟨_ | _, cache''⟩
          · exact ⟨fun h => (nomatch h), fun _ => ⟨_, rfl⟩⟩
          · have ih := saveRecords_eq rest false cache''
            rw [Bool.false_and] at ih
            rw [List.isEmpty_cons, Bool.and_false]
            exact ih
      · rw [if_neg hret, if_neg hret, List.nil_append]
        exact saveRecords_eq rest emptyDiz cache

/-- All writes of `Flush` but the last flush. -/
def Page.writesFor (page : Page) (records : List DizRecord) : List (List Byte) :=
  (match page with
    | .utf8 => [Page.utf8.signature]
    | .table _ => []) ++ records.flatMap page.writesOf

/-- They are made and flushed. -/
def saveStep (page : Page) (records : List DizRecord) : WriterStep :=
  WriterStep.andThen (fun outcome cache => cache.writeAll outcome (page.writesFor records))
    fun outcome cache => cache.flush outcome

/-- `Flush` does with the open file what `saveStep` does. -/
theorem save_eq (page : Page) (outcome : Writes) (records : List DizRecord) :
    ((saveStep page records outcome {}).1 = true → save page outcome records
      = (false, (records.flatMap page.writesOf).isEmpty, (saveStep page records outcome {}).2))
    ∧ ((saveStep page records outcome {}).1 = false → ∃ emptyDiz,
      save page outcome records = (true, emptyDiz, (saveStep page records outcome {}).2)) := by
  have hfinish : ∀ cache : CachedWrite,
      let step : WriterStep := WriterStep.andThen
        (fun outcome cache => cache.writeAll outcome (records.flatMap page.writesOf))
        fun outcome cache => cache.flush outcome
      ((step outcome cache).1 = true → save.finish outcome (saveRecords page outcome records true cache)
        = (false, (records.flatMap page.writesOf).isEmpty, (step outcome cache).2))
      ∧ ((step outcome cache).1 = false → ∃ emptyDiz,
        save.finish outcome (saveRecords page outcome records true cache)
          = (true, emptyDiz, (step outcome cache).2)) := by
    intro cache
    dsimp only
    obtain ⟨hdone, hfailed⟩ := saveRecords_eq page outcome records true cache
    rw [WriterStep.andThen]
    rcases hall : cache.writeAll outcome (records.flatMap page.writesOf) with ⟨_ | _, cache'⟩
    · rw [hall] at hfailed
      obtain ⟨emptyDiz, hsave⟩ := hfailed rfl
      rw [hsave]
      exact ⟨fun h => (by cases h), fun _ => ⟨emptyDiz, rfl⟩⟩
    · rw [hall] at hdone
      rw [hdone rfl, Bool.true_and, save.finish]
      dsimp only
      rcases cache'.flush outcome with ⟨_ | _, cache''⟩
      · exact ⟨fun h => (by cases h), fun _ => ⟨_, rfl⟩⟩
      · exact ⟨fun _ => rfl, fun h => (by cases h)⟩
  cases page with
  | utf8 =>
    rw [save, saveStep, WriterStep.andThen]
    rw [Page.writesFor, List.singleton_append, writeAll_cons]
    rcases CachedWrite.write Page.utf8.signature outcome {} with ⟨_ | _, cache'⟩
    · exact ⟨fun h => (by cases h), fun _ => ⟨_, rfl⟩⟩
    · exact hfinish cache'
  | table cp => exact hfinish {}

theorem reports_saveStep (page : Page) (records : List DizRecord) (cache : CachedWrite) :
    Reports (saveStep page records) cache (page.writesFor records).flatten := by
  have h := (CachedWrite.reports_writeAll (page.writesFor records) cache).andThen
    (CachedWrite.reports_flush _)
  rw [List.append_nil] at h
  exact h

/-! ## What is in the file -/

/-- A line is written for the text. -/
def Page.Kept (page : Page) (w : List Char) : Prop := w ≠ [] ∧ page.Fits w

instance (w : List Char) : Decidable (page.Kept w) := inferInstanceAs (Decidable (_ ∧ _))

/-- The lines of texts. -/
def Page.lines (page : Page) (texts : List (List Char)) : List Byte :=
  texts.flatMap fun w => page.encode w ++ EOL

theorem writesOf_live (h : page.OneNul) {r : DizRecord} (hdeleted : r.deleted = false) {w : List Char}
    (hw : r.dizText = L w) :
    page.writesOf r = if page.Kept w then [page.encode w, EOL] else [] := by
  rw [Page.writesOf, if_neg (by rw [hdeleted]; decide), Page.bytes, hw]
  by_cases hfits : page.Fits w
  · obtain ⟨nul, hdone⟩ := Page.convert_fits h hfits
    have htake : ((((page.encode w).length : Int) + 1) - 1).toNat = (page.encode w).length := by omega
    have hlen := Page.encode_length_le page w
    rw [hdone]
    dsimp only
    rw [htake, List.take_left]
    by_cases hnil : w = []
    · have hempty : (page.encode w).length = 0 := by
        rw [hnil]
        cases page <;> rfl
      rw [if_neg fun h => h.2 (by omega), if_neg fun h => h.1 hnil]
    · have hpos := List.length_pos_iff.mpr hnil
      rw [if_pos ⟨by omega, by omega⟩, if_pos ⟨hnil, hfits⟩]
  · rw [if_neg fun hret => hret.1 (Page.convert_overflow h hfits), if_neg fun hkept => hfits hkept.2]

theorem writesOf_records (h : page.OneNul) : ∀ {records : List DizRecord} {texts : List (List Char)},
    (records.filter fun r => !r.deleted).map (·.dizText) = texts.map L →
    records.flatMap page.writesOf
      = (texts.filter fun w => page.Kept w).flatMap fun w => [page.encode w, EOL]
  | [], texts, hlive => by
    obtain rfl := List.map_eq_nil_iff.mp hlive.symm
    rfl
  | r :: records, texts, hlive => by
    rw [List.flatMap_cons]
    cases hdeleted : r.deleted with
    | true =>
      rw [List.filter_cons_of_neg (by rw [hdeleted]; decide)] at hlive
      rw [writesOf_records h hlive, Page.writesOf, if_pos hdeleted, List.nil_append]
    | false =>
      rw [List.filter_cons_of_pos (by rw [hdeleted]; decide), List.map_cons] at hlive
      obtain ⟨w, texts', rfl, hw, hrest⟩ := List.map_eq_cons_iff.mp hlive.symm
      rw [writesOf_live h hdeleted hw.symm, writesOf_records h hrest.symm]
      by_cases hkept : page.Kept w
      · rw [if_pos hkept, List.filter_cons_of_pos (p := fun w => decide (page.Kept w)) (decide_eq_true hkept), List.flatMap_cons]
      · rw [if_neg hkept, List.filter_cons_of_neg (p := fun w => decide (page.Kept w))
          (by rw [decide_eq_false hkept]; decide),
          List.nil_append]

theorem lines_filter (texts : List (List Char)) :
    ((texts.filter fun w => page.Kept w).flatMap fun w => [page.encode w, EOL]).flatten
      = page.lines (texts.filter fun w => page.Kept w) := by
  rw [Page.lines, ← List.flatMap_id, List.flatMap_assoc]
  refine congrArg (fun f => List.flatMap f _) (funext fun w => ?_)
  rw [List.flatMap_id, List.flatten_cons, List.flatten_singleton]

/-- Lines are missing where a text has none. -/
theorem lines_filter_length : ∀ texts : List (List Char),
    (page.lines (texts.filter fun w => page.Kept w)).length ≤ (page.lines texts).length
      ∧ ((∃ w ∈ texts, ¬ page.Kept w) →
        (page.lines (texts.filter fun w => page.Kept w)).length < (page.lines texts).length)
  | [] => ⟨Nat.le_refl _, fun ⟨_, hw, _⟩ => absurd hw List.not_mem_nil⟩
  | w :: texts => by
    obtain ⟨hle, hlt⟩ := lines_filter_length texts
    have hcons : ∀ texts : List (List Char),
        (page.lines (w :: texts)).length = (page.encode w).length + 2 + (page.lines texts).length := by
      intro texts
      rw [Page.lines, List.flatMap_cons, List.length_append, List.length_append]
      rfl
    by_cases hkept : page.Kept w
    · rw [List.filter_cons_of_pos (p := fun w => decide (page.Kept w)) (decide_eq_true hkept), hcons, hcons]
      refine ⟨by omega, fun ⟨w', hw', hnot⟩ => ?_⟩
      rcases List.mem_cons.mp hw' with rfl | hw'
      · exact absurd hkept hnot
      · have := hlt ⟨w', hw', hnot⟩
        omega
    · rw [List.filter_cons_of_neg (p := fun w => decide (page.Kept w))
          (by rw [decide_eq_false hkept]; decide), hcons]
      exact ⟨by omega, fun _ => by omega⟩

end

/-! ## `Flush` -/

/-- What is to be in the file. -/
def contents (page : Page) (texts : List (List Char)) : List Byte := page.signature ++ page.lines texts

/-- **No description is lost silently**: where `Flush` succeeds the file has the lines of all texts;
what could not be opened or written to is reported and stays to be saved; and a file is gone only
where no text is left. -/
structure Safe (S : Settings) (O : Outcomes) (disk : Disk) (texts : List (List Char)) (done : Flushed) :
    Prop where
  saved : done.ret = true → texts ≠ [] →
    (done.disk done.list.strDizFileName).map (·.content) = some (contents S.page texts)
  reported : (done.opened = some false ∨ ∃ i < done.writes, O.writes i ≠ none) →
    done.ret = false ∧ done.list.modified = true
  kept : ∀ name, disk name ≠ none → done.disk name = none → texts = []

/-- How often the file is written to where no write fails. -/
def DizList.portions (S : Settings) (d : DizList) : Nat :=
  (saveStep S.page d.dizData .perfect {}).2.file.writes

/-- The condition: a list that has been changed, and is not refused because it has no name or the file
is read-only, can be written to a file, and each of its texts fits; or a write to it fails, and there
is no file that could then be deleted. -/
def SavesAll (S : Settings) (O : Outcomes) (path dizName : Option WStr) (disk : Disk) (d : DizList)
    (texts : List (List Char)) : Prop :=
  if d.modified then
    ∀ name, d.fileName S path dizName = some name →
      ¬ ((disk name).any (·.readOnly) ∧ ¬ S.roUpdate) → d.dizData ≠ [] →
      O.opens = true ∧
        if ∀ i < d.portions S, O.writes i = none then ∀ w ∈ texts, S.page.Kept w
        else texts = [] ∨ disk name = none ∨ O.deletes = false
  else texts = [] ∨ (disk d.strDizFileName).map (·.content) = some (contents S.page texts)

theorem Settings.oneNul (S : Settings) : S.page.OneNul := by
  rw [page]
  split
  · trivial
  · split
    · exact S.acp_nul
    · exact S.oemcp_nul

section

variable {S : Settings} {O : Outcomes} {path dizName : Option WStr} {disk : Disk} {d : DizList}
  {texts : List (List Char)} {name : WStr}

theorem flush_unmodified (h : d.modified = false) :
    d.flush S O path dizName disk = { ret := true, list := d, disk } := by
  rw [DizList.flush, if_pos (by rw [h]; decide)]

theorem flush_nameless (h : d.modified = true) (hname : d.fileName S path dizName = none) :
    d.flush S O path dizName disk = { ret := false, list := d, disk } := by
  rw [DizList.flush, if_neg (by rw [h]; decide), hname]

theorem flush_refused (h : d.modified = true) (hname : d.fileName S path dizName = some name)
    (hro : (disk name).any (·.readOnly) ∧ ¬ S.roUpdate) : d.flush S O path dizName disk
      = { ret := false, list := { d with strDizFileName := name }, disk } := by
  rw [DizList.flush, if_neg (by rw [h]; decide), hname]
  exact if_pos hro

theorem flush_empty (h : d.modified = true) (hname : d.fileName S path dizName = some name)
    (hro : ¬ ((disk name).any (·.readOnly) ∧ ¬ S.roUpdate)) (hdata : d.dizData = []) :
    d.flush S O path dizName disk
      = finishFlush O { d with strDizFileName := name } name disk false true none 0 := by
  rw [DizList.flush, if_neg (by rw [h]; decide), hname]
  dsimp only
  rw [if_neg hro, if_pos hdata]

theorem flush_unopened (h : d.modified = true) (hname : d.fileName S path dizName = some name)
    (hro : ¬ ((disk name).any (·.readOnly) ∧ ¬ S.roUpdate)) (hdata : d.dizData ≠ [])
    (hopen : O.opens = false) : d.flush S O path dizName disk
      = finishFlush O { d with strDizFileName := name } name disk false true (some false) 0 := by
  rw [DizList.flush, if_neg (by rw [h]; decide), hname]
  dsimp only
  rw [if_neg hro, if_neg hdata, if_pos (by rw [hopen]; decide)]

/-- The disk once the file has been written. -/
def stored (disk : Disk) (name : WStr) (cache : CachedWrite) : Disk :=
  Function.update disk name (some
    { content := cache.file.content, readOnly := (disk name).any (·.readOnly) })

theorem flush_opened (h : d.modified = true) (hname : d.fileName S path dizName = some name)
    (hro : ¬ ((disk name).any (·.readOnly) ∧ ¬ S.roUpdate)) (hdata : d.dizData ≠ [])
    (hopen : O.opens = true) {anyError emptyDiz : Bool} {cache : CachedWrite}
    (hsave : save S.page O.writes d.dizData = (anyError, emptyDiz, cache)) :
    d.flush S O path dizName disk
      = finishFlush O { d with strDizFileName := name } name (stored disk name cache) anyError emptyDiz
        (some true) cache.file.writes := by
  rw [DizList.flush, if_neg (by rw [h]; decide), hname]
  dsimp only
  rw [if_neg hro, if_neg hdata, if_neg (by rw [hopen]; decide), hsave]
  rfl

/-- What is left of the disk where the file is deleted, if it can be. -/
def deleted (O : Outcomes) (disk : Disk) (name : WStr) : Disk :=
  if O.deletes then Function.update disk name none else disk

theorem deleted_ne {name' : WStr} (h : name' ≠ name) : deleted O disk name name' = disk name' := by
  rw [deleted]
  split
  · exact Function.update_of_ne h _ _
  · rfl

theorem finishFlush_error {emptyDiz : Bool} {opened : Option Bool} {writes : Nat} :
    finishFlush O d name disk true emptyDiz opened writes
      = { ret := false, list := d, disk := deleted O disk name, opened, writes } :=
  if_neg fun h => h.2 rfl

theorem finishFlush_empty {opened : Option Bool} {writes : Nat} :
    finishFlush O d name disk false true opened writes
      = { ret := true, list := { d with modified := false }, disk := deleted O disk name, opened,
          writes } :=
  if_neg fun h => h.1 rfl

theorem finishFlush_done {opened : Option Bool} {writes : Nat} :
    finishFlush O d name disk false false opened writes
      = { ret := true, list := { d with modified := false }, disk, opened, writes } := rfl

theorem writesFor_flatten (page : Page) (records : List DizRecord) :
    (page.writesFor records).flatten = page.signature ++ (records.flatMap page.writesOf).flatten := by
  cases page with
  | utf8 => rfl
  | table cp => rfl

/-- No text is missing where no line is. -/
theorem kept_of_contents {page : Page}
    (h : contents page (texts.filter fun w => page.Kept w) = contents page texts) :
    ∀ w ∈ texts, page.Kept w := by
  have hlines := congrArg List.length (List.append_cancel_left h)
  by_contra hnot
  obtain ⟨w, hw⟩ := Classical.not_forall.mp hnot
  rw [Classical.not_imp] at hw
  exact absurd hlines (Nat.ne_of_lt ((lines_filter_length texts).2 ⟨w, hw⟩))

/-- The lines of a list that is saved with no write failing. -/
theorem saveStep_content (hlive : d.liveRecords.map (·.dizText) = texts.map L) :
    (saveStep S.page d.dizData .perfect {}).2.file.content
      = contents S.page (texts.filter fun w => S.page.Kept w) := by
  have hadds := (reports_saveStep S.page d.dizData {}).adds
  have hbuffer : (saveStep S.page d.dizData .perfect {}).2.buffer = [] := by
    have hall := CachedWrite.reports_writeAll (S.page.writesFor d.dizData) {}
    rw [saveStep, WriterStep.andThen_of_true hall.perfect]
    exact CachedWrite.buffer_flush _
  rw [CachedWrite.written, hbuffer, List.append_nil] at hadds
  rw [hadds, writesFor_flatten, writesOf_records S.oneNul hlive, lines_filter, contents]
  rfl

/-- A file that can be written to. -/
theorem safe_opened_iff (hlive : d.liveRecords.map (·.dizText) = texts.map L) (h : d.modified = true)
    (hname : d.fileName S path dizName = some name)
    (hro : ¬ ((disk name).any (·.readOnly) ∧ ¬ S.roUpdate)) (hdata : d.dizData ≠ [])
    (hopen : O.opens = true) :
    Safe S O disk texts (d.flush S O path dizName disk) ↔
      if ∀ i < d.portions S, O.writes i = none then ∀ w ∈ texts, S.page.Kept w
      else texts = [] ∨ disk name = none ∨ O.deletes = false := by
  have hreports := reports_saveStep S.page d.dizData {}
  obtain ⟨hdone, hfailed⟩ := save_eq S.page O.writes d.dizData
  have hgood : (saveStep S.page d.dizData).AllGood O.writes {}
      ↔ ∀ i < d.portions S, O.writes i = none :=
    ⟨fun hall i hi => hall i (Nat.zero_le i) hi, fun hall i _ hi => hall i hi⟩
  by_cases hall : ∀ i < d.portions S, O.writes i = none
  · rw [if_pos hall]
    have hsame := hreports.same O.writes (hgood.mpr hall)
    have hsave := hdone (hsame ▸ hreports.perfect)
    rw [hsame] at hsave
    have hfail : ∀ {i}, i < (saveStep S.page d.dizData .perfect {}).2.file.writes →
        ¬ O.writes i ≠ none := fun hi hne => hne (hall _ hi)
    have hstored : ((stored disk name (saveStep S.page d.dizData .perfect {}).2) name).map (·.content)
        = some (contents S.page (texts.filter fun w => S.page.Kept w)) := by
      rw [stored, Function.update_self, Option.map_some, saveStep_content hlive]
    rw [writesOf_records S.oneNul hlive] at hsave
    rw [flush_opened h hname hro hdata hopen hsave]
    have hnofail : ∀ {opened : Option Bool}, opened = some true →
        ¬ (opened = some false ∨ ∃ i < (saveStep S.page d.dizData .perfect {}).2.file.writes,
          O.writes i ≠ none) := by
      rintro opened rfl (hopened | ⟨i, hi, hne⟩)
      · cases hopened
      · exact hfail hi hne
    cases hkept : texts.filter fun w => S.page.Kept w with
    | nil =>
      rw [List.flatMap_nil, List.isEmpty_nil, finishFlush_empty]
      constructor
      · intro hsafe
        by_cases hnil : texts = []
        · rw [hnil]
          exact fun w hw => absurd hw List.not_mem_nil
        · have hsaved := hsafe.saved rfl hnil
          dsimp only at hsaved
          rw [deleted] at hsaved
          split at hsaved
          · rw [Function.update_self] at hsaved
            cases hsaved
          · rw [hstored] at hsaved
            exact kept_of_contents (Option.some.inj hsaved)
      · intro hcond
        have hnil : texts = [] := by
          rw [List.filter_eq_self.mpr fun w hw => decide_eq_true (hcond w hw)] at hkept
          exact hkept
        exact ⟨fun _ hne => absurd hnil hne, fun hopened => absurd hopened (hnofail rfl),
          fun _ _ _ => hnil⟩
    | cons w kept =>
      rw [List.flatMap_cons, List.cons_append, List.isEmpty_cons, finishFlush_done]
      constructor
      · intro hsafe
        have hne : texts ≠ [] := by
          rintro rfl
          cases hkept
        have hsaved := hsafe.saved rfl hne
        dsimp only at hsaved
        rw [hstored] at hsaved
        exact kept_of_contents (Option.some.inj hsaved)
      · intro hcond
        rw [List.filter_eq_self.mpr fun w hw => decide_eq_true (hcond w hw)] at hstored
        refine ⟨fun _ _ => hstored, fun hopened => absurd hopened (hnofail rfl), fun name' hne hnone => ?_⟩
        dsimp only at hnone
        by_cases heq : name' = name
        · rw [heq, stored, Function.update_self] at hnone
          cases hnone
        · rw [stored, Function.update_of_ne heq] at hnone
          exact absurd hnone hne
  · rw [if_neg hall]
    obtain ⟨hfalse, i, -, hi, hfail⟩ := hreports.fails O.writes fun hgood' => hall (hgood.mp hgood')
    obtain ⟨emptyDiz, hsave⟩ := hfailed hfalse
    rw [flush_opened h hname hro hdata hopen hsave, finishFlush_error]
    constructor
    · intro hsafe
      cases hdel : O.deletes with
      | false => exact .inr (.inr rfl)
      | true =>
        by_cases hnone : disk name = none
        · exact .inr (.inl hnone)
        · refine .inl (hsafe.kept name hnone ?_)
          dsimp only
          rw [deleted, if_pos hdel, Function.update_self]
    · intro hcond
      refine ⟨fun hret => (by cases hret), fun _ => ⟨rfl, h⟩, fun name' hne hnone => ?_⟩
      dsimp only at hnone
      by_cases heq : name' = name
      · rcases hcond with hnil | hnew | hdel
        · exact hnil
        · exact absurd (heq ▸ hnew) hne
        · rw [deleted, if_neg (by rw [hdel]; decide), heq, stored, Function.update_self] at hnone
          cases hnone
      · rw [deleted_ne heq, stored, Function.update_of_ne heq] at hnone
        exact absurd hnone hne

/-- **When `Flush` loses no description.** -/
theorem flush_safe_iff (hlive : d.liveRecords.map (·.dizText) = texts.map L) :
    Safe S O disk texts (d.flush S O path dizName disk) ↔ SavesAll S O path dizName disk d texts := by
  rw [SavesAll]
  cases hmod : d.modified with
  | false =>
    rw [if_neg (by decide), flush_unmodified hmod]
    constructor
    · intro h
      by_cases hnil : texts = []
      · exact .inl hnil
      · exact .inr (h.saved rfl hnil)
    · intro h
      refine ⟨fun _ hne => h.resolve_left hne, fun hfail => ?_, fun name hne hnone => absurd hnone hne⟩
      rcases hfail with hfail | ⟨i, hi, -⟩
      · cases hfail
      · exact absurd hi (Nat.not_lt_zero i)
  | true =>
    rw [if_pos rfl]
    have hnothing : ∀ {list : DizList}, Safe S O disk texts { ret := false, list, disk } := by
      intro list
      refine ⟨fun hret => (by cases hret), fun hfail => ?_, fun name hne hnone => absurd hnone hne⟩
      rcases hfail with hfail | ⟨i, hi, -⟩
      · cases hfail
      · exact absurd hi (Nat.not_lt_zero i)
    cases hname : d.fileName S path dizName with
    | none =>
      rw [flush_nameless hmod hname]
      exact ⟨fun _ _ hnone => (by cases hnone), fun _ => hnothing⟩
    | some name =>
      by_cases hro : (disk name).any (·.readOnly) ∧ ¬ S.roUpdate
      · rw [flush_refused hmod hname hro]
        refine ⟨fun _ name' hname' hnot => ?_, fun _ => hnothing⟩
        obtain rfl := Option.some.inj hname'
        exact absurd hro hnot
      · by_cases hdata : d.dizData = []
        · rw [flush_empty hmod hname hro hdata, finishFlush_empty]
          refine ⟨fun _ _ _ _ hne => absurd hdata hne, fun _ => ?_⟩
          have hnil : texts = [] := by
            rw [DizList.liveRecords, hdata] at hlive
            exact List.map_eq_nil_iff.mp hlive.symm
          refine ⟨fun _ hne => absurd hnil hne, fun hfail => ?_, fun _ _ _ => hnil⟩
          rcases hfail with hfail | ⟨i, hi, -⟩
          · cases hfail
          · exact absurd hi (Nat.not_lt_zero i)
        · cases hopen : O.opens with
          | false =>
            rw [flush_unopened hmod hname hro hdata hopen, finishFlush_empty]
            constructor
            · intro hsafe
              have hret : true = false := (hsafe.reported (.inl rfl)).1
              cases hret
            · intro hcond
              exact absurd (hcond name rfl hro hdata).1 (by decide)
          | true =>
            rw [safe_opened_iff hlive hmod hname hro hdata hopen]
            constructor
            · intro hcond name' hname' _ _
              obtain rfl := Option.some.inj hname'
              exact ⟨rfl, hcond⟩
            · intro hcond
              exact (hcond name rfl hro hdata).2

end

/-- Lists are saved in UTF-8. -/
def Settings.utf8 : Settings where
  saveInUTF := true
  ansiByDefault := true
  roUpdate := true
  listName := L ['d']
  acp := .sbcs UInt32.toUInt8
  oemcp := .sbcs UInt32.toUInt8
  acp_nul := rfl
  oemcp_nul := rfl

/-- A list with one description, which is to be saved in the file `d`. -/
def oneDiz : DizList where
  dizData := [.ofText (L ['a', ' ', 'x'])]
  strDizFileName := L ['d']
  modified := true

/-- It is in the file where that can be opened. -/
theorem flush_safe_iff_one : Safe Settings.utf8 ⟨true, .perfect, true⟩ (fun _ => none)
    [['a', ' ', 'x']] (oneDiz.flush Settings.utf8 ⟨true, .perfect, true⟩ none none fun _ => none) := by
  refine (flush_safe_iff rfl).mpr ?_
  intro name _ _ _
  refine ⟨rfl, ?_⟩
  have hnofail : ∀ i < oneDiz.portions Settings.utf8, Writes.perfect i = none := fun _ _ => rfl
  rw [if_pos hnofail]
  decide

/-- **A file that cannot be opened is deleted**, and the list counts as saved. -/
theorem flush_unopened_loses :
    let disk : Disk := fun name => if name = L ['d'] then some { content := [] } else none
    let done := oneDiz.flush Settings.utf8 ⟨false, .perfect, true⟩ none none disk
    done.ret = true ∧ done.list.modified = false ∧ done.disk (L ['d']) = none
      ∧ ¬ Safe Settings.utf8 ⟨false, .perfect, true⟩ disk [['a', ' ', 'x']] done := by
  intro disk done
  refine ⟨rfl, rfl, by decide, fun hsafe => ?_⟩
  exact absurd (hsafe.reported (.inl rfl)).1 (by decide)

end Far2l.Diz
