/-
Far2l.Hist.HistoryTheorems — what `ReadHistory` makes of a saved history.

The columns hold the records from the newest to the oldest one, one line or one
character for each. `ReadHistory` reads the lines as long as there is text left, so
that a last line without characters is not read: the oldest record is lost when its
name is empty. The position is saved as the place from the oldest record and is
compared with the place from the newest one.
-/
import Far2l.Hist.History
import Far2l.Utils.ConfigRWTheorems
import Far2l.Utils.WideMBLines

namespace Far2l.Hist

open Far2l.KeyFile
open Far2l.WideMB (Survives joinLines)

/-! ## The columns -/

theorem joinLines_concat {α : Type} {c : α} {l : List α} : ∀ {ls : List (List α)}, ls ≠ [] →
    joinLines c (ls ++ [l]) = joinLines c ls ++ c :: l
  | [], h => absurd rfl h
  | [l'], _ => rfl
  | l' :: l'' :: ls, _ => by
    have ih := @joinLines_concat α c l (l'' :: ls) (List.cons_ne_nil _ _)
    rw [List.cons_append, WideMB.joinLines_cons (List.append_ne_nil_of_left_ne_nil
      (List.cons_ne_nil _ _) _), ih, WideMB.joinLines_cons (List.cons_ne_nil _ _), List.append_assoc]
    rfl

/-- `AppendWithLFSeparator`: line feeds become carriage returns. -/
def oneLine (s : WStr) : WStr := s.map fun c => if c = LF then CR else c

theorem oneLine_eq {s : WStr} (h : ∀ c ∈ s, c ≠ LF) : oneLine s = s := by
  have hmap : s.map (fun c => if c = LF then CR else c) = s.map id :=
    List.map_congr_left fun c hc => if_neg (h c hc)
  rw [oneLine, hmap, List.map_id]

/-- The text of a type. -/
def typeChar (type : Nat) : WChar := 0x30 + UInt32.ofNat type

/-- The text of a lock. -/
def lockChar (lock : Bool) : WChar := if lock then 0x31 else 0x30

/-- The columns behind `done` records, with `n` records to go. -/
def History.columnsOf (h : History) (done : List HistoryRecord) (n : Nat) : Columns :=
  { hasExtras := done.any fun r => !r.strExtra.isEmpty
    strTypes := if h.saveType then done.map fun r => typeChar r.type else []
    strLines := joinLines LF (done.map fun r => oneLine r.strName)
    strLocks := done.map fun r => lockChar r.lock
    strExtras := joinLines LF (done.map fun r => oneLine r.strExtra)
    vTimes := done.map HistoryRecord.timestamp
    position := h.currentItem.elim (-1) fun c => if n ≤ c then c else -1 }

theorem append_column (f : HistoryRecord → WStr) (done : List HistoryRecord) (r : HistoryRecord)
    (size n : Nat) (hsize : size = done.length + (n + 1)) :
    appendWithLFSeparator (joinLines LF (done.map fun r => oneLine (f r))) (f r) (n + 1 = size)
      = joinLines LF ((done ++ [r]).map fun r => oneLine (f r)) := by
  rw [appendWithLFSeparator, List.map_append, List.map_singleton]
  cases done with
  | nil =>
    rw [if_pos (by simp [hsize])]
    rfl
  | cons d done =>
    have hne : ¬n + 1 = size := by
      rw [hsize, List.length_cons]
      omega
    rw [if_neg (by simpa using hne), joinLines_concat (by simp), List.append_assoc]
    rfl

/-- A record goes behind the columns. -/
theorem saveRecord_columnsOf (h : History) (done : List HistoryRecord) (r : HistoryRecord)
    (size n : Nat) (hsize : size = done.length + (n + 1)) :
    h.saveRecord size (h.columnsOf done (n + 1)) (n + 1) r = h.columnsOf (done ++ [r]) n := by
  have hposition : (if h.currentItem = some n then ((n : Nat) : Int)
      else (h.columnsOf done (n + 1)).position) = (h.columnsOf (done ++ [r]) n).position := by
    simp only [History.columnsOf]
    cases h.currentItem with
    | none => rfl
    | some c =>
      simp only [Option.some.injEq, Option.elim]
      split
      · next heq => rw [heq, if_pos (Nat.le_refl n)]
      · next hne =>
        by_cases hle : n ≤ c
        · rw [if_pos hle, if_pos (by omega)]
        · rw [if_neg hle, if_neg (by omega)]
  have hlines := append_column HistoryRecord.strName done r size n hsize
  have hextras := append_column HistoryRecord.strExtra done r size n hsize
  rw [History.saveRecord, Nat.add_sub_cancel, hposition]
  simp only [History.columnsOf, hlines, hextras, List.any_append, List.any_cons, List.any_nil,
    Bool.or_false, List.map_append, List.map_cons, List.map_nil, lockChar, typeChar]
  cases h.saveType with
  | false => rfl
  | true => rfl

theorem saveRecords_columnsOf (h : History) (size : Nat) : ∀ (rest done : List HistoryRecord),
    size = done.length + rest.length →
    h.saveRecords size rest.length rest (h.columnsOf done rest.length) = h.columnsOf (done ++ rest) 0
  | [], done, _ => by
    rw [List.append_nil]
    rfl
  | r :: rest, done, hsize => by
    rw [List.length_cons, History.saveRecords, saveRecord_columnsOf h done r size rest.length hsize,
      Nat.add_sub_cancel, saveRecords_columnsOf h size rest (done ++ [r])
        (by rw [hsize, List.length_append, List.length_cons, List.length_singleton]; omega),
      List.append_assoc]
    rfl

/-- **The columns hold the records from the newest to the oldest one.** -/
theorem columns_eq (h : History) (hcur : ∀ c, h.currentItem = some c → c < h.historyList.length) :
    h.columns = h.columnsOf h.historyList.reverse 0 := by
  have hposition : (h.currentItem.elim (-1) fun c =>
      if h.historyList.reverse.length ≤ c then (c : Int) else -1) = -1 := by
    cases hitem : h.currentItem with
    | none => rfl
    | some c =>
      rw [List.length_reverse]
      exact if_neg (Nat.not_le.mpr (hcur c hitem))
  have hstart : ({} : Columns) = h.columnsOf [] h.historyList.reverse.length := by
    rw [History.columnsOf, hposition, List.map_nil, ite_self]
    rfl
  rw [History.columns, hstart, ← List.length_reverse,
    saveRecords_columnsOf h _ h.historyList.reverse [] (by rw [List.length_nil, Nat.zero_add]),
    List.nil_append]

/-! ## What is behind the cursors -/

/-- The rest of each column. -/
structure Rest where
  lines : WStr
  extras : WStr
  types : WStr
  locks : WStr
  times : List Byte

/-- What the cursors are in front of. -/
def Saved.rest (S : Saved) (p : Cursors) : Rest :=
  { lines := S.strLines.drop p.linesPos
    extras := S.strExtras.drop p.extrasPos
    types := S.strTypes.drop p.typesPos
    locks := S.strLocks.drop p.locksPos
    times := S.vTimes.drop p.timePos }

/-- The type a character stands for, if there is one. -/
def typeOf (c : Option WChar) : Nat :=
  match c with
  | some c => if iswdigit c then (c - 0x30).toNat else 0
  | none => 0

/-- The lock a character stands for, if there is one. -/
def lockOf (c : Option WChar) : Bool :=
  match c with
  | some c => if iswdigit c then c ≠ 0x30 else false
  | none => false

/-- The time at the front of bytes. -/
def timeOf (bytes : List Byte) : FileTime :=
  if h : (bytes.take 8).length = 8 then ⟨bytes.take 8, h⟩ else .zero

/-- The line at the front of a text, and what is behind it. -/
def firstLine (s : WStr) : WStr := s.takeWhile (· ≠ LF)
def otherLines (s : WStr) : WStr := (s.dropWhile (· ≠ LF)).drop 1

/-- The record in front. -/
def Rest.record (R : Rest) : HistoryRecord :=
  { type := typeOf R.types.head?
    lock := lockOf R.locks.head?
    strName := firstLine R.lines
    strExtra := firstLine R.extras
    timestamp := timeOf R.times }

/-- What is behind the record in front. -/
def Rest.advance (R : Rest) : Rest :=
  { lines := otherLines R.lines
    extras := otherLines R.extras
    types := R.types.drop 1
    locks := R.locks.drop 1
    times := if 8 ≤ R.times.length then R.times.drop 8 else R.times }

theorem findIdx?_takeWhile (s : WStr) : (s.findIdx? (· == LF)).getD s.length
    = (firstLine s).length := by
  induction s with
  | nil => rfl
  | cons c s ih =>
    rw [List.findIdx?_cons, firstLine]
    by_cases hc : c = LF
    · simp [hc]
    · rw [if_neg (by simpa using hc), List.takeWhile_cons_of_pos (by simpa using hc),
        List.length_cons, ← firstLine, List.length_cons, ← ih]
      cases s.findIdx? (· == LF) with
      | none => rfl
      | some i => rfl

/-- The end of a line that begins in the text. -/
theorem lineEnd_eq (s : WStr) (start : Nat) (h : start ≤ s.length) :
    lineEnd s start = start + (firstLine (s.drop start)).length := by
  have hfind := findIdx?_takeWhile (s.drop start)
  rw [← hfind, lineEnd, pos]
  cases (s.drop start).findIdx? (· == LF) with
  | none =>
    show s.length = start + (s.drop start).length
    rw [List.length_drop]
    omega
  | some i => rfl

/-- A line is what is in front of the cursor. -/
theorem subStr_line (s : WStr) (start : Nat) :
    subStr s start (lineEnd s start - start) = firstLine (s.drop start) := by
  rw [subStr]
  by_cases h : start ≤ s.length
  · rw [lineEnd_eq s start h, Nat.add_sub_cancel_left, firstLine]
    exact (List.prefix_iff_eq_take.mp (List.takeWhile_prefix _)).symm
  · rw [List.drop_eq_nil_of_le (Nat.le_of_not_le h), List.take_nil]
    rfl

/-- Behind the end of a line are the other lines. -/
theorem drop_lineEnd (s : WStr) (start : Nat) :
    s.drop (lineEnd s start + 1) = otherLines (s.drop start) := by
  by_cases h : start ≤ s.length
  · have hsplit := @List.takeWhile_append_dropWhile _ (fun c => decide (c ≠ LF)) (s.drop start)
    have hdrop : (s.drop start).drop (firstLine (s.drop start)).length
        = (s.drop start).dropWhile fun c => decide (c ≠ LF) := by
      rw [firstLine]
      nth_rewrite 2 [← hsplit]
      exact List.drop_left
    rw [lineEnd_eq s start h, otherLines, ← hdrop, List.drop_drop, List.drop_drop]
    rfl
  · have hnil : s.drop start = [] := List.drop_eq_nil_of_le (Nat.le_of_not_le h)
    have hend : lineEnd s start = s.length := by
      rw [lineEnd, pos, hnil]
      rfl
    rw [hnil, hend, List.drop_eq_nil_of_le (Nat.le_succ _)]
    rfl

theorem record_rest (S : Saved) (p : Cursors) : S.record p = (S.rest p).record := by
  simp only [Saved.record, Rest.record, Saved.rest, subStr_line, List.head?_drop]
  rfl

/-- A cursor that does not move is at the end. -/
theorem drop_stay {α : Type} (l : List α) (n : Nat) :
    l.drop (if n < l.length then n + 1 else n) = (l.drop n).drop 1 := by
  rw [List.drop_drop]
  split
  · rfl
  · next h =>
    rw [List.drop_eq_nil_of_le (Nat.le_of_not_lt h),
      List.drop_eq_nil_of_le (Nat.le_succ_of_le (Nat.le_of_not_lt h))]

theorem rest_advance (S : Saved) (p : Cursors) : S.rest (S.advance p) = (S.rest p).advance := by
  have htimes : S.vTimes.drop (if p.timePos + 8 ≤ S.vTimes.length then p.timePos + 8 else p.timePos)
      = if 8 ≤ (S.vTimes.drop p.timePos).length then (S.vTimes.drop p.timePos).drop 8
        else S.vTimes.drop p.timePos := by
    rw [List.length_drop, List.drop_drop]
    by_cases h : p.timePos + 8 ≤ S.vTimes.length
    · rw [if_pos h, if_pos (by omega)]
    · rw [if_neg h, if_neg (by omega)]
  simp only [Saved.rest, Saved.advance, Rest.advance, drop_lineEnd, drop_stay, htimes]
  rfl

/-! ## What is read -/

/-- The records that are read, from the newest one on. -/
def Rest.records : Nat → Rest → List HistoryRecord
  | 0, _ => []
  | fuel + 1, R => if R.lines = [] then [] else R.record :: Rest.records fuel R.advance

/-- The current item once `n` records have been read, the first of which is the record `count`. -/
def currentRead (position : Int) (count n : Nat) (old : Option Nat) : Option Nat :=
  if count ≤ position ∧ position < (count + n : Nat) then some (n - 1 - (position.toNat - count))
  else old.map (· + n)

theorem currentRead_zero (position : Int) (count : Nat) (old : Option Nat) :
    currentRead position count 0 old = old := by
  rw [currentRead, if_neg (by omega)]
  exact Option.map_id'

theorem currentRead_succ (position : Int) (count n : Nat) (old : Option Nat) :
    currentRead position (count + 1) n (if position = count then some 0 else old.map (· + 1))
      = currentRead position count (n + 1) old := by
  simp only [currentRead]
  by_cases heq : position = count
  · subst heq
    rw [if_pos rfl, if_neg (by omega), if_pos (by omega)]
    simp
  · rw [if_neg heq]
    by_cases hin : ((count + 1 : Nat) : Int) ≤ position ∧ position < (count + 1 + n : Nat)
    · rw [if_pos hin, if_pos (by omega)]
      exact congrArg some (by omega)
    · rw [if_neg hin, if_neg (by omega), Option.map_map]
      refine congrArg (Option.map · old) (funext fun c => ?_)
      simp only [Function.comp]
      omega

/-- **The records that are read come in front of those that are there.** -/
theorem readRecords_eq (S : Saved) : ∀ (fuel count : Nat) (p : Cursors) (h : History),
    History.readRecords S fuel count p h
      = { h with
          historyList := ((S.rest p).records fuel).reverse ++ h.historyList
          currentItem :=
            currentRead S.position count ((S.rest p).records fuel).length h.currentItem }
  | 0, count, p, h => by
    rw [Rest.records, List.length_nil, currentRead_zero]
    rfl
  | fuel + 1, count, p, h => by
    have hlines : (S.rest p).lines = [] ↔ ¬p.linesPos < S.strLines.length := by
      rw [Nat.not_lt]
      exact List.drop_eq_nil_iff
    rw [History.readRecords, Rest.records]
    by_cases hlt : p.linesPos < S.strLines.length
    · rw [if_pos hlt, if_neg (fun hnil => hlines.mp hnil hlt), readRecords_eq S fuel, rest_advance,
        record_rest, List.reverse_cons, List.length_cons]
      simp only [History.pushFront, List.append_assoc, List.singleton_append]
      rw [← currentRead_succ]
      simp only [decide_eq_true_eq]
    · rw [if_neg hlt, if_pos (hlines.mpr hlt), List.length_nil, currentRead_zero]
      rfl

/-! ## Records behind each other in columns -/

/-- The extras of records, as a column that may be absent. -/
def ExtrasOf (rs : List HistoryRecord) (extras : WStr) : Prop :=
  extras = joinLines LF (rs.map HistoryRecord.strExtra)
    ∨ extras = [] ∧ ∀ r ∈ rs, r.strExtra = []

/-- The text has neither line breaks nor a terminator. -/
def OneLine (s : WStr) : Prop := ∀ c ∈ s, c ≠ LF ∧ c ≠ 0

/-- The records with the types of a column. -/
def retype (types : WStr) : List HistoryRecord → List HistoryRecord
  | [] => []
  | r :: rs => { r with type := typeOf types.head? } :: retype (types.drop 1) rs

/-- The columns of records, whatever the column of types is. -/
def columnsRest (types extras : WStr) (rs : List HistoryRecord) : Rest :=
  { lines := joinLines LF (rs.map HistoryRecord.strName)
    extras := extras
    types := types
    locks := rs.map fun r => lockChar r.lock
    times := rs.flatMap fun r => r.timestamp.bytes }

theorem joinLines_first {l : WStr} (h : OneLine l) (ls : List WStr) :
    firstLine (joinLines LF (l :: ls)) = l ∧ otherLines (joinLines LF (l :: ls)) = joinLines LF ls := by
  have hall : ∀ c ∈ l, decide (c ≠ LF) = true := fun c hc => decide_eq_true (h c hc).1
  cases ls with
  | nil =>
    have htake : (l ++ []).takeWhile (fun c => decide (c ≠ LF)) = l ++ [] :=
      List.takeWhile_append_of_pos hall
    have hdrop : (l ++ []).dropWhile (fun c => decide (c ≠ LF)) = [] :=
      List.dropWhile_append_of_pos hall
    rw [List.append_nil] at htake hdrop
    refine ⟨htake, ?_⟩
    show (l.dropWhile _).drop 1 = []
    rw [hdrop]
    rfl
  | cons l' ls =>
    refine ⟨?_, ?_⟩
    · rw [joinLines, firstLine, List.takeWhile_append_of_pos hall, List.takeWhile_cons_of_neg (by simp),
        List.append_nil]
    · rw [joinLines, otherLines, List.dropWhile_append_of_pos hall,
        List.dropWhile_cons_of_neg (by simp)]
      rfl

theorem ExtrasOf.first {r : HistoryRecord} {rs : List HistoryRecord} {extras : WStr}
    (h : ExtrasOf (r :: rs) extras) (hline : OneLine r.strExtra) :
    firstLine extras = r.strExtra ∧ ExtrasOf rs (otherLines extras) := by
  rcases h with rfl | ⟨rfl, hnil⟩
  · obtain ⟨hfirst, hother⟩ := joinLines_first hline (rs.map HistoryRecord.strExtra)
    exact ⟨hfirst, .inl hother⟩
  · obtain ⟨hr, hrs⟩ := List.forall_mem_cons.mp hnil
    exact ⟨hr.symm, .inr ⟨rfl, hrs⟩⟩

theorem timeOf_append (t : FileTime) (bytes : List Byte) : timeOf (t.bytes ++ bytes) = t := by
  have htake : (t.bytes ++ bytes).take 8 = t.bytes := by
    rw [← t.size, List.take_left]
  have hsize : ((t.bytes ++ bytes).take 8).length = 8 := by
    rw [htake, t.size]
  rw [timeOf, dif_pos hsize]
  cases t
  simp only [FileTime.mk.injEq]
  exact htake

theorem lockOf_lockChar (lock : Bool) : lockOf (some (lockChar lock)) = lock := by
  cases lock <;> rfl

/-- The record in front is the first one, with the type of the column. -/
theorem record_columnsRest {types extras : WStr} {r : HistoryRecord} {rs : List HistoryRecord}
    (hname : OneLine r.strName) (hextra : OneLine r.strExtra) (hextras : ExtrasOf (r :: rs) extras) :
    (columnsRest types extras (r :: rs)).record = { r with type := typeOf types.head? } := by
  have hfirst := (joinLines_first hname (rs.map HistoryRecord.strName)).1
  simp only [Rest.record, columnsRest, List.map_cons, List.flatMap_cons, List.head?_cons,
    lockOf_lockChar, timeOf_append, hfirst, (hextras.first hextra).1]

theorem advance_columnsRest {types extras : WStr} {r : HistoryRecord} {rs : List HistoryRecord}
    (hname : OneLine r.strName) :
    (columnsRest types extras (r :: rs)).advance
      = columnsRest (types.drop 1) (otherLines extras) rs := by
  have hother := (joinLines_first hname (rs.map HistoryRecord.strName)).2
  have hsize : 8 ≤ (r.timestamp.bytes ++ rs.flatMap fun r => r.timestamp.bytes).length := by
    rw [List.length_append, r.timestamp.size]
    omega
  have htimes : (r.timestamp.bytes ++ rs.flatMap fun r => r.timestamp.bytes).drop 8
      = rs.flatMap fun r => r.timestamp.bytes := by
    rw [← r.timestamp.size, List.drop_left]
  simp only [Rest.advance, columnsRest, List.map_cons, List.flatMap_cons, hother, if_pos hsize,
    htimes, List.drop_one, List.tail_cons]

/-- Text is left as long as there are records, but for one without a name at the end. -/
theorem lines_eq_nil_iff {types extras : WStr} {r : HistoryRecord} {rs : List HistoryRecord} :
    (columnsRest types extras (r :: rs)).lines = [] ↔ r.strName = [] ∧ rs = [] := by
  show joinLines LF (r.strName :: rs.map HistoryRecord.strName) = [] ↔ _
  cases rs with
  | nil => simp [joinLines]
  | cons r' rs => simp [joinLines]

/-- **The records are read again, but for an oldest one without a name.** -/
theorem records_columnsRest : ∀ (rs : List HistoryRecord) (fuel : Nat) (types extras : WStr),
    rs.length ≤ fuel → (∀ r ∈ rs, OneLine r.strName ∧ OneLine r.strExtra) → ExtrasOf rs extras →
    (columnsRest types extras rs).records fuel
      = retype types (if (rs.getLast?.map HistoryRecord.strName) = some [] then rs.dropLast else rs)
  | [], fuel, types, extras, _, _, _ => by
    cases fuel with
    | zero => rfl
    | succ fuel => rfl
  | r :: rs, 0, types, extras, hfuel, _, _ => absurd hfuel (Nat.not_succ_le_zero _)
  | r :: rs, fuel + 1, types, extras, hfuel, hlines, hextras => by
    obtain ⟨⟨hname, hextra⟩, hrs⟩ := List.forall_mem_cons.mp hlines
    have hstep := records_columnsRest rs fuel (types.drop 1) (otherLines extras)
      (Nat.le_of_succ_le_succ hfuel) hrs (hextras.first hextra).2
    rw [Rest.records]
    by_cases hnil : (columnsRest types extras (r :: rs)).lines = []
    · obtain ⟨hempty, rfl⟩ := lines_eq_nil_iff.mp hnil
      rw [if_pos hnil, if_pos (by simp [hempty])]
      rfl
    · rw [if_neg hnil, record_columnsRest hname hextra hextras, advance_columnsRest hname, hstep]
      cases rs with
      | nil =>
        have hne : ¬r.strName = [] := fun h => hnil (lines_eq_nil_iff.mpr ⟨h, rfl⟩)
        rw [if_neg (by simp), if_neg (by simpa using hne)]
        rfl
      | cons r' rs =>
        rw [List.getLast?_cons_cons, List.dropLast_cons_cons]
        split
        · rfl
        · rfl

theorem length_retype (types : WStr) (rs : List HistoryRecord) :
    (retype types rs).length = rs.length := by
  induction rs generalizing types with
  | nil => rfl
  | cons r rs ih => rw [retype, List.length_cons, List.length_cons, ih]

/-- A column gives every record its type. -/
theorem retype_eq_iff {types : WStr} {rs : List HistoryRecord} :
    retype types rs = rs
      ↔ ∀ (i : Nat) (r : HistoryRecord), rs[i]? = some r → typeOf types[i]? = r.type := by
  induction rs generalizing types with
  | nil => simp [retype]
  | cons r rs ih =>
    rw [retype, List.cons.injEq, ih]
    constructor
    · rintro ⟨hr, hrs⟩ i r' hi
      cases i with
      | zero =>
        obtain rfl : r = r' := by simpa using hi
        rw [← List.head?_eq_getElem?]
        exact congrArg HistoryRecord.type hr
      | succ i =>
        have := hrs i r' (by simpa using hi)
        rwa [List.getElem?_drop, Nat.add_comm] at this
    · intro hall
      refine ⟨?_, fun i r' hi => ?_⟩
      · have := hall 0 r (by simp)
        rw [List.head?_eq_getElem?, this]
      · have := hall (i + 1) r' (by simpa using hi)
        rwa [List.getElem?_drop, Nat.add_comm]

theorem typeOf_typeChar {type : Nat} (h : type ≤ 9) : typeOf (some (typeChar type)) = type := by
  have hall : ∀ type, type < 10 → typeOf (some (typeChar type)) = type := by decide
  exact hall type (Nat.lt_succ_of_le h)

/-- The types that are saved are those of the records. -/
theorem retype_typeChar {rs : List HistoryRecord} (h : ∀ r ∈ rs, r.type ≤ 9) :
    retype (rs.map fun r => typeChar r.type) rs = rs := by
  refine retype_eq_iff.mpr fun i r hi => ?_
  rw [List.getElem?_map, hi, Option.map_some, typeOf_typeChar (h r (List.mem_of_getElem? hi))]

/-- What is read survives when the columns do. -/
theorem survives_records : ∀ (fuel : Nat) {R : Rest}, Survives R.lines → Survives R.extras →
    ∀ r ∈ R.records fuel, Survives r.strName ∧ Survives r.strExtra
  | 0, _, _, _, _, hr => absurd hr List.not_mem_nil
  | fuel + 1, R, hlines, hextras, r, hr => by
    have hl := hlines.takeWhile (c := 0x0A) (by decide)
    have he := hextras.takeWhile (c := 0x0A) (by decide)
    rw [Rest.records] at hr
    split at hr
    · exact absurd hr List.not_mem_nil
    · rcases List.mem_cons.mp hr with rfl | hr
      · exact ⟨hl.1, he.1⟩
      · exact survives_records fuel (R := R.advance) hl.2 he.2 r hr

/-! ## Through the file -/

/-- A text that is written and read. -/
def through (s : WStr) : WStr := cStr (WideMB.mb2Wide (WideMB.wide2MB (cStr s)))

theorem cStr_eq {s : WStr} (h : ∀ c ∈ s, c ≠ 0) : cStr s = s := by
  have htake : (s ++ []).takeWhile (fun c => decide (c ≠ 0)) = s ++ [] :=
    List.takeWhile_append_of_pos fun c hc => decide_eq_true (h c hc)
  rwa [List.append_nil] at htake

theorem through_eq {s : WStr} (h : ∀ c ∈ s, c ≠ 0) (hs : Survives s) : through s = s := by
  rw [through, cStr_eq h, hs, cStr_eq h]

theorem survives_through (s : WStr) : Survives (through s) :=
  ((WideMB.survives_mb2Wide _).takeWhile (c := 0) (by decide)).1

/-- The types that are in the file already. -/
def History.typesKept (h : History) (file : Str) : WStr :=
  ((loadKeyFile false file).getString h.strRegKey TYPES).getD []

/-- What is found of the columns in the file. -/
def History.savedColumns (h : History) (C : Columns) (file : Str) : Saved :=
  { strLines := through C.strLines
    strExtras := if C.hasExtras then through C.strExtras else []
    strTypes := if h.saveType then through C.strTypes else h.typesKept file
    strLocks := through C.strLocks
    vTimes := C.vTimes.flatMap FileTime.bytes
    position := C.position }

/-- What `SaveHistory` leaves of a key of its section. -/
def History.written (h : History) (C : Columns) (types old : Option Str) (name : Str) : Option Str :=
  if name = POSITION then some (toDec C.position)
  else if name = TIMES then
    some (encodeBytes (bytesSpaceInterval h.strRegKey) 0 (C.vTimes.flatMap FileTime.bytes))
  else if name = LOCKS then some (WideMB.wide2MB (cStr C.strLocks))
  else if name = TYPES then
    if h.saveType then some (WideMB.wide2MB (cStr C.strTypes)) else types
  else if name = EXTRAS then
    if C.hasExtras then some (WideMB.wide2MB (cStr C.strExtras)) else none
  else if name = LINES then some (WideMB.wide2MB (cStr C.strLines))
  else old

section Written

open KeyFileHelper

variable {K : KeyFileHelper false} {file : Str} (h : History) (C : Columns)

theorem puts_writeExtras (hK : K.Follows file) : Puts file h.strRegKey EXTRAS
    (if C.hasExtras then some (WideMB.wide2MB (cStr C.strExtras)) else none) K
    (h.writeExtras C K) := by
  rw [History.writeExtras]
  cases C.hasExtras with
  | false => exact hK.puts_removeKey h.strRegKey EXTRAS
  | true => exact hK.puts_setString h.strRegKey EXTRAS _

theorem puts_writeTypes (hK : K.Follows file) : Puts file h.strRegKey TYPES
    (if h.saveType then some (WideMB.wide2MB (cStr C.strTypes))
      else K.kf.value h.strRegKey TYPES) K (h.writeTypes C K) := by
  rw [History.writeTypes]
  cases h.saveType with
  | false =>
    rw [if_neg Bool.false_ne_true, if_neg Bool.false_ne_true]
    refine ⟨hK, fun name => ?_⟩
    split
    · next heq => rw [heq]
    · rfl
  | true => exact hK.puts_setString h.strRegKey TYPES _

/-- **What is written of the history**, key by key. -/
theorem write_spec (hK : K.Follows file) : (h.write C K).Follows file
    ∧ ∀ name, (h.write C K).kf.value h.strRegKey name
        = h.written C (K.kf.value h.strRegKey TYPES) (K.kf.value h.strRegKey name) name := by
  have h1 := hK.puts_setString h.strRegKey LINES (WideMB.wide2MB (cStr C.strLines))
  have h2 := puts_writeExtras h C h1.follows
  have h3 := puts_writeTypes h C h2.follows
  have h4 := h3.follows.puts_setString h.strRegKey LOCKS (WideMB.wide2MB (cStr C.strLocks))
  have h5 := h4.follows.puts_setString h.strRegKey TIMES
    (encodeBytes (bytesSpaceInterval h.strRegKey) 0 (C.vTimes.flatMap FileTime.bytes))
  have h6 := h5.follows.puts_setString h.strRegKey POSITION (toDec C.position)
  refine ⟨h6.follows, fun name => ?_⟩
  have htypes : (h.writeExtras C (K.setString h.strRegKey LINES
      (WideMB.wide2MB (cStr C.strLines)))).kf.value h.strRegKey TYPES
        = K.kf.value h.strRegKey TYPES := by
    rw [h2.values, if_neg (by decide), h1.values, if_neg (by decide)]
  have hchain := h6.values name
  rw [h5.values, h4.values, h3.values, htypes, h2.values, h1.values] at hchain
  exact hchain

end Written

theorem getInt_toDec {S : Sections false} {section_ name : Str} {v : Int}
    (h : S.value section_ name = some (toDec v)) (default : Int) :
    S.getInt section_ name default = v := by
  rw [Sections.getInt, h]
  dsimp only
  rw [if_neg (toDec_take v), strtol_toDec]

theorem getBytes_encodeBytes {S : Sections false} {section_ name : Str} {interval : Nat}
    {buf : List Byte} (h : S.value section_ name = some (encodeBytes interval 0 buf)) :
    S.getBytes section_ name = buf := by
  have hlen := length_encodeBytes interval buf 0
  rw [Sections.getBytes, h]
  dsimp only
  rw [← skipBlanks_encodeBytes_zero, skipBlanks_encodeBytes_zero]
  have hread := decodeBytes_encodeBytes interval buf 0
    ((encodeBytes interval 0 buf).length / 2 + 1) (by omega)
  rwa [skipBlanks_encodeBytes_zero] at hread

/-- **What `ReadHistory` finds of a saved history.** -/
theorem saved_saveHistory (h : History) (file : Str) (hsave : h.enableSave = true)
    (hne : h.historyList ≠ []) (hdialog : h.typeHistory ≠ .dialog) :
    h.cleared.saved (loadKeyFile false (h.saveHistory file).2)
      = some (h.savedColumns h.columns file) := by
  have hfile : (h.saveHistory file).2 = (h.write h.columns (configWriter file)).saved file := by
    have hspliced : h.spliced = h := by rw [History.spliced, if_neg hdialog]
    rw [History.saveHistory, hsave, hspliced, if_neg (by simp), if_neg (by simpa using hne)]
  obtain ⟨hfollows, hwritten⟩ := write_spec h h.columns (KeyFileHelper.follows_configWriter file)
  have hvalue : ∀ name, (loadKeyFile false (h.saveHistory file).2).value h.strRegKey name
      = h.written h.columns ((loadKeyFile false file).value h.strRegKey TYPES)
          ((loadKeyFile false file).value h.strRegKey name) name := by
    intro name
    rw [hfile, hfollows.value_saved, hwritten]
    rfl
  generalize (loadKeyFile false (h.saveHistory file).2) = S at hvalue ⊢
  have hposition := getInt_toDec (hvalue POSITION) (-1)
  have htimes := getBytes_encodeBytes (hvalue TIMES)
  have hlocks : S.value h.strRegKey LOCKS = some _ := hvalue LOCKS
  have htypes : S.value h.strRegKey TYPES
      = if h.saveType then some (WideMB.wide2MB (cStr h.columns.strTypes))
        else (loadKeyFile false file).value h.strRegKey TYPES := hvalue TYPES
  have hextras : S.value h.strRegKey EXTRAS
      = if h.columns.hasExtras then some (WideMB.wide2MB (cStr h.columns.strExtras)) else none :=
    hvalue EXTRAS
  have hlines : S.value h.strRegKey LINES = some _ := hvalue LINES
  have hlinesRead : S.getString h.strRegKey LINES = some (through h.columns.strLines) := by
    rw [Sections.getString, hlines]
    rfl
  have hlocksRead : (S.getString h.strRegKey LOCKS).getD [] = through h.columns.strLocks := by
    rw [Sections.getString, hlocks]
    rfl
  have htypesRead : (S.getString h.strRegKey TYPES).getD []
      = if h.saveType then through h.columns.strTypes else h.typesKept file := by
    rw [Sections.getString, htypes, History.typesKept]
    cases h.saveType with
    | false => rfl
    | true => rfl
  have hextrasRead : (S.getString h.strRegKey EXTRAS).getD []
      = if h.columns.hasExtras then through h.columns.strExtras else [] := by
    rw [Sections.getString, hextras]
    cases h.columns.hasExtras with
    | false => rfl
    | true => rfl
  show (S.getString h.strRegKey LINES).map _ = _
  rw [hlinesRead, Option.map_some]
  show some (Saved.mk _ _ _ _ _ _) = _
  rw [History.savedColumns, ← hlocksRead, ← htypesRead, ← hextrasRead, ← htimes, ← hposition]
  rfl

/-! ## The round trip -/

/-- A history that can be saved: what the records are made of, and where the current item is. -/
structure History.Fits (h : History) : Prop where
  save : h.enableSave = true
  dialog : h.typeHistory ≠ .dialog
  some : h.historyList ≠ []
  count : h.historyList.length ≤ h.historyCount
  current : ∀ c, h.currentItem = Option.some c → c < h.historyList.length
  lines : ∀ r ∈ h.historyList, OneLine r.strName ∧ OneLine r.strExtra
  types : ∀ r ∈ h.historyList, r.type ≤ 9

/-- The history is read again as it is. -/
structure History.Kept (h : History) (file : Str) : Prop where
  oldest : (h.historyList.head?.map HistoryRecord.strName) ≠ Option.some []
  current : ∀ c, h.currentItem = Option.some c → 2 * c + 1 = h.historyList.length
  survives : ∀ r ∈ h.historyList, Survives r.strName ∧ Survives r.strExtra
  types : h.saveType = true ∨ ∀ (i : Nat) (r : HistoryRecord),
    h.historyList.reverse[i]? = Option.some r → typeOf (h.typesKept file)[i]? = r.type

/-- What `ReadHistory` reads of the saved history, from the newest record on. -/
def History.recordsRead (h : History) (file : Str) : List HistoryRecord :=
  ((h.savedColumns h.columns file).rest {}).records h.historyCount

/-- **The history that is read**: the records, and the current item by its saved position. -/
theorem readHistory_saveHistory (h : History) (file : Str) (hfit : h.Fits) :
    h.cleared.readHistory (h.saveHistory file).2
      = { h with
          historyList := (h.recordsRead file).reverse
          currentItem := currentRead h.columns.position 0 (h.recordsRead file).length none } := by
  rw [History.readHistory, saved_saveHistory h file hfit.save hfit.some hfit.dialog]
  dsimp only
  rw [readRecords_eq, History.recordsRead]
  simp only [History.cleared, List.append_nil]
  rfl

/-- The position is that of the current item. -/
theorem position_columns {h : History} (hfit : h.Fits) :
    h.columns.position = h.currentItem.elim (-1) fun c => (c : Int) := by
  rw [columns_eq h hfit.current]
  simp only [History.columnsOf]
  cases h.currentItem with
  | none => rfl
  | some c =>
    show (if 0 ≤ c then (c : Int) else -1) = c
    rw [if_pos (Nat.zero_le c)]

/-- **The current item that is read is the mirror image of the saved one.** -/
theorem currentRead_position {h : History} (hfit : h.Fits) {n : Nat}
    (hn : n = h.historyList.length) :
    currentRead h.columns.position 0 n none = h.currentItem.map fun c => n - 1 - c := by
  rw [position_columns hfit]
  cases hitem : h.currentItem with
  | none => rfl
  | some c =>
    have hlt := hfit.current c hitem
    show currentRead c 0 n none = some (n - 1 - c)
    rw [currentRead, if_pos (by omega)]
    simp

/-- What is read survives. -/
theorem survives_recordsRead (h : History) (file : Str) :
    ∀ r ∈ h.recordsRead file, Survives r.strName ∧ Survives r.strExtra := by
  refine survives_records h.historyCount (survives_through _) ?_
  show Survives (if h.columns.hasExtras then through h.columns.strExtras else [])
  split
  · exact survives_through _
  · exact WideMB.survives_nil

/-- The column of types that is read. -/
def History.typesRead (h : History) (file : Str) : WStr :=
  if h.saveType then h.historyList.reverse.map fun r => typeChar r.type else h.typesKept file

theorem through_column (f : HistoryRecord → WStr) {rs : List HistoryRecord}
    (h : ∀ r ∈ rs, OneLine (f r) ∧ Survives (f r)) :
    through (joinLines LF (rs.map fun r => oneLine (f r))) = joinLines LF (rs.map f) := by
  have hlines : (rs.map fun r => oneLine (f r)) = rs.map f :=
    List.map_congr_left fun r hr => oneLine_eq fun c hc => ((h r hr).1 c hc).1
  have hmem : ∀ l ∈ rs.map f, OneLine l ∧ Survives l := by
    intro l hl
    obtain ⟨r, hr, rfl⟩ := List.mem_map.mp hl
    exact h r hr
  rw [hlines]
  refine through_eq (fun c hc => ?_) (WideMB.survives_joinLines fun l hl => (hmem l hl).2)
  rcases WideMB.mem_joinLines hc with rfl | ⟨l, hl, hc⟩
  · decide
  · exact ((hmem l hl).1 c hc).2

theorem through_digits {α : Type} (f : α → WChar) (l : List α)
    (h : ∀ a ∈ l, f a ≠ 0 ∧ (f a).toNat < 0x80) : through (l.map f) = l.map f := by
  refine through_eq (fun c hc => ?_) (WideMB.survives_ascii fun c hc => ?_)
  · obtain ⟨a, ha, rfl⟩ := List.mem_map.mp hc
    exact (h a ha).1
  · obtain ⟨a, ha, rfl⟩ := List.mem_map.mp hc
    exact (h a ha).2

theorem typeChar_plain {type : Nat} (h : type ≤ 9) :
    typeChar type ≠ 0 ∧ (typeChar type).toNat < 0x80 := by
  have hall : ∀ type, type < 10 → typeChar type ≠ 0 ∧ (typeChar type).toNat < 0x80 := by decide
  exact hall type (Nat.lt_succ_of_le h)

theorem lockChar_plain (lock : Bool) : lockChar lock ≠ 0 ∧ (lockChar lock).toNat < 0x80 := by
  cases lock <;> decide

/-- **Records that survive are the columns that are read.** -/
theorem rest_savedColumns {h : History} (file : Str) (hfit : h.Fits)
    (hsurvive : ∀ r ∈ h.historyList, Survives r.strName ∧ Survives r.strExtra) :
    ∃ extras, ExtrasOf h.historyList.reverse extras
      ∧ (h.savedColumns h.columns file).rest {}
          = columnsRest (h.typesRead file) extras h.historyList.reverse := by
  have hmem : ∀ r ∈ h.historyList.reverse, r ∈ h.historyList := fun r => List.mem_reverse.mp
  have hcolumns := columns_eq h hfit.current
  have hlines : through h.columns.strLines
      = joinLines LF (h.historyList.reverse.map HistoryRecord.strName) := by
    rw [hcolumns]
    exact through_column HistoryRecord.strName fun r hr =>
      ⟨(hfit.lines r (hmem r hr)).1, (hsurvive r (hmem r hr)).1⟩
  have hextras : through h.columns.strExtras
      = joinLines LF (h.historyList.reverse.map HistoryRecord.strExtra) := by
    rw [hcolumns]
    exact through_column HistoryRecord.strExtra fun r hr =>
      ⟨(hfit.lines r (hmem r hr)).2, (hsurvive r (hmem r hr)).2⟩
  have hlocks : through h.columns.strLocks
      = h.historyList.reverse.map fun r => lockChar r.lock := by
    rw [hcolumns]
    exact through_digits _ _ fun r _ => lockChar_plain r.lock
  have htypes : (if h.saveType then through h.columns.strTypes else h.typesKept file)
      = h.typesRead file := by
    rw [hcolumns, History.typesRead]
    simp only [History.columnsOf]
    split
    · exact through_digits _ _ fun r hr => typeChar_plain (hfit.types r (hmem r hr))
    · rfl
  have htimes : h.columns.vTimes.flatMap FileTime.bytes
      = h.historyList.reverse.flatMap fun r => r.timestamp.bytes := by
    rw [hcolumns]
    exact List.flatMap_map _ _ _
  refine ⟨if h.columns.hasExtras then through h.columns.strExtras else [], ?_, ?_⟩
  · have hhas : h.columns.hasExtras = h.historyList.reverse.any fun r => !r.strExtra.isEmpty := by
      rw [hcolumns]
      rfl
    split
    · exact .inl hextras
    · next hnone =>
      refine .inr ⟨rfl, fun r hr => ?_⟩
      rw [hhas, Bool.not_eq_true, List.any_eq_false] at hnone
      simpa using hnone r hr
  · rw [columnsRest, ← hlines, ← hlocks, ← htypes, ← htimes]
    rfl

/-- **What is read of records that survive**: all of them but an oldest one without a name, with
the types of the column. -/
theorem recordsRead_eq {h : History} {file : Str} (hfit : h.Fits)
    (hsurvive : ∀ r ∈ h.historyList, Survives r.strName ∧ Survives r.strExtra) :
    h.recordsRead file = retype (h.typesRead file)
      (if h.historyList.head?.map HistoryRecord.strName = some [] then h.historyList.reverse.dropLast
        else h.historyList.reverse) := by
  obtain ⟨extras, hextras, hrest⟩ := rest_savedColumns file hfit hsurvive
  have hlen : h.historyList.reverse.length ≤ h.historyCount := by
    rw [List.length_reverse]
    exact hfit.count
  rw [History.recordsRead, hrest, records_columnsRest _ _ _ _ hlen
    (fun r hr => hfit.lines r (List.mem_reverse.mp hr)) hextras, List.getLast?_reverse]

/-- The types are read again when they are saved, or are in the file already. -/
theorem retype_typesRead {h : History} {file : Str} (hfit : h.Fits) :
    retype (h.typesRead file) h.historyList.reverse = h.historyList.reverse
      ↔ h.saveType = true ∨ ∀ (i : Nat) (r : HistoryRecord),
          h.historyList.reverse[i]? = some r → typeOf (h.typesKept file)[i]? = r.type := by
  rw [History.typesRead]
  cases h.saveType with
  | true =>
    rw [if_pos rfl, retype_typeChar fun r hr => hfit.types r (List.mem_reverse.mp hr)]
    simp
  | false =>
    rw [if_neg Bool.false_ne_true, retype_eq_iff]
    simp

/-- **A history is read again as it was saved if, and only if, the oldest record has a name, no
record or the one in the middle is the current item, the texts survive, and the types are saved or
are those in the file already.** -/
theorem readHistory_saveHistory_iff (h : History) (file : Str) (hfit : h.Fits) :
    h.cleared.readHistory (h.saveHistory file).2 = h ↔ h.Kept file := by
  rw [readHistory_saveHistory h file hfit]
  have hiff : { h with
      historyList := (h.recordsRead file).reverse
      currentItem := currentRead h.columns.position 0 (h.recordsRead file).length none } = h
      ↔ h.recordsRead file = h.historyList.reverse
        ∧ currentRead h.columns.position 0 (h.recordsRead file).length none = h.currentItem := by
    constructor
    · intro heq
      have hlist := congrArg History.historyList heq
      refine ⟨?_, congrArg History.currentItem heq⟩
      rw [← hlist, List.reverse_reverse]
    · rintro ⟨hlist, hcur⟩
      rw [hcur, hlist, List.reverse_reverse]
  rw [hiff]
  constructor
  · rintro ⟨hlist, hcur⟩
    have hsurvive : ∀ r ∈ h.historyList, Survives r.strName ∧ Survives r.strExtra := by
      intro r hr
      refine survives_recordsRead h file r ?_
      rw [hlist]
      exact List.mem_reverse.mpr hr
    have hlen := congrArg List.length hlist
    rw [List.length_reverse] at hlen
    rw [recordsRead_eq hfit hsurvive] at hlist
    have holdest : h.historyList.head?.map HistoryRecord.strName ≠ some [] := by
      intro hempty
      have hlost := congrArg List.length hlist
      rw [if_pos hempty, length_retype, List.length_dropLast, List.length_reverse] at hlost
      have := List.length_pos_iff.mpr hfit.some
      omega
    rw [if_neg holdest] at hlist
    refine ⟨holdest, fun c hc => ?_, hsurvive, (retype_typesRead hfit).mp hlist⟩
    have hlt := hfit.current c hc
    rw [currentRead_position hfit hlen, hc, Option.map_some, Option.some.injEq] at hcur
    omega
  · intro hkept
    have hlist : h.recordsRead file = h.historyList.reverse := by
      rw [recordsRead_eq hfit hkept.survives, if_neg hkept.oldest]
      exact (retype_typesRead hfit).mpr hkept.types
    refine ⟨hlist, ?_⟩
    have hlen : (h.recordsRead file).length = h.historyList.length := by
      rw [hlist, List.length_reverse]
    rw [currentRead_position hfit hlen, hlen]
    cases hitem : h.currentItem with
    | none => rfl
    | some c =>
      have hmiddle := hkept.current c hitem
      rw [Option.map_some]
      exact congrArg some (by omega)

/-- A history with one record, which is the current item. -/
def oneRecord : History :=
  { typeHistory := .folder, historyCount := 3, saveType := true, strRegKey := A ['H'],
    enableSave := true, historyList := [{ type := 4, lock := true, strName := [0x61] }],
    currentItem := some 0 }

theorem survives_a : Survives [0x61] := WideMB.survives_ascii (by simp)

theorem readHistory_saveHistory_one : oneRecord.cleared.readHistory (oneRecord.saveHistory []).2
    = oneRecord := by
  refine (readHistory_saveHistory_iff oneRecord [] ⟨rfl, by decide, by decide, by decide, ?_, ?_, ?_⟩).mpr
    ⟨by decide, ?_, ?_, .inl rfl⟩
  · simp [oneRecord]
  · simp [oneRecord, OneLine, LF]
  · simp [oneRecord]
  · simp [oneRecord]
  · simpa [oneRecord] using ⟨survives_a, WideMB.survives_nil⟩

/-- Two records, the older one of which is the current item. -/
def twoRecords : History :=
  { typeHistory := .folder, historyCount := 3, saveType := true, strRegKey := A ['H'],
    enableSave := true, historyList := [{ strName := [0x61] }, { strName := [0x62] }],
    currentItem := some 0 }

/-- **The current item becomes the other one.** -/
theorem twoRecords_not_kept :
    (twoRecords.cleared.readHistory (twoRecords.saveHistory []).2).currentItem ≠ twoRecords.currentItem := by
  have hfit : twoRecords.Fits := by
    refine ⟨rfl, by decide, by decide, by decide, ?_, ?_, ?_⟩
    · simp [twoRecords]
    · simp [twoRecords, OneLine, LF]
    · simp [twoRecords]
  have hsurvive : ∀ r ∈ twoRecords.historyList, Survives r.strName ∧ Survives r.strExtra := by
    have hb : Survives [0x62] := WideMB.survives_ascii (by simp)
    simpa [twoRecords] using ⟨⟨survives_a, WideMB.survives_nil⟩, hb, WideMB.survives_nil⟩
  have hlen : (twoRecords.recordsRead []).length = 2 := by
    rw [recordsRead_eq hfit hsurvive, if_neg (by decide), length_retype]
    rfl
  rw [readHistory_saveHistory twoRecords [] hfit]
  show currentRead _ 0 _ none ≠ _
  rw [hlen, currentRead_position (n := 2) hfit rfl]
  decide

end Far2l.Hist
