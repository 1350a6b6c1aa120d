/-
Far2l.Diz.DizListTheorems — the descriptions of a `DizList` are a map from names.

A list of descriptions in the order they were added is kept beside the `DizList`
(`Description`, `reached_map`): the records that are not deleted are their lines
in that order, and a name's description is the one found in that list.

The names of a step have to be `Readable`, so that the scan of `AddRecord` finds
them in the line, and `Usable`: the comparison orders them among the recorded
ones, tells apart what differs not only in case, and none of the recorded ones is
the name with a dot after it.
-/
import Far2l.Diz.DizList
import Far2l.Lib.Reach
import Mathlib.Data.List.TakeWhile

namespace Far2l

/-! ## Orders and functions -/

section

variable {α β : Type} {cmp : β → β → Int} {f : α → β} {xs : List α}

theorem Orders.comap (h : Orders cmp (xs.map f)) : Orders (fun a b => cmp (f a) (f b)) xs where
  swap a ha b hb := h.swap _ (List.mem_map_of_mem ha) _ (List.mem_map_of_mem hb)
  trans a ha b hb c hc :=
    h.trans _ (List.mem_map_of_mem ha) _ (List.mem_map_of_mem hb) _ (List.mem_map_of_mem hc)

theorem Orders.congr {cmp cmp' : α → α → Int} (h : Orders cmp xs)
    (heq : ∀ a ∈ xs, ∀ b ∈ xs, cmp' a b = cmp a b) : Orders cmp' xs where
  swap a ha b hb := by
    rw [heq a ha b hb, heq b hb a ha]
    exact h.swap a ha b hb
  trans a ha b hb c hc := by
    rw [heq a ha b hb, heq b hb c hc, heq a ha c hc]
    exact h.trans a ha b hb c hc

theorem partitioned_map {cmp : β → Int} :
    Partitioned cmp (xs.map f) ↔ Partitioned (fun a => cmp (f a)) xs := List.pairwise_map

end

namespace Diz

open Far2l.WinPort

variable (E : Env)

/-! ## The comparison of names -/

/-- Two names as `SortDizIndex` compares them. -/
def cmpNames (a b : WStr) : Int :=
  let cmpCode := E.tables.strCmpNI a b (min a.length b.length)
  if cmpCode = 0 then
    if a.length > b.length then 1 else if a.length < b.length then -1 else 0
  else cmpCode

/-- The same with what has been deleted after what has not. -/
def cmpKeys (a b : WStr × Bool) : Int :=
  if cmpNames E a.1 b.1 = 0 then
    if a.2 ∧ ¬ b.2 then 1 else if b.2 ∧ ¬ a.2 then -1 else 0
  else cmpNames E a.1 b.1

/-- The comparison orders the names, and calls those equal that differ in case only. -/
structure Ordered (names : List WStr) : Prop where
  orders : Orders (cmpNames E) names
  same : ∀ a ∈ names, ∀ b ∈ names, cmpNames E a b = 0 ↔ E.tables.fold a = E.tables.fold b

variable {E}

theorem cmpNames_nil {name : WStr} (hne : name ≠ []) : cmpNames E name [] = 1 := by
  have hpos := List.length_pos_iff.mpr hne
  have hcmp : E.tables.strCmpNI name [] (min name.length ([] : WStr).length) = 0 := by
    rw [List.length_nil, Nat.min_zero]
    rfl
  rw [cmpNames, hcmp]
  exact if_pos hpos

theorem cmpKeys_le_iff {a b : WStr × Bool} : cmpKeys E a b ≤ 0
    ↔ cmpNames E a.1 b.1 < 0 ∨ cmpNames E a.1 b.1 = 0 ∧ (a.2 = true → b.2 = true) := by
  rw [cmpKeys]
  by_cases hcmp : cmpNames E a.1 b.1 = 0
  · rw [if_pos hcmp, hcmp]
    cases a.2 <;> cases b.2 <;> decide
  · rw [if_neg hcmp]
    omega

theorem cmpKeys_eq_zero {a b : WStr × Bool} :
    cmpKeys E a b = 0 ↔ cmpNames E a.1 b.1 = 0 ∧ a.2 = b.2 := by
  rw [cmpKeys]
  by_cases hcmp : cmpNames E a.1 b.1 = 0
  · rw [if_pos hcmp, hcmp]
    cases a.2 <;> cases b.2 <;> decide
  · rw [if_neg hcmp]
    exact ⟨fun h => absurd h hcmp, fun h => h.1⟩

theorem le_of_cmpKeys {a b : WStr × Bool} (h : cmpKeys E a b ≤ 0) : cmpNames E a.1 b.1 ≤ 0 := by
  rcases cmpKeys_le_iff.mp h with hlt | ⟨heq, -⟩
  · exact Int.le_of_lt hlt
  · exact Int.le_of_eq heq

/-- Deleted and not, in the order of the names. -/
theorem Ordered.keys {names : List WStr} (h : Ordered E names) {keys : List (WStr × Bool)}
    (hkeys : ∀ key ∈ keys, key.1 ∈ names) : Orders (cmpKeys E) keys where
  swap a ha b hb := by
    have hswap := h.orders.swap a.1 (hkeys a ha) b.1 (hkeys b hb)
    have hzero : cmpNames E a.1 b.1 = 0 ↔ cmpNames E b.1 a.1 = 0 :=
      (h.same _ (hkeys a ha) _ (hkeys b hb)).trans
        (eq_comm.trans (h.same _ (hkeys b hb) _ (hkeys a ha)).symm)
    rw [cmpKeys, cmpKeys]
    by_cases hcmp : cmpNames E a.1 b.1 = 0
    · rw [if_pos hcmp, if_pos (hzero.mp hcmp)]
      cases a.2 <;> cases b.2 <;> decide
    · rw [if_neg hcmp, if_neg fun h => hcmp (hzero.mpr h)]
      exact hswap
  trans a ha b hb c hc hab hbc := by
    have hab' := le_of_cmpKeys hab
    have hbc' := le_of_cmpKeys hbc
    have hac := h.orders.trans a.1 (hkeys a ha) b.1 (hkeys b hb) c.1 (hkeys c hc) hab' hbc'
    rw [cmpKeys_le_iff] at hab hbc ⊢
    rcases Int.lt_or_eq_of_le hac with hlt | heq
    · exact .inl hlt
    -- the names are all equal, and the order is that of the flags
    have hca : cmpNames E c.1 a.1 ≤ 0 := by
      rw [h.same _ (hkeys a ha) _ (hkeys c hc)] at heq
      rw [(h.same _ (hkeys c hc) _ (hkeys a ha)).mpr heq.symm]
    have hcb := h.orders.trans _ (hkeys c hc) _ (hkeys a ha) _ (hkeys b hb) hca hab'
    have hba := h.orders.trans _ (hkeys b hb) _ (hkeys c hc) _ (hkeys a ha) hbc' hca
    have hsbc := h.orders.swap _ (hkeys b hb) _ (hkeys c hc)
    have hsab := h.orders.swap _ (hkeys a ha) _ (hkeys b hb)
    refine .inr ⟨heq, fun hdel => ?_⟩
    rcases hab with hlt | ⟨-, hab⟩
    · omega
    · rcases hbc with hlt | ⟨-, hbc⟩
      · omega
      · exact hbc (hab hdel)

/-! ## Records and their names -/

/-- Of a record that has been made from a line, the name is as long as it says. -/
def DizRecord.Scanned (r : DizRecord) : Prop := r.name.length = r.nameLength

theorem DizRecord.scanned_ofText : ∀ dizText : WStr, (ofText dizText).Scanned
  | [] => rfl
  | c :: rest => by
    by_cases hc : c = QUOTE
    · have hofText : ofText (c :: rest)
          = ⟨c :: rest, 1, (rest.takeWhile (· ≠ QUOTE)).length, false⟩ := by
        rw [ofText, scanName, if_pos hc]
      rw [Scanned, hofText]
      show (rest.take _).length = _
      rw [List.length_take]
      exact Nat.min_eq_left (List.takeWhile_prefix _).length_le
    · have hofText : ofText (c :: rest)
          = ⟨c :: rest, 0, ((c :: rest).takeWhile fun c => !isSpace c).length, false⟩ := by
        rw [ofText, scanName, if_neg hc]
      rw [Scanned, hofText]
      show ((c :: rest).take _).length = _
      rw [List.length_take]
      exact Nat.min_eq_left (List.takeWhile_prefix _).length_le

/-- What a record is sorted by. -/
def DizRecord.key (r : DizRecord) : WStr × Bool := (r.name, r.deleted)

/-- A recorded name is the searched one with a dot after it, the first one in it. -/
def Dotted (E : Env) (name : WStr) (r : DizRecord) : Prop :=
  r.deleted = false ∧ name.length + 1 = r.nameLength
    ∧ E.tables.strCmpNI name r.dizName name.length = 0
    ∧ r.dizName[name.length]? = some DOT ∧ r.dizName.findIdx (· = DOT) = name.length

theorem strCmpNI_take {T : CollationTables} (s1 s2 : WStr) {n m : Nat} (h : n ≤ m) :
    T.strCmpNI s1 (s2.take m) n = T.strCmpNI s1 s2 n := by
  rw [CollationTables.strCmpNI, CollationTables.strCmpNI, List.take_take, Nat.min_eq_left h]

theorem take_strCmpNI {T : CollationTables} (s1 s2 : WStr) {n m : Nat} (h : n ≤ m) :
    T.strCmpNI (s1.take m) s2 n = T.strCmpNI s1 s2 n := by
  rw [CollationTables.strCmpNI, CollationTables.strCmpNI, List.take_take, Nat.min_eq_left h]

/-- `SortDizIndex` orders records by name, and the deleted ones after the others. -/
theorem sortDizIndex_eq {r1 r2 : DizRecord} (h1 : r1.Scanned) (h2 : r2.Scanned) :
    sortDizIndex E r1 r2 = cmpKeys E r1.key r2.key := by
  have hcmp : E.tables.strCmpNI r1.name r2.name (min r1.name.length r2.name.length)
      = E.tables.strCmpNI r1.dizName r2.dizName (min r1.nameLength r2.nameLength) := by
    rw [h1, h2, DizRecord.name, DizRecord.name, strCmpNI_take _ _ (Nat.min_le_right _ _),
      take_strCmpNI _ _ (Nat.min_le_left _ _)]
  rw [sortDizIndex, cmpKeys, DizRecord.key, DizRecord.key, cmpNames]
  dsimp only
  rw [hcmp, h1, h2]
  by_cases hzero : E.tables.strCmpNI r1.dizName r2.dizName (min r1.nameLength r2.nameLength) = 0
  · rw [if_pos hzero, if_pos hzero]
    by_cases hgt : r1.nameLength > r2.nameLength
    · rw [if_pos hgt, if_pos hgt, if_neg (by decide)]
    · rw [if_neg hgt, if_neg hgt]
      by_cases hlt : r1.nameLength < r2.nameLength
      · rw [if_pos hlt, if_pos hlt, if_neg (by decide)]
      · rw [if_neg hlt, if_neg hlt, if_pos rfl, hzero]
  · rw [if_neg hzero, if_neg hzero, if_neg hzero]

/-- **`SortDizSearch` looks for the name among what has not been deleted**, where no recorded name is
this one with a dot after it. -/
theorem sortDizSearch_eq {name : WStr} {r : DizRecord} (h : r.Scanned) (hdot : ¬ Dotted E name r) :
    sortDizSearch E name r = cmpKeys E (name, false) r.key := by
  have hcmp : E.tables.strCmpNI name r.name (min name.length r.name.length)
      = E.tables.strCmpNI name r.dizName (min r.nameLength name.length) := by
    rw [h, DizRecord.name, strCmpNI_take _ _ (Nat.min_le_right _ _), Nat.min_comm]
  rw [sortDizSearch, cmpKeys, DizRecord.key, cmpNames]
  dsimp only
  rw [hcmp, h]
  by_cases hzero : E.tables.strCmpNI name r.dizName (min r.nameLength name.length) = 0
  · rw [if_pos hzero, if_pos hzero]
    by_cases hgt : name.length > r.nameLength
    · rw [if_pos hgt, if_pos hgt, if_neg (show ¬ (1 : Int) = 0 by decide)]
    · rw [if_neg hgt, if_neg hgt]
      by_cases hlt : name.length < r.nameLength
      · rw [if_pos hlt, if_neg (show ¬ (-1 : Int) = 0 by decide)]
        by_cases hmore : name.length + 1 < r.nameLength
        · rw [if_pos hmore]
        · rw [if_neg hmore]
          split
          · rfl
          · next hnot =>
            have hone : name.length + 1 = r.nameLength := by omega
            have hdotted := Classical.not_not.mp fun h => hnot ⟨hone, h⟩
            have hdel : r.deleted = true := by
              refine Classical.not_not.mp fun hdel => hdot ⟨?_, hone, ?_, hdotted⟩
              · exact Bool.eq_false_iff.mpr hdel
              · rwa [Nat.min_eq_right (by omega)] at hzero
            rw [if_pos hdel]
      · have hmore : ¬ name.length + 1 < r.nameLength := by omega
        have hone : name.length + 1 ≠ r.nameLength := by omega
        rw [if_neg hlt, if_neg hmore, if_pos rfl, hzero]
        split
        · next h => exact absurd h.1 hone
        · cases r.deleted <;> rfl
  · rw [if_neg hzero, if_neg hzero, if_neg hzero]

/-! ## Lines -/

/-- The scan of `AddRecord` finds the name in the line: it has been quoted, and has no quotation mark
itself, or it has nothing in it that ends it. -/
def Readable (name : WStr) : Prop :=
  if SPACE ∈ name then QUOTE ∉ name
  else (∀ c ∈ name, isSpace c = false) ∧ name.head? ≠ some QUOTE

/-- A description's text: it does not begin with white space or a digit. -/
def TextOk (dizText : WStr) : Prop :=
  ∃ c rest, dizText = c :: rest ∧ isSpace c = false ∧ DizList.isDigit c = false

/-- What the name becomes in the line. -/
def quoted (name : WStr) : WStr := if SPACE ∈ name then QUOTE :: (name ++ [QUOTE]) else name

theorem quoteSpaceOnly_eq {name : WStr} (h : Readable name) :
    DizList.quoteSpaceOnly name = quoted name := by
  rw [DizList.quoteSpaceOnly, quoted]
  by_cases hspace : SPACE ∈ name
  · rw [Readable, if_pos hspace] at h
    rw [if_pos hspace, if_pos hspace, DizList.insertQuote]
    have hhead : name.head? ≠ some QUOTE := fun hhead => h (List.mem_of_head? hhead)
    have hlast : (QUOTE :: name).getLast? ≠ some QUOTE := by
      rw [List.getLast?_cons, List.getLast?_eq_some_getLast (List.ne_nil_of_mem hspace),
        Option.getD_some]
      exact fun hlast => h (Option.some.inj hlast ▸ List.getLast_mem _)
    rw [if_neg hhead, if_pos (.inr hlast)]
    rfl
  · rw [if_neg hspace, if_neg hspace]

/-- The line begins with the name, and there is a space before the text. -/
theorem line_eq {name : WStr} (h : Readable name) (startPos : Int) (dizText : WStr) :
    ∃ padding, DizList.line startPos name dizText
      = quoted name ++ (List.replicate padding SPACE ++ SPACE :: dizText) := by
  rw [DizList.line, quoteSpaceOnly_eq h, DizList.leftAlign, List.append_assoc]
  exact ⟨_, rfl⟩

theorem isSpace_SPACE : isSpace SPACE = true := by decide

/-- White space is passed over up to the text. -/
theorem dropWhile_padding {dizText : WStr} (h : TextOk dizText) (padding : Nat) :
    (List.replicate padding SPACE ++ SPACE :: dizText).dropWhile isSpace = dizText := by
  obtain ⟨c, rest, rfl, hc, -⟩ := h
  rw [List.dropWhile_append_of_pos fun c hc => (List.eq_of_mem_replicate hc).symm ▸ isSpace_SPACE,
    List.dropWhile_cons_of_pos isSpace_SPACE, List.dropWhile_cons_of_neg (by rw [hc]; decide)]

/-- What follows the name gives the description. -/
theorem descriptionIn_padding {dizText : WStr} (h : TextOk dizText) (padding : Nat)
    (fileSize : UInt64) :
    DizList.descriptionIn fileSize (List.replicate padding SPACE ++ SPACE :: dizText) = dizText := by
  rw [DizList.descriptionIn, dropWhile_padding h]
  obtain ⟨c, rest, rfl, -, hc⟩ := h
  exact if_neg (by rw [List.head?_cons, Option.any_some, hc]; decide)

theorem takeWhile_append_stop {α : Type} {p : α → Bool} {xs : List α} {x : α} (rest : List α)
    (hxs : ∀ y ∈ xs, p y = true) (hx : p x = false) : (xs ++ x :: rest).takeWhile p = xs := by
  rw [List.takeWhile_append_of_pos hxs, List.takeWhile_cons_of_neg (by rw [hx]; decide),
    List.append_nil]

/-- The record of a line. -/
theorem ofText_line {name : WStr} (h : Readable name) (hne : name ≠ []) (padding : Nat)
    (dizText : WStr) :
    DizRecord.ofText (quoted name ++ (List.replicate padding SPACE ++ SPACE :: dizText))
      = { dizText := quoted name ++ (List.replicate padding SPACE ++ SPACE :: dizText)
          nameStart := if SPACE ∈ name then 1 else 0
          nameLength := name.length } := by
  have hscan : DizRecord.scanName
      (quoted name ++ (List.replicate padding SPACE ++ SPACE :: dizText))
        = (if SPACE ∈ name then 1 else 0, name.length) := by
    rw [Readable] at h
    rw [quoted]
    by_cases hspace : SPACE ∈ name
    · rw [if_pos hspace] at h
      rw [if_pos hspace, if_pos hspace, List.cons_append, DizRecord.scanName, if_pos rfl,
        List.append_assoc, List.singleton_append, takeWhile_append_stop]
      · exact fun c hc => decide_eq_true fun heq => h (heq ▸ hc)
      · exact decide_eq_false fun h => h rfl
    · rw [if_neg hspace] at h
      rw [if_neg hspace, if_neg hspace]
      have htake : ∀ pad : Nat, ((name ++ (List.replicate pad SPACE ++ SPACE :: dizText)).takeWhile
          fun c => !isSpace c) = name := by
        intro pad
        cases pad with
        | zero =>
          exact takeWhile_append_stop _ (fun c hc => by rw [h.1 c hc]; rfl) (by decide)
        | succ pad =>
          exact takeWhile_append_stop _ (fun c hc => by rw [h.1 c hc]; rfl) (by decide)
      cases name with
      | nil => exact absurd rfl hne
      | cons c rest =>
        have hquote : c ≠ QUOTE := fun heq => h.2 (congrArg some heq)
        have hlength := congrArg List.length (htake padding)
        rw [List.cons_append] at hlength ⊢
        rw [DizRecord.scanName, if_neg hquote, hlength]
  rw [DizRecord.ofText, hscan]

/-- **The name is read back from the line**, the line does not continue another one, and what
follows the name gives the text. -/
theorem line_read {name dizText : WStr} (h : Readable name) (hne : name ≠ []) (startPos : Int)
    (htext : TextOk dizText) (fileSize : UInt64) :
    (DizRecord.ofText (DizList.line startPos name dizText)).name = name
      ∧ (DizRecord.ofText (DizList.line startPos name dizText)).continues = false
      ∧ DizList.descriptionIn fileSize ((DizList.line startPos name dizText).drop
        (DizRecord.ofText (DizList.line startPos name dizText)).textPos) = dizText := by
  obtain ⟨padding, hline⟩ := line_eq h startPos dizText
  rw [hline, ofText_line h hne padding dizText]
  rw [Readable] at h
  by_cases hspace : SPACE ∈ name
  · rw [if_pos hspace] at h
    have hquoted : quoted name = QUOTE :: (name ++ [QUOTE]) := if_pos hspace
    rw [hquoted, if_pos hspace]
    refine ⟨?_, (by decide : isSpace QUOTE = false), ?_⟩
    · show (((name ++ [QUOTE]) ++ _).take name.length) = name
      rw [List.append_assoc, List.take_left]
    · have hquote : (QUOTE :: (name ++ [QUOTE]) ++ (List.replicate padding SPACE ++
          SPACE :: dizText))[1 + name.length]? = some QUOTE := by
        rw [Nat.add_comm, List.cons_append, List.getElem?_cons_succ, List.append_assoc,
          List.getElem?_append_right (Nat.le_refl _), Nat.sub_self]
        rfl
      rw [DizRecord.textPos]
      dsimp only
      rw [if_pos ⟨Nat.one_ne_zero, hquote⟩]
      have hdrop : (QUOTE :: (name ++ [QUOTE]) ++ (List.replicate padding SPACE ++
          SPACE :: dizText)).drop (1 + name.length + 1)
          = List.replicate padding SPACE ++ SPACE :: dizText := by
        refine List.drop_left' ?_
        rw [List.length_cons, List.length_append, List.length_singleton]
        omega
      rw [hdrop]
      exact descriptionIn_padding htext padding fileSize
  · rw [if_neg hspace] at h
    have hquoted : quoted name = name := if_neg hspace
    rw [hquoted, if_neg hspace]
    refine ⟨List.take_left, ?_, ?_⟩
    · cases name with
      | nil => exact absurd rfl hne
      | cons c rest => exact h.1 c List.mem_cons_self
    · rw [DizRecord.textPos]
      dsimp only
      rw [if_neg fun h => h.1 rfl, Nat.zero_add, List.drop_left]
      exact descriptionIn_padding htext padding fileSize

theorem name_ofText (c : WChar) (rest : WStr) : (DizRecord.ofText (c :: rest)).name
    = if c = QUOTE then rest.takeWhile (· ≠ QUOTE) else (c :: rest).takeWhile fun c => !isSpace c := by
  rw [DizRecord.name, DizRecord.dizName, DizRecord.ofText, DizRecord.scanName]
  by_cases hc : c = QUOTE
  · rw [if_pos hc, if_pos hc]
    exact (List.prefix_iff_eq_take.mp (List.takeWhile_prefix _)).symm
  · rw [if_neg hc, if_neg hc]
    exact (List.prefix_iff_eq_take.mp (List.takeWhile_prefix _)).symm

/-! ## What is recorded -/

/-- A description as it was added. -/
structure Description where
  name : WStr
  dizText : WStr
  continuation : List WStr

namespace Description

/-- Its records. -/
def records (startPos : Int) (deleted : Bool) (e : Description) : List DizRecord :=
  { DizRecord.ofText (DizList.line startPos e.name e.dizText) with deleted }
    :: e.continuation.map fun dizText => { DizRecord.ofText dizText with deleted }

/-- It can be read back. -/
structure WellFormed (e : Description) : Prop where
  nonempty : e.name ≠ []
  readable : Readable e.name
  text : TextOk e.dizText
  continues : ∀ dizText ∈ e.continuation, (DizRecord.ofText dizText).continues = true

end Description

/-- What is in the array: descriptions, and whether they have been deleted. -/
abbrev Segment := Bool × Description

variable {startPos : Int}

/-- The records of segments. -/
def recordsOf (startPos : Int) (segs : List Segment) : List DizRecord :=
  segs.flatMap fun seg => seg.2.records startPos seg.1

/-- The descriptions that have not been deleted. -/
def live (segs : List Segment) : List Description :=
  (segs.filter fun seg => !seg.1).map (·.2)

theorem recordsOf_append (xs ys : List Segment) :
    recordsOf startPos (xs ++ ys) = recordsOf startPos xs ++ recordsOf startPos ys :=
  List.flatMap_append

theorem recordsOf_cons (seg : Segment) (segs : List Segment) :
    recordsOf startPos (seg :: segs) = seg.2.records startPos seg.1 ++ recordsOf startPos segs :=
  List.flatMap_cons

namespace Description

variable {e : Description} {deleted : Bool}

/-- The record of the line. -/
def main (startPos : Int) (deleted : Bool) (e : Description) : DizRecord :=
  { DizRecord.ofText (DizList.line startPos e.name e.dizText) with deleted }

theorem records_eq : e.records startPos deleted = e.main startPos deleted
    :: e.continuation.map fun dizText => { DizRecord.ofText dizText with deleted } := rfl

theorem WellFormed.main_name (h : e.WellFormed) : (e.main startPos deleted).name = e.name :=
  (line_read h.readable h.nonempty startPos h.text 0).1

theorem WellFormed.main_continues (h : e.WellFormed) : (e.main startPos deleted).continues = false :=
  (line_read h.readable h.nonempty startPos h.text 0).2.1

/-- A line that continues another one has no name. -/
theorem name_of_continues : ∀ {dizText : WStr}, (DizRecord.ofText dizText).continues = true →
    (DizRecord.ofText dizText).name = []
  | [], _ => rfl
  | c :: rest, h => by
    have hc : isSpace c = true := h
    have hquote : c ≠ QUOTE := fun heq => absurd (heq ▸ hc) (by decide)
    rw [name_ofText, if_neg hquote, List.takeWhile_cons_of_neg (by rw [hc]; decide)]

theorem WellFormed.scanned {r : DizRecord} (h : r ∈ e.records startPos deleted) : r.Scanned := by
  rw [records_eq, List.mem_cons, List.mem_map] at h
  rcases h with rfl | ⟨dizText, -, rfl⟩
  · exact DizRecord.scanned_ofText _
  · exact DizRecord.scanned_ofText _

end Description

/-- The array is what the segments say. -/
structure Holds (E : Env) (startPos : Int) (segs : List Segment) (d : DizList) : Prop where
  records : d.dizData = recordsOf startPos segs
  wellFormed : ∀ seg ∈ segs, seg.2.WellFormed
  recode : d.recode = none
  index : d.needRebuild = false → d.indexData
    = E.qsort.sort (fun i j => sortDizIndex E (d.record i) (d.record j)) (List.range d.dizData.length)

/-! ## The search -/

/-- A name that the comparison finds in its place. -/
structure Usable (E : Env) (d : DizList) (name : WStr) : Prop where
  nonempty : name ≠ []
  ordered : Ordered E (name :: d.dizData.map (·.name))
  dotless : ∀ r ∈ d.dizData, ¬ Dotted E name r

section

variable {segs : List Segment} {d : DizList} {name : WStr}

theorem record_eq {i : Nat} (h : i < d.dizData.length) : d.record i = d.dizData[i] := by
  rw [DizList.record, List.getD, List.getElem?_eq_getElem h, Option.getD_some]

theorem record_mem {i : Nat} (h : i < d.dizData.length) : d.record i ∈ d.dizData := by
  rw [record_eq h]
  exact List.getElem_mem h

theorem Holds.scanned (h : Holds E startPos segs d) {r : DizRecord} (hr : r ∈ d.dizData) :
    r.Scanned := by
  rw [h.records, recordsOf, List.mem_flatMap] at hr
  obtain ⟨seg, -, hr⟩ := hr
  exact Description.WellFormed.scanned hr

/-- The index is partitioned by a name that can be used. -/
theorem Holds.partitioned (h : Holds E startPos segs d) (hd : d.needRebuild = false)
    (hname : Usable E d name) :
    Partitioned (fun i => sortDizSearch E name (d.record i)) d.indexData
      ∧ ∀ i, i ∈ d.indexData ↔ i < d.dizData.length := by
  have hindex := h.index hd
  have hmem : ∀ i, i ∈ d.indexData ↔ i < d.dizData.length := by
    intro i
    rw [hindex, (E.qsort.perm _ _).mem_iff, List.mem_range]
  refine ⟨?_, hmem⟩
  have hkeys : Orders (cmpKeys E) ((name, false) :: d.indexData.map fun i => (d.record i).key) := by
    refine hname.ordered.keys fun key hkey => ?_
    rcases List.mem_cons.mp hkey with rfl | hkey
    · exact List.mem_cons_self
    · obtain ⟨i, hi, rfl⟩ := List.mem_map.mp hkey
      exact List.mem_cons_of_mem _ (List.mem_map_of_mem (record_mem ((hmem i).mp hi)))
  have hsorted : (d.indexData.map fun i => (d.record i).key).Pairwise
      fun a b => cmpKeys E a b ≤ 0 := by
    rw [List.pairwise_map]
    have hrange : Orders (fun i j => sortDizIndex E (d.record i) (d.record j))
        (List.range d.dizData.length) := by
      have hall : Orders (cmpKeys E) ((List.range d.dizData.length).map fun i => (d.record i).key) :=
        hname.ordered.keys fun key hkey => by
          obtain ⟨i, hi, rfl⟩ := List.mem_map.mp hkey
          exact List.mem_cons_of_mem _ (List.mem_map_of_mem (record_mem (List.mem_range.mp hi)))
      exact hall.comap.congr fun i hi j hj => sortDizIndex_eq
        (h.scanned (record_mem (List.mem_range.mp hi)))
        (h.scanned (record_mem (List.mem_range.mp hj)))
    have := E.qsort.sorted _ _ hrange
    rw [← hindex] at this
    refine this.imp_of_mem fun {i j} hi hj hij => ?_
    rwa [sortDizIndex_eq (h.scanned (record_mem ((hmem i).mp hi)))
      (h.scanned (record_mem ((hmem j).mp hj)))] at hij
  have hpart := partitioned_map.mp (hkeys.partitioned hsorted)
  refine hpart.imp_of_mem fun {i j} hi hj hij => ?_
  dsimp only at hij ⊢
  rw [sortDizSearch_eq (h.scanned (record_mem ((hmem i).mp hi)))
      (hname.dotless _ (record_mem ((hmem i).mp hi))),
    sortDizSearch_eq (h.scanned (record_mem ((hmem j).mp hj)))
      (hname.dotless _ (record_mem ((hmem j).mp hj)))]
  exact hij

/-- Building the index changes nothing else. -/
theorem Holds.buildIndex (h : Holds E startPos segs d) : Holds E startPos segs (d.buildIndex E) :=
  ⟨h.records, h.wellFormed, h.recode, fun _ => rfl⟩

theorem Holds.records_ne_nil {seg : Segment} (h : Holds E startPos segs d) (hseg : seg ∈ segs) :
    d.dizData ≠ [] := by
  rw [h.records, recordsOf]
  exact fun hnil => absurd (List.flatMap_eq_nil_iff.mp hnil seg hseg) (List.cons_ne_nil _ _)

/-- A record with a name is that of a line. -/
theorem recordsOf_getElem : ∀ {segs : List Segment} {i : Nat} {r : DizRecord},
    (∀ seg ∈ segs, seg.2.WellFormed) → (recordsOf startPos segs)[i]? = some r → r.name ≠ [] →
    ∃ before seg after, segs = before ++ seg :: after
      ∧ i = (recordsOf startPos before).length ∧ r = seg.2.main startPos seg.1
  | [], i, r, _, hi, _ => absurd hi (by rw [recordsOf]; exact nofun)
  | seg :: segs, i, r, hwf, hi, hname => by
    rw [recordsOf_cons, Description.records_eq] at hi
    cases i with
    | zero => exact ⟨[], seg, segs, rfl, rfl, (Option.some.inj hi).symm⟩
    | succ i =>
      rw [List.cons_append, List.getElem?_cons_succ, List.getElem?_append] at hi
      split at hi
      · next hlt =>
        have hmem := List.mem_of_getElem? hi
        obtain ⟨dizText, hdizText, rfl⟩ := List.mem_map.mp hmem
        have hcontinues := (hwf seg List.mem_cons_self).continues dizText hdizText
        exact absurd (Description.name_of_continues hcontinues) hname
      · next hge =>
        obtain ⟨before, seg', after, rfl, hlength, hr⟩ :=
          recordsOf_getElem (fun seg' hseg' => hwf seg' (List.mem_cons_of_mem _ hseg')) hi hname
        refine ⟨seg :: before, seg', after, rfl, ?_, hr⟩
        rw [recordsOf_cons, Description.records_eq, List.length_append, List.length_cons, ← hlength]
        omega

/-- What `GetDizPos` and `GetDizPosEx` do to the list. -/
def Searched (E : Env) (d d' : DizList) : Prop := d' = d ∨ d' = d.buildIndex E

/-- **The search**: a description with the name that has not been deleted is found, and nothing else
is. -/
theorem Holds.getDizPosEx (h : Holds E startPos segs d) (hname : Usable E d name) :
    ∃ found d', d.getDizPosEx E name = (found, d') ∧ Searched E d d'
      ∧ ((found = none ∧ ∀ e ∈ live segs, E.tables.fold e.name ≠ E.tables.fold name)
        ∨ ∃ before e after, segs = before ++ (false, e) :: after
          ∧ E.tables.fold e.name = E.tables.fold name
          ∧ found = some ((recordsOf startPos before).length, (e.main startPos false).textPos)) := by
  by_cases hnil : d.dizData = []
  · refine ⟨none, d, ?_, .inl rfl, .inl ⟨rfl, fun e he => ?_⟩⟩
    · rw [DizList.getDizPosEx, DizList.getDizPos, if_pos (.inl hnil)]
      dsimp only
      rw [h.recode]
    · obtain ⟨seg, hseg, -⟩ := List.mem_map.mp he
      exact absurd hnil (h.records_ne_nil (List.mem_of_mem_filter hseg))
  -- with the index as it is after `BuildIndex`, if that is called
  obtain ⟨d', hd', hsearched, hbuilt, hholds, hdata⟩ : ∃ d',
      (if d.needRebuild then d.buildIndex E else d) = d' ∧ Searched E d d' ∧ d'.needRebuild = false
        ∧ Holds E startPos segs d' ∧ d'.dizData = d.dizData := by
    by_cases hbuild : d.needRebuild = true
    · exact ⟨_, if_pos hbuild, .inr rfl, rfl, h.buildIndex, rfl⟩
    · exact ⟨d, if_neg hbuild, .inl rfl, Bool.eq_false_iff.mpr hbuild, h, rfl⟩
  have husable : Usable E d' name := ⟨hname.nonempty, hdata ▸ hname.ordered, hdata ▸ hname.dotless⟩
  obtain ⟨hpart, hmem⟩ := hholds.partitioned hbuilt husable
  have hcmp : ∀ i, i < d'.dizData.length → sortDizSearch E name (d'.record i)
      = cmpKeys E (name, false) (d'.record i).key := fun i hi =>
    sortDizSearch_eq (hholds.scanned (record_mem hi)) (husable.dotless _ (record_mem hi))
  have hsame : ∀ i, i < d'.dizData.length → (cmpNames E name (d'.record i).name = 0
      ↔ E.tables.fold name = E.tables.fold (d'.record i).name) := fun i hi =>
    husable.ordered.same _ List.mem_cons_self _
      (List.mem_cons_of_mem _ (List.mem_map_of_mem (record_mem hi)))
  have hpos : d.getDizPos E name = (bsearch (fun i => sortDizSearch E name (d'.record i))
      d'.indexData).elim (none, d') fun i => (some (i, (d'.record i).textPos), d') := by
    rw [DizList.getDizPos, if_neg (not_or.mpr ⟨hnil, hname.nonempty⟩)]
    dsimp only
    rw [hd']
    cases bsearch (fun i => sortDizSearch E name (d'.record i)) d'.indexData <;> rfl
  cases hsearch : bsearch (fun i => sortDizSearch E name (d'.record i)) d'.indexData with
  | none =>
    refine ⟨none, d', ?_, hsearched, .inl ⟨rfl, fun e he heq => ?_⟩⟩
    · rw [hsearch, Option.elim_none] at hpos
      rw [DizList.getDizPosEx, hpos]
      dsimp only
      rw [hholds.recode]
    -- its record would have been found
    · obtain ⟨⟨deleted, e'⟩, hseg, rfl⟩ := List.mem_map.mp he
      obtain ⟨hseg, hdeleted⟩ := List.mem_filter.mp hseg
      obtain rfl : deleted = false := (Bool.not_eq_true' _).mp hdeleted
      have hwf := h.wellFormed _ hseg
      have hrec : e'.main startPos false ∈ d'.dizData := by
        rw [hholds.records, recordsOf, List.mem_flatMap]
        exact ⟨_, hseg, List.mem_cons_self⟩
      obtain ⟨i, hi, hri⟩ := List.getElem_of_mem hrec
      have hrecord : d'.record i = e'.main startPos false := (record_eq hi).trans hri
      have hzero : sortDizSearch E name (d'.record i) = 0 := by
        have hfold := (hsame i hi).mpr (by rw [hrecord, hwf.main_name, heq])
        rw [hcmp i hi]
        exact cmpKeys_eq_zero.mpr ⟨hfold, by rw [hrecord]; rfl⟩
      have hfound := bsearch_complete hpart ((hmem i).mpr hi) hzero
      rw [hsearch] at hfound
      cases hfound
  | some i =>
    obtain ⟨hi, hzero⟩ := bsearch_sound hsearch
    replace hi := (hmem i).mp hi
    have hequal : cmpKeys E (name, false) (d'.record i).key = 0 := (hcmp i hi).symm.trans hzero
    obtain ⟨hnames, hlive⟩ : cmpNames E name (d'.record i).name = 0
        ∧ false = (d'.record i).deleted := cmpKeys_eq_zero.mp hequal
    have hnamed : (d'.record i).name ≠ [] := by
      intro hnone
      rw [hnone, cmpNames_nil hname.nonempty] at hnames
      exact absurd hnames (by decide)
    have hget : (recordsOf startPos segs)[i]? = some (d'.record i) := by
      rw [← hholds.records, record_eq hi, List.getElem?_eq_getElem hi]
    obtain ⟨before, ⟨deleted, e⟩, after, rfl, rfl, hr⟩ :=
      recordsOf_getElem h.wellFormed hget hnamed
    have hwf := h.wellFormed (deleted, e) (List.mem_append_right _ List.mem_cons_self)
    obtain rfl : deleted = false := (congrArg DizRecord.deleted hr).symm.trans hlive.symm
    refine ⟨_, d', ?_, hsearched, .inr ⟨before, e, after, rfl, ?_, rfl⟩⟩
    · rw [hsearch, Option.elim_some] at hpos
      rw [DizList.getDizPosEx, hpos]
      dsimp only
      rw [hr]
    · rw [hsame _ hi, hr, hwf.main_name] at hnames
      exact hnames.symm

/-- A search leaves what the array says. -/
theorem Holds.searched {d' : DizList} (h : Holds E startPos segs d) (hs : Searched E d d') :
    Holds E startPos segs d' := by
  rcases hs with rfl | rfl
  · exact h
  · exact h.buildIndex

theorem Searched.dizData {d' : DizList} (hs : Searched E d d') : d'.dizData = d.dizData := by
  rcases hs with rfl | rfl
  · rfl
  · rfl

/-! ## Marking a description -/

theorem markContinuation_append {xs ys : List DizRecord} (hxs : ∀ r ∈ xs, r.continues = true)
    (hys : ∀ r ∈ ys.head?, r.continues = false) :
    DizList.markContinuation (xs ++ ys) = xs.map (fun r => { r with deleted := true }) ++ ys := by
  induction xs with
  | nil =>
    cases ys with
    | nil => rfl
    | cons r ys =>
      rw [List.nil_append, DizList.markContinuation, if_neg (by rw [hys r rfl]; decide)]
      rfl
  | cons r xs ih =>
    rw [List.cons_append, DizList.markContinuation, if_pos (hxs r List.mem_cons_self),
      ih fun r' hr' => hxs r' (List.mem_cons_of_mem _ hr')]
    rfl

theorem markAt_append (r : DizRecord) (rest : List DizRecord) : ∀ before : List DizRecord,
    DizList.markAt before.length (before ++ r :: rest)
      = before ++ { r with deleted := true } :: DizList.markContinuation rest
  | [] => rfl
  | r' :: before => congrArg (r' :: ·) (markAt_append r rest before)

/-- **A description is marked with the lines that go on with it, and nothing else is.** -/
theorem markAt_recordsOf {before after : List Segment} {e : Description} {deleted : Bool}
    (hwf : ∀ seg ∈ before ++ (deleted, e) :: after, seg.2.WellFormed) :
    DizList.markAt (recordsOf startPos before).length
        (recordsOf startPos (before ++ (deleted, e) :: after))
      = recordsOf startPos (before ++ (true, e) :: after) := by
  have he := hwf (deleted, e) (List.mem_append_right _ List.mem_cons_self)
  rw [recordsOf_append, recordsOf_append, recordsOf_cons, recordsOf_cons, Description.records_eq,
    List.cons_append, markAt_append, markContinuation_append]
  · rw [List.map_map]
    rfl
  · intro r hr
    obtain ⟨dizText, hdizText, rfl⟩ := List.mem_map.mp hr
    exact he.continues dizText hdizText
  · cases after with
    | nil => exact fun r hr => nomatch hr
    | cons seg after =>
      intro r hr
      rw [recordsOf_cons, Description.records_eq] at hr
      obtain rfl := Option.some.inj hr
      exact (hwf seg (List.mem_append_right _
        (List.mem_cons_of_mem _ List.mem_cons_self))).main_continues

/-! ## The operations on the map -/

/-- No two descriptions have the same name. -/
def Distinct (E : Env) (m : List Description) : Prop :=
  m.Pairwise fun a b => E.tables.fold a.name ≠ E.tables.fold b.name

/-- The description of a name. -/
def lookup (E : Env) (m : List Description) (name : WStr) : Option Description :=
  m.find? fun e => E.tables.fold e.name = E.tables.fold name

/-- The others. -/
def erase (E : Env) (m : List Description) (name : WStr) : List Description :=
  m.filter fun e => E.tables.fold e.name ≠ E.tables.fold name

theorem live_append (xs ys : List Segment) : live (xs ++ ys) = live xs ++ live ys := by
  rw [live, List.filter_append, List.map_append]
  rfl

theorem Distinct.erase {m : List Description} (h : Distinct E m) : Distinct E (erase E m name) :=
  List.Pairwise.filter _ h

theorem Distinct.others {xs ys : List Description} {e : Description}
    (h : Distinct E (xs ++ e :: ys)) {e' : Description} (he' : e' ∈ xs ++ ys) :
    E.tables.fold e'.name ≠ E.tables.fold e.name := by
  rw [Distinct, List.pairwise_append, List.pairwise_cons] at h
  obtain ⟨-, ⟨hys, -⟩, hxs⟩ := h
  rcases List.mem_append.mp he' with hmem | hmem
  · exact hxs e' hmem e List.mem_cons_self
  · exact (hys e' hmem).symm

theorem Distinct.erase_eq {xs ys : List Description} {e : Description}
    (h : Distinct E (xs ++ e :: ys)) (he : E.tables.fold e.name = E.tables.fold name) :
    Diz.erase E (xs ++ e :: ys) name = xs ++ ys := by
  have hkeep : ∀ e' ∈ xs ++ ys,
      decide (E.tables.fold e'.name ≠ E.tables.fold name) = true := fun e' he' =>
    decide_eq_true (he ▸ h.others he')
  rw [Diz.erase, List.filter_append, List.filter_cons_of_neg (by rw [he]; simp),
    ← List.filter_append, List.filter_eq_self.mpr hkeep]

theorem Distinct.lookup_eq {xs ys : List Description} {e : Description}
    (h : Distinct E (xs ++ e :: ys)) (he : E.tables.fold e.name = E.tables.fold name) :
    lookup E (xs ++ e :: ys) name = some e := by
  have hskip : xs.find? (fun e => decide (E.tables.fold e.name = E.tables.fold name)) = none := by
    rw [List.find?_eq_none]
    intro e' he' heq
    exact h.others (List.mem_append_left _ he') ((of_decide_eq_true heq).trans he.symm)
  rw [lookup, List.find?_append, hskip, Option.none_or]
  exact List.find?_cons_of_pos (decide_eq_true he)

/-- **`GetDizTextAddr` gives the name's description.** -/
theorem Holds.getDizTextAddr (h : Holds E startPos segs d) (hdistinct : Distinct E (live segs))
    (hname : Usable E d name) (fileSize : UInt64) :
    (d.getDizTextAddr E name fileSize).1 = (lookup E (live segs) name).map (·.dizText) := by
  obtain ⟨found, d', hget, hs, hfound⟩ := h.getDizPosEx hname
  rw [DizList.getDizTextAddr, hget]
  rcases hfound with ⟨rfl, hnone⟩ | ⟨before, e, after, rfl, he, rfl⟩
  · have hlookup : lookup E (live segs) name = none := by
      rw [lookup, List.find?_eq_none]
      exact fun e he heq => hnone e he (of_decide_eq_true heq)
    rw [hlookup]
    rfl
  · have hwf := h.wellFormed (false, e) (List.mem_append_right _ List.mem_cons_self)
    have hrecord : d'.record (recordsOf startPos before).length = e.main startPos false := by
      rw [DizList.record, hs.dizData, h.records, recordsOf_append, recordsOf_cons,
        Description.records_eq, List.getD, List.getElem?_append_right (Nat.le_refl _), Nat.sub_self]
      rfl
    have hlive : live (before ++ (false, e) :: after) = live before ++ e :: live after := by
      rw [live_append]
      rfl
    rw [hlive] at hdistinct ⊢
    rw [hdistinct.lookup_eq he]
    dsimp only
    rw [hrecord]
    exact congrArg some (line_read hwf.readable hwf.nonempty startPos hwf.text fileSize).2.2

/-- **`DeleteDiz` takes the name's description away.** -/
theorem Holds.deleteDiz (h : Holds E startPos segs d) (hdistinct : Distinct E (live segs))
    (hname : Usable E d name) :
    ∃ segs', Holds E startPos segs' (d.deleteDiz E name).2
      ∧ live segs' = Diz.erase E (live segs) name := by
  obtain ⟨found, d', hget, hs, hfound⟩ := h.getDizPosEx hname
  rw [DizList.deleteDiz, hget]
  rcases hfound with ⟨rfl, hnone⟩ | ⟨before, e, after, rfl, he, rfl⟩
  · refine ⟨segs, h.searched hs, ?_⟩
    rw [Diz.erase, List.filter_eq_self.mpr fun e he => decide_eq_true (hnone e he)]
  · have hlive : live (before ++ (false, e) :: after) = live before ++ e :: live after := by
      rw [live_append]
      rfl
    have hlive' : live (before ++ (true, e) :: after) = live before ++ live after := by
      rw [live_append]
      rfl
    refine ⟨before ++ (true, e) :: after, ⟨?_, ?_, ?_, nofun⟩, ?_⟩
    · dsimp only
      rw [hs.dizData, h.records, markAt_recordsOf h.wellFormed]
    · intro seg hseg
      rcases List.mem_append.mp hseg with hmem | hmem
      · exact h.wellFormed seg (List.mem_append_left _ hmem)
      · rcases List.mem_cons.mp hmem with rfl | hmem
        · exact h.wellFormed (false, e) (List.mem_append_right _ List.mem_cons_self)
        · exact h.wellFormed seg (List.mem_append_right _ (List.mem_cons_of_mem _ hmem))
    · exact (h.searched hs).recode
    · rw [hlive']
      rw [hlive] at hdistinct ⊢
      rw [hdistinct.erase_eq he]

/-- A line that goes on with the last description is added to it. -/
theorem Holds.addRecord {e : Description} (h : Holds E startPos (segs ++ [(false, e)]) d)
    {dizText : WStr} (hcontinues : (DizRecord.ofText dizText).continues = true) :
    Holds E startPos (segs ++ [(false, { e with continuation := e.continuation ++ [dizText] })])
      (d.addRecord dizText) where
  records := by
    have hrecords := h.records
    rw [recordsOf_append] at hrecords ⊢
    rw [DizList.addRecord]
    dsimp only
    rw [hrecords, List.append_assoc]
    refine congrArg (recordsOf startPos segs ++ ·) ?_
    rw [recordsOf_cons, recordsOf_cons, Description.records_eq, Description.records_eq,
      List.map_append, List.cons_append]
    show _ = (_ :: (_ ++ _)) ++ []
    rw [List.append_nil]
    show _ :: ((_ ++ []) ++ _) = _
    rw [List.append_nil]
    rfl
  wellFormed seg hseg := by
    rcases List.mem_append.mp hseg with hmem | hmem
    · exact h.wellFormed seg (List.mem_append_left _ hmem)
    · obtain rfl := List.mem_singleton.mp hmem
      have he := h.wellFormed (false, e) (List.mem_append_right _ (List.mem_singleton_self _))
      refine ⟨he.nonempty, he.readable, he.text, fun t ht => ?_⟩
      rcases List.mem_append.mp ht with hmem | hmem
      · exact he.continues t hmem
      · exact (List.mem_singleton.mp hmem) ▸ hcontinues
  recode := h.recode
  index := nofun

theorem Holds.addRecords : ∀ {continuation : List WStr} {e : Description}
    {d : DizList}, Holds E startPos (segs ++ [(false, e)]) d →
    (∀ dizText ∈ continuation, (DizRecord.ofText dizText).continues = true) →
    Holds E startPos (segs ++ [(false, { e with continuation := e.continuation ++ continuation })])
      (continuation.foldl DizList.addRecord d)
  | [], e, d, h, _ => by
    rw [List.append_nil]
    exact h
  | dizText :: continuation, e, d, h, hcontinues => by
    have hnext := addRecords (h.addRecord (hcontinues dizText List.mem_cons_self))
      fun t ht => hcontinues t (List.mem_cons_of_mem _ ht)
    rw [List.append_assoc, List.singleton_append] at hnext
    exact hnext

/-- **`AddDizText` puts the description at the end**, in the place of the one with that name. -/
theorem Holds.addDizText (h : Holds E startPos segs d) (hdistinct : Distinct E (live segs))
    (hname : Usable E d name) (hread : Readable name) {dizText : WStr} (htext : TextOk dizText) :
    ∃ segs', Holds E startPos (segs' ++ [(false, ⟨name, dizText, []⟩)])
        (d.addDizText E startPos name dizText)
      ∧ live segs' = Diz.erase E (live segs) name := by
  obtain ⟨segs', h', hlive⟩ := h.deleteDiz hdistinct hname
  refine ⟨segs', ⟨?_, ?_, h'.recode, nofun⟩, hlive⟩
  · rw [recordsOf_append, DizList.addDizText, DizList.addRecord]
    dsimp only
    rw [h'.records]
    rfl
  · intro seg hseg
    rcases List.mem_append.mp hseg with hmem | hmem
    · exact h'.wellFormed seg hmem
    · obtain rfl := List.mem_singleton.mp hmem
      exact ⟨hname.nonempty, hread, htext, fun t ht => absurd ht List.not_mem_nil⟩

end

/-! ## Runs -/

/-- The operations on a list. `copyDiz` copies to it, from another list. -/
inductive Op where
  | addDizText (name dizText : WStr)
  | deleteDiz (name : WStr)
  | copyDiz (src : DizList) (name destName : WStr)

/-- What `CopyDiz` takes from the other list. -/
def taken (E : Env) (src : DizList) (name : WStr) : Option (WStr × List WStr) :=
  match src.getDizPosEx E name with
  | (none, _) => none
  | (some (dizPos, textPos), src) =>
      some (((src.record dizPos).dizText.drop textPos).dropWhile isSpace,
        ((src.dizData.drop (dizPos + 1)).takeWhile DizRecord.continues).map (·.dizText))

/-- An operation on the list. -/
def DizList.apply (E : Env) (startPos : Int) (d : DizList) : Op → DizList
  | .addDizText name dizText => d.addDizText E startPos name dizText
  | .deleteDiz name => (d.deleteDiz E name).2
  | .copyDiz src name destName => (copyDiz E startPos src name destName d).2.2

/-- What it is to do to the map. -/
def applyMap (E : Env) (m : List Description) : Op → List Description
  | .addDizText name dizText => erase E m name ++ [⟨name, dizText, []⟩]
  | .deleteDiz name => erase E m name
  | .copyDiz src name destName =>
      match taken E src name with
      | none => m
      | some (dizText, continuation) => erase E m destName ++ [⟨destName, dizText, continuation⟩]

/-- Both, side by side. -/
def step (E : Env) (startPos : Int) (st : DizList × List Description) (op : Op) :
    DizList × List Description := (st.1.apply E startPos op, applyMap E st.2 op)

/-- The name can be added. -/
structure Addable (E : Env) (d : DizList) (name dizText : WStr) : Prop where
  usable : Usable E d name
  readable : Readable name
  text : TextOk dizText

/-- The operations of a run. -/
def Op.Proper (E : Env) (st : DizList × List Description) : Op → Prop
  | .addDizText name dizText => Addable E st.1 name dizText
  | .deleteDiz name => Usable E st.1 name
  | .copyDiz src name destName =>
      ∀ dizText continuation, taken E src name = some (dizText, continuation) →
        Addable E st.1 destName dizText

/-- The list and the map agree. -/
def Agree (E : Env) (startPos : Int) (st : DizList × List Description) : Prop :=
  ∃ segs, Holds E startPos segs st.1 ∧ live segs = st.2 ∧ Distinct E st.2

theorem Distinct.add {m : List Description} (h : Distinct E m) (name : WStr)
    (dizText : WStr) (continuation : List WStr) :
    Distinct E (Diz.erase E m name ++ [⟨name, dizText, continuation⟩]) := by
  rw [Distinct, List.pairwise_append]
  refine ⟨h.erase, List.pairwise_singleton _ _, fun a ha b hb => ?_⟩
  obtain rfl := List.mem_singleton.mp hb
  exact of_decide_eq_true (List.mem_filter.mp ha).2

theorem agree_add {st : DizList × List Description} (h : Agree E startPos st) {name dizText : WStr}
    (hadd : Addable E st.1 name dizText) (continuation : List WStr)
    (hcontinues : ∀ t ∈ continuation, (DizRecord.ofText t).continues = true) :
    Agree E startPos (continuation.foldl DizList.addRecord (st.1.addDizText E startPos name dizText),
      erase E st.2 name ++ [⟨name, dizText, continuation⟩]) := by
  obtain ⟨segs, hholds, hlive, hdistinct⟩ := h
  obtain ⟨segs', h', hlive'⟩ :=
    hholds.addDizText (hlive.symm ▸ hdistinct) hadd.usable hadd.readable hadd.text
  refine ⟨_, h'.addRecords hcontinues, ?_, hdistinct.add _ _ _⟩
  rw [live_append, hlive', hlive]
  rfl

/-- The lines that are copied along go on with a description. -/
theorem taken_continues {src : DizList} {name dizText : WStr} {continuation : List WStr} :
    taken E src name = some (dizText, continuation) →
    ∀ t ∈ continuation, (DizRecord.ofText t).continues = true := by
  intro h t ht
  rw [taken] at h
  split at h
  · exact nomatch h
  · cases h
    obtain ⟨r, hr, rfl⟩ := List.mem_map.mp ht
    have hcontinues := List.mem_takeWhile_imp hr
    exact hcontinues

theorem step_agree {st : DizList × List Description} (h : Agree E startPos st) {op : Op}
    (hop : op.Proper E st) : Agree E startPos (step E startPos st op) := by
  cases op with
  | addDizText name dizText => exact agree_add h hop [] fun t ht => absurd ht List.not_mem_nil
  | deleteDiz name =>
    obtain ⟨segs, hholds, hlive, hdistinct⟩ := h
    obtain ⟨segs', h', hlive'⟩ := hholds.deleteDiz (hlive.symm ▸ hdistinct) hop
    exact ⟨segs', h', hlive'.trans (congrArg (erase E · name) hlive), hdistinct.erase⟩
  | copyDiz src name destName =>
    rw [step, applyMap, DizList.apply, DizList.copyDiz]
    have htaken : ∀ dizText continuation, taken E src name = some (dizText, continuation) →
        Agree E startPos (continuation.foldl DizList.addRecord
          (st.1.addDizText E startPos destName dizText),
          erase E st.2 destName ++ [⟨destName, dizText, continuation⟩]) :=
      fun dizText continuation htaken =>
        agree_add h (hop dizText continuation htaken) continuation (taken_continues htaken)
    rw [taken] at htaken ⊢
    rcases hget : src.getDizPosEx E name with ⟨_ | ⟨dizPos, textPos⟩, src'⟩
    · exact h
    · rw [hget] at htaken
      exact htaken _ _ rfl

/-- The records that have not been deleted. -/
def DizList.liveRecords (d : DizList) : List DizRecord := d.dizData.filter fun r => !r.deleted

theorem liveRecords_recordsOf : ∀ segs : List Segment,
    (recordsOf startPos segs).filter (fun r => !r.deleted)
      = (live segs).flatMap fun e => e.records startPos false
  | [] => rfl
  | (deleted, e) :: segs => by
    have hall : ∀ r ∈ e.records startPos deleted, r.deleted = deleted := by
      intro r hr
      rw [Description.records_eq, List.mem_cons, List.mem_map] at hr
      rcases hr with rfl | ⟨dizText, -, rfl⟩
      · rfl
      · rfl
    rw [recordsOf_cons, List.filter_append, liveRecords_recordsOf segs]
    cases deleted with
    | false =>
      rw [List.filter_eq_self.mpr fun r hr => by rw [hall r hr]; rfl]
      rfl
    | true =>
      rw [List.filter_eq_nil_iff.mpr fun r hr => by rw [hall r hr]; decide]
      rfl

/-- **In every run of proper operations the list is the map**: what has not been deleted is the lines
of the descriptions with their continuation lines, in the order in which they were added last, and
`GetDizTextAddr` gives a name's description, if it has one. -/
theorem reached_map {E : Env} {startPos : Int} {st : DizList × List Description}
    (h : Reach (step E startPos) (fun st op => op.Proper E st) ({}, []) st) :
    st.1.liveRecords = (st.2.flatMap fun e => e.records startPos false)
      ∧ ∀ name fileSize, Usable E st.1 name →
        (st.1.getDizTextAddr E name fileSize).1 = (lookup E st.2 name).map (·.dizText) := by
  have hagree : Agree E startPos st := by
    refine h.invariant ⟨[], ⟨rfl, fun seg hseg => absurd hseg List.not_mem_nil, rfl, nofun⟩, rfl,
      List.Pairwise.nil⟩ fun st op hst hop => step_agree hst hop
  obtain ⟨segs, hholds, hlive, hdistinct⟩ := hagree
  constructor
  · rw [DizList.liveRecords, hholds.records, liveRecords_recordsOf, hlive]
  · intro name fileSize hname
    rw [hholds.getDizTextAddr (hlive.symm ▸ hdistinct) hname, hlive]

/-! ## Names of plain characters -/

/-- `compare_weights` where there is nothing to pass over. -/
@[simp] def cmpLists : List UInt32 → List UInt32 → Int
  | [], [] => 0
  | [], _ :: _ => -1
  | _ :: _, [] => 1
  | x :: xs, y :: ys => if x ≠ y then if x > y then 1 else -1 else cmpLists xs ys

theorem compareLoop_eq : ∀ {fuel : Nat} {xs ys : List UInt32}, xs.length + ys.length ≤ fuel →
    (∀ x ∈ xs, x ≠ 0) → (∀ y ∈ ys, y ≠ 0) → CollationTables.compareLoop fuel xs ys = cmpLists xs ys
  | _, [], [], _, _, _ => by rw [CollationTables.compareLoop, cmpLists]
  | 0, x :: xs, ys, hfuel, _, _ => by
    rw [List.length_cons] at hfuel
    omega
  | 0, [], y :: ys, hfuel, _, _ => absurd hfuel (by simp)
  | fuel + 1, [], y :: ys, _, _, hys => by
    rw [CollationTables.compareLoop, cmpLists, if_pos (hys y List.mem_cons_self)]
  | fuel + 1, x :: xs, [], _, hxs, _ => by
    rw [CollationTables.compareLoop, cmpLists, if_pos (hxs x List.mem_cons_self)]
  | fuel + 1, x :: xs, y :: ys, hfuel, hxs, hys => by
    have hx := hxs x List.mem_cons_self
    have hy := hys y List.mem_cons_self
    rw [List.length_cons, List.length_cons] at hfuel
    rw [CollationTables.compareLoop, cmpLists]
    by_cases heq : x = y
    · rw [if_neg fun h => h.2.2 heq, if_neg fun h => hx h.1, if_neg fun h => hy h.2,
        if_neg (not_not.mpr heq)]
      exact compareLoop_eq (by omega) (fun x' hx' => hxs x' (List.mem_cons_of_mem _ hx'))
        fun y' hy' => hys y' (List.mem_cons_of_mem _ hy')
    · rw [if_pos ⟨hx, hy, heq⟩, if_pos heq]

/-- As many as both have, and then the lengths. -/
theorem cmpLists_take : ∀ xs ys : List UInt32, cmpLists xs ys
    = if cmpLists (xs.take (min xs.length ys.length)) (ys.take (min xs.length ys.length)) = 0 then
        if xs.length > ys.length then 1 else if xs.length < ys.length then -1 else 0
      else cmpLists (xs.take (min xs.length ys.length)) (ys.take (min xs.length ys.length))
  | [], [] => rfl
  | [], y :: ys => by
    rw [List.length_nil, Nat.zero_min, List.take_zero, List.take_zero,
      if_pos (show cmpLists [] [] = 0 from rfl), List.length_cons,
      if_neg (Nat.not_lt_zero _), if_pos (Nat.succ_pos _), cmpLists]
  | x :: xs, [] => by
    rw [List.length_nil, Nat.min_zero, List.take_zero, List.take_zero,
      if_pos (show cmpLists [] [] = 0 from rfl), List.length_cons, if_pos (Nat.succ_pos _), cmpLists]
  | x :: xs, y :: ys => by
    have ih := cmpLists_take xs ys
    have hmin : min (x :: xs).length (y :: ys).length = min xs.length ys.length + 1 := by
      rw [List.length_cons, List.length_cons]
      omega
    rw [hmin, List.take_succ_cons, List.take_succ_cons, cmpLists, cmpLists]
    by_cases heq : x = y
    · rw [if_neg (not_not.mpr heq), if_neg (not_not.mpr heq), ih]
      have hgt : (x :: xs).length > (y :: ys).length ↔ xs.length > ys.length := by
        rw [List.length_cons, List.length_cons]
        omega
      have hlt : (x :: xs).length < (y :: ys).length ↔ xs.length < ys.length := by
        rw [List.length_cons, List.length_cons]
        omega
      simp only [hgt, hlt]
    · rw [if_pos heq, if_pos heq]
      by_cases hgt : x > y
      · rw [if_pos hgt, if_neg (show ¬ (1 : Int) = 0 by decide)]
      · rw [if_neg hgt, if_neg (show ¬ (-1 : Int) = 0 by decide)]

theorem cmpLists_eq_zero : ∀ {xs ys : List UInt32}, cmpLists xs ys = 0 ↔ xs = ys
  | [], [] => ⟨fun _ => rfl, fun _ => rfl⟩
  | [], y :: ys => ⟨fun h => absurd h (show ¬ (-1 : Int) = 0 by decide), fun h => nomatch h⟩
  | x :: xs, [] => ⟨fun h => absurd h (show ¬ (1 : Int) = 0 by decide), fun h => nomatch h⟩
  | x :: xs, y :: ys => by
    rw [cmpLists, List.cons.injEq]
    by_cases heq : x = y
    · rw [if_neg (not_not.mpr heq), cmpLists_eq_zero]
      exact ⟨fun h => ⟨heq, h⟩, fun h => h.2⟩
    · rw [if_pos heq]
      refine ⟨fun h => ?_, fun h => absurd h.1 heq⟩
      split at h
      · exact absurd h (by decide)
      · exact absurd h (by decide)

theorem cmpLists_swap : ∀ {xs ys : List UInt32}, cmpLists xs ys < 0 ↔ 0 < cmpLists ys xs
  | [], [] => by decide
  | [], y :: ys => by
    rw [cmpLists, cmpLists]
    decide
  | x :: xs, [] => by
    rw [cmpLists, cmpLists]
    decide
  | x :: xs, y :: ys => by
    rw [cmpLists, cmpLists]
    by_cases heq : x = y
    · rw [if_neg (not_not.mpr heq), if_neg (not_not.mpr heq.symm)]
      exact cmpLists_swap
    · rw [if_pos heq, if_pos (Ne.symm heq)]
      by_cases hgt : x > y
      · rw [if_pos hgt, if_neg (UInt32.lt_asymm hgt)]
        decide
      · have hlt : y > x := UInt32.lt_of_le_of_ne (UInt32.not_lt.mp hgt) heq
        rw [if_neg hgt, if_pos hlt]
        decide

/-- Not above: the first difference is a rise, or the one is a beginning of the other. -/
theorem cmpLists_le_cons {x y : UInt32} {xs ys : List UInt32} :
    cmpLists (x :: xs) (y :: ys) ≤ 0 ↔ x < y ∨ x = y ∧ cmpLists xs ys ≤ 0 := by
  rw [cmpLists]
  by_cases heq : x = y
  · rw [if_neg (not_not.mpr heq)]
    exact ⟨fun h => .inr ⟨heq, h⟩, fun h => h.elim
      (fun hlt => absurd heq (UInt32.ne_of_lt hlt)) fun h => h.2⟩
  · rw [if_pos heq]
    by_cases hgt : x > y
    · rw [if_pos hgt]
      exact ⟨fun h => absurd h (by decide), fun h => h.elim
        (fun hlt => absurd hlt (UInt32.lt_asymm hgt)) fun h => absurd h.1 heq⟩
    · rw [if_neg hgt]
      exact ⟨fun _ => .inl (UInt32.lt_of_le_of_ne (UInt32.not_lt.mp hgt) heq), fun _ => by decide⟩

theorem cmpLists_trans : ∀ {xs ys zs : List UInt32}, cmpLists xs ys ≤ 0 → cmpLists ys zs ≤ 0 →
    cmpLists xs zs ≤ 0
  | [], _, [], _, _ => Int.le_refl 0
  | [], _, z :: zs, _, _ => by
    rw [cmpLists]
    decide
  | x :: xs, [], _, h, _ => by
    rw [cmpLists] at h
    exact absurd h (by decide)
  | x :: xs, y :: ys, [], _, h => by
    rw [cmpLists] at h
    exact absurd h (by decide)
  | x :: xs, y :: ys, z :: zs, hxy, hyz => by
    rw [cmpLists_le_cons] at hxy hyz ⊢
    rcases hxy with hxy | ⟨rfl, hxy⟩
    · rcases hyz with hyz | ⟨rfl, -⟩
      · exact .inl (UInt32.lt_trans hxy hyz)
      · exact .inl hxy
    · rcases hyz with hyz | ⟨rfl, hyz⟩
      · exact .inl hyz
      · exact .inr ⟨rfl, cmpLists_trans hxy hyz⟩

/-- Characters of which each has one weight, that tells it from those that differ from it not only in
case. -/
structure Plain (T : CollationTables) (letters : WChar → Prop) : Prop where
  decompose : ∀ c, letters c → T.decompose c = [c]
  weight : ∀ c, letters c → T.evalWeight c ≠ 0
  same : ∀ c c', letters c → letters c' → (T.evalWeight c = T.evalWeight c' ↔ T.tolower c = T.tolower c')

section

variable {letters : WChar → Prop}

theorem Plain.weights {T : CollationTables} (h : Plain T letters) :
    ∀ {s : WStr}, (∀ c ∈ s, letters c) → T.weights s = s.map T.evalWeight
  | [], _ => rfl
  | c :: s, hs => by
    rw [CollationTables.weights, List.flatMap_cons, h.decompose c (hs c List.mem_cons_self)]
    exact congrArg (T.evalWeight c :: ·) (h.weights fun c' hc' => hs c' (List.mem_cons_of_mem _ hc'))

theorem Plain.cmpNames_eq (h : Plain E.tables letters) {a b : WStr} (ha : ∀ c ∈ a, letters c)
    (hb : ∀ c ∈ b, letters c) :
    cmpNames E a b = cmpLists (a.map E.tables.evalWeight) (b.map E.tables.evalWeight) := by
  have hne : ∀ {s : WStr} (n : Nat), (∀ c ∈ s, letters c) →
      ∀ w ∈ (s.take n).map E.tables.evalWeight, w ≠ 0 := by
    intro s n hs w hw
    obtain ⟨c, hc, rfl⟩ := List.mem_map.mp hw
    exact h.weight c (hs c (List.mem_of_mem_take hc))
  have hcmp : ∀ n, E.tables.strCmpNI a b n
      = cmpLists ((a.take n).map E.tables.evalWeight) ((b.take n).map E.tables.evalWeight) := by
    intro n
    rw [CollationTables.strCmpNI, CollationTables.compareWeights,
      h.weights fun c hc => ha c (List.mem_of_mem_take hc),
      h.weights fun c hc => hb c (List.mem_of_mem_take hc)]
    exact compareLoop_eq (Nat.le_refl _) (hne n ha) (hne n hb)
  rw [cmpLists_take, List.length_map, List.length_map, ← List.map_take, ← List.map_take, cmpNames,
    hcmp]

theorem Plain.map_eq_iff {T : CollationTables} (h : Plain T letters) : ∀ {a b : WStr},
    (∀ c ∈ a, letters c) → (∀ c ∈ b, letters c) →
    (a.map T.evalWeight = b.map T.evalWeight ↔ T.fold a = T.fold b)
  | [], [], _, _ => Iff.rfl
  | [], c' :: b, _, _ => ⟨fun h => (nomatch h), fun h => (nomatch h)⟩
  | c :: a, [], _, _ => ⟨fun h => (nomatch h), fun h => (nomatch h)⟩
  | c :: a, c' :: b, ha, hb => by
    have ih := h.map_eq_iff (fun x hx => ha x (List.mem_cons_of_mem _ hx))
      fun x hx => hb x (List.mem_cons_of_mem _ hx)
    rw [CollationTables.fold] at ih ⊢
    rw [CollationTables.fold] at ih ⊢
    rw [List.map_cons, List.map_cons, List.map_cons, List.map_cons, List.cons.injEq, List.cons.injEq,
      ih, h.same c c' (ha c List.mem_cons_self) (hb c' List.mem_cons_self)]

/-- **Names of plain characters are in order.** -/
theorem Plain.ordered (h : Plain E.tables letters) {names : List WStr}
    (hnames : ∀ name ∈ names, ∀ c ∈ name, letters c) : Ordered E names where
  orders := {
    swap := fun a ha b hb => by
      rw [h.cmpNames_eq (hnames a ha) (hnames b hb), h.cmpNames_eq (hnames b hb) (hnames a ha)]
      exact cmpLists_swap
    trans := fun a ha b hb c hc => by
      rw [h.cmpNames_eq (hnames a ha) (hnames b hb), h.cmpNames_eq (hnames b hb) (hnames c hc),
        h.cmpNames_eq (hnames a ha) (hnames c hc)]
      exact cmpLists_trans }
  same a ha b hb := by
    rw [h.cmpNames_eq (hnames a ha) (hnames b hb), cmpLists_eq_zero]
    exact h.map_eq_iff (hnames a ha) (hnames b hb)

end

/-- Every character is a letter of its own; the sort is by insertion. -/
def Env.plain : Env where
  qsort := .insertion
  tables := { entry := (· <<< 16), charType := fun _ => 0, decompose := ([·]), tolower := id }

/-- `a`, and the dot. -/
def PlainLetter (c : WChar) : Prop := c = 0x61 ∨ c = DOT

theorem plain_letters : Plain Env.plain.tables PlainLetter where
  decompose c _ := rfl
  weight c hc := by
    rcases hc with rfl | rfl
    · decide
    · decide
  same c c' hc hc' := by
    rcases hc with rfl | rfl
    · rcases hc' with rfl | rfl
      · decide
      · decide
    · rcases hc' with rfl | rfl
      · decide
      · decide

/-- A list with one description, of `a`, which is then found. -/
theorem reached_map_one : ∃ st, Reach (step Env.plain 33)
    (fun st op => op.Proper Env.plain st) ({}, []) st
      ∧ st.1.liveRecords = (st.2.flatMap fun e => e.records 33 false)
      ∧ (st.1.getDizTextAddr Env.plain (L ['a']) 0).1 = some (L ['x']) := by
  have hordered : ∀ names : List WStr, (∀ name ∈ names, ∀ c ∈ name, PlainLetter c) →
      Ordered Env.plain names := fun names hnames => plain_letters.ordered hnames
  have hletters : ∀ c ∈ L ['a'], PlainLetter c := fun c hc => .inl (List.mem_singleton.mp hc)
  have hproper : (Op.addDizText (L ['a']) (L ['x'])).Proper Env.plain ({}, []) := by
    refine ⟨⟨List.cons_ne_nil _ _, hordered _ ?_, nofun⟩, ?_, ⟨_, [], rfl, by decide, by decide⟩⟩
    · intro name hname
      obtain rfl := List.mem_singleton.mp hname
      exact hletters
    · rw [Readable, if_neg (by decide)]
      refine ⟨fun c hc => ?_, by decide⟩
      obtain rfl := List.mem_singleton.mp hc
      decide
  have hreach : Reach (step Env.plain 33) (fun st op => Op.Proper Env.plain st op) ({}, [])
      (step Env.plain 33 ({}, []) (.addDizText (L ['a']) (L ['x']))) := .step _ .start hproper
  have hmap := reached_map hreach
  refine ⟨_, hreach, hmap.1, ?_⟩
  rw [hmap.2 (L ['a']) 0 ⟨List.cons_ne_nil _ _, hordered _ ?_, ?_⟩]
  · decide
  · intro name hname
    have hname : name ∈ [L ['a'], L ['a']] := hname
    rcases List.mem_cons.mp hname with rfl | hname
    · exact hletters
    · obtain rfl := List.mem_singleton.mp hname
      exact hletters
  · intro r hr hdotted
    obtain rfl := List.mem_singleton.mp hr
    exact absurd hdotted.2.1 (by decide)

/-- **A name also finds the description of the name with a dot after it**, though the names differ. -/
theorem getDizTextAddr_dotted : Env.plain.tables.fold (L ['a']) ≠ Env.plain.tables.fold (L ['a', '.'])
    ∧ ((DizList.addDizText Env.plain 33 {} (L ['a', '.']) (L ['x'])).getDizTextAddr Env.plain
      (L ['a']) 0).1 = some (L ['x']) := by
  exact ⟨by decide, by decide⟩

end Diz

end Far2l
