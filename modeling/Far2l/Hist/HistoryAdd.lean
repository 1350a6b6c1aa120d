/-
Far2l.Hist.HistoryAdd — a record is added to a history: `AddToHistoryLocal` of
`far/src/hist/history.cpp`.
-/
import Far2l.Hist.History
import Far2l.WinPort.Collation

namespace Far2l.Hist

open Far2l.WinPort

def HR_EDITOR : Nat := 1
def HR_EDITOR_RO : Nat := 4
def COLON : WChar := 0x3A

/-- What `AddToHistoryLocal` is called with, and the time. -/
structure Addition where
  str : WStr
  extra : WStr
  namePrefix : WStr
  type : Nat
  now : FileTime

section

variable (T : CollationTables) (removeDups : Nat)

/-- `EqualType` -/
def History.equalType (h : History) (type1 type2 : Nat) : Bool :=
  type1 = type2 ∨ h.typeHistory = .view ∧
    ((type1 = HR_EDITOR_RO ∧ type2 = HR_EDITOR) ∨ (type1 = HR_EDITOR ∧ type2 = HR_EDITOR_RO))

/-- The names, as `mRemoveDups` has them compared -/
def sameName (a b : WStr) : Bool :=
  (removeDups = 1 ∧ T.strCmp a b = 0) ∨ (removeDups = 2 ∧ T.strCmpI a b = 0)

/-- The name of the new record; `ReplaceStrings` takes every line feed away. -/
def History.addedName (h : History) (a : Addition) : WStr :=
  ((if h.typeHistory = .folder ∧ a.namePrefix ≠ [] then a.namePrefix ++ [COLON] else []) ++ a.str).map
    fun c => if c = LF then CR else c

/-- Is the record a duplicate of what is added? -/
def History.duplicate (h : History) (a : Addition) (item : HistoryRecord) : Bool :=
  h.equalType a.type item.type && sameName T removeDups (h.addedName a) item.strName

/-- The loop over the duplicates: the lock of the one that is erased, and the others. -/
def eraseDuplicate (dup : HistoryRecord → Bool) : List HistoryRecord → Bool × List HistoryRecord
  | [] => (false, [])
  | item :: rest =>
      if dup item then (item.lock, rest)
      else ((eraseDuplicate dup rest).1, item :: (eraseDuplicate dup rest).2)

/-- The loop that erases records: `size` is the size of the whole list. -/
def trimLoop (historyCount : Nat) : Nat → List HistoryRecord → List HistoryRecord
  | _, [] => []
  | size, item :: rest =>
      if size ≥ historyCount then
        if !item.lock then trimLoop historyCount (size - 1) rest else item :: trimLoop historyCount size rest
      else item :: rest

/-- `AddToHistoryLocal` -/
def History.addToHistoryLocal (h : History) (a : Addition) : History :=
  let (lock, others) :=
    if removeDups ≠ 0 then eraseDuplicate (h.duplicate T removeDups a) h.historyList else (false, h.historyList)
  let record : HistoryRecord :=
    { type := a.type, lock, strName := h.addedName a, strExtra := a.extra, timestamp := a.now }
  { h with historyList := trimLoop h.historyCount others.length others ++ [record], currentItem := none }

/-- One addition after another. -/
def History.addAll (h : History) (adds : List Addition) : History :=
  adds.foldl (fun h a => h.addToHistoryLocal T removeDups a) h

end

end Far2l.Hist

/-! # What an addition leaves of a history.

Duplicates are records of one class of types whose names compare as equal. As that is
an equivalence, a history without duplicates holds at most one of what is added. -/

namespace Far2l.Hist

open Far2l.WinPort

section

variable {T : CollationTables} {removeDups : Nat} {h : History} {a : Addition}

/-! ## Duplicates -/

/-- The types that count as one -/
def History.typeClass (h : History) (type : Nat) : Nat :=
  if h.typeHistory = .view ∧ type = HR_EDITOR_RO then HR_EDITOR else type

theorem equalType_iff (type1 type2 : Nat) : h.equalType type1 type2 ↔ h.typeClass type1 = h.typeClass type2 := by
  rw [History.equalType, decide_eq_true_iff, History.typeClass, History.typeClass, HR_EDITOR, HR_EDITOR_RO]
  by_cases hview : h.typeHistory = .view
  · simp only [hview, true_and]
    split <;> split <;> omega
  · simp [hview]

theorem sameName_congr {x y z : WStr} (hxy : sameName T removeDups x y) : sameName T removeDups x z = sameName T removeDups y z := by
  simp only [sameName, CollationTables.strCmp, CollationTables.strCmpI, CollationTables.compareWeights_eq_zero] at hxy ⊢
  rcases decide_eq_true_iff.mp hxy with ⟨rfl, heq⟩ | ⟨rfl, heq⟩
  · simp [heq]
  · simp [heq]

theorem sameName_comm (x y : WStr) : sameName T removeDups x y = sameName T removeDups y x := by
  simp only [sameName, CollationTables.strCmp, CollationTables.strCmpI, CollationTables.compareWeights_eq_zero]
  exact decide_eq_decide.mpr (or_congr (and_congr_right fun _ => eq_comm) (and_congr_right fun _ => eq_comm))

variable (T removeDups) in
/-- Two records of one class with equal names -/
def History.Same (h : History) (x y : HistoryRecord) : Prop :=
  h.equalType x.type y.type ∧ sameName T removeDups x.strName y.strName

variable (T removeDups) in
/-- No two records are the same. -/
def History.NoDups (h : History) : Prop := h.historyList.Pairwise fun x y => ¬ h.Same T removeDups x y

/-- The duplicates of an addition are the same. -/
theorem same_of_duplicates {x y : HistoryRecord} (hx : h.duplicate T removeDups a x) (hy : h.duplicate T removeDups a y) :
    h.Same T removeDups x y := by
  rw [History.duplicate, Bool.and_eq_true, equalType_iff] at hx hy
  refine ⟨(equalType_iff _ _).mpr (hx.1.symm.trans hy.1), ?_⟩
  rw [← sameName_congr hx.2]
  exact hy.2

/-! ## The loops -/

theorem eraseDuplicate_none {dup : HistoryRecord → Bool} : ∀ {items : List HistoryRecord}, (∀ x ∈ items, dup x = false) →
    eraseDuplicate dup items = (false, items)
  | [], _ => rfl
  | item :: rest, hno => by
    have hrest := eraseDuplicate_none fun x hx => hno x (List.mem_cons_of_mem item hx)
    rw [eraseDuplicate, if_neg (by simp [hno item List.mem_cons_self]), hrest]

/-- Where there is one duplicate at most, it is the one that goes. -/
theorem eraseDuplicate_eq {dup : HistoryRecord → Bool} : ∀ {items : List HistoryRecord},
    items.Pairwise (fun x y => ¬ (dup x ∧ dup y)) →
      eraseDuplicate dup items = (items.any fun x => dup x && x.lock, items.filter fun x => !dup x)
  | [], _ => rfl
  | item :: rest, hone => by
    rw [List.pairwise_cons] at hone
    by_cases hdup : dup item
    · have hno : ∀ x ∈ rest, dup x = false := fun x hx => by
        simpa [hdup] using hone.1 x hx
      have hfilter : rest.filter (fun x => !dup x) = rest := List.filter_eq_self.mpr fun x hx => by simp [hno x hx]
      have hany : (rest.any fun x => dup x && x.lock) = false := List.any_eq_false.mpr fun x hx => by simp [hno x hx]
      rw [eraseDuplicate, if_pos hdup, List.any_cons, hany, List.filter_cons_of_neg (by simp [hdup]), hfilter]
      simp [hdup]
    · rw [eraseDuplicate, if_neg hdup, eraseDuplicate_eq hone.2, List.any_cons, List.filter_cons_of_pos (by simp [hdup])]
      simp [hdup]

/-- All but the first `k` records that are not locked -/
def dropUnlocked : Nat → List HistoryRecord → List HistoryRecord
  | _, [] => []
  | 0, items => items
  | k + 1, item :: rest => if item.lock then item :: dropUnlocked (k + 1) rest else dropUnlocked k rest

@[simp] theorem dropUnlocked_zero (items : List HistoryRecord) : dropUnlocked 0 items = items := by
  cases items <;> rfl

theorem trimLoop_eq (historyCount : Nat) : ∀ {items : List HistoryRecord} {size : Nat}, items.length ≤ size →
    trimLoop historyCount size items = dropUnlocked (size + 1 - historyCount) items
  | [], _, _ => by rw [trimLoop, dropUnlocked]
  | item :: rest, size, hsize => by
    rw [List.length_cons] at hsize
    rw [trimLoop]
    by_cases hfull : size ≥ historyCount
    · rw [if_pos hfull, show size + 1 - historyCount = size - historyCount + 1 by omega, dropUnlocked]
      by_cases hlock : item.lock
      · rw [if_neg (by simp [hlock]), if_pos hlock, trimLoop_eq historyCount (Nat.le_of_lt hsize),
          show size + 1 - historyCount = size - historyCount + 1 by omega]
      · rw [if_pos (by simp [hlock]), if_neg hlock, trimLoop_eq historyCount (by omega),
          show size - 1 + 1 - historyCount = size - historyCount by omega]
    · rw [if_neg hfull, show size + 1 - historyCount = 0 by omega, dropUnlocked_zero]

theorem dropUnlocked_sublist : ∀ (k : Nat) (items : List HistoryRecord), (dropUnlocked k items).Sublist items
  | _, [] => by rw [dropUnlocked]
  | 0, item :: rest => List.Sublist.refl _
  | k + 1, item :: rest => by
    rw [dropUnlocked]
    split
    · exact (dropUnlocked_sublist (k + 1) rest).cons₂ item
    · exact (dropUnlocked_sublist k rest).cons item

/-- Locked records stay. -/
theorem filter_lock_dropUnlocked : ∀ (k : Nat) (items : List HistoryRecord),
    (dropUnlocked k items).filter (·.lock) = items.filter (·.lock)
  | _, [] => by rw [dropUnlocked]
  | 0, item :: rest => by rw [dropUnlocked_zero]
  | k + 1, item :: rest => by
    rw [dropUnlocked]
    by_cases hlock : item.lock
    · rw [if_pos hlock, List.filter_cons_of_pos hlock, List.filter_cons_of_pos hlock, filter_lock_dropUnlocked]
    · rw [if_neg hlock, List.filter_cons_of_neg hlock, filter_lock_dropUnlocked]

/-- The others go from the oldest on. -/
theorem filter_unlocked_dropUnlocked : ∀ (k : Nat) (items : List HistoryRecord),
    (dropUnlocked k items).filter (!·.lock) = (items.filter (!·.lock)).drop k
  | _, [] => by simp [dropUnlocked]
  | 0, item :: rest => by rw [dropUnlocked_zero, List.drop_zero]
  | k + 1, item :: rest => by
    rw [dropUnlocked]
    by_cases hlock : item.lock
    · rw [if_pos hlock, List.filter_cons_of_neg (by simp [hlock]), List.filter_cons_of_neg (by simp [hlock]),
        filter_unlocked_dropUnlocked]
    · rw [if_neg hlock, List.filter_cons_of_pos (by simp [hlock]), List.drop_succ_cons, filter_unlocked_dropUnlocked]

/-! ## One addition -/

variable (T removeDups) in
/-- The records that are no duplicates of the addition -/
def History.others (h : History) (a : Addition) : List HistoryRecord :=
  h.historyList.filter fun x => !h.duplicate T removeDups a x

variable (T removeDups) in
/-- What an addition makes of a history -/
structure AddedTo (h : History) (a : Addition) (h' : History) : Prop where
  /-- The newest record is the new one; it is locked if the one that it replaces was. -/
  newest : h'.historyList.getLast? = some
    { type := a.type, lock := h.historyList.any fun x => h.duplicate T removeDups a x && x.lock
      strName := h.addedName a, strExtra := a.extra, timestamp := a.now }
  noDups : h'.NoDups T removeDups
  /-- Nothing but old records stands in front of it, in their order. -/
  order : h'.historyList.dropLast.Sublist (h.others T removeDups a)
  locked : h'.historyList.dropLast.filter (·.lock) = (h.others T removeDups a).filter (·.lock)
  /-- Of the records without a lock the oldest are dropped, as many as there are too many. -/
  oldest : h'.historyList.dropLast.filter (!·.lock) =
    ((h.others T removeDups a).filter (!·.lock)).drop ((h.others T removeDups a).length + 1 - h.historyCount)
  size : h'.historyList.length ≤ max h.historyCount ((h.historyList.filter (·.lock)).length + 1)

/-- In front of the new record stands what is left of the others. -/
theorem historyList_add (hdups : h.NoDups T removeDups) :
    (h.addToHistoryLocal T removeDups a).historyList =
      dropUnlocked ((h.others T removeDups a).length + 1 - h.historyCount) (h.others T removeDups a) ++
        [{ type := a.type, lock := h.historyList.any fun x => h.duplicate T removeDups a x && x.lock
           strName := h.addedName a, strExtra := a.extra, timestamp := a.now }] := by
  have herase : (if removeDups ≠ 0 then eraseDuplicate (h.duplicate T removeDups a) h.historyList
      else (false, h.historyList)) =
        (h.historyList.any fun x => h.duplicate T removeDups a x && x.lock, h.others T removeDups a) := by
    have hpair : h.historyList.Pairwise
        (fun x y => ¬ (h.duplicate T removeDups a x ∧ h.duplicate T removeDups a y)) :=
      hdups.imp fun hne hdup => hne (same_of_duplicates hdup.1 hdup.2)
    have heq := eraseDuplicate_eq hpair
    by_cases hmode : removeDups = 0
    · -- no record is a duplicate
      have hno : ∀ x ∈ h.historyList, h.duplicate T removeDups a x = false := fun x _ => by
        simp [History.duplicate, sameName, hmode]
      rw [if_neg (not_not.mpr hmode), ← eraseDuplicate_none hno]
      exact heq
    · rw [if_pos hmode]
      exact heq
  rw [History.addToHistoryLocal, herase]
  dsimp only
  rw [trimLoop_eq h.historyCount (Nat.le_refl _)]

theorem addedTo (hdups : h.NoDups T removeDups) : AddedTo T removeDups h a (h.addToHistoryLocal T removeDups a) := by
  have hlist := historyList_add (a := a) hdups
  have hsub := dropUnlocked_sublist ((h.others T removeDups a).length + 1 - h.historyCount) (h.others T removeDups a)
  have hfilter : (h.others T removeDups a).Sublist h.historyList := List.filter_sublist
  have hlocked := filter_lock_dropUnlocked ((h.others T removeDups a).length + 1 - h.historyCount)
    (h.others T removeDups a)
  have holdest := filter_unlocked_dropUnlocked ((h.others T removeDups a).length + 1 - h.historyCount)
    (h.others T removeDups a)
  refine ⟨?_, ?_, ?_, ?_, ?_, ?_⟩
  · rw [hlist, List.getLast?_append, List.getLast?_singleton, Option.some_or]
  · rw [History.NoDups, hlist, List.pairwise_append]
    refine ⟨hdups.sublist (hsub.trans hfilter), List.pairwise_singleton _ _, fun x hx y hy hsame => ?_⟩
    obtain rfl := List.mem_singleton.mp hy
    -- what is left is no duplicate of the new record
    have hx' := (List.mem_filter.mp (hsub.subset hx)).2
    rw [Bool.not_eq_true', History.duplicate, Bool.and_eq_false_iff] at hx'
    obtain ⟨htype, hname⟩ := hsame
    rcases hx' with hne | hne
    · have hback := (equalType_iff (h := h) a.type x.type).mpr ((equalType_iff (h := h) x.type a.type).mp htype).symm
      exact absurd hback (by simp [hne])
    · rw [sameName_comm] at hname
      exact absurd hname (by simp [hne])
  · rw [hlist, List.dropLast_concat]
    exact hsub
  · rw [hlist, List.dropLast_concat, hlocked]
  · rw [hlist, List.dropLast_concat, holdest]
  · rw [hlist, List.length_append, List.length_singleton]
    have hlen := List.length_eq_length_filter_add (l :=
      dropUnlocked ((h.others T removeDups a).length + 1 - h.historyCount) (h.others T removeDups a)) (·.lock)
    have hall := List.length_eq_length_filter_add (l := h.others T removeDups a) (·.lock)
    rw [hlocked, holdest, List.length_drop] at hlen
    have hle := (hfilter.filter (·.lock)).length_le
    omega

/-! ## Any number of additions -/

theorem noDups_addAll : ∀ (adds : List Addition) {h : History}, h.NoDups T removeDups →
    (h.addAll T removeDups adds).NoDups T removeDups
  | [], _, hdups => hdups
  | _ :: adds, _, hdups => noDups_addAll adds (addedTo hdups).noDups

variable (T removeDups) in
/-- **Additions keep a history**: from a history without duplicates, whatever is added and how often, every
next addition does what it is for. -/
theorem additions_keep (h : History) (hdups : h.NoDups T removeDups) (adds : List Addition) (a : Addition) :
    AddedTo T removeDups (h.addAll T removeDups adds) a ((h.addAll T removeDups adds).addToHistoryLocal T removeDups a) :=
  addedTo (noDups_addAll adds hdups)

/-- A history that has one record, which is locked, and that may have two. -/
def sampleHistory : History where
  typeHistory := .cmd
  historyCount := 2
  saveType := false
  strRegKey := []
  enableSave := true
  historyList := [{ lock := true, strName := [0x61] }]
  currentItem := none

theorem additions_keep_sample :
    let T : CollationTables := ⟨(· <<< 16), fun _ => 0, ([·]), id⟩
    let a : Addition := ⟨[0x61], [], [], 0, .zero⟩
    AddedTo T 1 (sampleHistory.addAll T 1 [a]) a ((sampleHistory.addAll T 1 [a]).addToHistoryLocal T 1 a) :=
  additions_keep ⟨(· <<< 16), fun _ => 0, ([·]), id⟩ 1 sampleHistory (List.pairwise_singleton _ _) _ _

end

end Far2l.Hist
