/-
Far2l.Utils.StringConfig — named values in one string:
`utils/src/StringConfig.cpp`.

The entries are kept in the order of `std::map`. What the unescaper prints about
an escape that it does not know is left out.
-/
import Far2l.Utils.ConfigRW

namespace Far2l.StringConfig

open Far2l.KeyFile (Str)

def BACKSLASH : Byte := 0x5C

def COLON : Byte := 0x3A

def BLANK : Byte := 0x20

/-! ## Escaping -/

/-- The cases of `StringEscape`: a character, and what follows the backslash for it. -/
def escapes : List (Byte × Byte) :=
  [(0x00, 0x30), (0x09, 0x74), (0x0D, 0x72), (0x0A, 0x6E), (BACKSLASH, BACKSLASH), (COLON, 0x5E), (BLANK, 0x5F)]

/-- The cases of `StringUnescape`: what follows a backslash, and the character. -/
def unescapes : List (Byte × Byte) :=
  [(0x00, 0x00), (0x74, 0x09), (0x72, 0x0D), (0x6E, 0x0A), (BACKSLASH, BACKSLASH), (0x5E, COLON), (0x5F, BLANK)]

def escapeChar (ch : Byte) : Str :=
  match escapes.lookup ch with
  | some escape => [BACKSLASH, escape]
  | none => [ch]

/-- `StringEscape` -/
def stringEscape (str : Str) : Str := str.flatMap escapeChar

/-- What a backslash and the character behind it stand for. -/
def unescapeChar (escape : Byte) : Str :=
  match unescapes.lookup escape with
  | some ch => [ch]
  | none => [BACKSLASH, escape]

/-- `StringUnescape` -/
def stringUnescape : Str → Str
  | [] => []
  | [ch] => [ch]
  | ch :: escape :: str =>
      if ch = BACKSLASH then unescapeChar escape ++ stringUnescape str
      else ch :: stringUnescape (escape :: str)

/-! ## Entries -/

/-- How `std::string`s are compared. -/
def stringLess (a b : Str) : Bool := decide (a.map UInt8.toNat < b.map UInt8.toNat)

theorem stringLess_iff {a b : Str} : stringLess a b = true ↔ a.map UInt8.toNat < b.map UInt8.toNat :=
  decide_eq_true_iff

instance : StrictWeak stringLess where
  irrefl a := by
    refine Bool.eq_false_iff.mpr fun h => ?_
    exact List.lt_irrefl _ (stringLess_iff.mp h)
  trans hab hbc := stringLess_iff.mpr (List.lt_trans (stringLess_iff.mp hab) (stringLess_iff.mp hbc))
  cotrans {a b} hab c := by
    rw [stringLess_iff] at hab ⊢
    rw [stringLess_iff]
    by_cases hac : a.map UInt8.toNat < c.map UInt8.toNat
    · exact .inl hac
    · exact .inr (List.lt_of_le_of_lt (List.not_lt.mp hac) hab)

/-- `_entries` -/
abbrev Entries : Type := SortedMap Str Str stringLess

/-- `Serialize` -/
def Entries.serialize (c : Entries) : Str :=
  c.entries.flatMap fun it => stringEscape it.1 ++ COLON :: (stringEscape it.2 ++ [BLANK])

/-- What is between two blanks becomes an entry, if there is a colon in it. -/
def Entries.addPiece (c : Entries) (s : Str) : Entries :=
  if COLON ∈ s then
    c.set (stringUnescape (s.takeWhile (· ≠ COLON))) (stringUnescape (s.dropWhile (· ≠ COLON)).tail)
  else c

/-- `StringConfig::StringConfig`, from a serialized string. -/
def ofSerialized (serializedStr : Str) : Entries := (serializedStr.splitOn BLANK).foldl Entries.addPiece .empty

end Far2l.StringConfig

/-! # What comes back of entries that have been

written into one string and read again.

The two tables agree on every special character but one: NUL is escaped with the
digit zero, while the unescaper expects the character NUL itself. So the entries
come back unless a name or a value has a NUL in it, and then they never do. -/

namespace Far2l.StringConfig

open Far2l.KeyFile (Str)

def NUL : Byte := 0x00

/-! ## The two tables -/

/-- What comes back of a character that has been escaped. -/
def returned (ch : Byte) : Str := if ch = NUL then [BACKSLASH, 0x30] else [ch]

/-- Every line of the first table but that of NUL has its inverse in the second. -/
theorem escapes_returned : ∀ p ∈ escapes, unescapeChar p.2 = returned p.1 := by
  have hall : escapes.all (fun p => unescapeChar p.2 = returned p.1) = true := by decide
  exact fun p hp => of_decide_eq_true (List.all_eq_true.mp hall p hp)

theorem escapes_inert : ∀ p ∈ escapes, p.2 ≠ COLON ∧ p.2 ≠ BLANK := by
  have hall : escapes.all (fun p => p.2 ≠ COLON ∧ p.2 ≠ BLANK) = true := by decide
  exact fun p hp => of_decide_eq_true (List.all_eq_true.mp hall p hp)

/-- A character is escaped with a line of the table, or kept. -/
theorem escapeChar_cases (ch : Byte) :
    (∃ escape, (ch, escape) ∈ escapes ∧ escapeChar ch = [BACKSLASH, escape]) ∨
      ((∀ p ∈ escapes, p.1 ≠ ch) ∧ escapeChar ch = [ch]) := by
  rw [escapeChar]
  cases hlookup : escapes.lookup ch with
  | some escape =>
    obtain ⟨l₁, l₂, hsplit, -⟩ := List.lookup_eq_some_iff.mp hlookup
    refine .inl ⟨escape, ?_, rfl⟩
    rw [hsplit]
    exact List.mem_append_right _ List.mem_cons_self
  | none =>
    refine .inr ⟨fun p hp hch => ?_, rfl⟩
    have hne := List.lookup_eq_none_iff.mp hlookup p hp
    exact bne_iff_ne.mp hne hch.symm

theorem stringUnescape_cons {ch : Byte} (h : ch ≠ BACKSLASH) (str : Str) :
    stringUnescape (ch :: str) = ch :: stringUnescape str := by
  cases str with
  | nil => rfl
  | cons escape str => rw [stringUnescape, if_neg h]

theorem stringUnescape_escapeChar (ch : Byte) (str : Str) :
    stringUnescape (escapeChar ch ++ str) = returned ch ++ stringUnescape str := by
  rcases escapeChar_cases ch with ⟨escape, hmem, heq⟩ | ⟨hkept, heq⟩
  · rw [heq, ← escapes_returned _ hmem]
    show stringUnescape (BACKSLASH :: escape :: str) = _
    rw [stringUnescape, if_pos rfl]
  · have hbackslash : ch ≠ BACKSLASH := fun h => hkept (BACKSLASH, BACKSLASH) (by decide) h.symm
    have hnul : ch ≠ NUL := fun h => hkept (0x00, 0x30) (by decide) h.symm
    rw [heq, returned, if_neg hnul]
    exact stringUnescape_cons hbackslash str

/-- What comes back of a string. -/
theorem stringUnescape_stringEscape (str : Str) :
    stringUnescape (stringEscape str) = str.flatMap returned := by
  induction str with
  | nil => rfl
  | cons ch str ih =>
    rw [stringEscape, List.flatMap_cons, List.flatMap_cons, stringUnescape_escapeChar]
    exact congrArg _ ih

theorem flatMap_returned {str : Str} (h : NUL ∉ str) : str.flatMap returned = str := by
  induction str with
  | nil => rfl
  | cons ch str ih =>
    rw [List.mem_cons, not_or] at h
    rw [List.flatMap_cons, ih h.2, returned, if_neg (Ne.symm h.1)]
    rfl

/-- No NUL comes back. -/
theorem not_mem_returned (str : Str) : NUL ∉ str.flatMap returned := by
  intro h
  obtain ⟨ch, -, hmem⟩ := List.mem_flatMap.mp h
  rw [returned] at hmem
  split at hmem
  · exact absurd hmem (by decide)
  · next hne => exact hne (List.mem_singleton.mp hmem).symm

/-! ## The separators -/

theorem stringEscape_inert (str : Str) : ∀ ch ∈ stringEscape str, ch ≠ COLON ∧ ch ≠ BLANK := by
  intro x hx
  obtain ⟨ch, -, hmem⟩ := List.mem_flatMap.mp hx
  rcases escapeChar_cases ch with ⟨escape, hescape, heq⟩ | ⟨hkept, heq⟩
  · rw [heq] at hmem
    rcases List.mem_cons.mp hmem with rfl | hmem
    · decide
    · rw [List.mem_singleton.mp hmem]
      exact escapes_inert _ hescape
  · rw [heq] at hmem
    rw [List.mem_singleton.mp hmem]
    exact ⟨fun h => hkept (COLON, 0x5E) (by decide) h.symm, fun h => hkept (BLANK, 0x5F) (by decide) h.symm⟩

/-- An entry without the blank behind it. -/
def pieceOf (it : Str × Str) : Str := stringEscape it.1 ++ COLON :: stringEscape it.2

theorem blank_not_mem_pieceOf (it : Str × Str) : BLANK ∉ pieceOf it := by
  intro h
  rcases List.mem_append.mp h with h | h
  · exact (stringEscape_inert _ _ h).2 rfl
  · rcases List.mem_cons.mp h with h | h
    · exact absurd h (by decide)
    · exact (stringEscape_inert _ _ h).2 rfl

/-- A serialization is cut into its entries and an empty piece. -/
theorem splitOn_serialize (l : List (Str × Str)) :
    (l.flatMap fun it => stringEscape it.1 ++ COLON :: (stringEscape it.2 ++ [BLANK])).splitOn BLANK =
      l.map pieceOf ++ [[]] := by
  induction l with
  | nil => rfl
  | cons it l ih =>
    have hcut : stringEscape it.1 ++ COLON :: (stringEscape it.2 ++ [BLANK]) = pieceOf it ++ [BLANK] := by
      rw [pieceOf, List.append_assoc, List.cons_append]
    rw [List.flatMap_cons, hcut, List.append_assoc, List.singleton_append,
      List.splitOn_append_cons_self_of_not_mem (blank_not_mem_pieceOf it), ih]
    rfl

/-- What comes back of an entry. -/
def returnedEntry (it : Str × Str) : Str × Str := (it.1.flatMap returned, it.2.flatMap returned)

theorem addPiece_pieceOf (c : Entries) (it : Str × Str) :
    c.addPiece (pieceOf it) = c.set (returnedEntry it).1 (returnedEntry it).2 := by
  have hname : ∀ ch ∈ stringEscape it.1, decide (ch ≠ COLON) = true := fun ch hch =>
    decide_eq_true (stringEscape_inert _ ch hch).1
  have htake : (pieceOf it).takeWhile (· ≠ COLON) = stringEscape it.1 := by
    rw [pieceOf, List.takeWhile_append_of_pos hname, List.takeWhile_cons_of_neg (by decide), List.append_nil]
  have hdrop : (pieceOf it).dropWhile (· ≠ COLON) = COLON :: stringEscape it.2 := by
    rw [pieceOf, List.dropWhile_append_of_pos hname, List.dropWhile_cons_of_neg (by decide)]
  have hcolon : COLON ∈ pieceOf it := List.mem_append_right _ List.mem_cons_self
  rw [Entries.addPiece, if_pos hcolon, htake, hdrop, List.tail_cons, stringUnescape_stringEscape,
    stringUnescape_stringEscape]
  rfl

/-- Reading a serialization sets what comes back of each entry, one after another. -/
theorem ofSerialized_serialize (c : Entries) :
    ofSerialized c.serialize =
      c.entries.foldl (fun m it => m.set (returnedEntry it).1 (returnedEntry it).2) .empty := by
  rw [ofSerialized, Entries.serialize, splitOn_serialize, List.foldl_append, List.foldl_map]
  simp only [addPiece_pieceOf]
  rfl

/-! ## The round trip -/

/-- Entries in the order of their names build the map they come from. -/
theorem entries_foldl_set (l : List (Str × Str)) (m : Entries)
    (h : (m.entries ++ l).Pairwise fun x y => stringLess x.1 y.1 = true) :
    (l.foldl (fun (m : Entries) it => m.set it.1 it.2) m).entries = m.entries ++ l := by
  induction l generalizing m with
  | nil => rw [List.foldl_nil, List.append_nil]
  | cons it l ih =>
    have hbelow : ∀ e ∈ m.entries, stringLess e.1 it.1 = true := fun e he =>
      (List.pairwise_append.mp h).2.2 e he it List.mem_cons_self
    have hset : (m.set it.1 it.2).entries = m.entries ++ [it] := SortedMap.entries_set_last hbelow
    have hassoc : m.entries ++ it :: l = (m.set it.1 it.2).entries ++ l := by
      rw [hset, List.append_assoc, List.singleton_append]
    rw [List.foldl_cons, hassoc]
    refine ih (m.set it.1 it.2) ?_
    rw [← hassoc]
    exact h

/-- Every entry of a map that has been built has a name and a value that were set. -/
theorem foldl_set_forall {P : Str → Prop} (f : Str × Str → Str × Str)
    (hf : ∀ it, P (f it).1 ∧ P (f it).2) (l : List (Str × Str)) (m : Entries)
    (hm : ∀ e ∈ m.entries, P e.1 ∧ P e.2) :
    ∀ e ∈ (l.foldl (fun (m : Entries) it => m.set (f it).1 (f it).2) m).entries, P e.1 ∧ P e.2 := by
  induction l generalizing m with
  | nil => exact hm
  | cons it l ih =>
    refine ih (m.set (f it).1 (f it).2) fun e he => ?_
    unfold SortedMap.set at he
    split at he
    · next hnone =>
      rw [SortedMap.entries_emplace hnone] at he
      rcases List.mem_cons.mp ((SortedMap.perm_insertEntry _ _ _).mem_iff.mp he) with rfl | he
      · exact hf it
      · exact hm e he
    · obtain ⟨e', he', rfl⟩ := List.mem_map.mp he
      refine ⟨(hm e' he').1, ?_⟩
      show P (if _ then _ else _)
      split
      · exact (hf it).2
      · exact (hm e' he').2

/-- **A string configuration comes back exactly when no name and no value of it
has a NUL.** -/
theorem ofSerialized_serialize_iff (c : Entries) :
    ofSerialized c.serialize = c ↔ ∀ it ∈ c.entries, NUL ∉ it.1 ∧ NUL ∉ it.2 := by
  rw [ofSerialized_serialize]
  constructor
  · intro h it hit
    rw [← h] at hit
    have hreturned : ∀ it, NUL ∉ (returnedEntry it).1 ∧ NUL ∉ (returnedEntry it).2 := fun it =>
      ⟨not_mem_returned it.1, not_mem_returned it.2⟩
    exact foldl_set_forall (P := fun str => NUL ∉ str) returnedEntry hreturned c.entries .empty
      (fun e he => absurd he List.not_mem_nil) it hit
  · intro h
    have hsame : c.entries.map returnedEntry = c.entries := by
      refine (List.map_congr_left fun it hit => ?_).trans (List.map_id _)
      rw [returnedEntry, flatMap_returned (h it hit).1, flatMap_returned (h it hit).2]
      rfl
    refine SortedMap.ext ?_
    have hfold := entries_foldl_set c.entries .empty c.sorted
    rw [← hsame, List.foldl_map, hsame] at hfold
    exact hfold

/-- A value of one NUL comes back as a backslash and the digit zero. -/
def nulEntry : Entries := ⟨[([0x61], [NUL])], List.pairwise_singleton _ _⟩

theorem nul_comes_back_otherwise :
    (ofSerialized nulEntry.serialize).entries = [([0x61], [BACKSLASH, 0x30])] ∧
      ¬ ∀ c : Entries, ofSerialized c.serialize = c := by
  have hback : (ofSerialized nulEntry.serialize).entries = [([0x61], [BACKSLASH, 0x30])] := by decide
  refine ⟨hback, fun h => ?_⟩
  rw [h nulEntry] at hback
  exact absurd hback (by decide)

end Far2l.StringConfig
