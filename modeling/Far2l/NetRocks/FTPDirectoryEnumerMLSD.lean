/-
Far2l.NetRocks.FTPDirectoryEnumerMLSD — `FTPDirectoryEnumerMLSD` of
`NetRocks/src/Protocol/FTP/ProtocolFTP.cpp`: a listing that a server prints line by line,
and what the enumerator tells about it.
-/
import Far2l.NetRocks.FTPParseMLST
import Far2l.NetRocks.FTPBaseDirectoryEnumer

namespace Far2l.NetRocks.MLST

open Calendar Numerals FTPDataCommand

/-- `FILENAME_ENUMERABLE`, of a string that a NUL ends -/
def filenameEnumerable (name : Str) : Bool :=
  let ch i := name.getD i 0
  ch 0 ≠ 0 && (ch 0 ≠ 0x2E || (ch 1 ≠ 0 && (ch 1 ≠ 0x2E || ch 2 ≠ 0)))

/-- What `Enum` gives for an entry. -/
structure DirEntry where
  name : Str
  owner : Str
  group : Str
  fileInfo : FileInformation
  deriving DecidableEq

/-- A number in digits of a base up to ten. -/
def number (base n : Nat) : Str := numeral (fun d => UInt8.ofNat (0x30 + d)) base n

/-- `FTPDirectoryEnumerMLSD::OnParseLine` -/
def onParseLine (mktime : Tm → Int) (defaultTime : Int) (line : Str) : Option DirEntry :=
  let (p, name) := parseMLsxLine mktime defaultTime line
  if !p.hasAnyKnown then none
  else if !filenameEnumerable name then none
  else some {
    name := name
    owner := bytes "uid:" ++ number 10 (p.uid.getD 0).toNat
    group := bytes "gid:" ++ number 10 (p.gid.getD 0).toNat
    fileInfo := p.fileInfo }

/-! ## What a server prints -/

def lower (c : Byte) : Byte := if 0x41 ≤ c ∧ c ≤ 0x5A then c + 0x20 else c

/-- The same text, but for the case of its letters. -/
def Spelled (s t : Str) : Prop := s.map lower = t.map lower

inductive Kind where
  | file
  | dir
  | slink (target : Str)

def Kind.bits : Kind → UInt32
  | .file => S_IFREG
  | .dir => S_IFDIR
  | .slink _ => S_IFLNK

/-- An entry of a directory. -/
structure Item where
  kind : Kind
  size : Nat
  mode : Nat
  name : Str

/-- A fact, as it is printed: its name and its value. -/
abbrev Fact : Type := Str × Str

def Fact.text (f : Fact) : Str := f.1 ++ 0x3D :: (f.2 ++ [0x3B])

/-- The fact tells the type. -/
def Kind.Typed (k : Kind) (f : Fact) : Prop :=
  Spelled f.1 (bytes "type") ∧
    match k with
    | .file => Spelled f.2 (bytes "file")
    | .dir => Spelled f.2 (bytes "dir")
    | .slink target => ∃ mark, Spelled mark (bytes "OS.unix=slink:") ∧ f.2 = mark ++ target

/-- Characters that a line may have in a value, or in a name of a file. -/
def Inside (s : Str) : Prop := ∀ c ∈ s, FTPDataCommand.isEol c = false

/-- The fact is none that the enumerator takes a type, a size or a mode from. -/
structure Fact.Other (f : Fact) : Prop where
  name : ∀ c ∈ f.1, c ≠ 0x3B ∧ c ≠ 0x3D ∧ c ≠ 0x20 ∧ FTPDataCommand.isEol c = false
  value : 0x3B ∉ f.2 ∧ Inside f.2
  unknown : ∀ known ∈ ["type", "size", "sizd", "UNIX.mode"], ¬Spelled f.1 (bytes known)

/-- **An entry and how it is printed**: its three facts and other ones, in any order. -/
structure Line where
  item : Item
  facts : List Fact
  typeFact : Fact
  sizeFact : Fact
  modeFact : Fact
  others : List Fact
  facts_perm : facts.Perm (typeFact :: sizeFact :: modeFact :: others)
  typed : item.kind.Typed typeFact
  sized : Spelled sizeFact.1 (bytes "size") ∧ sizeFact.2 = number 10 item.size
  moded : Spelled modeFact.1 (bytes "UNIX.mode") ∧ modeFact.2 = 0x30 :: number 8 item.mode
  other : ∀ f ∈ others, f.Other
  mode_lt : item.mode < 0o10000
  name_ne : item.name ≠ []
  name_inside : Inside item.name
  target_inside : ∀ target, item.kind = .slink target → 0x3B ∉ target ∧ Inside target

/-- `fact=value;...; name` -/
def Line.text (l : Line) : Str := (l.facts.map Fact.text).flatten ++ 0x20 :: l.item.name

/-- `.` or `..` -/
def Item.Dots (i : Item) : Prop := i.name = [0x2E] ∨ i.name = [0x2E, 0x2E]

instance (i : Item) : Decidable i.Dots := inferInstanceAs (Decidable (_ ∨ _))

/-- What is shown of an entry: the name, the size, and the mode with the type. -/
structure Shown where
  name : Str
  size : Nat
  mode : UInt32
  deriving DecidableEq

def DirEntry.shown (e : DirEntry) : Shown := ⟨e.name, e.fileInfo.size.toNat, e.fileInfo.mode⟩

def Item.shown (i : Item) : Shown := ⟨i.name, i.size, i.kind.bits ||| UInt32.ofNat i.mode⟩

/-- The entries that are to be told. -/
def expected (lines : List Line) : List Shown :=
  lines.filterMap fun l => if l.item.Dots then none else some l.item.shown

/-- What is told, with what is shown of an entry. -/
def told {α β : Type} (f : α → β) : Event α → Event β
  | .read len received connected returned => .read len received connected returned
  | .write => .write
  | .writeComplete => .writeComplete
  | .entry e => .entry (f e)
  | .noMore => .noMore
  | .threw => .threw

/-- **A listing is read faithfully**: in whatever pieces it comes, the calls of `Enum` tell its entries one by one,
and then that there are no more. -/
def ReadFaithfully (mktime : Tm → Int) (defaultTime : Int) (control : Str) (lines : List Line) : Prop :=
  ∀ pieces : List { piece : Str // piece ≠ [] }, (pieces.map Subtype.val).flatten = listing (lines.map Line.text) →
    ∀ m, ((enum (onParseLine mktime defaultTime))^[m] (opened ⟨pieces, true⟩ control)).log.map (told DirEntry.shown)
      = ((expected lines).take m).map .entry ++ List.replicate (m - (expected lines).length) .noMore

/-- What an entry must be for its line to be read right. -/
structure Line.Fits (l : Line) : Prop where
  short : Short l.text
  entry : ¬l.item.Dots →
    0x3B ∉ l.item.name ∧ filenameEnumerable l.item.name = true ∧ l.item.size < 2 ^ 63 ∧
      ∀ target, l.item.kind = .slink target → 0x3D ∉ target

/-! ## Letters of any case -/

theorem lower_toNat (c : Byte) :
    (lower c).toNat = if 0x41 ≤ c.toNat ∧ c.toNat ≤ 0x5A then c.toNat + 0x20 else c.toNat := by
  rw [lower]
  simp only [UInt8.le_iff_toNat_le]
  split
  · next h =>
    have h' : 0x41 ≤ c.toNat ∧ c.toNat ≤ 0x5A := h
    rw [if_pos h', UInt8.toNat_add]
    exact Nat.mod_eq_of_lt (show c.toNat + 0x20 < 2 ^ 8 by omega)
  · next h => exact (if_neg h).symm

theorem lower_eq_iff (c d : Byte) : lower c = lower d ↔ caseIgnoreEngChrMatch c d = true := by
  rw [← UInt8.toNat_inj, lower_toNat, lower_toNat, caseIgnoreEngChrMatch]
  simp only [UInt8.le_iff_toNat_le, ← UInt8.toNat_inj, ne_eq]
  have hup : (c + 0x20).toNat = (c.toNat + 0x20) % 2 ^ 8 := UInt8.toNat_add _ _
  have hdown : (c - 0x20).toNat = (2 ^ 8 - 0x20 + c.toNat) % 2 ^ 8 := UInt8.toNat_sub _ _
  rw [hup, hdown]
  have hc := c.toNat_lt
  have hd := d.toNat_lt
  generalize c.toNat = m at *
  generalize d.toNat = n at *
  simp only [show (0x41 : UInt8).toNat = 0x41 from rfl, show (0x5A : UInt8).toNat = 0x5A from rfl,
    show (0x61 : UInt8).toNat = 0x61 from rfl, show (0x7A : UInt8).toNat = 0x7A from rfl]
  split_ifs <;> simp only [decide_eq_true_iff, iff_true, iff_false, Bool.false_eq_true] <;> omega

theorem caseIgnoreEngStrMatch_iff : ∀ {s t : Str}, s.length = t.length →
    (caseIgnoreEngStrMatch s t = true ↔ Spelled s t)
  | [], [], _ => iff_of_true rfl rfl
  | c :: s, d :: t, h => by
    have ih := caseIgnoreEngStrMatch_iff (s := s) (t := t) (Nat.succ.inj h)
    rw [caseIgnoreEngStrMatch, Bool.and_eq_true, ih, ← lower_eq_iff, Spelled, Spelled, List.map_cons, List.map_cons,
      List.cons_eq_cons]

/-- `MATCH_SUBSTR` is to be the same text, whatever the case. -/
theorem matchSubstr_iff (s t : Str) : matchSubstr s t = true ↔ Spelled s t := by
  rw [matchSubstr, Bool.and_eq_true, decide_eq_true_iff]
  constructor
  · intro h
    exact (caseIgnoreEngStrMatch_iff h.1).mp h.2
  · intro h
    have hlength : s.length = t.length := by simpa using congrArg List.length h
    exact ⟨hlength, (caseIgnoreEngStrMatch_iff hlength).mpr h⟩

/-- No letter and another character stand for each other. -/
theorem lower_eq_plain {c d : Byte} (h : lower d = c) (hc : ¬(0x61 ≤ c ∧ c ≤ 0x7A)) : d = c := by
  have hnat := congrArg UInt8.toNat h
  rw [lower_toNat] at hnat
  simp only [UInt8.le_iff_toNat_le] at hc
  have hc' : ¬(0x61 ≤ c.toNat ∧ c.toNat ≤ 0x7A) := hc
  rw [← UInt8.toNat_inj]
  split at hnat
  · omega
  · exact hnat

theorem Spelled.mem {s t : Str} (h : Spelled s t) {c : Byte}
    (hc : ¬(0x41 ≤ c ∧ c ≤ 0x5A) ∧ ¬(0x61 ≤ c ∧ c ≤ 0x7A)) (hmem : c ∈ s) : c ∈ t := by
  have hmap : lower c ∈ t.map lower := by
    rw [← h]
    exact List.mem_map_of_mem hmem
  obtain ⟨d, hd, heq⟩ := List.mem_map.mp hmap
  rw [show lower c = c from if_neg hc.1] at heq
  rwa [← lower_eq_plain heq hc.2]

/-- A character that is no letter. -/
def Plainly (c : Byte) : Prop := ¬(0x41 ≤ c ∧ c ≤ 0x5A) ∧ ¬(0x61 ≤ c ∧ c ≤ 0x7A)

/-! ## What a fact does -/

/-- What matters here of what has been found. -/
structure Core where
  mode : UInt32 := 0
  size : UInt64 := 0
  hasMode : Bool := false
  hasType : Bool := false
  deriving DecidableEq

def Parsed.core (p : Parsed) : Core := ⟨p.fileInfo.mode, p.fileInfo.size, p.hasMode, p.hasType⟩

def Core.parsed (c : Core) : Parsed :=
  { fileInfo := { mode := c.mode, size := c.size }, hasMode := c.hasMode, hasType := c.hasType }

/-- Where the last `'='` of a text is, behind so many characters. -/
def lastEq (n eq : Nat) : Str → Nat
  | [] => eq
  | c :: s => lastEq (n + 1) (if c = 0x3D then n else eq) s

section

variable (mktime : Tm → Int)

/-- The text of a fact, up to its `';'`. -/
def Parsed.onText (p : Parsed) (t : Str) : Parsed :=
  if lastEq 0 0 t > 0 then p.onFact mktime (t.take (lastEq 0 0 t)) (t.drop (lastEq 0 0 t + 1)) else p

/-- What a fact does to what matters. -/
def Core.onText (c : Core) (t : Str) : Core := (c.parsed.onText mktime t).core

theorem parseFacts_chars (p : Parsed) : ∀ (s rest fact : Str) (eq : Nat), 0x3B ∉ s →
    parseFacts mktime p fact eq (s ++ rest) = parseFacts mktime p (fact ++ s) (lastEq fact.length eq s) rest
  | [], _, fact, _, _ => by rw [List.append_nil, List.nil_append, lastEq]
  | c :: s, rest, fact, eq, h => by
    rw [List.mem_cons, not_or] at h
    rw [List.cons_append, parseFacts, lastEq]
    have ih := fun eq => parseFacts_chars p s rest (fact ++ [c]) eq h.2
    rw [List.length_append, List.length_singleton, List.append_assoc, List.singleton_append] at ih
    split
    · rw [ih]
    · rw [if_neg (Ne.symm h.1), ih]

/-- **The facts of a line are taken one by one.** -/
theorem parseFacts_facts : ∀ (facts : List Fact) (p : Parsed) (rest : Str),
    (∀ f ∈ facts, 0x3B ∉ f.1 ∧ 0x3B ∉ f.2) →
    parseFacts mktime p [] 0 ((facts.map Fact.text).flatten ++ rest)
      = parseFacts mktime (facts.foldl (fun p f => p.onText mktime (f.1 ++ 0x3D :: f.2)) p) [] 0 rest
  | [], _, _, _ => rfl
  | f :: facts, p, rest, h => by
    obtain ⟨hname, hvalue⟩ := h f List.mem_cons_self
    have hinside : 0x3B ∉ f.1 ++ 0x3D :: f.2 := by simp [hname, hvalue]
    have hline : ((f :: facts).map Fact.text).flatten ++ rest
        = (f.1 ++ 0x3D :: f.2) ++ 0x3B :: ((facts.map Fact.text).flatten ++ rest) := by simp [Fact.text]
    rw [hline, parseFacts_chars mktime p _ _ _ _ hinside, parseFacts, if_neg (by decide), if_pos rfl, List.nil_append,
      parseFacts_facts facts _ rest fun f hf => h f (List.mem_cons_of_mem _ hf)]
    rfl

/-- The same has been found as far as it matters, and what was known is. -/
structure Alike (p a b : Parsed) : Prop where
  core : a.core = b.core
  known : p.hasAnyKnown = true → a.hasAnyKnown = true

theorem Alike.ite {p a b a' b' : Parsed} {c : Prop} [Decidable c] (h : Alike p a b) (h' : Alike p a' b') :
    Alike p (if c then a else a') (if c then b else b') := by
  split
  · exact h
  · exact h'

/-- What a fact does depends on what matters only, and what is known stays known. -/
theorem core_onFact (p : Parsed) (name value : Str) :
    Alike p (p.onFact mktime name value) (p.core.parsed.onFact mktime name value) := by
  have hnothing : Alike p p p.core.parsed := ⟨rfl, id⟩
  rw [Parsed.onFact, Parsed.onFact]
  refine .ite ⟨rfl, fun _ => rfl⟩ (.ite ⟨rfl, fun _ => rfl⟩ (.ite ⟨rfl, fun _ => rfl⟩ (.ite ⟨rfl, fun _ => rfl⟩
    (.ite ⟨rfl, fun _ => rfl⟩ (.ite ?_ (.ite ⟨rfl, fun _ => rfl⟩ (.ite ⟨rfl, fun _ => rfl⟩ (.ite ?_ hnothing))))))))
  · exact .ite ⟨rfl, fun _ => rfl⟩ (.ite ⟨rfl, fun _ => rfl⟩ hnothing)
  · exact .ite ⟨rfl, fun _ => rfl⟩ hnothing

theorem core_onText (p : Parsed) (t : Str) : (p.onText mktime t).core = p.core.onText mktime t := by
  rw [Core.onText, Parsed.onText, Parsed.onText]
  split
  · exact (core_onFact mktime p _ _).core
  · rfl

theorem core_foldl : ∀ (facts : List Fact) (p : Parsed),
    (facts.foldl (fun p f => p.onText mktime (f.1 ++ 0x3D :: f.2)) p).core
      = facts.foldl (fun c f => c.onText mktime (f.1 ++ 0x3D :: f.2)) p.core
  | [], _ => rfl
  | f :: facts, p => by rw [List.foldl_cons, core_foldl facts, core_onText, List.foldl_cons]

/-- What is known stays known. -/
theorem known_onText (p : Parsed) (t : Str) (h : p.hasAnyKnown = true) : (p.onText mktime t).hasAnyKnown = true := by
  rw [Parsed.onText]
  split
  · exact (core_onFact mktime p _ _).known h
  · exact h

theorem known_foldl : ∀ (facts : List Fact) (p : Parsed),
    (p.hasAnyKnown = true ∨ ∃ f ∈ facts, ∀ p : Parsed, (p.onText mktime (f.1 ++ 0x3D :: f.2)).hasAnyKnown = true) →
    (facts.foldl (fun p f => p.onText mktime (f.1 ++ 0x3D :: f.2)) p).hasAnyKnown = true
  | [], _, h => h.elim id fun ⟨_, hmem, _⟩ => absurd hmem List.not_mem_nil
  | f :: facts, p, h => by
    rw [List.foldl_cons]
    refine known_foldl facts _ ?_
    rcases h with h | ⟨g, hmem, hg⟩
    · exact Or.inl (known_onText mktime p _ h)
    · rcases List.mem_cons.mp hmem with rfl | hmem
      · exact Or.inl (hg p)
      · exact Or.inr ⟨g, hmem, hg⟩

end

/-! ## Which name and value a text has -/

theorem lastEq_plain : ∀ (s : Str) (n eq : Nat), 0x3D ∉ s → lastEq n eq s = eq
  | [], _, _, _ => rfl
  | c :: s, n, eq, h => by
    rw [List.mem_cons, not_or] at h
    rw [lastEq, if_neg (Ne.symm h.1), lastEq_plain s _ _ h.2]

theorem lastEq_append : ∀ (s rest : Str) (n eq : Nat), 0x3D ∉ rest →
    lastEq n eq (s ++ 0x3D :: rest) = n + s.length
  | [], rest, n, eq, h => by
    rw [List.nil_append, lastEq, if_pos rfl, lastEq_plain rest _ _ h]
    rfl
  | c :: s, rest, n, eq, h => by
    rw [List.cons_append, lastEq, lastEq_append s rest _ _ h, List.length_cons]
    omega

section

variable (mktime : Tm → Int)

/-- The last `'='` parts the name from the value. -/
theorem onText_eq (p : Parsed) {name value : Str} (hvalue : 0x3D ∉ value) :
    p.onText mktime (name ++ 0x3D :: value) = if name = [] then p else p.onFact mktime name value := by
  have hlast : lastEq 0 0 (name ++ 0x3D :: value) = name.length := by
    rw [lastEq_append name value 0 0 hvalue, Nat.zero_add]
  have htake : (name ++ 0x3D :: value).take name.length = name := List.take_left
  have hdrop : (name ++ 0x3D :: value).drop (name.length + 1) = value := by
    rw [← List.drop_drop, List.drop_left]
    rfl
  rw [Parsed.onText, hlast, htake, hdrop]
  by_cases hname : name = []
  · rw [if_pos hname, if_neg (by rw [hname]; exact Nat.lt_irrefl 0)]
  · rw [if_neg hname, if_pos (List.length_pos_iff.mpr hname)]

/-- The last character of its kind. -/
theorem split_last {c : Byte} : ∀ {s : Str}, c ∈ s → ∃ a b, s = a ++ c :: b ∧ c ∉ b
  | d :: s, h => by
    by_cases hs : c ∈ s
    · obtain ⟨a, b, rfl, hb⟩ := split_last hs
      exact ⟨d :: a, b, rfl, hb⟩
    · obtain rfl : c = d := (List.mem_cons.mp h).resolve_right hs
      exact ⟨[], s, rfl, hs⟩

/-! ## What the facts of an entry do -/

theorem matchSubstr_congr {s t : Str} (h : Spelled s t) (mtch : Str) : matchSubstr s mtch = matchSubstr t mtch := by
  rw [Bool.eq_iff_iff, matchSubstr_iff, matchSubstr_iff, Spelled, Spelled, h]

theorem onFact_congr {name name' : Str} (h : Spelled name name') (p : Parsed) (value : Str) :
    p.onFact mktime name value = p.onFact mktime name' value := by
  simp only [Parsed.onFact, matchSubstr_congr h]

theorem Spelled.ne_nil {s t : Str} (h : Spelled s t) (ht : t ≠ []) : s ≠ [] := by
  rintro rfl
  exact ht (List.map_eq_nil_iff.mp h.symm)

/-- A fact that is none of the three leaves what matters. -/
theorem onFact_other (c : Core) {name : Str} (value : Str)
    (h : ∀ known ∈ ["type", "size", "sizd", "UNIX.mode", "type=OS.unix"], ¬Spelled name (bytes known)) :
    (c.parsed.onFact mktime name value).core = c := by
  have hnot : ∀ known ∈ ["type", "size", "sizd", "UNIX.mode", "type=OS.unix"],
      ¬matchSubstr name (bytes known) = true := fun known hmem hmatch => h known hmem ((matchSubstr_iff _ _).mp hmatch)
  have hsize : ¬(matchSubstr name (bytes "size") = true ∨ matchSubstr name (bytes "sizd") = true) :=
    fun hmatch => hmatch.elim (hnot "size" (by simp)) (hnot "sizd" (by simp))
  rw [Parsed.onFact, if_neg (hnot "UNIX.mode" (by simp)), if_neg (hnot "type" (by simp)), if_neg hsize,
    if_neg (hnot "type=OS.unix" (by simp))]
  split
  · rfl
  split
  · rfl
  split
  · rfl
  split
  · rfl
  split
  · rfl
  · rfl

/-- How often a character that is no letter stands there does not depend on the case. -/
theorem Spelled.count {s t : Str} (h : Spelled s t) {c : Byte} (hc : Plainly c) : s.count c = t.count c := by
  have hmap : ∀ s : Str, (s.map lower).count c = s.count c := by
    intro s
    induction s with
    | nil => rfl
    | cons d s ih =>
      have hd : lower d = c ↔ d = c :=
        ⟨fun heq => lower_eq_plain heq hc.2, fun heq => by rw [heq]; exact if_neg hc.1⟩
      rw [List.map_cons, List.count_cons, List.count_cons, ih]
      simp only [beq_iff_eq, hd]
  rw [← hmap s, ← hmap t, h]

theorem plainly_eq : Plainly 0x3D := by
  constructor <;> decide

/-- **Another fact changes nothing**, whatever its value is. -/
theorem Fact.Other.onText {f : Fact} (h : f.Other) (c : Core) : c.onText mktime (f.1 ++ 0x3D :: f.2) = c := by
  have hname : 0x3D ∉ f.1 := fun hmem => (h.name _ hmem).2.1 rfl
  by_cases hvalue : 0x3D ∈ f.2
  · obtain ⟨a, b, hsplit, hb⟩ := split_last hvalue
    rw [hsplit, show f.1 ++ 0x3D :: (a ++ 0x3D :: b) = (f.1 ++ 0x3D :: a) ++ 0x3D :: b by simp, Core.onText,
      onText_eq mktime _ hb, if_neg (by simp)]
    refine onFact_other mktime c b fun known hmem hspelled => ?_
    have hmany : (bytes known).count 0x3D ≠ 0 := by
      rw [← hspelled.count plainly_eq]
      simp
    simp only [List.mem_cons, List.not_mem_nil, or_false] at hmem
    rcases hmem with rfl | rfl | rfl | rfl | rfl
    · exact hmany rfl
    · exact hmany rfl
    · exact hmany rfl
    · exact hmany rfl
    · refine h.unknown "type" (by simp) ?_
      have hparts : (bytes "type").map lower ++ 0x3D :: (bytes "OS.unix").map lower
          = f.1.map lower ++ 0x3D :: a.map lower := by
        rw [Spelled, List.map_append, List.map_cons] at hspelled
        exact hspelled.symm
      have hlower : ∀ {s : Str}, 0x3D ∉ s → 0x3D ∉ s.map lower := fun hs hmem => by
        obtain ⟨d, hd, heq⟩ := List.mem_map.mp hmem
        exact hs (lower_eq_plain heq plainly_eq.2 ▸ hd)
      exact ((List.append_cons_inj_of_notMem (hlower (by decide)) (hlower (by decide))).mp hparts).1.symm
  · rw [Core.onText, onText_eq mktime _ hvalue]
    split
    · rfl
    · refine onFact_other mktime c _ fun known hmem hspelled => ?_
      have hnone : (bytes known).count 0x3D = 0 := by
        rw [← hspelled.count plainly_eq]
        exact List.count_eq_zero_of_not_mem hname
      simp only [List.mem_cons, List.not_mem_nil, or_false] at hmem
      rcases hmem with rfl | rfl | rfl | rfl | rfl
      · exact h.unknown "type" (by simp) hspelled
      · exact h.unknown "size" (by simp) hspelled
      · exact h.unknown "sizd" (by simp) hspelled
      · exact h.unknown "UNIX.mode" (by simp) hspelled
      · exact absurd hnone (by decide)

/-! ### The size and the mode -/

theorem number_toNat (base n : Nat) (hbase : 1 < base) (hle : base ≤ 10) :
    (number base n).map UInt8.toNat = numeral IntStrConv.digitCode base n := by
  rw [number, map_numeral]
  refine numeral_congr hbase fun d hd => ?_
  have hd10 : d < 10 := by omega
  interval_cases d <;> rfl

/-- A number that fits is read. -/
theorem toUInt64_ofInt {n : Nat} (h : n < 2 ^ 63) : (Int64.ofInt n).toUInt64.toNat = n := by
  show (BitVec.ofInt 64 (n : Int)).toNat = n
  rw [BitVec.ofInt_natCast, BitVec.toNat_ofNat]
  exact Nat.mod_eq_of_lt (by omega)

theorem strtol_number (n : Nat) : (strtol (number 10 n) 10).toUInt64.toNat = min (2 ^ 63 - 1) n := by
  rw [strtol, number_toNat 10 n (by decide) (by decide), IntStrConv.strtol,
    IntStrConv.scanNumber_numeral (by decide) (by decide)]
  have hmin : min (2 ^ 63 - 1 : Int) (n : Int) = ((min (2 ^ 63 - 1) n : Nat) : Int) := by omega
  dsimp only
  rw [if_neg Bool.false_ne_true, hmin, toUInt64_ofInt (by omega)]

theorem strtol_octal {n : Nat} (h : n < 0o10000) :
    (strtol (0x30 :: number 8 n) 8).toUInt64.toUInt32 = UInt32.ofNat n := by
  have hdigit : ∀ d, d < 8 → IntStrConv.digitOf (IntStrConv.digitCode d) = d := fun d hd =>
    IntStrConv.digitOf_digitCode (by omega)
  have hscan : IntStrConv.scanNumber 8 (0x30 :: numeral IntStrConv.digitCode 8 n) = (false, n) := by
    have hdigits : ∀ c ∈ 0x30 :: numeral IntStrConv.digitCode 8 n, IntStrConv.digitOf c < 8 := by
      intro c hc
      rcases List.mem_cons.mp hc with rfl | hc
      · decide
      · obtain ⟨d, hd, rfl⟩ := mem_numeral (by decide) hc
        rw [hdigit d hd]
        exact hd
    have hvalue : leadingValue IntStrConv.digitOf 8 (0x30 :: numeral IntStrConv.digitCode 8 n) = n := by
      rw [leadingValue_of_digits hdigits]
      exact (value_zeros (by decide) 1 _).trans (value_numeral (by decide) hdigit)
    rw [IntStrConv.scanNumber, List.dropWhile_cons_of_neg (by decide), List.head?_cons, if_neg (by decide),
      if_neg (by decide), hvalue]
    rfl
  rw [strtol, List.map_cons, number_toNat 8 n (by decide) (by decide), IntStrConv.strtol,
    show (0x30 : Byte).toNat = 0x30 from rfl, hscan]
  have hmin : min (2 ^ 63 - 1 : Int) (n : Int) = (n : Int) := by omega
  dsimp only
  rw [if_neg Bool.false_ne_true, hmin, ← UInt32.toNat_inj, UInt64.toNat_toUInt32, toUInt64_ofInt (by omega),
    UInt32.toNat_ofNat']

/-- What the fact of the size does. -/
theorem onText_size (p : Parsed) {f : Fact} {n : Nat} (h : Spelled f.1 (bytes "size") ∧ f.2 = number 10 n) :
    p.onText mktime (f.1 ++ 0x3D :: f.2) =
      { p with
        fileInfo := { p.fileInfo with size := (strtol (number 10 n) 10).toUInt64 }
        hasAnyKnown := true } := by
  have hvalue : 0x3D ∉ f.2 := by
    rw [h.2]
    intro hmem
    obtain ⟨d, hd, heq⟩ := mem_numeral (by decide) hmem
    interval_cases d <;> exact absurd heq (by decide)
  rw [onText_eq mktime p hvalue, if_neg (h.1.ne_nil (by decide)), onFact_congr mktime h.1, h.2]
  rfl

/-- What the fact of the mode does. -/
theorem onText_mode (p : Parsed) {f : Fact} {n : Nat} (hn : n < 0o10000)
    (h : Spelled f.1 (bytes "UNIX.mode") ∧ f.2 = 0x30 :: number 8 n) :
    p.onText mktime (f.1 ++ 0x3D :: f.2) =
      { p.orMode (UInt32.ofNat n) with hasAnyKnown := true, hasMode := true } := by
  have hvalue : 0x3D ∉ f.2 := by
    rw [h.2, List.mem_cons, not_or]
    refine ⟨by decide, fun hmem => ?_⟩
    obtain ⟨d, hd, heq⟩ := mem_numeral (by decide) hmem
    interval_cases d <;> exact absurd heq (by decide)
  rw [onText_eq mktime p hvalue, if_neg (h.1.ne_nil (by decide)), onFact_congr mktime h.1, h.2, ← strtol_octal hn]
  rfl

/-! ### The type -/

theorem caseIgnoreEngStrMatch_append : ∀ {s t : Str} (rest : Str), s.length = t.length →
    caseIgnoreEngStrMatch (s ++ rest) t = caseIgnoreEngStrMatch s t
  | [], [], rest, _ => by cases rest <;> rfl
  | c :: s, d :: t, rest, h => by
    rw [List.cons_append, caseIgnoreEngStrMatch, caseIgnoreEngStrMatch,
      caseIgnoreEngStrMatch_append rest (Nat.succ.inj h)]

/-- The type as `OS.unix=slink:` tells it, taken apart. -/
theorem spelled_mark {mark : Str} (h : Spelled mark (bytes "OS.unix=slink:")) :
    ∃ os slink, mark = os ++ 0x3D :: slink ∧ Spelled os (bytes "OS.unix") ∧ Spelled slink (bytes "slink:") := by
  have hmap : mark.map lower = (bytes "OS.unix").map lower ++ 0x3D :: (bytes "slink:").map lower := h
  obtain ⟨os, rest, rfl, hos, hrest⟩ := List.map_eq_append_iff.mp hmap
  obtain ⟨c, slink, rfl, hc, hslink⟩ := List.map_eq_cons_iff.mp hrest
  obtain rfl : c = 0x3D := lower_eq_plain hc plainly_eq.2
  exact ⟨os, slink, rfl, hos, hslink⟩

/-- **What the fact of the type does**, where no `'='` is in the target of a link. -/
theorem onText_typed (c : Core) {k : Kind} {f : Fact} (h : k.Typed f)
    (htarget : ∀ target, k = .slink target → 0x3D ∉ target) :
    c.onText mktime (f.1 ++ 0x3D :: f.2) = { c with mode := c.mode ||| k.bits, hasType := true } := by
  obtain ⟨hname, hvalue⟩ := h
  have hplain : ∀ {s : String}, 0x3D ∉ bytes s → Spelled f.2 (bytes s) → 0x3D ∉ f.2 := fun hs hspelled hmem =>
    hs (hspelled.mem plainly_eq hmem)
  cases k with
  | file =>
    rw [Core.onText, onText_eq mktime _ (hplain (by decide) hvalue), if_neg (hname.ne_nil (by decide)),
      onFact_congr mktime hname]
    show (if matchSubstr f.2 (bytes "file") = true then _ else _ : Parsed).core = _
    rw [if_pos ((matchSubstr_iff _ _).mpr hvalue)]
    rfl
  | dir =>
    rw [Core.onText, onText_eq mktime _ (hplain (by decide) hvalue), if_neg (hname.ne_nil (by decide)),
      onFact_congr mktime hname]
    show (if matchSubstr f.2 (bytes "file") = true then _ else if _ then _ else _ : Parsed).core = _
    rw [matchSubstr_congr hvalue, if_neg (by decide), if_pos (.inl ((matchSubstr_iff _ _).mpr hvalue))]
    rfl
  | slink target =>
    obtain ⟨mark, hmark, hsplit⟩ := hvalue
    obtain ⟨os, slink, rfl, hos, hslink⟩ := spelled_mark hmark
    have hlast : 0x3D ∉ slink ++ target := by
      rw [List.mem_append, not_or]
      exact ⟨fun hmem => absurd (hslink.mem plainly_eq hmem) (by decide), htarget target rfl⟩
    have htext : f.1 ++ 0x3D :: f.2 = (f.1 ++ 0x3D :: os) ++ 0x3D :: (slink ++ target) := by
      rw [hsplit]
      simp
    have hunix : Spelled (f.1 ++ 0x3D :: os) (bytes "type=OS.unix") := by
      rw [Spelled, List.map_append, List.map_cons, hname, hos]
      rfl
    have hlength : slink.length = 6 := by simpa [bytes] using congrArg List.length hslink
    have hmatch : caseIgnoreEngStrMatch (slink ++ target) (bytes "slink:") = true := by
      rw [caseIgnoreEngStrMatch_append target hlength]
      exact (caseIgnoreEngStrMatch_iff hlength).mpr hslink
    rw [Core.onText, htext, onText_eq mktime _ hlast, if_neg (by simp), onFact_congr mktime hunix]
    show (if (slink ++ target).length ≥ 6 ∧ caseIgnoreEngStrMatch (slink ++ target) (bytes "slink:") = true then _
      else _ : Parsed).core = _
    rw [if_pos ⟨by rw [List.length_append]; omega, hmatch⟩]
    rfl

/-- **An `'='` in the target hides the type.** -/
theorem onText_untyped (c : Core) {target : Str} {f : Fact} (h : (Kind.slink target).Typed f) (htarget : 0x3D ∈ target) :
    c.onText mktime (f.1 ++ 0x3D :: f.2) = c := by
  obtain ⟨hname, mark, hmark, hsplit⟩ := h
  obtain ⟨a, b, rfl, hb⟩ := split_last htarget
  have htext : f.1 ++ 0x3D :: f.2 = (f.1 ++ 0x3D :: (mark ++ a)) ++ 0x3D :: b := by
    rw [hsplit]
    simp
  rw [htext, Core.onText, onText_eq mktime _ hb, if_neg (by simp)]
  refine onFact_other mktime c b fun known hmem hspelled => ?_
  have hcount : 2 ≤ (bytes known).count 0x3D := by
    have hmark' : mark.count 0x3D = 1 := hmark.count plainly_eq
    rw [← hspelled.count plainly_eq, List.count_append, List.count_cons_self, List.count_append, hmark']
    omega
  simp only [List.mem_cons, List.not_mem_nil, or_false] at hmem
  rcases hmem with rfl | rfl | rfl | rfl | rfl <;> exact absurd hcount (by decide)

/-! ## What the facts of a line come to -/

/-- The order of the facts does not matter. -/
theorem foldl_facts {act : Core → Fact → Core} {facts others : List Fact} {t s m : Fact} {bits mode : UInt32}
    {size : UInt64} {typed : Bool} (hperm : facts.Perm (t :: s :: m :: others))
    (ht : ∀ c, act c t = { c with mode := c.mode ||| bits, hasType := c.hasType || typed })
    (hs : ∀ c, act c s = { c with size := size })
    (hm : ∀ c, act c m = { c with mode := c.mode ||| mode, hasMode := true })
    (hothers : ∀ f ∈ others, ∀ c, act c f = c) :
    facts.foldl act {} = ⟨bits ||| mode, size, true, typed⟩ := by
  have hcases : ∀ f ∈ facts, f ∉ others → f = t ∨ f = s ∨ f = m := by
    intro f hf hnot
    simpa [hnot] using hperm.mem_iff.mp hf
  have hrest : ∀ (fs : List Fact), (∀ f ∈ fs, f ∈ others) → ∀ c, fs.foldl act c = c := by
    intro fs
    induction fs with
    | nil => exact fun _ _ => rfl
    | cons f fs ih =>
      intro hfs c
      rw [List.foldl_cons, hothers f (hfs f List.mem_cons_self), ih fun g hg => hfs g (List.mem_cons_of_mem _ hg)]
  have hcomm : ∀ x ∈ facts, ∀ y ∈ facts, ∀ c, act (act c x) y = act (act c y) x := by
    intro x hx y hy c
    by_cases hxo : x ∈ others
    · rw [hothers x hxo, hothers x hxo]
    by_cases hyo : y ∈ others
    · rw [hothers y hyo, hothers y hyo]
    have hor : ∀ a b d : UInt32, a ||| b ||| d = a ||| d ||| b := fun a b d => by
      rw [UInt32.or_assoc, UInt32.or_comm b, UInt32.or_assoc]
    rcases hcases x hx hxo with rfl | rfl | rfl <;> rcases hcases y hy hyo with rfl | rfl | rfl <;>
      simp only [ht, hs, hm, hor c.mode bits mode]
  rw [hperm.foldl_eq' hcomm, List.foldl_cons, List.foldl_cons, List.foldl_cons, ht, hs, hm, hrest others fun _ h => h]
  simp

end

/-! ## Lines -/

/-- No character ends a fact or a line. -/
def Clean (s : Str) : Prop := 0x3B ∉ s ∧ Inside s

theorem inside_iff (s : Str) : Inside s ↔ 0x0D ∉ s ∧ 0x0A ∉ s := by
  constructor
  · exact fun h => ⟨fun hmem => Bool.noConfusion ((h _ hmem).symm.trans rfl),
      fun hmem => Bool.noConfusion ((h _ hmem).symm.trans rfl)⟩
  · intro h c hc
    rw [FTPDataCommand.isEol, decide_eq_false_iff_not]
    rintro (rfl | rfl)
    · exact h.1 hc
    · exact h.2 hc

instance (s : Str) : Decidable (Inside s) := decidable_of_iff _ (inside_iff s).symm

instance (s : Str) : Decidable (Clean s) := inferInstanceAs (Decidable (_ ∧ _))

theorem Spelled.clean {s t : Str} (h : Spelled s t) (ht : Clean t) : Clean s := by
  obtain ⟨hsemi, hinside⟩ := ht
  rw [inside_iff] at hinside
  refine ⟨fun hmem => hsemi (h.mem (by constructor <;> decide) hmem), (inside_iff s).mpr ⟨?_, ?_⟩⟩
  · exact fun hmem => hinside.1 (h.mem (by constructor <;> decide) hmem)
  · exact fun hmem => hinside.2 (h.mem (by constructor <;> decide) hmem)

theorem Clean.append {s t : Str} (hs : Clean s) (ht : Clean t) : Clean (s ++ t) :=
  ⟨by rw [List.mem_append, not_or]; exact ⟨hs.1, ht.1⟩, fun c hc => (List.mem_append.mp hc).elim (hs.2 c) (ht.2 c)⟩

theorem number_clean {base : Nat} (hbase : 1 < base) (hle : base ≤ 10) (n : Nat) : Clean (number base n) := by
  have hdigit : ∀ c ∈ number base n, c ≠ 0x3B ∧ FTPDataCommand.isEol c = false := by
    intro c hc
    obtain ⟨d, hd, rfl⟩ := mem_numeral hbase hc
    have hd10 : d < 10 := by omega
    interval_cases d <;> decide
  exact ⟨fun hmem => (hdigit _ hmem).1 rfl, fun c hc => (hdigit c hc).2⟩

namespace Line

variable (l : Line)

theorem fact_clean : ∀ f ∈ l.facts, 0x20 ∉ f.1 ∧ Clean f.1 ∧ Clean f.2 := by
  have hspace : ∀ {s : Str} {t : String}, Spelled s (bytes t) → 0x20 ∉ bytes t → 0x20 ∉ s := fun h ht hmem =>
    ht (h.mem (by constructor <;> decide) hmem)
  intro f hf
  rcases List.mem_cons.mp (l.facts_perm.mem_iff.mp hf) with rfl | hf
  · obtain ⟨hname, hvalue⟩ := l.typed
    refine ⟨hspace hname (by decide), hname.clean (by decide), ?_⟩
    cases hkind : l.item.kind with
    | file =>
      rw [hkind] at hvalue
      exact hvalue.clean (by decide)
    | dir =>
      rw [hkind] at hvalue
      exact hvalue.clean (by decide)
    | slink target =>
      rw [hkind] at hvalue
      obtain ⟨mark, hmark, hsplit⟩ := hvalue
      rw [hsplit]
      exact (hmark.clean (by decide)).append (l.target_inside target hkind)
  rcases List.mem_cons.mp hf with rfl | hf
  · obtain ⟨hname, hvalue⟩ := l.sized
    rw [hvalue]
    exact ⟨hspace hname (by decide), hname.clean (by decide), number_clean (by decide) (by decide) _⟩
  rcases List.mem_cons.mp hf with rfl | hf
  · obtain ⟨hname, hvalue⟩ := l.moded
    rw [hvalue]
    exact ⟨hspace hname (by decide), hname.clean (by decide),
      (by decide : Clean [0x30]).append (number_clean (by decide) (by decide) _)⟩
  · have hother := l.other f hf
    exact ⟨fun hmem => (hother.name _ hmem).2.2.1 rfl,
      ⟨fun hmem => (hother.name _ hmem).1 rfl, fun c hc => (hother.name c hc).2.2.2⟩, hother.value⟩

/-- A line is one line. -/
theorem text_plain : Plain l.text := by
  refine ⟨by simp [text], fun c hc => ?_⟩
  rcases List.mem_append.mp hc with hc | hc
  · obtain ⟨t, ht, hc⟩ := List.mem_flatten.mp hc
    obtain ⟨f, hf, rfl⟩ := List.mem_map.mp ht
    obtain ⟨-, hname, hvalue⟩ := l.fact_clean f hf
    rcases List.mem_append.mp hc with hc | hc
    · exact hname.2 c hc
    rcases List.mem_cons.mp hc with rfl | hc
    · rfl
    rcases List.mem_append.mp hc with hc | hc
    · exact hvalue.2 c hc
    · obtain rfl := List.mem_singleton.mp hc
      rfl
  · rcases List.mem_cons.mp hc with rfl | hc
    · rfl
    · exact l.name_inside c hc

/-- A line does not begin with a space. -/
theorem dropWhile_text : l.text.dropWhile (· = 0x20) = l.text := by
  obtain ⟨f, facts, hfacts⟩ := List.exists_cons_of_ne_nil
    (show l.facts ≠ [] from fun hnil => by simpa [hnil] using l.facts_perm)
  obtain ⟨hspace, -⟩ := l.fact_clean f (by rw [hfacts]; exact List.mem_cons_self)
  rw [text, hfacts, List.map_cons, List.flatten_cons, Fact.text]
  cases hname : f.1 with
  | nil => rfl
  | cons c name =>
    rw [hname, List.mem_cons, not_or] at hspace
    exact List.dropWhile_cons_of_neg (by simpa using Ne.symm hspace.1)

section

variable (mktime : Tm → Int)

/-- What has been found when the facts are over. -/
def found : Parsed := l.facts.foldl (fun p f => p.onText mktime (f.1 ++ 0x3D :: f.2)) {}

theorem parseFacts_text (defaultTime : Int) :
    parseMLsxLine mktime defaultTime l.text =
      ((((parseFacts mktime (l.found mktime) [] 0 (0x20 :: l.item.name)).1.guessType.guessMode).guessTimes defaultTime),
        if (parseFacts mktime (l.found mktime) [] 0 (0x20 :: l.item.name)).2.head? = some 0x20 then
          (parseFacts mktime (l.found mktime) [] 0 (0x20 :: l.item.name)).2.tail
        else (parseFacts mktime (l.found mktime) [] 0 (0x20 :: l.item.name)).2) := by
  have hfacts := parseFacts_facts mktime l.facts {} (0x20 :: l.item.name) fun f hf =>
    ⟨(l.fact_clean f hf).2.1.1, (l.fact_clean f hf).2.2.1⟩
  rw [parseMLsxLine, dropWhile_text, text, hfacts]
  rfl

theorem found_known : (l.found mktime).hasAnyKnown = true := by
  refine known_foldl mktime l.facts {} (Or.inr ⟨l.sizeFact, ?_, fun p => ?_⟩)
  · exact l.facts_perm.mem_iff.mpr (List.mem_cons_of_mem _ List.mem_cons_self)
  · rw [onText_size mktime p l.sized]

/-- **What the facts come to**; a target with an `'='` leaves the type open. -/
theorem found_core :
    (l.found mktime).core.size.toNat = min (2 ^ 63 - 1) l.item.size ∧ (l.found mktime).core.hasMode = true ∧
      ((∀ target, l.item.kind = .slink target → 0x3D ∉ target) →
        (l.found mktime).core.mode = l.item.kind.bits ||| UInt32.ofNat l.item.mode ∧
          (l.found mktime).core.hasType = true) ∧
      ∀ target, l.item.kind = .slink target → 0x3D ∈ target →
        (l.found mktime).core.mode = UInt32.ofNat l.item.mode ∧ (l.found mktime).core.hasType = false := by
  have hsize : ∀ c : Core, c.onText mktime (l.sizeFact.1 ++ 0x3D :: l.sizeFact.2)
      = { c with size := (strtol (number 10 l.item.size) 10).toUInt64 } := fun c => by
    rw [Core.onText, onText_size mktime _ l.sized]
    rfl
  have hmode : ∀ c : Core, c.onText mktime (l.modeFact.1 ++ 0x3D :: l.modeFact.2)
      = { c with mode := c.mode ||| UInt32.ofNat l.item.mode, hasMode := true } := fun c => by
    rw [Core.onText, onText_mode mktime _ l.mode_lt l.moded]
    rfl
  have hothers : ∀ f ∈ l.others, ∀ c : Core, c.onText mktime (f.1 ++ 0x3D :: f.2) = c :=
    fun f hf c => (l.other f hf).onText mktime c
  have hcore : (l.found mktime).core = l.facts.foldl (fun c f => c.onText mktime (f.1 ++ 0x3D :: f.2)) {} :=
    core_foldl mktime l.facts {}
  by_cases htarget : ∀ target, l.item.kind = .slink target → 0x3D ∉ target
  · have htype : ∀ c : Core, c.onText mktime (l.typeFact.1 ++ 0x3D :: l.typeFact.2)
        = { c with mode := c.mode ||| l.item.kind.bits, hasType := c.hasType || true } := fun c => by
      rw [onText_typed mktime c l.typed htarget, Bool.or_true]
    have hfound := foldl_facts l.facts_perm htype hsize hmode hothers
    rw [hcore, hfound]
    refine ⟨strtol_number _, rfl, fun _ => ⟨rfl, rfl⟩, fun target hkind hmem => absurd hmem (htarget target hkind)⟩
  · obtain ⟨target, hkind, hmem⟩ : ∃ target, l.item.kind = .slink target ∧ 0x3D ∈ target := by
      simpa using htarget
    have htyped := l.typed
    rw [hkind] at htyped
    have htype : ∀ c : Core, c.onText mktime (l.typeFact.1 ++ 0x3D :: l.typeFact.2)
        = { c with mode := c.mode ||| 0, hasType := c.hasType || false } := fun c => by
      rw [onText_untyped mktime c htyped hmem, Bool.or_false, UInt32.or_zero]
    have hfound := foldl_facts l.facts_perm htype hsize hmode hothers
    rw [hcore, hfound]
    exact ⟨strtol_number _, rfl, fun h => absurd h htarget, fun _ _ _ => ⟨UInt32.zero_or, rfl⟩⟩

/-! ### What is guessed -/

theorem guessTimes_kept (p : Parsed) (defaultTime : Int) :
    (p.guessTimes defaultTime).core = p.core ∧ (p.guessTimes defaultTime).hasAnyKnown = p.hasAnyKnown := by
  unfold Parsed.guessTimes
  dsimp only
  split
  · exact ⟨rfl, rfl⟩
  split
  · exact ⟨rfl, rfl⟩
  · exact ⟨rfl, rfl⟩

/-- Where the mode and the type are told, nothing is guessed. -/
theorem guess_kept {p : Parsed} (hmode : p.hasMode = true) (htype : p.hasType = true) :
    p.guessType.guessMode = p := by
  rw [Parsed.guessType, if_pos htype, Parsed.guessMode, if_pos hmode]

/-- Where the type is not told, it is a file's or a directory's. -/
theorem guess_type {p : Parsed} (hmode : p.hasMode = true) (htype : p.hasType = false) :
    p.guessType.guessMode = p.orMode S_IFREG ∨ p.guessType.guessMode = p.orMode S_IFDIR := by
  have hkept : ∀ mode, (p.orMode mode).guessMode = p.orMode mode := fun mode => by
    rw [Parsed.guessMode]
    exact if_pos hmode
  rw [Parsed.guessType, htype, if_neg Bool.false_ne_true]
  split
  · split
    · exact Or.inr (hkept _)
    · exact Or.inl (hkept _)
  · exact Or.inl (hkept _)

/-- A mode has no type in it. -/
theorem type_of_mode {n : Nat} (hn : n < 0o10000) (bits : UInt32) :
    (UInt32.ofNat n ||| bits) &&& S_IFMT = bits &&& S_IFMT := by
  have hnone : UInt32.ofNat n &&& S_IFMT = 0 := by
    rw [← UInt32.toNat_inj, UInt32.toNat_and, UInt32.toNat_ofNat', Nat.mod_eq_of_lt (by omega)]
    refine Nat.eq_of_testBit_eq fun i => ?_
    rw [Nat.testBit_and]
    by_cases hi : i < 12
    · have hbit : S_IFMT.toNat.testBit i = false := by
        interval_cases i <;> rfl
      rw [hbit, Bool.and_false]
      exact (Nat.zero_testBit i).symm
    · have hbit : n.testBit i = false :=
        Nat.testBit_lt_two_pow (Nat.lt_of_lt_of_le hn (Nat.pow_le_pow_right Nat.two_pos (Nat.le_of_not_lt hi)))
      rw [hbit, Bool.false_and]
      exact (Nat.zero_testBit i).symm
  have hdistrib : (UInt32.ofNat n ||| bits) &&& S_IFMT = (UInt32.ofNat n &&& S_IFMT) ||| (bits &&& S_IFMT) := by
    rw [← UInt32.toNat_inj, UInt32.toNat_and, UInt32.toNat_or, UInt32.toNat_or, UInt32.toNat_and, UInt32.toNat_and,
      Nat.and_or_distrib_right]
  rw [hdistrib, hnone, UInt32.zero_or]

/-- **A line whose name has no `';'`**: the name is read, the size as far as it fits, and the mode with the type if
no `'='` is in the target. -/
theorem parse_text (defaultTime : Int) (hname : 0x3B ∉ l.item.name) :
    ∃ p, parseMLsxLine mktime defaultTime l.text = (p, l.item.name) ∧ p.hasAnyKnown = true ∧
      p.fileInfo.size.toNat = min (2 ^ 63 - 1) l.item.size ∧
      (p.fileInfo.mode = l.item.kind.bits ||| UInt32.ofNat l.item.mode ↔
        ∀ target, l.item.kind = .slink target → 0x3D ∉ target) := by
  have hrest : parseFacts mktime (l.found mktime) [] 0 (0x20 :: l.item.name) = (l.found mktime, 0x20 :: l.item.name) :=
    parseFacts_name mktime _ _ _ (by simpa using hname)
  have hknown := l.found_known mktime
  obtain ⟨hsize, hmode, hplain, hhidden⟩ := l.found_core mktime
  rw [parseFacts_text, hrest]
  by_cases htarget : ∀ target, l.item.kind = .slink target → 0x3D ∉ target
  · obtain ⟨hbits, htype⟩ := hplain htarget
    obtain ⟨hcore, hknown'⟩ := guessTimes_kept (l.found mktime) defaultTime
    dsimp only
    rw [guess_kept hmode htype]
    refine ⟨_, rfl, hknown'.trans hknown, ?_, iff_of_true ?_ htarget⟩
    · exact (congrArg (fun c : Core => c.size.toNat) hcore).trans hsize
    · exact (congrArg Core.mode hcore).trans hbits
  · obtain ⟨target, hkind, hmem⟩ : ∃ target, l.item.kind = .slink target ∧ 0x3D ∈ target := by
      simpa using htarget
    obtain ⟨hbits, htype⟩ := hhidden target hkind hmem
    obtain ⟨hcore, hknown'⟩ := guessTimes_kept (l.found mktime).guessType.guessMode defaultTime
    -- the type is a file's or a directory's, and not a link's
    have hguess : ∀ bits : UInt32, bits &&& S_IFMT ≠ S_IFLNK &&& S_IFMT →
        (l.found mktime).guessType.guessMode = (l.found mktime).orMode bits →
        (l.found mktime).guessType.guessMode.hasAnyKnown = true ∧
          (l.found mktime).guessType.guessMode.core.size = (l.found mktime).core.size ∧
          (l.found mktime).guessType.guessMode.core.mode ≠ l.item.kind.bits ||| UInt32.ofNat l.item.mode := by
      intro bits hbits' hguess
      rw [hguess]
      refine ⟨hknown, rfl, fun heq => hbits' ?_⟩
      have hmode' : (l.found mktime).core.mode ||| bits = l.item.kind.bits ||| UInt32.ofNat l.item.mode := heq
      rw [hbits, UInt32.or_comm _ (UInt32.ofNat l.item.mode), hkind] at hmode'
      rw [← type_of_mode l.mode_lt bits, hmode', type_of_mode l.mode_lt]
      rfl
    have hboth := (guess_type hmode htype).elim (hguess S_IFREG (by decide)) (hguess S_IFDIR (by decide))
    dsimp only
    refine ⟨_, rfl, hknown'.trans hboth.1, ?_, iff_of_false ?_ htarget⟩
    · exact (congrArg (fun c : Core => c.size.toNat) hcore).trans ((congrArg UInt64.toNat hboth.2.1).trans hsize)
    · exact fun heq => hboth.2.2 ((congrArg Core.mode hcore).symm.trans heq)

end

end Line

/-! ## What is told of a line -/

theorem parseFacts_length (mktime : Tm → Int) : ∀ (s : Str) (p : Parsed) (fact : Str) (eq : Nat),
    (parseFacts mktime p fact eq s).2.length ≤ fact.length + s.length ∧
      (0x3B ∈ s → (parseFacts mktime p fact eq s).2.length < s.length)
  | [], _, fact, _ => ⟨Nat.le_refl _, fun h => absurd h List.not_mem_nil⟩
  | c :: s, p, fact, eq => by
    have ih := parseFacts_length mktime s
    rw [parseFacts, List.length_cons]
    split
    · next heq =>
      obtain ⟨hle, hlt⟩ := ih p (fact ++ [c]) fact.length
      rw [List.length_append, List.length_singleton] at hle
      refine ⟨by omega, fun hmem => ?_⟩
      have := hlt ((List.mem_cons.mp hmem).resolve_left fun h => by rw [heq] at h; exact absurd h (by decide))
      omega
    split
    · have hle := (ih (if eq > 0 then p.onFact mktime (fact.take eq) (fact.drop (eq + 1)) else p) [] 0).1
      rw [List.length_nil] at hle
      exact ⟨by omega, fun _ => by omega⟩
    · next hsemi =>
      obtain ⟨hle, hlt⟩ := ih p (fact ++ [c]) eq
      rw [List.length_append, List.length_singleton] at hle
      refine ⟨by omega, fun hmem => ?_⟩
      have := hlt ((List.mem_cons.mp hmem).resolve_left fun h => hsemi h.symm)
      omega

section

variable (mktime : Tm → Int) (defaultTime : Int) (l : Line)

/-- **A `';'` in the name cuts it.** -/
theorem cut_name (hname : 0x3B ∈ l.item.name) :
    (parseMLsxLine mktime defaultTime l.text).2.length < l.item.name.length := by
  rw [l.parseFacts_text]
  have hlt : (parseFacts mktime (l.found mktime) [] 0 (0x20 :: l.item.name)).2.length < l.item.name.length := by
    rw [parseFacts, if_neg (by decide), if_neg (by decide)]
    exact (parseFacts_length mktime l.item.name _ _ _).2 hname
  dsimp only
  split
  · rw [List.length_tail]
    omega
  · exact hlt

/-- Nothing is told of `.` and `..`. -/
theorem onParseLine_dots (h : l.item.Dots) : onParseLine mktime defaultTime l.text = none := by
  have hname : 0x3B ∉ l.item.name ∧ filenameEnumerable l.item.name = false := by
    rcases h with h | h <;> rw [h] <;> decide
  obtain ⟨p, hparse, hknown, -⟩ := l.parse_text mktime defaultTime hname.1
  rw [onParseLine, hparse]
  dsimp only
  rw [hknown, hname.2]
  rfl

/-- **When an entry is told as it is.** -/
theorem onParseLine_iff :
    (onParseLine mktime defaultTime l.text).map DirEntry.shown = some l.item.shown ↔
      0x3B ∉ l.item.name ∧ filenameEnumerable l.item.name = true ∧ l.item.size < 2 ^ 63 ∧
        ∀ target, l.item.kind = .slink target → 0x3D ∉ target := by
  by_cases hname : 0x3B ∈ l.item.name
  · refine iff_of_false (fun h => ?_) fun h => h.1 hname
    obtain ⟨e, he, hshown⟩ := Option.map_eq_some_iff.mp h
    have hlt := cut_name mktime defaultTime l hname
    rw [onParseLine] at he
    dsimp only at he
    have hcut : e.name = (parseMLsxLine mktime defaultTime l.text).2 := by
      split at he
      · exact absurd he (by simp)
      split at he
      · exact absurd he (by simp)
      · obtain rfl := Option.some.inj he
        rfl
    have heq : e.name = l.item.name := congrArg Shown.name hshown
    rw [← hcut, heq] at hlt
    exact absurd hlt (Nat.lt_irrefl _)
  · obtain ⟨p, hparse, hknown, hsize, hmode⟩ := l.parse_text mktime defaultTime hname
    rw [onParseLine, hparse]
    dsimp only
    rw [hknown]
    cases henum : filenameEnumerable l.item.name with
    | false => exact iff_of_false (by simp) (by simp)
    | true =>
      have hshown : (⟨l.item.name, p.fileInfo.size.toNat, p.fileInfo.mode⟩ : Shown) = l.item.shown ↔
          l.item.size < 2 ^ 63 ∧ p.fileInfo.mode = l.item.kind.bits ||| UInt32.ofNat l.item.mode := by
        rw [Item.shown, Shown.mk.injEq, hsize]
        refine ⟨fun h => ⟨by omega, h.2.2⟩, fun h => ⟨rfl, by omega, h.2⟩⟩
      rw [hmode] at hshown
      show some _ = some _ ↔ _
      rw [Option.some.injEq]
      exact hshown.trans ⟨fun h => ⟨hname, rfl, h⟩, fun h => h.2.2⟩

end

/-! ## Listings -/

/-- What is told line by line is right if and only if it is right for each line. -/
theorem filterMap_eq_iff {α β : Type} {f g : α → Option β} (h : ∀ a, g a = none → f a = none) :
    ∀ s : List α, s.filterMap f = s.filterMap g ↔ ∀ a ∈ s, f a = g a := by
  have hle : ∀ s : List α, (s.filterMap f).length ≤ (s.filterMap g).length := by
    intro s
    induction s with
    | nil => exact Nat.le_refl _
    | cons a s ih =>
      rw [List.filterMap_cons, List.filterMap_cons]
      cases hg : g a with
      | none =>
        rw [h a hg]
        exact ih
      | some b =>
        cases f a with
        | none => exact Nat.le_succ_of_le ih
        | some b' => exact Nat.succ_le_succ ih
  intro s
  refine ⟨fun heq => ?_, List.filterMap_congr⟩
  induction s with
  | nil => exact fun a ha => absurd ha List.not_mem_nil
  | cons a s ih =>
    have hhead : f a = g a ∧ s.filterMap f = s.filterMap g := by
      rw [List.filterMap_cons, List.filterMap_cons] at heq
      cases hg : g a with
      | none =>
        rw [h a hg, hg] at heq
        exact ⟨h a hg, heq⟩
      | some b =>
        rw [hg] at heq
        cases hf : f a with
        | none =>
          rw [hf] at heq
          have hlength : (s.filterMap f).length = (s.filterMap g).length + 1 := congrArg List.length heq
          have := hle s
          omega
        | some b' =>
          rw [hf] at heq
          obtain ⟨rfl, hrest⟩ := List.cons.inj heq
          exact ⟨rfl, hrest⟩
    intro b hb
    rcases List.mem_cons.mp hb with rfl | hb
    · exact hhead.1
    · exact ih hhead.2 b hb

/-- The entry that is told, if it is one. -/
def entryOf {α : Type} : Event α → Option α
  | .entry e => some e
  | _ => none

theorem filterMap_entryOf {α : Type} (s : List α) (n : Nat) :
    (s.map Event.entry ++ List.replicate n Event.noMore).filterMap entryOf = s := by
  have hnone : (List.replicate n (Event.noMore : Event α)).filterMap entryOf = [] := by
    rw [List.filterMap_eq_nil_iff]
    intro e he
    rw [List.eq_of_mem_replicate he]
    rfl
  rw [List.filterMap_append, hnone, List.append_nil, List.filterMap_map]
  exact List.filterMap_some

section

variable (mktime : Tm → Int) (defaultTime : Int)

/-- What is told of the lines. -/
def actual (lines : List Line) : List Shown :=
  lines.filterMap fun l => (onParseLine mktime defaultTime l.text).map DirEntry.shown

/-- The lines are told right if and only if every entry is one that can be. -/
theorem actual_iff (lines : List Line) :
    actual mktime defaultTime lines = expected lines ↔
      ∀ l ∈ lines, ¬l.item.Dots → 0x3B ∉ l.item.name ∧ filenameEnumerable l.item.name = true ∧
        l.item.size < 2 ^ 63 ∧ ∀ target, l.item.kind = .slink target → 0x3D ∉ target := by
  have hnone : ∀ l : Line, (if l.item.Dots then none else some l.item.shown) = none →
      (onParseLine mktime defaultTime l.text).map DirEntry.shown = none := by
    intro l h
    have hdots : l.item.Dots := by
      by_contra hnot
      rw [if_neg hnot] at h
      exact absurd h (by simp)
    rw [onParseLine_dots mktime defaultTime l hdots]
    rfl
  rw [actual, expected, filterMap_eq_iff hnone]
  refine forall_congr' fun l => forall_congr' fun _ => ?_
  by_cases hdots : l.item.Dots
  · rw [if_pos hdots, onParseLine_dots mktime defaultTime l hdots]
    exact iff_of_true rfl fun h => absurd hdots h
  · rw [if_neg hdots, onParseLine_iff]
    exact ⟨fun h _ => h, fun h => h hdots⟩

/-- What the calls tell of lines that are short. -/
theorem enums_shown {control : Str} {code : Nat} (hcode : (recvResponseFromTransport control).1 = some code)
    {lines : List Line} (hshort : ∀ l ∈ lines, Short l.text) (pieces : List { piece : Str // piece ≠ [] })
    (hpieces : (pieces.map Subtype.val).flatten = listing (lines.map Line.text)) (m : Nat) :
    ((enum (onParseLine mktime defaultTime))^[m] (opened ⟨pieces, true⟩ control)).log.map (told DirEntry.shown)
      = ((actual mktime defaultTime lines).take m).map .entry ++
        List.replicate (m - (actual mktime defaultTime lines).length) .noMore := by
  have hpending : (opened ⟨pieces, true⟩ control : FTPDataCommand DirEntry).Pending control (lines.map Line.text) :=
    ⟨hpieces, rfl, rfl, rfl, rfl⟩
  have hlines : ∀ t ∈ lines.map Line.text, Plain t ∧ Short t := by
    intro t ht
    obtain ⟨l, hl, rfl⟩ := List.mem_map.mp ht
    exact ⟨l.text_plain, hshort l hl⟩
  have hactual : actual mktime defaultTime lines
      = ((lines.map Line.text).filterMap (onParseLine mktime defaultTime)).map DirEntry.shown := by
    rw [actual, List.filterMap_map, List.map_filterMap]
    rfl
  have hlog : ((enum (onParseLine mktime defaultTime))^[m] (opened ⟨pieces, true⟩ control)).log
      = [] ++ ((((lines.map Line.text).filterMap (onParseLine mktime defaultTime)).take m).map .entry ++
        List.replicate (m - ((lines.map Line.text).filterMap (onParseLine mktime defaultTime)).length) .noMore) :=
    hpending.enums hcode m hlines
  rw [List.nil_append] at hlog
  rw [hlog, hactual, List.length_map, ← List.map_take, List.map_append, List.map_map, List.map_map,
    List.map_replicate]
  rfl

/-- **A listing is read faithfully if and only if** no line is too long, and of every entry but `.` and `..` the name
has no `';'` and is no `.` or `..` up to a NUL in it, the size is below 2^63, and the target of a link has no
`'='`. -/
theorem readFaithfully_iff {control : Str} {code : Nat} (hcode : (recvResponseFromTransport control).1 = some code)
    (lines : List Line) : ReadFaithfully mktime defaultTime control lines ↔ ∀ l ∈ lines, l.Fits := by
  constructor
  · intro h
    have hjoined : ((singles (listing (lines.map Line.text))).pieces.map Subtype.val).flatten
        = listing (lines.map Line.text) := joined_singles _
    have hshort : ∀ l ∈ lines, Short l.text := by
      by_contra hnot
      obtain ⟨l, hl, hlong⟩ : ∃ l ∈ lines, ¬Short l.text := by simpa using hnot
      have hplain : ∀ t ∈ lines.map Line.text, Plain t := by
        intro t ht
        obtain ⟨l, -, rfl⟩ := List.mem_map.mp ht
        exact l.text_plain
      obtain ⟨m, hthrew⟩ := enums_long (onParseLine mktime defaultTime)
        (c := opened (singles (listing (lines.map Line.text))) control) hplain
        ⟨l.text, List.mem_map_of_mem hl, hlong⟩ rfl rfl rfl rfl
      have hmem : Event.threw ∈ ((expected lines).take m).map Event.entry ++
          List.replicate (m - (expected lines).length) .noMore := by
        rw [← h _ hjoined m]
        exact List.mem_map.mpr ⟨_, hthrew, rfl⟩
      rcases List.mem_append.mp hmem with hmem | hmem
      · obtain ⟨_, -, heq⟩ := List.mem_map.mp hmem
        exact absurd heq (by simp)
      · exact absurd (List.eq_of_mem_replicate hmem) (by simp)
    have hall := h _ hjoined ((actual mktime defaultTime lines).length + (expected lines).length)
    rw [enums_shown mktime defaultTime hcode hshort _ hjoined, List.take_of_length_le (by omega),
      List.take_of_length_le (by omega)] at hall
    have hsame : actual mktime defaultTime lines = expected lines := by
      have hentries := congrArg (List.filterMap entryOf) hall
      rwa [filterMap_entryOf, filterMap_entryOf] at hentries
    exact fun l hl => ⟨hshort l hl, (actual_iff mktime defaultTime lines).mp hsame l hl⟩
  · intro h pieces hpieces m
    have hsame := (actual_iff mktime defaultTime lines).mpr fun l hl => (h l hl).entry
    rw [enums_shown mktime defaultTime hcode (fun l hl => (h l hl).short) pieces hpieces m, hsame]

end

/-- `type=file;size=5;UNIX.mode=0644; a;b` -/
def semicolon : Line where
  item := ⟨.file, 5, 0o644, bytes "a;b"⟩
  facts := [(bytes "type", bytes "file"), (bytes "size", bytes "5"), (bytes "UNIX.mode", bytes "0644")]
  typeFact := (bytes "type", bytes "file")
  sizeFact := (bytes "size", bytes "5")
  modeFact := (bytes "UNIX.mode", bytes "0644")
  others := []
  facts_perm := List.Perm.refl _
  typed := ⟨rfl, rfl⟩
  sized := ⟨rfl, by decide⟩
  moded := ⟨rfl, by decide⟩
  other := fun _ h => absurd h List.not_mem_nil
  mode_lt := by decide
  name_ne := by decide
  name_inside := by decide
  target_inside := fun _ h => Kind.noConfusion h

theorem readFaithfully_iff_semicolon :
    (recvResponseFromTransport (bytes "226 ok\n")).1 = some 226 ∧
      (ReadFaithfully (fun _ => 0) 0 (bytes "226 ok\n") [semicolon] ↔ ∀ l ∈ [semicolon], l.Fits) :=
  have hreply : (recvResponseFromTransport (bytes "226 ok\n")).1 = some 226 := by decide
  ⟨hreply, readFaithfully_iff (fun _ => 0) 0 hreply [semicolon]⟩

/-- The file `a;b` is told as `b`. -/
theorem semicolon_cuts : ¬∀ (mktime : Tm → Int) (defaultTime : Int) (control : Str) (code : Nat) (lines : List Line),
    (recvResponseFromTransport control).1 = some code → ReadFaithfully mktime defaultTime control lines := by
  intro h
  have hfile := h (fun _ => 0) 0 (bytes "226 ok\n") 226 [semicolon] (by decide)
    [⟨listing [semicolon.text], by decide⟩] (by decide) 1
  exact absurd hfile (by decide)

end Far2l.NetRocks.MLST
