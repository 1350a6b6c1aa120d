/-
Far2l.Delete.ScanTreeTheorems — what a scan that is interrupted by removals leaves
undone.

Every entry is ahead of the scan or due now, has been removed or is excused.
`GetNextName` keeps this and makes one more entry due; `SkipDir` keeps it exactly
when nothing is left to be listed in the directory that it leaves, or when this
directory is the one that is skipped.
-/
import Far2l.Delete.ShellDelete

namespace Far2l.Delete

open DepthFirst

variable {t : Tree} {due due' : Path → Prop} {S S' : ScanTree} {T : Tally} {p d q g : Path}
  {n : Name} {data : Attributes} {rem : List Name} {rems : List (List Name)}

/-! ## The tree -/

/-- What is below a path is below one of its children, and then there is a directory. -/
theorem Tree.Entry.eq_or_below (h : t.Entry q) (hq : p <:+ q) :
    q = p ∨ (t.kind p = .directory ∧ ∃ n ∈ t.children p, (n :: p) <:+ q) := by
  induction h with
  | root => exact .inl (List.suffix_nil.mp hq).symm
  | child h hd hn ih =>
    rcases List.suffix_cons_iff.mp hq with heq | hq
    · exact .inl heq.symm
    · rcases ih hq with rfl | ⟨hdir, m, hm, hmq⟩
      · exact .inr ⟨hd, _, hn, List.suffix_refl _⟩
      · exact .inr ⟨hdir, m, hm, hmq.trans (List.suffix_cons _ _)⟩

/-- The directory of an entry. -/
theorem Tree.Entry.parent (h : t.Entry (n :: d)) : t.Entry d ∧ t.kind d = .directory := by
  cases h with
  | child h hd _ => exact ⟨h, hd⟩

/-! ## Excuses -/

theorem Tally.excused_skip :
    Tally.Excused { T with skipped := (p, data) :: T.skipped } q ↔ q <:+ p ∨ T.Excused q := by
  simp only [Tally.Excused, List.mem_cons, exists_eq_or_imp, or_assoc]

theorem Tally.excused_decline :
    Tally.Excused { T with declined := p :: T.declined } q ↔
      (q <:+ p ∨ p <:+ q) ∨ T.Excused q := by
  simp only [Tally.Excused, List.mem_cons, exists_eq_or_imp]
  exact or_left_comm

theorem Tally.linksLast_skip :
    Tally.LinksLast { T with skipped := (p, data) :: T.skipped } t ↔
      (data.IsDirSymLink → ∃ n d, p = n :: d ∧ (t.children d).getLast? = some n)
        ∧ T.LinksLast t := by
  simp only [Tally.LinksLast, List.mem_cons, forall_eq_or_imp]

/-! ## The scan -/

namespace ScanTree

def First (S : ScanTree) (q : Path) : Prop := DepthFirst.First S.findPath S.scanDirStack q

def Second (S : ScanTree) (q : Path) : Prop := DepthFirst.Second S.findPath S.scanDirStack q

/-- The scan is in a directory of the tree. -/
structure Scanning (t : Tree) (S : ScanTree) : Prop where
  isOpen : Open t.children S.findPath S.scanDirStack
  entry : t.Entry S.findPath
  directory : t.kind S.findPath = .directory

theorem Scanning.leaveSubdir (h : Scanning t S) :
    S.leaveSubdir.scanDirStack = [] ∨ Scanning t S.leaveSubdir := by
  obtain ⟨path, stack, second⟩ := S
  obtain ⟨hopen, hentry, -⟩ := h
  cases hopen with
  | top _ => exact .inl rfl
  | inside hopen _ _ => exact .inr ⟨hopen, hentry.parent.1, hentry.parent.2⟩

/-- The turn of `q` is still to come; that of the entries `due` is now. -/
def Ahead (due : Path → Prop) (S : ScanTree) (q : Path) : Prop := S.First q ∨ S.Second q ∨ due q

theorem ahead_or : Ahead (fun q => due q ∨ q = p) S q ↔ Ahead due S q ∨ q = p := by
  simp only [Ahead, or_assoc]

theorem Ahead.leaveSubdir (h : Ahead due S.leaveSubdir q) : Ahead due S q := by
  obtain ⟨path, stack, second⟩ := S
  cases stack with
  | nil =>
    rcases h with h | h | h
    · exact h.elim
    · exact h.elim
    · exact .inr (.inr h)
  | cons rem rems =>
    rcases h with h | h | h
    · exact .inl (.inr h)
    · exact .inr (.inl (DepthFirst.Second.leave h))
    · exact .inr (.inr h)

theorem First.leaveSubdir (h : S.leaveSubdir.First q) : S.First q := by
  obtain ⟨path, stack, second⟩ := S
  cases stack with
  | nil => exact h.elim
  | cons rem rems => exact .inr h

end ScanTree

open ScanTree

/-- `g` has been left behind without a reason. -/
structure Lost (t : Tree) (due : Path → Prop) (S : ScanTree) (T : Tally) (g : Path) : Prop where
  entry : t.Entry g
  remains : g ∉ T.removed
  unexcused : ¬ T.Excused g
  behind : ∀ q, g <:+ q → ¬ Ahead due S q

/-- Each entry is ahead, or it has been removed or is excused, unless a link has been skipped in
front of other entries. -/
structure Kept (t : Tree) (due : Path → Prop) (S : ScanTree) (T : Tally) : Prop where
  scanning : S.scanDirStack = [] ∨ Scanning t S
  entries : ∀ q ∈ T.removed, t.Entry q
  fresh : ∀ q, S.First q → q ∉ T.removed ∧ ¬ due q
  unskipped : ∀ s ∈ T.skipped, ¬ S.First s.1
  spared : ∀ d ∈ T.declined, ∀ q, d <:+ q → q ∉ T.removed ∧ ¬ Ahead due S q
  accounted : T.LinksLast t → ∀ q, t.Entry q → Ahead due S q ∨ q ∈ T.removed ∨ T.Excused q
  lost : ¬ T.LinksLast t → ∃ g, Lost t due S T g

namespace Lost

/-- Nothing comes back. -/
theorem move (h : Lost t due S T g) (hahead : ∀ q, Ahead due' S' q → Ahead due S q) :
    Lost t due' S' T g :=
  ⟨h.entry, h.remains, h.unexcused, fun q hq hq' => h.behind q hq (hahead q hq')⟩

theorem remove (h : Lost t (fun q => due q ∨ q = p) S T g) :
    Lost t due S { T with removed := p :: T.removed } g := by
  refine ⟨h.entry, ?_, h.unexcused, fun q hq hq' => h.behind q hq (ahead_or.mpr (.inl hq'))⟩
  intro hg
  rcases List.mem_cons.mp hg with rfl | hg
  · exact h.behind g (List.suffix_refl _) (ahead_or.mpr (.inr rfl))
  · exact h.remains hg

theorem skip (h : Lost t (fun q => due q ∨ q = p) S T g) (data : Attributes) :
    Lost t due S { T with skipped := (p, data) :: T.skipped } g := by
  refine ⟨h.entry, h.remains, ?_, fun q hq hq' => h.behind q hq (ahead_or.mpr (.inl hq'))⟩
  intro hg
  rcases Tally.excused_skip.mp hg with hg | hg
  · exact h.behind p hg (ahead_or.mpr (.inr rfl))
  · exact h.unexcused hg

/-- A directory is declined that is not above. -/
theorem decline (h : Lost t due S T g) (hp : Ahead due S p) (hg : ¬ p <:+ g) :
    Lost t due S { T with declined := p :: T.declined } g := by
  refine ⟨h.entry, h.remains, ?_, h.behind⟩
  intro hexcused
  rcases Tally.excused_decline.mp hexcused with (hgp | hpg) | hexcused
  · exact h.behind p hgp hp
  · exact hg hpg
  · exact h.unexcused hexcused

end Lost

namespace Kept

/-- The scan moves, and the entries that are ahead remain so. -/
theorem move (h : Kept t due S T) (hscan : S'.scanDirStack = [] ∨ Scanning t S')
    (hfirst : ∀ q, S'.First q → S.First q ∧ ¬ due' q)
    (hahead : ∀ q, Ahead due' S' q → Ahead due S q)
    (hback : ∀ q, t.Entry q → Ahead due S q → Ahead due' S' q) : Kept t due' S' T where
  scanning := hscan
  entries := h.entries
  fresh q hq := ⟨(h.fresh q (hfirst q hq).1).1, (hfirst q hq).2⟩
  unskipped s hs hq := h.unskipped s hs (hfirst _ hq).1
  spared d hd q hq := ⟨(h.spared d hd q hq).1, fun hq' => (h.spared d hd q hq).2 (hahead q hq')⟩
  accounted hlast q hq := (h.accounted hlast q hq).imp_left (hback q hq)
  lost hlast := by
    obtain ⟨g, hg⟩ := h.lost hlast
    exact ⟨g, hg.move hahead⟩

/-- What is due is removed. -/
theorem remove (h : Kept t (fun q => due q ∨ q = p) S T) (hp : t.Entry p) :
    Kept t due S { T with removed := p :: T.removed } where
  scanning := h.scanning
  entries q hq := by
    rcases List.mem_cons.mp hq with rfl | hq
    · exact hp
    · exact h.entries q hq
  fresh q hq := by
    obtain ⟨hremoved, hdue⟩ := h.fresh q hq
    simp only [List.mem_cons, not_or] at hdue ⊢
    exact ⟨⟨hdue.2, hremoved⟩, hdue.1⟩
  unskipped := h.unskipped
  spared d hd q hq := by
    obtain ⟨hremoved, hahead⟩ := h.spared d hd q hq
    simp only [ahead_or, List.mem_cons, not_or] at hahead ⊢
    exact ⟨⟨hahead.2, hremoved⟩, hahead.1⟩
  accounted hlast q hq := by
    rcases h.accounted hlast q hq with hahead | hq | hq
    · rcases ahead_or.mp hahead with hahead | heq
      · exact .inl hahead
      · exact .inr (.inl (List.mem_cons.mpr (.inl heq)))
    · exact .inr (.inl (List.mem_cons_of_mem _ hq))
    · exact .inr (.inr hq)
  lost hlast := by
    obtain ⟨g, hg⟩ := h.lost hlast
    exact ⟨g, hg.remove⟩

/-- What is due is skipped, and is no link to a directory. -/
theorem skip (h : Kept t (fun q => due q ∨ q = p) S T) (hdata : ¬ data.IsDirSymLink) :
    Kept t due S { T with skipped := (p, data) :: T.skipped } where
  scanning := h.scanning
  entries := h.entries
  fresh q hq := ⟨(h.fresh q hq).1, fun hdue => (h.fresh q hq).2 (.inl hdue)⟩
  unskipped s hs hq := by
    rcases List.mem_cons.mp hs with rfl | hs
    · exact (h.fresh p hq).2 (.inr rfl)
    · exact h.unskipped s hs hq
  spared d hd q hq := by
    obtain ⟨hremoved, hahead⟩ := h.spared d hd q hq
    exact ⟨hremoved, fun hq => hahead (ahead_or.mpr (.inl hq))⟩
  accounted hlast q hq := by
    rcases h.accounted (Tally.linksLast_skip.mp hlast).2 q hq with hahead | hq | hq
    · rcases ahead_or.mp hahead with hahead | rfl
      · exact .inl hahead
      · exact .inr (.inr (Tally.excused_skip.mpr (.inl (List.suffix_refl _))))
    · exact .inr (.inl hq)
    · exact .inr (.inr (Tally.excused_skip.mpr (.inr hq)))
  lost hlast := by
    have hlast' : ¬ T.LinksLast t := fun h =>
      hlast (Tally.linksLast_skip.mpr ⟨fun hlink => absurd hlink hdata, h⟩)
    obtain ⟨g, hg⟩ := h.lost hlast'
    exact ⟨g, hg.skip data⟩

end Kept

/-! ## Turns -/

/-- It is the turn of `p`: it has been listed and was not entered, or has come for the second
time. -/
structure Turn (t : Tree) (S : ScanTree) (T : Tally) (p : Path) (data : Attributes) : Prop where
  listed : ∃ n rem rems, p = n :: S.findPath ∧ S.scanDirStack = rem :: rems
    ∧ (n :: rem) <:+ t.children S.findPath
  scanning : Scanning t S
  entry : t.Entry p
  second : data.directory = true → data.reparsePoint = false → S.isDirSearchDone = true
  kept : Kept t (fun q => q = [] ∨ q = p) S T

/-- The scan has just entered `p`. -/
structure Entered (t : Tree) (S : ScanTree) (T : Tally) (p : Path) : Prop where
  entered : ∃ n d rem rems, p = n :: d ∧ S.findPath = p
    ∧ S.scanDirStack = t.children p :: rem :: rems ∧ (n :: rem) <:+ t.children d
  scanning : Scanning t S
  first : S.isDirSearchDone = false
  untouched : ∀ q, p <:+ q → q ∉ T.removed
  kept : Kept t (fun q => q = []) S T

/-- An entry that comes after a skipped link is lost. -/
theorem Turn.lost {m : Name} {second : Bool}
    (h : Turn t ⟨d, rem :: rems, second⟩ T (n :: d) data) (hn : (n :: rem) <:+ t.children d)
    (hm : m ∈ rem) :
    Lost t (fun q => q = []) (skipDir ⟨d, rem :: rems, second⟩)
      { T with skipped := (n :: d, data) :: T.skipped } (m :: d) := by
  have hopen : Open t.children d (rem :: rems) := h.scanning.isOpen
  have hself : ScanTree.First ⟨d, rem :: rems, second⟩ (m :: d) :=
    .inl ⟨m, hm, List.suffix_refl _⟩
  refine ⟨.child h.scanning.entry h.scanning.directory (hopen.suffix.subset hm),
    (h.kept.fresh _ hself).1, fun hexcused => ?_, fun q hq hahead => ?_⟩
  · rcases Tally.excused_skip.mp hexcused with hmn | ⟨s, hs, hms⟩ | ⟨e, he, hem⟩
    · obtain ⟨rfl, -⟩ := List.cons.inj (hmn.eq_of_length rfl)
      exact not_mem_rest (t.distinct d) hn hm
    · exact h.kept.unskipped s hs (hself.mono hms)
    · rcases hem with hme | hem
      · exact (h.kept.spared e he e (List.suffix_refl _)).2 (.inl (hself.mono hme))
      · exact (h.kept.spared e he _ hem).2 (.inl hself)
  · have hdq : d <:+ q := (List.suffix_cons m d).trans hq
    have hlen : d.length < q.length := hq.length_le
    rcases hahead with hfirst | hsecond | rfl
    · exact hopen.not_first_tail t.distinct hdq hfirst
    · have hle := DepthFirst.Second.length_le hsecond
      exact absurd (hle.trans d.tail_suffix.length_le) (Nat.not_le_of_lt hlen)
    · exact absurd hlen (Nat.not_lt_zero _)

/-- **`SkipDir` after a skipped link** loses what is left in the directory that the link is in. -/
theorem Turn.skipDir (h : Turn t S T p data) (hdata : data.IsDirSymLink) :
    Kept t (fun q => q = []) S.skipDir { T with skipped := (p, data) :: T.skipped } := by
  obtain ⟨n, rem, rems, hp, hstack, hn⟩ := h.listed
  obtain ⟨path, stack, second⟩ := S
  dsimp only at hp hstack hn
  subst hp hstack
  have hkept := h.kept
  refine ⟨h.scanning.leaveSubdir, hkept.entries, fun q hq => ?_, fun s hs hq => ?_,
    fun e he q hq => ?_, fun hlast q hq => ?_, fun hlast => ?_⟩
  · obtain ⟨hremoved, hdue⟩ := hkept.fresh q hq.leaveSubdir
    exact ⟨hremoved, fun hq => hdue (.inl hq)⟩
  · rcases List.mem_cons.mp hs with rfl | hs
    · exact (hkept.fresh _ hq.leaveSubdir).2 (.inr rfl)
    · exact hkept.unskipped s hs hq.leaveSubdir
  · obtain ⟨hremoved, hahead⟩ := hkept.spared e he q hq
    exact ⟨hremoved, fun hq => hahead (ahead_or.mpr (.inl hq.leaveSubdir))⟩
  · obtain ⟨hp, hlast⟩ := Tally.linksLast_skip.mp hlast
    -- The link is the last entry, so that the scan leaves nothing behind.
    obtain ⟨m, d, heq, hm⟩ := hp hdata
    obtain ⟨rfl, rfl⟩ := List.cons.inj heq
    obtain rfl := (getLast?_eq_iff (t.distinct _) hn).mp hm
    rcases hkept.accounted hlast q hq with (hq | hq | hq | rfl) | hq | hq
    · rcases hq with ⟨m, hm, -⟩ | hq
      · cases hm
      · exact .inl (.inl hq)
    · rcases DepthFirst.Second.cases hq with rfl | hq
      · exact .inr (.inr (Tally.excused_skip.mpr (.inl (List.suffix_cons _ _))))
      · exact .inl (.inr (.inl hq))
    · exact .inl (.inr (.inr hq))
    · exact .inr (.inr (Tally.excused_skip.mpr (.inl (List.suffix_refl _))))
    · exact .inr (.inl hq)
    · exact .inr (.inr (Tally.excused_skip.mpr (.inr hq)))
  · by_cases hlast' : T.LinksLast t
    · cases rem with
      | nil =>
        have hm := (getLast?_eq_iff (t.distinct _) hn).mpr rfl
        exact absurd (Tally.linksLast_skip.mpr ⟨fun _ => ⟨n, path, rfl, hm⟩, hlast'⟩) hlast
      | cons m rem => exact ⟨m :: path, h.lost hn List.mem_cons_self⟩
    · obtain ⟨g, hg⟩ := hkept.lost hlast'
      exact ⟨g, (hg.skip data).move fun q hq => hq.leaveSubdir⟩

/-- **`SkipDir` after a directory has been declined** leaves this directory. -/
theorem Entered.skipDir (h : Entered t S T p) :
    Kept t (fun q => q = []) S.skipDir { T with declined := p :: T.declined } := by
  obtain ⟨n, d, rem, rems, hp, hpath, hstack, hn⟩ := h.entered
  have hkept := h.kept
  have huntouched := h.untouched
  have hscanning := h.scanning
  obtain ⟨path, stack, second⟩ := S
  dsimp only at hpath hstack
  subst hp hpath hstack
  have hself : Ahead (fun q => q = [])
      ⟨n :: d, t.children (n :: d) :: rem :: rems, second⟩ (n :: d) := .inr (.inl (.inl rfl))
  refine ⟨hscanning.leaveSubdir, hkept.entries, fun q hq => hkept.fresh q hq.leaveSubdir,
    fun s hs hq => hkept.unskipped s hs hq.leaveSubdir, fun e he q hq => ?_,
    fun hlast q hq => ?_, fun hlast => ?_⟩
  · rcases List.mem_cons.mp he with rfl | he
    · refine ⟨huntouched q hq, ?_⟩
      have hlen : d.length < q.length := hq.length_le
      rintro (hfirst | hsecond | rfl)
      · exact hscanning.isOpen.not_first_tail t.distinct hq hfirst
      · exact absurd (DepthFirst.Second.length_le hsecond) (Nat.not_le_of_lt hlen)
      · exact absurd hlen (Nat.not_lt_zero _)
    · obtain ⟨hremoved, hahead⟩ := hkept.spared e he q hq
      exact ⟨hremoved, fun hq => hahead hq.leaveSubdir⟩
  · rcases hkept.accounted hlast q hq with (hq | hq | hq) | hq | hq
    · rcases hq with ⟨m, -, hmq⟩ | hq
      · exact .inr (.inr (Tally.excused_decline.mpr
          (.inl (.inr ((List.suffix_cons _ _).trans hmq)))))
      · exact .inl (.inl hq)
    · rcases hq with rfl | hq
      · exact .inr (.inr (Tally.excused_decline.mpr (.inl (.inl (List.suffix_refl _)))))
      · exact .inl (.inr (.inl hq))
    · exact .inl (.inr (.inr hq))
    · exact .inr (.inl hq)
    · exact .inr (.inr (Tally.excused_decline.mpr (.inr hq)))
  · obtain ⟨g, hg⟩ := hkept.lost hlast
    have hpg : ¬ (n :: d) <:+ g := by
      intro hpg
      -- What is below the directory is still ahead.
      refine hg.behind g (List.suffix_refl _) ?_
      rcases hg.entry.eq_or_below hpg with rfl | ⟨-, hbelow⟩
      · exact hself
      · exact .inl (.inl hbelow)
    exact ⟨g, (hg.decline hself hpg).move fun q hq => hq.leaveSubdir⟩

/-! ## `GetNextName` -/

section Listed

variable {names : List Name} {dirs : List (List Name)} {second second' : Bool}

theorem ScanTree.Scanning.child (h : Scanning t ⟨d, (n :: names) :: dirs, second⟩) :
    t.Entry (n :: d) :=
  .child h.entry h.directory h.isOpen.mem

/-- A name has been listed. -/
theorem ScanTree.Scanning.next (h : Scanning t ⟨d, (n :: names) :: dirs, second⟩) :
    Scanning t ⟨d, names :: dirs, second'⟩ :=
  ⟨h.isOpen.next, h.entry, h.directory⟩

/-- What is not entered has its turn when it is listed. -/
theorem Kept.turn (h : Kept t (fun q => q = []) ⟨d, (n :: names) :: dirs, second⟩ T)
    (hscan : Scanning t ⟨d, (n :: names) :: dirs, second⟩) (hkind : t.kind (n :: d) ≠ .directory)
    (hdata : data.directory = true → data.reparsePoint = true) :
    Turn t ⟨d, names :: dirs, second'⟩ T (n :: d) data := by
  have hopen : Open t.children d (names :: dirs) := hscan.isOpen.next
  have hn : n ∉ names := not_mem_rest (t.distinct d) hscan.isOpen.suffix
  refine ⟨⟨n, names, dirs, rfl, rfl, hscan.isOpen.suffix⟩, hscan.next, hscan.child,
    fun hdir hlink => ?_, h.move (.inr hscan.next) (fun q hq => ?_) (fun q hq => ?_)
      fun q hentry hq => ?_⟩
  · rw [hdata hdir] at hlink
    cases hlink
  · have hfirst : ScanTree.First ⟨d, (n :: names) :: dirs, second⟩ q :=
      DepthFirst.First.cons.mpr (.inr hq)
    refine ⟨hfirst, not_or.mpr ⟨(h.fresh q hfirst).2, ?_⟩⟩
    rintro rfl
    exact hopen.not_first t.distinct hn (List.suffix_refl _) hq
  · rcases hq with hq | hq | hq | rfl
    · exact .inl (DepthFirst.First.cons.mpr (.inr hq))
    · exact .inr (.inl hq.congr)
    · exact .inr (.inr hq)
    · exact .inl (DepthFirst.First.cons.mpr (.inl (List.suffix_refl _)))
  · rcases hq with hq | hq | hq
    · rcases DepthFirst.First.cons.mp hq with hbelow | hq
      · rcases hentry.eq_or_below hbelow with heq | ⟨hdir, -⟩
        · exact .inr (.inr (.inr heq))
        · exact absurd hdir hkind
      · exact .inl hq
    · exact .inr (.inl hq.congr)
    · exact .inr (.inr (.inl hq))

/-- A directory is entered when it is listed. -/
theorem Kept.enter (h : Kept t (fun q => q = []) ⟨d, (n :: names) :: dirs, second⟩ T)
    (hscan : Scanning t ⟨d, (n :: names) :: dirs, second⟩) (hkind : t.kind (n :: d) = .directory) :
    Entered t ⟨n :: d, t.children (n :: d) :: names :: dirs, false⟩ T (n :: d) := by
  have hscan' : Scanning t ⟨n :: d, t.children (n :: d) :: names :: dirs, false⟩ :=
    ⟨.inside hscan.isOpen.next hscan.isOpen.suffix (List.suffix_refl _), hscan.child, hkind⟩
  have hfirst : ∀ q, ScanTree.First ⟨n :: d, t.children (n :: d) :: names :: dirs, false⟩ q →
      ScanTree.First ⟨d, (n :: names) :: dirs, second⟩ q := by
    rintro q (⟨m, -, hmq⟩ | hq)
    · exact DepthFirst.First.cons.mpr (.inl ((List.suffix_cons _ _).trans hmq))
    · exact DepthFirst.First.cons.mpr (.inr hq)
  refine ⟨⟨n, d, names, dirs, rfl, rfl, rfl, hscan.isOpen.suffix⟩, hscan', rfl, fun q hq => ?_,
    h.move (.inr hscan') (fun q hq => ⟨hfirst q hq, (h.fresh q (hfirst q hq)).2⟩)
      (fun q hq => ?_) fun q hentry hq => ?_⟩
  · exact (h.fresh q (DepthFirst.First.cons.mpr (.inl hq))).1
  · rcases hq with hq | (rfl | hq) | hq
    · exact .inl (hfirst q hq)
    · exact .inl (DepthFirst.First.cons.mpr (.inl (List.suffix_refl _)))
    · exact .inr (.inl (DepthFirst.Second.congr hq))
    · exact .inr (.inr hq)
  · rcases hq with hq | hq | hq
    · rcases DepthFirst.First.cons.mp hq with hbelow | hq
      · rcases hentry.eq_or_below hbelow with heq | ⟨-, hbelow⟩
        · exact .inr (.inl (.inl heq))
        · exact .inl (.inl hbelow)
      · exact .inl (.inr hq)
    · exact .inr (.inl (.inr hq.congr))
    · exact .inr (.inr hq)

/-- A directory whose names have been listed has its second turn. -/
theorem Kept.secondTurn (h : Kept t (fun q => q = []) ⟨d, [] :: rem :: rems, second⟩ T)
    (hscan : Scanning t ⟨d, [] :: rem :: rems, second⟩) (data : Attributes) :
    Turn t ⟨d.tail, rem :: rems, true⟩ T d data := by
  obtain ⟨hopen, hentry, -⟩ := hscan
  dsimp only at hopen hentry
  cases hopen with
  | @inside d n _ _ _ hopen hn _ =>
    have hscan' : Scanning t ⟨d, rem :: rems, true⟩ := ⟨hopen, hentry.parent.1, hentry.parent.2⟩
    refine ⟨⟨n, rem, rems, rfl, rfl, hn⟩, hscan', hentry, fun _ _ => rfl,
      h.move (.inr hscan') (fun q hq => ⟨.inr hq, ?_⟩) (fun q hq => ?_) fun q _ hq => ?_⟩
    · refine not_or.mpr ⟨(h.fresh q (.inr hq)).2, ?_⟩
      rintro rfl
      exact hopen.not_first t.distinct (not_mem_rest (t.distinct d) hn) (List.suffix_refl _) hq
    · rcases hq with hq | hq | hq | rfl
      · exact .inl (.inr hq)
      · exact .inr (.inl (.inr hq))
      · exact .inr (.inr hq)
      · exact .inr (.inl (.inl rfl))
    · rcases hq with (⟨m, hm, -⟩ | hq) | (heq | hq) | hq
      · cases hm
      · exact .inl hq
      · exact .inr (.inr (.inr heq))
      · exact .inr (.inl hq)
      · exact .inr (.inr (.inl hq))

/-- When the names of the topmost directory have been listed the scan is done. -/
theorem Kept.done (h : Kept t (fun q => q = []) ⟨d, [[]], second⟩ T) :
    Kept t (fun q => q = []) ⟨d.tail, [], second'⟩ T := by
  refine h.move (.inl rfl) (fun q hq => hq.elim) (fun q hq => ?_) fun q _ hq => ?_
  · rcases hq with hq | hq | hq
    · exact hq.elim
    · exact hq.elim
    · exact .inr (.inr hq)
  · rcases hq with (⟨m, hm, -⟩ | hq) | hq | hq
    · cases hm
    · exact hq.elim
    · exact hq.elim
    · exact .inr (.inr hq)

end Listed

/-- The attributes of what is not a directory. -/
theorem Tree.attributes_leaf (answer : Attributes) (hkind : t.kind p ≠ .directory) :
    (t.attributes p answer).directory = true → (t.attributes p answer).reparsePoint = true := by
  intro h
  unfold Tree.attributes at h ⊢
  cases hp : t.kind p with
  | file => rw [hp] at h; cases h
  | link => rfl
  | directory => exact absurd hp hkind

theorem Tree.attributes_directory (answer : Attributes) (hkind : t.kind p = .directory) :
    t.attributes p answer = ⟨true, false⟩ := by
  unfold Tree.attributes
  rw [hkind]

/-- What `GetNextName` has done. -/
inductive Returned (t : Tree) (T : Tally) : Option (Path × Attributes) → ScanTree → Prop where
  | done {S : ScanTree} (h : Kept t (fun q => q = []) S T) (hdone : S.scanDirStack = []) :
      Returned t T none S
  | turn {S : ScanTree} {p : Path} {data : Attributes} (h : Turn t S T p data) :
      Returned t T (some (p, data)) S
  | entered {S : ScanTree} {p : Path} (h : Entered t S T p) :
      Returned t T (some (p, ⟨true, false⟩)) S

/-- **`GetNextName`** makes one more entry due, or enters it. -/
theorem Kept.getNextName (h : Kept t (fun q => q = []) S T) (answer : Attributes) :
    Returned t T (S.getNextName t answer).1 (S.getNextName t answer).2 := by
  obtain ⟨d, stack, second⟩ := S
  match stack, h with
  | [], h => exact .done (h.move (.inl rfl) (fun q hq => hq.elim) (fun _ => id) fun _ _ => id) rfl
  | [[]], h => exact .done h.done rfl
  | [] :: rem :: rems, h =>
    rcases h.scanning with hnil | hscan
    · cases hnil
    · exact .turn (h.secondTurn hscan answer)
  | (n :: names) :: dirs, h =>
    rcases h.scanning with hnil | hscan
    · cases hnil
    · by_cases hkind : t.kind (n :: d) = .directory
      · have hdata := t.attributes_directory answer hkind
        simp only [ScanTree.getNextName, hdata, ScanTree.checkForEnterSubdir, Bool.not_false,
          Bool.and_self, if_true]
        exact .entered (h.enter hscan hkind)
      · have hdata := t.attributes_leaf answer hkind
        have hstay : ((t.attributes (n :: d) answer).directory
            && !(t.attributes (n :: d) answer).reparsePoint) = false := by
          cases hdir : (t.attributes (n :: d) answer).directory with
          | false => rfl
          | true => rw [hdata hdir]; rfl
        simp only [ScanTree.getNextName, ScanTree.checkForEnterSubdir, hstay, Bool.false_eq_true,
          if_false]
        exact .turn (h.turn hscan hkind hdata)

/-- The scan at its beginning. -/
theorem Kept.initial : Kept t (fun q => q = []) (.setFindPath t) {} where
  scanning := .inr ⟨.top (List.suffix_refl _), .root, t.root⟩
  entries _ hq := absurd hq List.not_mem_nil
  fresh q hq := by
    refine ⟨List.not_mem_nil, ?_⟩
    rintro rfl
    rcases hq with ⟨n, -, hn⟩ | hfalse
    · exact absurd (List.suffix_nil.mp hn) (List.cons_ne_nil _ _)
    · exact hfalse
  unskipped _ hs := absurd hs List.not_mem_nil
  spared _ hd := absurd hd List.not_mem_nil
  accounted _ q hq := by
    rcases hq.eq_or_below List.nil_suffix with heq | ⟨-, hbelow⟩
    · exact .inl (.inr (.inr heq))
    · exact .inl (.inl (.inl hbelow))
  lost hlast := absurd (fun _ hs => absurd hs List.not_mem_nil) hlast

end Far2l.Delete
