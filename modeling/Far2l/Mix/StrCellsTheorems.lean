/-
Far2l.Mix.StrCellsTheorems — when `StrSizeOfCells` and `StrCellsCount` agree.

`StrSizeOfCells` takes a text apart into clusters: prefixes, a character, and the
suffixes behind it. `StrCellsCount` looks at one character at a time: it gives no
cell to a prefix in front of another character, and none to a suffix behind one. So
a suffix directly behind a prefix takes a cell only for `StrSizeOfCells`, and a
prefix at the end of a piece takes one only for `StrCellsCount`.

The inductions are on what is left of the text behind the clusters that have been
taken (`cluster_induction`).
-/
import Far2l.Mix.StrCells
import Mathlib.Data.List.Basic
import Mathlib.Data.List.TakeWhile

namespace Far2l

namespace StrCells

variable (cc : CellClasses)

/-- No character is of two classes. -/
structure Exclusive : Prop where
  prefix_suffix : ∀ c, cc.isPrefix c = true → cc.suffix c = false
  prefix_fullWidth : ∀ c, cc.isPrefix c = true → cc.fullWidth c = false
  suffix_fullWidth : ∀ c, cc.suffix c = true → cc.fullWidth c = false

/-! ## Cells -/

/-- The cells of a text that something follows. -/
def inside : (first : Bool) → WStr → Nat
  | _, [] => 0
  | first, c :: rest => cellsOf cc first false c + inside false rest

/-- The cell of a prefix at the end. -/
def openEnd (s : WStr) : Nat := if s.getLast?.any cc.isPrefix then 1 else 0

/-- The cells of a cluster for `StrSizeOfCells`. -/
def width (c : WChar) : Nat := if cc.fullWidth c then 2 else 1

variable {cc} {s a b marks sufs rest more done : WStr} {c : WChar} {ng i g : Nat}

theorem countLoop_eq (h : Exclusive cc) (first : Bool) (s : WStr) :
    countLoop cc first s = inside cc first s + openEnd cc s := by
  induction s generalizing first with
  | nil => rfl
  | cons c rest ih =>
    cases rest with
    | nil =>
      show cellsOf cc first true c + 0
        = cellsOf cc first false c + 0 + if cc.isPrefix c = true then 1 else 0
      rw [cellsOf, cellsOf]
      by_cases hc : cc.isPrefix c = true
      · simp [hc, h.prefix_fullWidth c hc, h.prefix_suffix c hc]
      · simp [hc]
    | cons d rest =>
      have hend : openEnd cc (c :: d :: rest) = openEnd cc (d :: rest) := by
        rw [openEnd, openEnd, List.getLast?_cons_cons]
      rw [countLoop, inside, ih, hend, Nat.add_assoc]
      rfl

theorem count_eq (h : Exclusive cc) (s : WStr) :
    strCellsCount cc s = inside cc true s + openEnd cc s := countLoop_eq h true s

theorem inside_append (first : Bool) (a b : WStr) :
    inside cc first (a ++ b) = inside cc first a + inside cc (first && a.isEmpty) b := by
  induction a generalizing first with
  | nil => simp [inside]
  | cons c a ih => simp [inside, ih, Nat.add_assoc]

theorem openEnd_append (hb : b ≠ []) : openEnd cc (a ++ b) = openEnd cc b := by
  rw [openEnd, openEnd, List.getLast?_append_of_ne_nil _ hb]

theorem openEnd_nil : openEnd cc [] = 0 := rfl

theorem openEnd_eq_one_iff : openEnd cc s = 1 ↔ ∃ p, s.getLast? = some p ∧ cc.isPrefix p = true := by
  rw [openEnd]
  cases s.getLast? with
  | none => simp
  | some p => simp

/-- A text without prefixes does not end with one. -/
theorem openEnd_closed (hs : ∀ c ∈ s, cc.isPrefix c = false) : openEnd cc s = 0 := by
  rw [openEnd, if_neg]
  rw [Bool.not_eq_true, Option.any_eq_false]
  exact fun c hc => by rw [hs c (List.mem_of_getLast? hc)]

theorem inside_marks (h : Exclusive cc) (hmarks : ∀ m ∈ marks, cc.isPrefix m = true) (first : Bool) :
    inside cc first marks = 0 := by
  induction marks generalizing first with
  | nil => rfl
  | cons m marks ih =>
    have hm := hmarks m List.mem_cons_self
    rw [inside, ih fun m hm => hmarks m (List.mem_cons_of_mem _ hm), cellsOf, h.prefix_fullWidth m hm, hm]
    simp

theorem inside_sufs (h : Exclusive cc) (hsufs : ∀ m ∈ sufs, cc.suffix m = true) :
    inside cc false sufs = 0 := by
  induction sufs with
  | nil => rfl
  | cons m sufs ih =>
    have hm := hsufs m List.mem_cons_self
    rw [inside, ih fun m hm => hsufs m (List.mem_cons_of_mem _ hm), cellsOf, h.suffix_fullWidth m hm, hm]
    simp

theorem openEnd_marks (hmarks : ∀ m ∈ marks, cc.isPrefix m = true) (hne : marks ≠ []) :
    openEnd cc marks = 1 := by
  rw [openEnd, if_pos]
  rw [List.getLast?_eq_some_getLast hne]
  exact hmarks _ (List.getLast_mem hne)

theorem cellsOf_le (cc : CellClasses) (first : Bool) (c : WChar) : cellsOf cc first false c ≤ width cc c := by
  rw [cellsOf, width]
  split
  · exact Nat.le_refl _
  · split
    · exact Nat.le_refl _
    · exact Nat.zero_le _

/-- The character of a cluster takes the cells of the cluster, unless it is a suffix behind a prefix. -/
theorem cellsOf_whole (hc : cc.isPrefix c = false) (hgood : marks = [] ∨ cc.suffix c = false) :
    cellsOf cc marks.isEmpty false c = width cc c := by
  rw [cellsOf, width, hc]
  rcases hgood with rfl | hgood
  · simp
  · simp [hgood]

theorem cellsOf_lost (h : Exclusive cc) (hc : cc.suffix c = true) (hmarks : marks ≠ []) :
    cellsOf cc marks.isEmpty false c = 0 := by
  rw [cellsOf, h.suffix_fullWidth c hc, hc, List.isEmpty_eq_false_iff.mpr hmarks]
  simp

theorem inside_cluster (h : Exclusive cc) (hmarks : ∀ m ∈ marks, cc.isPrefix m = true) (c : WChar)
    (tail : WStr) : inside cc true (marks ++ c :: tail)
      = cellsOf cc marks.isEmpty false c + inside cc false tail := by
  rw [inside_append, inside_marks h hmarks, inside, Nat.zero_add, Bool.true_and]

/-! ## Clusters -/

/-- A cluster, and what is left behind it. -/
structure Cluster (cc : CellClasses) (marks : WStr) (c : WChar) (sufs rest : WStr) : Prop where
  marks : ∀ m ∈ marks, cc.isPrefix m = true
  char : cc.isPrefix c = false
  sufs : ∀ m ∈ sufs, cc.suffix m = true
  rest : ∀ m ∈ rest.head?, cc.suffix m = false

theorem Cluster.tail (hC : Cluster cc marks c sufs rest) (h : Exclusive cc) :
    ∀ m ∈ c :: sufs, cc.isPrefix m = false := by
  intro m hm
  rcases List.mem_cons.mp hm with rfl | hm
  · exact hC.char
  · refine Bool.eq_false_iff.mpr fun hmark => ?_
    exact absurd (h.prefix_suffix m hmark) (by rw [hC.sufs m hm]; decide)

theorem Cluster.openEnd (hC : Cluster cc marks c sufs rest) (h : Exclusive cc) :
    openEnd cc (marks ++ c :: sufs) = 0 := by
  rw [openEnd_append (List.cons_ne_nil _ _), openEnd_closed (hC.tail h)]

theorem Cluster.inside (hC : Cluster cc marks c sufs rest) (h : Exclusive cc) :
    inside cc true (marks ++ c :: sufs) = cellsOf cc marks.isEmpty false c := by
  rw [inside_cluster h hC.marks, inside_sufs h hC.sufs, Nat.add_zero]

/-- A text is nothing but prefixes, or has a cluster in front of what is left. -/
theorem cluster_induction (cc : CellClasses) {motive : WStr → Prop}
    (open_ : ∀ marks, (∀ m ∈ marks, cc.isPrefix m = true) → motive marks)
    (cluster : ∀ marks c sufs rest, Cluster cc marks c sufs rest → motive rest →
      motive (marks ++ c :: (sufs ++ rest))) (s : WStr) : motive s := by
  induction hn : s.length using Nat.strongRecOn generalizing s with
  | ind n ih =>
    have hmarks : ∀ m ∈ s.takeWhile cc.isPrefix, cc.isPrefix m = true := fun m hm =>
      List.all_eq_true.mp List.all_takeWhile m hm
    rw [← List.takeWhile_append_dropWhile (p := cc.isPrefix) (l := s)]
    cases hbehind : s.dropWhile cc.isPrefix with
    | nil =>
      rw [List.append_nil]
      exact open_ _ hmarks
    | cons c behind =>
      have hlen := congrArg List.length (List.takeWhile_append_dropWhile (p := cc.isPrefix) (l := s))
      rw [hbehind, List.length_append, List.length_cons] at hlen
      have hle := (List.dropWhile_suffix cc.suffix (l := behind)).length_le
      rw [← List.takeWhile_append_dropWhile (p := cc.suffix) (l := behind)]
      refine cluster _ c _ _ ⟨hmarks, ?_, fun m hm => List.all_eq_true.mp List.all_takeWhile m hm, ?_⟩
        (ih _ (by omega) _ rfl)
      · have hhead := List.head?_dropWhile_not cc.isPrefix s
        rw [hbehind] at hhead
        simpa using hhead
      · intro m hm
        have hhead := List.head?_dropWhile_not cc.suffix behind
        rw [Option.mem_def.mp hm] at hhead
        simpa using hhead

/-! ## The loop -/

theorem sizeLoop_done (h : ¬(g < ng ∧ rest ≠ [])) : sizeLoop cc ng false rest i g = (i, g) := by
  rw [sizeLoop, if_neg h]

theorem sizeLoop_open (hlt : g < ng) (hmarks : ∀ m ∈ marks, cc.isPrefix m = true) (hne : marks ≠ []) :
    sizeLoop cc ng false marks i g = (i + marks.length, g + 1) := by
  have hdrop : marks.dropWhile cc.isPrefix = [] := by
    rw [List.dropWhile_eq_nil_iff]
    exact hmarks
  rw [sizeLoop, if_pos ⟨hlt, hne⟩]
  split
  · rfl
  · next hcons => rw [hdrop] at hcons; exact absurd hcons (by simp)

theorem sizeLoop_cluster (hlt : g < ng) (hC : Cluster cc marks c sufs rest) :
    sizeLoop cc ng false (marks ++ c :: (sufs ++ rest)) i g =
      if cc.fullWidth c = true ∧ g + 1 = ng then (i + marks.length, g)
      else sizeLoop cc ng false rest (i + (marks ++ c :: sufs).length) (g + width cc c) := by
  have hdrop : (marks ++ c :: (sufs ++ rest)).dropWhile cc.isPrefix = c :: (sufs ++ rest) := by
    rw [List.dropWhile_append_of_pos hC.marks, List.dropWhile_cons_of_neg (by rw [hC.char]; decide)]
  have htake : (marks ++ c :: (sufs ++ rest)).takeWhile cc.isPrefix = marks := by
    rw [List.takeWhile_append_of_pos hC.marks, List.takeWhile_cons_of_neg (by rw [hC.char]; decide),
      List.append_nil]
  have hrest : rest.dropWhile cc.suffix = rest ∧ rest.takeWhile cc.suffix = [] := by
    cases rest with
    | nil => exact ⟨rfl, rfl⟩
    | cons m rest =>
      have hm : ¬cc.suffix m = true := by rw [hC.rest m rfl]; decide
      exact ⟨List.dropWhile_cons_of_neg hm, List.takeWhile_cons_of_neg hm⟩
  rw [sizeLoop, if_pos ⟨hlt, by simp⟩]
  split
  · next hnil => rw [hdrop] at hnil; exact absurd hnil (by simp)
  · next c' behind hcons =>
    obtain ⟨rfl, rfl⟩ := List.cons.inj (hcons.symm.trans hdrop)
    rw [htake, List.dropWhile_append_of_pos hC.sufs, List.takeWhile_append_of_pos hC.sufs, hrest.1,
      hrest.2, List.append_nil, width]
    simp only [Bool.not_false, true_and, List.length_append, List.length_cons]
    congr 2
    omega

/-! ## Agreement -/

/-- A cluster ends in front of the position. -/
def EndsCluster (cc : CellClasses) (s : WStr) (j : Nat) : Prop :=
  j = s.length ∨ (∀ c ∈ (s.take j).getLast?, cc.isPrefix c = false)
    ∧ ∀ c ∈ (s.drop j).head?, cc.suffix c = false

/-- **What `StrSizeOfCells` returns is right**: the count is that of `StrCellsCount`, it is within
the budget, and no longer piece that ends with a cluster is. -/
structure Agrees (cc : CellClasses) (s : WStr) (ng : Nat) (r : Nat × Nat) : Prop where
  within : r.1 ≤ s.length
  fits : r.2 ≤ ng
  count : strCellsCount cc (s.take r.1) = r.2
  longest : ∀ j, r.1 < j → j ≤ s.length → EndsCluster cc s j → ng < strCellsCount cc (s.take j)

/-- **When they agree**: a suffix stands directly behind a prefix only where what is in front of it
takes more than a cell too much, and a character that is two cells wide only where what is in front
of it does not take the budget exactly. -/
def Careful (cc : CellClasses) (ng : Nat) (s : WStr) : Prop :=
  ∀ a c b, s = a ++ c :: b → (∃ p, a.getLast? = some p ∧ cc.isPrefix p = true) →
    (cc.suffix c = true → ng + 1 < strCellsCount cc a)
      ∧ (cc.fullWidth c = true → strCellsCount cc a ≠ ng)

/-- Clusters have been taken, and others are left. -/
structure Between (cc : CellClasses) (done rest : WStr) : Prop where
  closed : openEnd cc done = 0
  fresh : done = [] ∨ ∀ c ∈ rest.head?, cc.suffix c = false

theorem Between.inside {z : WStr} (hb : Between cc done (more ++ z)) :
    inside cc true (done ++ more) = inside cc true done + inside cc true more := by
  rw [inside_append, Bool.true_and]
  congr 1
  rcases hb.fresh with rfl | hfresh
  · rfl
  · cases more with
    | nil => rfl
    | cons c more =>
      have hc : cc.suffix c = false := hfresh c rfl
      rw [StrCells.inside, StrCells.inside, cellsOf, cellsOf, hc]
      simp

theorem Between.count (h : Exclusive cc) {z : WStr} (hb : Between cc done (more ++ z)) :
    strCellsCount cc (done ++ more) = strCellsCount cc done + strCellsCount cc more := by
  rw [count_eq h, count_eq h, count_eq h more, hb.inside, hb.closed]
  cases more with
  | nil => rw [List.append_nil, hb.closed]; rfl
  | cons c more => rw [openEnd_append (List.cons_ne_nil _ _)]; omega

variable (done) in
theorem Cluster.between (hC : Cluster cc marks c sufs rest) (h : Exclusive cc) :
    Between cc (done ++ (marks ++ c :: sufs)) rest where
  closed := by rw [openEnd_append (by simp), hC.openEnd h]
  fresh := .inr hC.rest

/-- The agreement, for a text that is cut where the call stops. -/
theorem agrees_iff {x y : WStr} : Agrees cc (x ++ y) ng (x.length, g)
    ↔ g ≤ ng ∧ strCellsCount cc x = g ∧ ∀ more z, y = more ++ z → more ≠ [] →
      (z = [] ∨ openEnd cc (x ++ more) = 0 ∧ ∀ c ∈ z.head?, cc.suffix c = false) →
      ng < strCellsCount cc (x ++ more) := by
  have hclosed : ∀ s : WStr, openEnd cc s = 0 ↔ ∀ c ∈ s.getLast?, cc.isPrefix c = false := by
    intro s
    rw [openEnd]
    cases s.getLast? with
    | none => simp
    | some p => simp
  constructor
  · rintro ⟨-, hfits, hcount, hlongest⟩
    refine ⟨hfits, by simpa using hcount, ?_⟩
    rintro more z rfl hne hend
    have hpos := List.length_pos_iff.mpr hne
    have htake : (x ++ (more ++ z)).take (x ++ more).length = x ++ more := by
      rw [← List.append_assoc, List.take_left]
    have hdrop : (x ++ (more ++ z)).drop (x ++ more).length = z := by
      rw [← List.append_assoc, List.drop_left]
    have hfar := hlongest (x ++ more).length (by simpa using hpos) (by simp)
    rw [EndsCluster, htake, hdrop] at hfar
    refine hfar (hend.imp (fun hz => by rw [hz, List.append_nil]) fun h => ⟨(hclosed _).mp h.1, h.2⟩)
  · rintro ⟨hfits, hcount, hlongest⟩
    refine ⟨by simp, hfits, by simpa using hcount, fun j hlt hle hend => ?_⟩
    obtain ⟨k, rfl⟩ := Nat.exists_eq_add_of_lt hlt
    have htake : (x ++ y).take (x.length + k + 1) = x ++ y.take (k + 1) := by
      rw [Nat.add_assoc, List.take_length_add_append]
    have hdrop : (x ++ y).drop (x.length + k + 1) = y.drop (k + 1) := by
      rw [Nat.add_assoc, List.drop_length_add_append]
    rw [List.length_append] at hle
    rw [EndsCluster, htake, hdrop] at hend
    rw [htake]
    refine hlongest _ _ (List.take_append_drop _ _).symm (fun hnil => ?_) (hend.imp (fun hz => ?_) fun h =>
      ⟨(hclosed _).mpr h.1, h.2⟩)
    · have hlen := congrArg List.length hnil
      rw [List.length_take, List.length_nil] at hlen
      omega
    · rw [List.length_append] at hz
      exact List.drop_of_length_le (by omega)

/-! ## What follows from the condition -/

/-- The condition, for what is left behind some clusters. -/
def CarefulFrom (cc : CellClasses) (ng : Nat) (done rest : WStr) : Prop :=
  ∀ a c b, rest = a ++ c :: b → openEnd cc a = 1 →
    (cc.suffix c = true → ng + 1 < strCellsCount cc (done ++ a))
      ∧ (cc.fullWidth c = true → strCellsCount cc (done ++ a) ≠ ng)

theorem count_marks (h : Exclusive cc) (hmarks : ∀ m ∈ marks, cc.isPrefix m = true) (hne : marks ≠ []) :
    strCellsCount cc marks = 1 := by
  rw [count_eq h, inside_marks h hmarks, openEnd_marks hmarks hne]

/-- In front of a cluster stand its prefixes, which take a cell as long as its character is not there. -/
theorem Between.count_marks (h : Exclusive cc) {z : WStr} (hb : Between cc done (marks ++ z))
    (hmarks : ∀ m ∈ marks, cc.isPrefix m = true) (hne : marks ≠ []) :
    strCellsCount cc (done ++ marks) = strCellsCount cc done + 1 := by
  rw [hb.count h, StrCells.count_marks h hmarks hne]

/-- Where the condition is met, the cluster is one for `StrCellsCount`. -/
theorem CarefulFrom.whole (h : Exclusive cc) (hC : Cluster cc marks c sufs rest)
    (hb : Between cc done (marks ++ c :: (sufs ++ rest)))
    (hcareful : CarefulFrom cc ng done (marks ++ c :: (sufs ++ rest)))
    (hcount : strCellsCount cc done ≤ ng) : cellsOf cc marks.isEmpty false c = width cc c := by
  refine cellsOf_whole hC.char ?_
  by_cases hne : marks = []
  · exact .inl hne
  · refine .inr (Bool.eq_false_iff.mpr fun hsuffix => ?_)
    have hfar := (hcareful marks c _ rfl (openEnd_marks hC.marks hne)).1 hsuffix
    rw [hb.count_marks h hC.marks hne] at hfar
    omega

theorem width_pos (cc : CellClasses) (c : WChar) : 0 < width cc c := by
  rw [width]
  split <;> decide

theorem agrees_of_careful (h : Exclusive cc) (rest : WStr) : ∀ done : WStr, Between cc done rest →
    strCellsCount cc done ≤ ng → CarefulFrom cc ng done rest →
    Agrees cc (done ++ rest) ng
      (sizeLoop cc ng false rest done.length (strCellsCount cc done)) := by
  induction rest using cluster_induction cc with
  | open_ marks hmarks =>
    intro done hb hle hcareful
    by_cases hgo : strCellsCount cc done < ng ∧ marks ≠ []
    · have hcount := Between.count_marks (z := []) h (by rwa [List.append_nil]) hmarks hgo.2
      have hend : Agrees cc (done ++ marks ++ []) ng ((done ++ marks).length, strCellsCount cc done + 1) :=
        agrees_iff.mpr ⟨hgo.1, hcount, fun more z hnil hne =>
          absurd (List.append_eq_nil_iff.mp hnil.symm).1 hne⟩
      rw [sizeLoop_open hgo.1 hmarks hgo.2, ← List.length_append]
      rwa [List.append_nil] at hend
    · rw [sizeLoop_done hgo]
      refine agrees_iff.mpr ⟨hle, rfl, ?_⟩
      rintro more z rfl hne -
      have hmore : ∀ m ∈ more, cc.isPrefix m = true := fun m hm => hmarks m (List.mem_append_left _ hm)
      rw [hb.count_marks h hmore hne]
      have hfull : ¬strCellsCount cc done < ng := fun hlt => hgo ⟨hlt, by simp [hne]⟩
      omega
  | cluster marks c sufs rest hC ih =>
    intro done hb hle hcareful
    have hwhole := hcareful.whole h hC hb hle
    by_cases hgo : strCellsCount cc done < ng
    · rw [sizeLoop_cluster hgo hC]
      by_cases hwide : cc.fullWidth c = true ∧ strCellsCount cc done + 1 = ng
      · have hnil : marks = [] := by
          by_contra hne
          have hlimit := (hcareful marks c _ rfl (openEnd_marks hC.marks hne)).2 hwide.1
          exact hlimit (by rw [hb.count_marks h hC.marks hne]; exact hwide.2)
        subst hnil
        rw [if_pos hwide]
        refine agrees_iff.mpr ⟨hle, rfl, fun more z hmore hne _ => ?_⟩
        obtain ⟨m, more, rfl⟩ := List.exists_cons_of_ne_nil hne
        obtain ⟨rfl, -⟩ := List.cons.inj hmore
        rw [hmore] at hb
        rw [hb.count h, count_eq h (_ :: more), StrCells.inside, cellsOf, if_pos hwide.1]
        omega
      · have hb' := hC.between done h
        have hcount : strCellsCount cc (done ++ (marks ++ c :: sufs))
            = strCellsCount cc done + width cc c := by
          rw [Between.count (z := rest) h (by simpa using hb), count_eq h (marks ++ c :: sufs),
            hC.inside h, hC.openEnd h, hwhole, Nat.add_zero]
        rw [if_neg hwide, ← List.length_append, ← hcount,
          show done ++ (marks ++ c :: (sufs ++ rest)) = (done ++ (marks ++ c :: sufs)) ++ rest by simp]
        refine ih _ hb' ?_ fun a c' b hsplit hopen => ?_
        · rw [hcount, width]
          split
          · next hfull =>
            have hne : strCellsCount cc done + 1 ≠ ng := fun heq => hwide ⟨hfull, heq⟩
            omega
          · exact hgo
        · have ha : a ≠ [] := fun hnil => by rw [hnil, openEnd_nil] at hopen; exact absurd hopen Nat.zero_ne_one
          have hfar := hcareful (marks ++ c :: sufs ++ a) c' b (by rw [hsplit]; simp)
            (by rw [openEnd_append ha]; exact hopen)
          rwa [← List.append_assoc] at hfar
    · rw [sizeLoop_done fun hlt => hgo hlt.1]
      refine agrees_iff.mpr ⟨hle, rfl, fun more z hmore hne _ => ?_⟩
      rw [hmore] at hb
      rw [hb.count h]
      have hpos : 0 < strCellsCount cc more := by
        rcases List.append_eq_append_iff.mp hmore with ⟨w, rfl, hz⟩ | ⟨w, rfl, -⟩
        · cases w with
          | nil =>
            rw [List.append_nil] at hne ⊢
            rw [count_marks h hC.marks hne]
            exact Nat.one_pos
          | cons m w =>
            obtain ⟨rfl, -⟩ := List.cons.inj hz
            have hwidth := width_pos cc c
            rw [count_eq h, inside_cluster h hC.marks, hwhole]
            omega
        · rw [count_marks h (fun m hm => hC.marks m (List.mem_append_left _ hm)) hne]
          exact Nat.one_pos
      have hfull : ¬strCellsCount cc done < ng := hgo
      omega

/-! ## What follows from the agreement -/

/-- Once `StrSizeOfCells` is ahead of `StrCellsCount`, its result is wrong. -/
theorem not_agrees_of_ahead (h : Exclusive cc) (rest : WStr) : ∀ (done : WStr) (g : Nat),
    Between cc done rest → strCellsCount cc done < g →
    ¬Agrees cc (done ++ rest) ng (sizeLoop cc ng false rest done.length g) := by
  induction rest using cluster_induction cc with
  | open_ marks hmarks =>
    intro done g hb hahead hagrees
    by_cases hgo : g < ng ∧ marks ≠ []
    · have hcount := Between.count_marks (z := []) h (by rwa [List.append_nil]) hmarks hgo.2
      rw [sizeLoop_open hgo.1 hmarks hgo.2, ← List.length_append] at hagrees
      have hbad := hagrees.count
      rw [List.take_length] at hbad
      dsimp only at hbad
      omega
    · rw [sizeLoop_done hgo] at hagrees
      have hbad := (agrees_iff.mp hagrees).2.1
      omega
  | cluster marks c sufs rest hC ih =>
    intro done g hb hahead hagrees
    by_cases hgo : g < ng
    · rw [sizeLoop_cluster hgo hC] at hagrees
      by_cases hwide : cc.fullWidth c = true ∧ g + 1 = ng
      · rw [if_pos hwide, ← List.length_append, ← List.append_assoc] at hagrees
        obtain ⟨-, hcount, hlongest⟩ := agrees_iff.mp hagrees
        have hmarks : marks ≠ [] := fun hnil => by
          rw [hnil, List.append_nil] at hcount
          omega
        rw [hb.count_marks h hC.marks hmarks] at hcount
        -- the cluster fits after all
        have hfar := hlongest (c :: sufs) rest rfl (List.cons_ne_nil _ _)
          (.inr ⟨by rw [List.append_assoc, openEnd_append (by simp), hC.openEnd h], hC.rest⟩)
        rw [List.append_assoc, Between.count (z := rest) h (by simpa using hb),
          count_eq h (marks ++ c :: sufs), hC.inside h, hC.openEnd h, cellsOf, if_pos hwide.1] at hfar
        omega
      · rw [if_neg hwide, ← List.length_append,
          show done ++ (marks ++ c :: (sufs ++ rest)) = (done ++ (marks ++ c :: sufs)) ++ rest by simp]
          at hagrees
        refine ih _ _ (hC.between _ h) ?_ hagrees
        have hle := cellsOf_le cc marks.isEmpty c
        rw [Between.count (z := rest) h (by simpa using hb), count_eq h (marks ++ c :: sufs),
          hC.inside h, hC.openEnd h]
        omega
    · rw [sizeLoop_done fun hlt => hgo hlt.1] at hagrees
      have hbad := (agrees_iff.mp hagrees).2.1
      omega

/-- A place behind a prefix is among the prefixes of the first cluster, in front of its character, or
behind the cluster. -/
theorem Cluster.place (hC : Cluster cc marks c sufs rest) (h : Exclusive cc) {c' : WChar}
    (hsplit : marks ++ c :: (sufs ++ rest) = a ++ c' :: b) (hopen : StrCells.openEnd cc a = 1) :
    cc.isPrefix c' = true ∨ a = marks ∧ c' = c
      ∨ ∃ a', a = marks ++ c :: sufs ++ a' ∧ StrCells.openEnd cc a' = 1 ∧ rest = a' ++ c' :: b := by
  rcases List.append_eq_append_iff.mp hsplit with ⟨w, rfl, hz⟩ | ⟨w, rfl, hz⟩
  · cases w with
    | nil => exact .inr (.inl ⟨by simp, (List.cons.inj hz).1.symm⟩)
    | cons m w =>
      obtain ⟨rfl, htail⟩ := List.cons.inj hz
      rw [openEnd_append (List.cons_ne_nil _ _)] at hopen
      rcases List.append_eq_append_iff.mp htail with ⟨a', rfl, hrest⟩ | ⟨u, rfl, -⟩
      · refine .inr (.inr ⟨a', by simp, ?_, hrest⟩)
        by_cases ha' : a' = []
        · rw [ha', List.append_nil, openEnd_closed (hC.tail h)] at hopen
          exact absurd hopen Nat.zero_ne_one
        · rwa [← List.cons_append, openEnd_append ha'] at hopen
      · rw [openEnd_closed fun m hm => hC.tail h m (by
          rcases List.mem_cons.mp hm with rfl | hm
          · exact List.mem_cons_self
          · exact List.mem_cons_of_mem _ (List.mem_append_left _ hm))] at hopen
        exact absurd hopen Nat.zero_ne_one
  · cases w with
    | nil => exact .inr (.inl ⟨by simp, (List.cons.inj hz).1⟩)
    | cons m w =>
      obtain ⟨rfl, -⟩ := List.cons.inj hz
      exact .inl (hC.marks c' (List.mem_append_right _ List.mem_cons_self))

theorem careful_of_agrees (h : Exclusive cc) (rest : WStr) : ∀ done : WStr, Between cc done rest →
    Agrees cc (done ++ rest) ng (sizeLoop cc ng false rest done.length (strCellsCount cc done)) →
    CarefulFrom cc ng done rest := by
  have hneither : ∀ {c' : WChar} {p q : Prop}, cc.isPrefix c' = true →
      (cc.suffix c' = true → p) ∧ (cc.fullWidth c' = true → q) := by
    intro c' p q hmark
    rw [h.prefix_suffix c' hmark, h.prefix_fullWidth c' hmark]
    exact ⟨fun hs => (by cases hs), fun hf => (by cases hf)⟩
  induction rest using cluster_induction cc with
  | open_ marks hmarks =>
    intro done hb hagrees a c b hsplit hopen
    exact hneither (hmarks c (by rw [hsplit]; simp))
  | cluster marks c sufs rest hC ih =>
    intro done hb hagrees a c' b hsplit hopen
    have hne : a ≠ [] := fun hnil => by
      rw [hnil, openEnd_nil] at hopen
      exact absurd hopen Nat.zero_ne_one
    have hcount : strCellsCount cc (done ++ a) = strCellsCount cc done + (inside cc true a + 1) := by
      rw [hsplit] at hb
      rw [hb.count h, count_eq h a, hopen]
    by_cases hgo : strCellsCount cc done < ng
    · rw [sizeLoop_cluster hgo hC] at hagrees
      by_cases hwide : cc.fullWidth c = true ∧ strCellsCount cc done + 1 = ng
      · rw [if_pos hwide, ← List.length_append, ← List.append_assoc] at hagrees
        have hnil : marks = [] := by
          by_contra hmarks
          have hbad := (agrees_iff.mp hagrees).2.1
          rw [hb.count_marks h hC.marks hmarks] at hbad
          omega
        subst hnil
        obtain ⟨m, a, rfl⟩ := List.exists_cons_of_ne_nil hne
        obtain ⟨rfl, -⟩ := List.cons.inj hsplit
        rw [StrCells.inside, cellsOf, if_pos hwide.1] at hcount
        exact ⟨fun _ => by omega, fun _ => by omega⟩
      · rw [if_neg hwide, ← List.length_append,
          show done ++ (marks ++ c :: (sufs ++ rest)) = (done ++ (marks ++ c :: sufs)) ++ rest by simp]
          at hagrees
        have hb' := hC.between done h
        have hsum : strCellsCount cc (done ++ (marks ++ c :: sufs))
            = strCellsCount cc done + cellsOf cc marks.isEmpty false c := by
          rw [Between.count (z := rest) h (by simpa using hb), count_eq h (marks ++ c :: sufs),
            hC.inside h, hC.openEnd h, Nat.add_zero]
        have hgood : marks = [] ∨ cc.suffix c = false := by
          by_cases hmarks : marks = []
          · exact .inl hmarks
          · refine .inr (Bool.eq_false_iff.mpr fun hsuffix => ?_)
            rw [cellsOf_lost h hsuffix hmarks] at hsum
            have hwidth := width_pos cc c
            exact not_agrees_of_ahead h rest _ _ hb' (by omega) hagrees
        rw [cellsOf_whole hC.char hgood] at hsum
        rw [← hsum] at hagrees
        rcases hC.place h hsplit hopen with hmark | ⟨rfl, rfl⟩ | ⟨a', rfl, hopen', hrest⟩
        · exact hneither hmark
        · rcases hgood with hnil | hsuffix
          · exact absurd hnil hne
          · rw [hsuffix]
            refine ⟨fun hs => (by cases hs), fun hfull heq => hwide ⟨hfull, ?_⟩⟩
            rwa [hb.count_marks h hC.marks hne] at heq
        · rw [← List.append_assoc]
          exact ih _ hb' hagrees a' c' b hrest hopen'
    · rw [sizeLoop_done fun hlt => hgo hlt.1] at hagrees
      obtain ⟨hfits, -, hlongest⟩ := agrees_iff.mp hagrees
      refine ⟨fun hsuffix => ?_, fun _ => by omega⟩
      -- the cluster with the suffix takes no cell of its own
      have hsufs : ∀ m ∈ b.takeWhile cc.suffix, cc.suffix m = true := fun m hm =>
        List.all_eq_true.mp List.all_takeWhile m hm
      have hclosed : ∀ m ∈ c' :: b.takeWhile cc.suffix, cc.isPrefix m = false := by
        intro m hm
        refine Bool.eq_false_iff.mpr fun hmark => ?_
        have hno := h.prefix_suffix m hmark
        rcases List.mem_cons.mp hm with rfl | hm
        · exact absurd hsuffix (by rw [hno]; decide)
        · exact absurd (hsufs m hm) (by rw [hno]; decide)
      have hmore : marks ++ c :: (sufs ++ rest)
          = (a ++ c' :: b.takeWhile cc.suffix) ++ b.dropWhile cc.suffix := by
        rw [hsplit, List.append_assoc, List.cons_append, List.takeWhile_append_dropWhile]
      have hend : openEnd cc (a ++ c' :: b.takeWhile cc.suffix) = 0 := by
        rw [openEnd_append (List.cons_ne_nil _ _), openEnd_closed hclosed]
      have hfar := hlongest _ _ hmore (by simp) (.inr ⟨by rw [openEnd_append (by simp), hend], fun m hm => by
        have hhead := List.head?_dropWhile_not cc.suffix b
        rw [Option.mem_def.mp hm] at hhead
        simpa using hhead⟩)
      rw [hmore] at hb
      rw [hb.count h, count_eq h (a ++ _), hend, inside_append, StrCells.inside, inside_sufs h hsufs,
        Bool.true_and, cellsOf_lost h hsuffix hne] at hfar
      omega

/-! ## The claim -/

/-- A sign of Arabic that belongs to the digits behind it, an accent, and an ideograph. -/
def sampleClasses : CellClasses where
  fullWidth c := c = 0x4E00
  isPrefix c := c = 0x600
  suffix c := c = 0x301

theorem exclusive_sample : Exclusive sampleClasses where
  prefix_suffix c hc := by
    obtain rfl : c = 0x600 := of_decide_eq_true hc
    rfl
  prefix_fullWidth c hc := by
    obtain rfl : c = 0x600 := of_decide_eq_true hc
    rfl
  suffix_fullWidth c hc := by
    obtain rfl : c = 0x301 := of_decide_eq_true hc
    rfl

end StrCells

end Far2l
