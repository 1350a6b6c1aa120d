/-
Lib.LexicalPath — what a path denotes when only its text is looked at.

A path is a list over an alphabet with a separator and a dot. Its components lead
from a directory to another one: a name goes into it, two dots go out of it, and
nothing else moves. Nothing here is about a particular program.
-/
import Mathlib.Data.List.Basic
import Mathlib.Data.List.SplitOn

namespace Far2l

/-- What the paths over an alphabet are written with. -/
structure PathSyntax (α : Type) where
  sep : α
  dot : α
  dot_ne : dot ≠ sep

namespace PathSyntax

variable {α : Type} [DecidableEq α] (S : PathSyntax α)

/-! ## Names and directories -/

/-- A component that goes into a directory. -/
def IsName (c : List α) : Prop := c ≠ [] ∧ c ≠ [S.dot] ∧ c ≠ [S.dot, S.dot] ∧ S.sep ∉ c

instance (c : List α) : Decidable (S.IsName c) := inferInstanceAs (Decidable (_ ∧ _))

/-- A directory: the names that lead to it from the root, the innermost one first. -/
abbrev Dir : Type := List { c : List α // S.IsName c }

/-- One component of a path. -/
def step (d : S.Dir) (c : List α) : S.Dir :=
  if h : S.IsName c then ⟨c, h⟩ :: d
  else if c = [S.dot, S.dot] then d.tail
  else d

/-- The components of a path, one after the other. -/
def walk (d : S.Dir) (cs : List (List α)) : S.Dir := cs.foldl S.step d

/-- A path that starts at the root. -/
def Absolute (p : List α) : Prop := p.head? = some S.sep

instance (p : List α) : Decidable (S.Absolute p) := inferInstanceAs (Decidable (_ = _))

/-- What a path denotes in a directory. -/
def resolve (d : S.Dir) (p : List α) : S.Dir :=
  S.walk (if S.Absolute p then [] else d) (p.splitOn S.sep)

/-- A directory's path, but nothing for the root. -/
def below : S.Dir → List α
  | [] => []
  | c :: d => below d ++ S.sep :: c.1

/-- A directory's path. -/
def render (d : S.Dir) : List α := if d = [] then [S.sep] else S.below d

/-! ## Composition -/

variable {S} {d e : S.Dir} {p q c : List α}

theorem walk_append (cs cs' : List (List α)) : S.walk d (cs ++ cs') = S.walk (S.walk d cs) cs' :=
  List.foldl_append

theorem walk_singleton : S.walk d [c] = S.step d c := rfl

theorem step_name (h : S.IsName c) : S.step d c = ⟨c, h⟩ :: d := dif_pos h

theorem step_nil : S.step d [] = d := by
  rw [step, dif_neg (fun h => h.1 rfl), if_neg (List.cons_ne_nil _ _).symm]

theorem step_dots : S.step d [S.dot, S.dot] = d.tail := by
  rw [step, dif_neg (fun h => h.2.2.1 rfl), if_pos rfl]

/-- An absolute path denotes the same everywhere. -/
theorem resolve_absolute (h : S.Absolute p) : S.resolve d p = S.walk [] (p.splitOn S.sep) := by
  rw [resolve, if_pos h]

theorem resolve_relative (h : ¬ S.Absolute p) : S.resolve d p = S.walk d (p.splitOn S.sep) := by
  rw [resolve, if_neg h]

/-- No component has a separator in it. -/
theorem sep_not_mem_of_mem_splitOn : ∀ {p c : List α}, c ∈ p.splitOn S.sep → S.sep ∉ c
  | [], c, h => by
    rw [List.splitOn_nil, List.mem_singleton] at h
    exact h ▸ List.not_mem_nil
  | x :: p, c, h => by
    rw [List.splitOn_cons_eq_if_modifyHead] at h
    split at h
    · rcases List.mem_cons.mp h with rfl | h
      · exact List.not_mem_nil
      · exact sep_not_mem_of_mem_splitOn h
    · next hx =>
      obtain ⟨first, rest, hparts⟩ := List.exists_cons_of_ne_nil (List.splitOn_ne_nil S.sep p)
      rw [hparts, List.modifyHead_cons] at h
      have hall : ∀ c' ∈ first :: rest, S.sep ∉ c' := fun c' hc' => sep_not_mem_of_mem_splitOn (hparts ▸ hc')
      rcases List.mem_cons.mp h with rfl | h
      · intro hmem
        rcases List.mem_cons.mp hmem with heq | hmem
        · exact hx (by simp [heq])
        · exact hall first List.mem_cons_self hmem
      · exact hall c (List.mem_cons_of_mem _ h)

/-- What is behind a separator is walked from what is in front of it. -/
theorem resolve_append (h : S.Absolute p) :
    S.resolve d (p ++ S.sep :: q) = S.walk (S.resolve d p) (q.splitOn S.sep) := by
  have happend : S.Absolute (p ++ S.sep :: q) := by
    rw [Absolute, List.head?_append, show p.head? = some S.sep from h]
    rfl
  rw [resolve_absolute happend, resolve_absolute h, List.splitOn_append_cons_self, walk_append]

/-- What is behind a directory that ends in a separator is walked from the directory. -/
theorem resolve_sep_append (p q : List α) :
    S.resolve d (p ++ S.sep :: q) = S.walk (S.resolve d (p ++ [S.sep])) (q.splitOn S.sep) := by
  have hhead : (p ++ S.sep :: q).head? = (p ++ [S.sep]).head? := by
    cases p <;> rfl
  have habs : S.Absolute (p ++ S.sep :: q) ↔ S.Absolute (p ++ [S.sep]) := iff_of_eq (congrArg (· = some S.sep) hhead)
  rw [resolve, resolve, List.splitOn_append_cons_self, List.splitOn_append_cons_self, walk_append, walk_append,
    List.splitOn_nil, walk_singleton, step_nil]
  simp only [habs]

/-- A last component that is a name. -/
theorem resolve_append_name (h : S.Absolute p) (hc : S.IsName c) :
    S.resolve d (p ++ S.sep :: c) = ⟨c, hc⟩ :: S.resolve d p := by
  rw [resolve_append h, List.splitOn_eq_singleton hc.2.2.2, walk_singleton, step_name hc]

/-- Components put together with separators between them lead where they lead one by one. -/
theorem resolve_intercalate {cs : List (List α)} (h : ∀ c ∈ cs, c ≠ [] ∧ S.sep ∉ c) :
    S.resolve d ([S.sep].intercalate cs) = S.walk d cs := by
  cases cs with
  | nil =>
    have hrel : ¬ S.Absolute [] := fun habs : (none : Option α) = some S.sep => nomatch habs
    rw [List.intercalate_nil, resolve_relative hrel, List.splitOn_nil, walk_singleton, step_nil]
    rfl
  | cons c cs =>
    obtain ⟨hne, hsep⟩ := h c List.mem_cons_self
    have hrel : ¬ S.Absolute ([S.sep].intercalate (c :: cs)) := by
      obtain ⟨x, c, rfl⟩ := List.exists_cons_of_ne_nil hne
      intro habs
      have hhead : ([S.sep].intercalate ((x :: c) :: cs)).head? = some x := by
        cases cs with
        | nil => rfl
        | cons c' cs => rfl
      have hx : x = S.sep := Option.some.inj (hhead.symm.trans habs)
      exact hsep (hx ▸ List.mem_cons_self)
    rw [resolve_relative hrel, List.splitOn_intercalate _ (fun c hc => (h c hc).2) (List.cons_ne_nil _ _)]

theorem walk_below : ∀ d : S.Dir, S.walk [] ((S.below d).splitOn S.sep) = d
  | [] => by
    rw [below, List.splitOn_nil, walk_singleton, step_nil]
  | c :: d => by
    rw [below, List.splitOn_append_cons_self, walk_append, walk_below d,
      List.splitOn_eq_singleton c.2.2.2.2, walk_singleton, step_name c.2]

theorem absolute_below : ∀ d : S.Dir, d ≠ [] → S.Absolute (S.below d)
  | [], h => absurd rfl h
  | [c], _ => rfl
  | c :: c' :: d, _ => by
    rw [below, Absolute, List.head?_append, show (S.below (c' :: d)).head? = some S.sep from
      absolute_below (c' :: d) (List.cons_ne_nil _ _)]
    rfl

theorem absolute_render : S.Absolute (S.render d) := by
  rw [render]
  split
  · rfl
  · next h => exact absolute_below d h

/-- **A directory's path denotes the directory**, wherever it is looked at. -/
theorem resolve_render : S.resolve e (S.render d) = d := by
  rw [resolve_absolute absolute_render, render]
  split
  · next h =>
    rw [h]
    have hsplit : [S.sep].splitOn S.sep = [[], []] :=
      List.splitOn_append_cons_self (a := S.sep) [] []
    rw [hsplit, show [[], []] = [([] : List α)] ++ [[]] from rfl, walk_append, walk_singleton,
      walk_singleton, step_nil, step_nil]
  · exact walk_below d

/-! ## Names -/

/-- The names that lead to a directory, the outermost one first. -/
def names (d : S.Dir) : List (List α) := (d.map Subtype.val).reverse

theorem names_cons (c : { c : List α // S.IsName c }) (d : S.Dir) : names (c :: d) = names d ++ [c.1] := by
  rw [names, names, List.map_cons, List.reverse_cons]

theorem names_injective : Function.Injective (names (S := S)) := fun _ _ h =>
  List.map_injective_iff.mpr Subtype.val_injective (List.reverse_inj.mp h)

/-- Its names lead to a directory. -/
theorem walk_names : ∀ d : S.Dir, S.walk [] (names d) = d
  | [] => rfl
  | c :: d => by rw [names_cons, walk_append, walk_names d, walk_singleton, step_name c.2]

theorem isName_of_mem_names (h : c ∈ names d) : S.IsName c := by
  obtain ⟨x, -, rfl⟩ := List.mem_map.mp (List.mem_reverse.mp h)
  exact x.2

theorem below_names : ∀ d : S.Dir, S.below d = (names d).flatMap (S.sep :: ·)
  | [] => rfl
  | c :: d => by
    rw [names_cons, below, below_names d, List.flatMap_append]
    exact congrArg (_ ++ ·) (List.append_nil _).symm

/-- The first names of a directory lead to one above it. -/
theorem walk_take_names (d : S.Dir) (n : Nat) :
    S.walk [] ((names d).take n) = d.drop (d.length - n) := by
  have htake : (names d).take n = names (d.drop (d.length - n)) := by
    rw [names, names, List.take_reverse, List.length_map, List.map_drop]
  rw [htake, walk_names]

/-- Two dots, again and again. -/
theorem walk_dots : ∀ (n : Nat) (d : S.Dir), S.walk d (List.replicate n [S.dot, S.dot]) = d.drop n
  | 0, _ => rfl
  | n + 1, d => by
    rw [List.replicate_succ]
    refine (walk_dots n (S.step d [S.dot, S.dot])).trans ?_
    rw [step_dots, List.drop_tail]

/-! ## Going out again

Which of the components are kept can be read off from the right: every pair of dots
waits for one on its left that it leads out of. -/

variable (S) in
/-- Where components lead that are kept one by one: those that `p` holds of are put behind what is
there, and two dots take the last one away. -/
def follow (p : List α → Bool) (kept : List (List α)) (cs : List (List α)) : List (List α) :=
  cs.foldl (fun kept c => if c = [S.dot, S.dot] then kept.dropLast else if p c then kept ++ [c] else kept) kept

variable (S) in
/-- How many pairs of dots lead out of where the components begin. -/
def climbs (p : List α → Bool) : List (List α) → Nat
  | [] => 0
  | c :: cs => if c = [S.dot, S.dot] then climbs p cs + 1 else if p c then climbs p cs - 1 else climbs p cs

variable (S) in
/-- The components that no dots behind them lead out of. -/
def stays (p : List α → Bool) : List (List α) → List (List α)
  | [] => []
  | c :: cs => if c ≠ [S.dot, S.dot] ∧ p c ∧ S.climbs p cs = 0 then c :: stays p cs else stays p cs

theorem follow_cons (p : List α → Bool) (kept : List (List α)) (c : List α) (cs : List (List α)) :
    S.follow p kept (c :: cs) = S.follow p
      (if c = [S.dot, S.dot] then kept.dropLast else if p c then kept ++ [c] else kept) cs := rfl

theorem follow_append (p : List α → Bool) (kept cs cs' : List (List α)) :
    S.follow p kept (cs ++ cs') = S.follow p (S.follow p kept cs) cs' :=
  List.foldl_append

/-- **What is kept**: of what was there, as much as the dots do not climb out of, and what stays. -/
theorem follow_eq (p : List α → Bool) : ∀ (cs kept : List (List α)),
    S.follow p kept cs = kept.take (kept.length - S.climbs p cs) ++ S.stays p cs
  | [], kept => by simp [follow, climbs, stays]
  | c :: cs, kept => by
    rw [follow_cons, follow_eq p cs, climbs, stays]
    by_cases hdots : c = [S.dot, S.dot]
    · rw [if_pos hdots, if_pos hdots, if_neg (fun h => h.1 hdots), List.dropLast_eq_take, List.take_take,
        List.length_take]
      congr 2
      omega
    rw [if_neg hdots, if_neg hdots]
    by_cases hp : p c
    · rw [if_pos hp, if_pos hp]
      by_cases hzero : S.climbs p cs = 0
      · rw [if_pos ⟨hdots, hp, hzero⟩, hzero, Nat.sub_zero, Nat.sub_zero, List.take_length, List.take_length,
          List.append_assoc]
        rfl
      · rw [if_neg (fun h => hzero h.2.2), List.take_append_of_le_length (by simp; omega)]
        congr 2
        simp
        omega
    · rw [if_neg hp, if_neg hp, if_neg (fun h => hp h.2.1)]

/-- A directory's names are what is kept of the names on the way. -/
theorem names_walk : ∀ (cs : List (List α)) (d : S.Dir),
    names (S.walk d cs) = S.follow (fun c => decide (S.IsName c)) (names d) cs
  | [], _ => rfl
  | c :: cs, d => by
    rw [follow_cons, show S.walk d (c :: cs) = S.walk (S.step d c) cs from rfl, names_walk cs]
    congr 1
    by_cases hname : S.IsName c
    · rw [step_name hname, names_cons, if_neg hname.2.2.1, if_pos (decide_eq_true hname)]
    by_cases hdots : c = [S.dot, S.dot]
    · rw [hdots, step_dots, if_pos rfl]
      cases d with
      | nil => rfl
      | cons c d => rw [names_cons, List.dropLast_concat, List.tail_cons]
    · rw [step, dif_neg hname, if_neg hdots, if_neg hdots, if_neg (by simpa using hname)]

/-- More components to lead out of leave fewer dots. -/
theorem climbs_le {p q : List α → Bool} (h : ∀ c, p c → q c) : ∀ cs : List (List α), S.climbs q cs ≤ S.climbs p cs
  | [] => Nat.le_refl _
  | c :: cs => by
    have ih := climbs_le h cs
    rw [climbs, climbs]
    by_cases hdots : c = [S.dot, S.dot]
    · rw [if_pos hdots, if_pos hdots]
      omega
    · rw [if_neg hdots, if_neg hdots]
      by_cases hp : p c
      · rw [if_pos hp, if_pos (h c hp)]
        omega
      · rw [if_neg hp]
        split <;> omega

theorem stays_subset (p : List α → Bool) : ∀ {cs : List (List α)},
    ∀ c ∈ S.stays p cs, c ∈ cs ∧ c ≠ [S.dot, S.dot] ∧ p c
  | [], c, h => absurd h List.not_mem_nil
  | x :: cs, c, h => by
    rw [stays] at h
    split at h
    · next hx =>
      rcases List.mem_cons.mp h with rfl | h
      · exact ⟨List.mem_cons_self, hx.1, hx.2.1⟩
      · have hrest := stays_subset p c h
        exact ⟨List.mem_cons_of_mem _ hrest.1, hrest.2⟩
    · have hrest := stays_subset p c h
      exact ⟨List.mem_cons_of_mem _ hrest.1, hrest.2⟩

/-- Every component that stays when those of `q` are counted stays when only those of `p` are. -/
def SameStay (S : PathSyntax α) (p q : List α → Bool) (cs : List (List α)) : Prop :=
  ∀ before c behind, cs = before ++ c :: behind → c ≠ [S.dot, S.dot] → p c →
    S.climbs q behind = 0 → S.climbs p behind = 0

theorem length_stays_le {p q : List α → Bool} (h : ∀ c, p c → q c) : ∀ cs : List (List α),
    (S.stays p cs).length ≤ ((S.stays q cs).filter p).length
  | [] => Nat.le_refl _
  | c :: cs => by
    have ih := length_stays_le h cs
    have hle := climbs_le (S := S) h cs
    rw [stays, stays]
    by_cases hp : c ≠ [S.dot, S.dot] ∧ p c ∧ S.climbs p cs = 0
    · rw [if_pos hp, if_pos ⟨hp.1, h c hp.2.1, by omega⟩, List.filter_cons_of_pos hp.2.1]
      simpa using ih
    · rw [if_neg hp]
      split
      · rw [List.filter_cons]
        split
        · simp only [List.length_cons]
          omega
        · exact ih
      · exact ih

/-- **Both readings keep the same** exactly when no component stays in only one of them. -/
theorem stays_eq_iff {p q : List α → Bool} (h : ∀ c, p c → q c) : ∀ cs : List (List α),
    (S.stays q cs).filter p = S.stays p cs ↔ SameStay S p q cs
  | [] => iff_of_true rfl fun before c behind heq => by simp at heq
  | c :: cs => by
    have hrest := stays_eq_iff h cs
    have hle := climbs_le (S := S) h cs
    have hsplit : SameStay S p q (c :: cs) ↔
        (c ≠ [S.dot, S.dot] → p c → S.climbs q cs = 0 → S.climbs p cs = 0) ∧ SameStay S p q cs := by
      constructor
      · exact fun hall => ⟨hall [] c cs rfl,
          fun before x behind heq => hall (c :: before) x behind (by rw [heq]; rfl)⟩
      · rintro ⟨hhead, htail⟩ before x behind heq
        cases before with
        | nil =>
          obtain ⟨rfl, rfl⟩ := List.cons.inj heq
          exact hhead
        | cons y before => exact htail before x behind (List.cons.inj heq).2
    rw [hsplit, ← hrest, stays, stays]
    by_cases hpc : c ≠ [S.dot, S.dot] ∧ p c
    · obtain ⟨hdots, hp⟩ := hpc
      by_cases hq0 : S.climbs q cs = 0
      · rw [if_pos ⟨hdots, h c hp, hq0⟩, List.filter_cons_of_pos hp]
        by_cases hp0 : S.climbs p cs = 0
        · rw [if_pos ⟨hdots, hp, hp0⟩]
          simp [hp0]
        · rw [if_neg fun hand => hp0 hand.2.2]
          refine iff_of_false (fun heq => ?_) fun hand => hp0 (hand.1 hdots hp hq0)
          have hlen := congrArg List.length heq
          have := length_stays_le (S := S) h cs
          rw [List.length_cons] at hlen
          omega
      · rw [if_neg fun hand => hq0 hand.2.2, if_neg fun hand => hq0 (by have := hand.2.2; omega)]
        simp [hq0]
    · have hsame : (List.filter p (if c ≠ [S.dot, S.dot] ∧ q c ∧ S.climbs q cs = 0 then c :: S.stays q cs
          else S.stays q cs)) = (S.stays q cs).filter p := by
        split
        · next hand => exact List.filter_cons_of_neg fun hp => hpc ⟨hand.1, hp⟩
        · rfl
      rw [hsame, if_neg fun hand => hpc ⟨hand.1, hand.2.1⟩]
      exact ⟨fun heq => ⟨fun hdots hp => absurd ⟨hdots, hp⟩ hpc, heq⟩, And.right⟩

end PathSyntax

end Far2l
