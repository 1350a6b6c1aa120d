/-
Far2l.NetRocks.SymlinkTarget — where the targets lead that `OpXfer::SymlinkCopy` of
`NetRocks/src/Op/OpXfer.cpp` chooses.

A path is looked at as text, so it leads somewhere in every current directory; what
is said of it is said of all of them. The copied directory is absolute or relative,
with names in it that are written with one slash each; nothing is known of the
directory it is copied to but that a slash ends it.
-/
import Mathlib.Data.List.Induction
import Mathlib.Data.List.TakeWhile
import Far2l.Lib.LexicalPath
import Far2l.NetRocks.Transfer

namespace Far2l.NetRocks.Xfer

/-! ## Paths and their components -/

/-- How paths are written. -/
def unix : PathSyntax Byte := ⟨slash, 0x2E, by decide⟩

def isName (c : Path) : Bool := decide (unix.IsName c)

/-- The components of an absolute or of a relative path, put together. -/
def pathOf (rooted : Bool) (cs : List Path) : Path :=
  if rooted then cs.flatMap (slash :: ·) else [slash].intercalate cs

/-- Components that are written as they are: not empty, and without a slash. -/
def Written (cs : List Path) : Prop := ∀ c ∈ cs, c ≠ [] ∧ slash ∉ c

theorem components_eq : ∀ target : Path, components target = target.splitOn slash
  | [] => rfl
  | ch :: target => by
    rw [components, List.splitOn_cons_eq_if_modifyHead, components_eq target]
    obtain ⟨c, cs, hcs⟩ := List.exists_cons_of_ne_nil (List.splitOn_ne_nil slash target)
    by_cases hch : ch = slash
    · rw [if_pos hch, if_pos (by simp [hch])]
    · rw [if_neg hch, if_neg (by simp [hch]), hcs]
      rfl

theorem parentPath_append {w c : Path} (hc : slash ∉ c) : parentPath (w ++ slash :: c) = w := by
  have hdrop : (w ++ slash :: c).reverse.dropWhile (· ≠ slash) = slash :: w.reverse := by
    have hall : ∀ x ∈ c.reverse, decide (x ≠ slash) = true :=
      fun x hx => decide_eq_true fun h : x = slash => hc (List.mem_reverse.mp (h ▸ hx))
    rw [List.reverse_append, List.reverse_cons, List.append_assoc, List.dropWhile_append_of_pos hall]
    rfl
  rw [parentPath, hdrop]
  exact List.reverse_reverse w

theorem parentPath_single {c : Path} (hc : slash ∉ c) : parentPath c = [] := by
  have hdrop : c.reverse.dropWhile (· ≠ slash) = [] :=
    List.dropWhile_eq_nil_iff.mpr fun x hx => decide_eq_true fun h : x = slash => hc (List.mem_reverse.mp (h ▸ hx))
  rw [parentPath, hdrop]
  rfl

theorem pathOf_concat (rooted : Bool) (cs : List Path) (c : Path) :
    pathOf rooted (cs ++ [c]) = if rooted ∨ cs ≠ [] then pathOf rooted cs ++ slash :: c else c := by
  cases rooted with
  | true => simp [pathOf]
  | false =>
    induction cs with
    | nil => simp [pathOf]
    | cons x cs ih =>
      simp only [pathOf, Bool.false_eq_true, if_false, false_or] at ih ⊢
      rw [List.cons_append, if_pos (List.cons_ne_nil x cs), List.intercalate_cons_of_ne_nil (by simp), ih]
      cases cs with
      | nil => simp
      | cons y cs => simp [List.intercalate_cons_of_ne_nil]

theorem parentPath_pathOf (rooted : Bool) {cs : List Path} (hcs : ∀ c ∈ cs, slash ∉ c) :
    parentPath (pathOf rooted cs) = pathOf rooted cs.dropLast := by
  rcases List.eq_nil_or_concat cs with rfl | ⟨cs, c, rfl⟩
  · cases rooted <;> rfl
  · have hc : slash ∉ c := hcs c (by simp)
    rw [List.concat_eq_append, List.dropLast_concat, pathOf_concat]
    split
    · exact parentPath_append hc
    · next h =>
      obtain ⟨hrooted, hnil⟩ := not_or.mp h
      rw [parentPath_single hc, not_not.mp hnil]
      cases rooted <;> rfl

/-- The path of components that are written is not empty, and does not end in a slash. -/
theorem getLast?_pathOf (rooted : Bool) {cs : List Path} (hcs : Written cs) (hne : cs ≠ []) :
    pathOf rooted cs ≠ [] ∧ (pathOf rooted cs).getLast? ≠ some slash := by
  rcases List.eq_nil_or_concat cs with rfl | ⟨cs, c, rfl⟩
  · exact absurd rfl hne
  · obtain ⟨hc, hslash⟩ := hcs c (by simp)
    have hlast : c.getLast? ≠ some slash := fun h => hslash (List.mem_of_getLast? h)
    obtain ⟨x, hx⟩ : ∃ x, c.getLast? = some x := ⟨_, List.getLast?_eq_some_getLast hc⟩
    rw [List.concat_eq_append, pathOf_concat]
    split
    · refine ⟨by simp, ?_⟩
      rw [List.getLast?_append, List.getLast?_cons, hx]
      simpa [hx] using hlast
    · exact ⟨hc, hlast⟩

/-! ## The normaliser -/

theorem refine_pathOf (rooted : Bool) {cs : List Path} (hcs : Written cs) {c : Path} (hc : slash ∉ c) :
    refine (pathOf rooted cs) c =
      if c = [0x2E, 0x2E] then pathOf rooted cs.dropLast
      else if isName c then pathOf (rooted && decide (cs ≠ [])) (cs ++ [c]) else pathOf rooted cs := by
  rw [refine]
  by_cases hdots : c = [0x2E, 0x2E]
  · rw [if_neg (by rw [hdots]; decide), if_pos hdots, if_pos hdots]
    exact parentPath_pathOf rooted fun c hc => (hcs c hc).2
  rw [if_neg hdots, if_neg hdots]
  by_cases hname : unix.IsName c
  · rw [if_neg (fun h => h.elim hname.1 hname.2.1), if_pos (show isName c from decide_eq_true hname), pathOf_concat]
    by_cases hne : cs = []
    · subst hne
      cases rooted <;> simp [pathOf]
    · rw [if_pos (getLast?_pathOf rooted hcs hne), if_pos (.inr hne)]
      simp [hne]
  · have hnothing : c = [] ∨ c = [0x2E] := by
      by_contra h
      exact hname ⟨fun h' => h (.inl h'), fun h' => h (.inr h'), hdots, hc⟩
    rw [if_pos hnothing, if_neg (by simpa [isName] using hname)]

/-- **What is refined.** The components are followed, but the path is no longer an absolute one once all
of them have been left. -/
theorem foldl_refine : ∀ (comps cs : List Path) (rooted : Bool), Written cs → (∀ c ∈ comps, slash ∉ c) →
    comps.foldl refine (pathOf rooted cs) =
      pathOf (rooted && decide (unix.climbs isName comps < cs.length)) (unix.follow isName cs comps)
  | [], cs, rooted, _, _ => by
    cases cs with
    | nil => cases rooted <;> rfl
    | cons c cs => simp [PathSyntax.climbs, PathSyntax.follow]
  | c :: comps, cs, rooted, hcs, hcomps => by
    have hc := hcomps c List.mem_cons_self
    have hrest := fun x hx => hcomps x (List.mem_cons_of_mem _ hx)
    rw [List.foldl_cons, refine_pathOf rooted hcs hc, PathSyntax.follow_cons, PathSyntax.climbs]
    by_cases hdots : c = [unix.dot, unix.dot]
    · rw [if_pos (show c = [0x2E, 0x2E] from hdots), if_pos hdots, if_pos hdots,
        foldl_refine comps cs.dropLast rooted (fun x hx => hcs x (List.dropLast_subset _ hx)) hrest, List.length_dropLast]
      congr 2
      exact decide_eq_decide.mpr (by omega)
    rw [if_neg (show ¬c = [0x2E, 0x2E] from hdots), if_neg hdots, if_neg hdots]
    by_cases hname : isName c
    · have hwritten : Written (cs ++ [c]) := by
        intro x hx
        rcases List.mem_append.mp hx with hx | hx
        · exact hcs x hx
        · exact List.mem_singleton.mp hx ▸ ⟨(of_decide_eq_true hname).1, hc⟩
      rw [if_pos hname, if_pos hname, if_pos hname, foldl_refine comps (cs ++ [c]) _ hwritten hrest, Bool.and_assoc,
        List.length_append, List.length_singleton]
      congr 2
      rw [← Bool.decide_and]
      refine decide_eq_decide.mpr ?_
      rw [← List.length_pos_iff]
      omega
    · rw [if_neg hname, if_neg hname, if_neg hname, foldl_refine comps cs rooted hcs hrest]

/-! ## The copied tree -/

/-- Names that are each followed by a slash. -/
def dirs (cs : List Path) : Path := cs.flatMap (· ++ [slash])

theorem dirs_concat (cs : List Path) (c : Path) : dirs (cs ++ [c]) = dirs cs ++ c ++ [slash] := by
  simp [dirs, List.flatMap_append]

theorem pathOf_slash {cs : List Path} (hne : cs ≠ []) : pathOf false cs ++ [slash] = dirs cs := by
  induction cs using List.reverseRecOn with
  | nil => exact absurd rfl hne
  | append_singleton cs c ih =>
    rw [pathOf_concat, dirs_concat]
    by_cases hcs : cs = []
    · subst hcs
      rfl
    · rw [if_pos (.inr hcs), ← ih hcs]
      simp

/-- Names. -/
def Names (cs : List Path) : Prop := ∀ c ∈ cs, unix.IsName c

theorem Names.written {cs : List Path} (h : Names cs) : Written cs := fun c hc => ⟨(h c hc).1, (h c hc).2.2.2⟩

/-- A smart copy of what is under a directory: `base` are the components of `_base_dir`, which is
absolute if `rooted`, and `./` if it is neither absolute nor named. -/
structure Tree (cfg : XferConfig) (rooted : Bool) (base : List Path) : Prop where
  smart : cfg.smartSymlinksCopy = true
  baseDir_eq : cfg.baseDir = pathOf rooted base ++ [slash]
  base_names : Names base ∨ rooted = false ∧ base = [[0x2E]]
  base_ne : rooted = false → base ≠ []
  entries_eq : ∀ e ∈ cfg.entries.map Prod.fst, ∃ t, t ≠ [] ∧ Names t ∧ e = cfg.baseDir ++ pathOf false t
  dst_slash : cfg.dstDir.getLast? = some slash

theorem follow_names (kept : List Path) : ∀ {cs : List Path}, Names cs → unix.follow isName kept cs = kept ++ cs
  | [], _ => (List.append_nil kept).symm
  | c :: cs, h => by
    have hc := h c List.mem_cons_self
    rw [PathSyntax.follow_cons, if_neg hc.2.2.1, if_pos (show isName c from decide_eq_true hc),
      follow_names _ fun x hx => h x (List.mem_cons_of_mem _ hx), List.append_assoc]
    rfl

theorem splitOn_pathOf {cs : List Path} (h : Names cs) (hne : cs ≠ []) : (pathOf false cs).splitOn slash = cs :=
  List.splitOn_intercalate slash (fun c hc => (h c hc).2.2.2) hne

theorem splitOn_dirs : ∀ {cs : List Path}, Names cs → (dirs cs).splitOn slash = cs ++ [[]]
  | [], _ => rfl
  | c :: cs, h => by
    rw [dirs, List.flatMap_cons, List.append_assoc, List.singleton_append, List.splitOn_append_cons_self,
      List.splitOn_eq_singleton (a := slash) (h c List.mem_cons_self).2.2.2,
      show List.flatMap (· ++ [slash]) cs = dirs cs from rfl, splitOn_dirs fun x hx => h x (List.mem_cons_of_mem _ hx)]
    rfl

theorem names_walk_unix (cs : List Path) (d : unix.Dir) :
    PathSyntax.names (unix.walk d cs) = unix.follow isName (PathSyntax.names d) cs :=
  PathSyntax.names_walk cs d

/-- Where names behind a directory lead. -/
theorem names_resolve_names {dir : Path} (hdir : dir.getLast? = some slash) (d : unix.Dir) {t : List Path} (ht : Names t)
    (hne : t ≠ []) : PathSyntax.names (unix.resolve d (dir ++ pathOf false t)) =
      PathSyntax.names (unix.resolve d dir) ++ t := by
  obtain ⟨w, rfl⟩ := List.getLast?_eq_some_iff.mp hdir
  rw [List.append_assoc, List.singleton_append, show slash = unix.sep from rfl, PathSyntax.resolve_sep_append,
    show unix.sep = slash from rfl, splitOn_pathOf ht hne, names_walk_unix, follow_names _ ht]

theorem names_resolve_dirs {dir : Path} (hdir : dir.getLast? = some slash) (d : unix.Dir) {t : List Path} (ht : Names t) :
    PathSyntax.names (unix.resolve d (dir ++ dirs t)) = PathSyntax.names (unix.resolve d dir) ++ t := by
  obtain ⟨w, rfl⟩ := List.getLast?_eq_some_iff.mp hdir
  rw [List.append_assoc, List.singleton_append, show slash = unix.sep from rfl, PathSyntax.resolve_sep_append,
    show unix.sep = slash from rfl, splitOn_dirs ht, PathSyntax.walk_append, PathSyntax.walk_singleton,
    PathSyntax.step_nil, names_walk_unix, follow_names _ ht]

theorem filter_isName {cs : List Path} (h : Names cs) : cs.filter isName = cs :=
  List.filter_eq_self.mpr fun c hc => decide_eq_true (h c hc)

theorem names_rooted (d : unix.Dir) : ∀ {base : List Path}, Names base →
    PathSyntax.names (unix.resolve d (pathOf true base ++ [slash])) = base := by
  intro base
  induction base using List.reverseRecOn with
  | nil => exact fun _ => rfl
  | append_singleton base c ih =>
    intro h
    have htext : pathOf true (base ++ [c]) ++ [slash] = (pathOf true base ++ [slash]) ++ dirs [c] := by
      rw [pathOf_concat, if_pos (.inl rfl)]
      simp [dirs]
    rw [htext, names_resolve_dirs List.getLast?_concat d fun x hx => h x (List.mem_append_right _ hx),
      ih fun x hx => h x (List.mem_append_left _ hx)]

/-- Where `_base_dir` leads: its names, from the root or from the current directory. -/
theorem Tree.names_base {cfg : XferConfig} {rooted : Bool} {base : List Path} (h : Tree cfg rooted base) (d : unix.Dir) :
    PathSyntax.names (unix.resolve d cfg.baseDir) =
      (if rooted then [] else PathSyntax.names d) ++ base.filter isName := by
  rw [h.baseDir_eq]
  rcases h.base_names with hnames | ⟨rfl, rfl⟩
  · cases rooted with
    | true => rw [names_rooted d hnames, filter_isName hnames]; rfl
    | false =>
      obtain ⟨c, cs, rfl⟩ := List.exists_cons_of_ne_nil (h.base_ne rfl)
      have hrel : ¬unix.Absolute (dirs (c :: cs)) := by
        obtain ⟨hne, -, -, hslash⟩ := hnames c List.mem_cons_self
        obtain ⟨x, c, rfl⟩ := List.exists_cons_of_ne_nil hne
        intro habs
        exact hslash (Option.some.inj habs ▸ List.mem_cons_self)
      rw [pathOf_slash (List.cons_ne_nil _ _), PathSyntax.resolve_relative hrel, show unix.sep = slash from rfl, splitOn_dirs hnames,
        PathSyntax.walk_append, PathSyntax.walk_singleton, PathSyntax.step_nil, names_walk_unix, follow_names _ hnames,
        filter_isName hnames]
      rfl
  · rw [show ([[0x2E]] : List Path).filter isName = [] by decide, List.append_nil]
    rfl

/-! ## Where the targets lead -/

/-- The target leads from the directory of the symlink to an entry, whatever the current directory. -/
def LeadsTo (cfg : XferConfig) (dir : List Path) (target : Path) (t : List Path) : Prop :=
  ∀ d, unix.resolve (unix.resolve d (cfg.baseDir ++ dirs dir)) target = unix.resolve d (cfg.baseDir ++ pathOf false t)

/-- A target is chosen, and leads from the directory of the copy to the copy of the entry. -/
def CopiedRight (cfg : XferConfig) (dir : List Path) (name target : Path) (t : List Path) : Prop :=
  ∃ made, chooseTarget cfg (cfg.baseDir ++ pathOf false (dir ++ [name])) (cfg.dstDir ++ pathOf false (dir ++ [name]))
      target = some made ∧
    ∀ d, unix.resolve (unix.resolve d (cfg.dstDir ++ dirs dir)) made = unix.resolve d (cfg.dstDir ++ pathOf false t)

/-- The slashes that are counted in the path of the copy. -/
def ups (cfg : XferConfig) (s : List Path) : Nat := ((cfg.dstDir ++ pathOf false s).drop cfg.baseDir.length).count slash

/-- The names of the directory that is copied to, in a current directory. -/
def dstNames (cfg : XferConfig) (d : unix.Dir) : List Path := PathSyntax.names (unix.resolve d cfg.dstDir)

/-- How far a target climbs. -/
def climb (target : Path) : Nat := unix.climbs isName (target.splitOn slash)

/-- An absolute target is written as the entry is, and as many slashes are counted as the symlink is deep
(or more, where it is copied to the root). A relative one does not climb to the root, and does not climb out
of the tree, or comes back by names that are the last of the directory that is copied to as well. -/
def Fits (cfg : XferConfig) (rooted : Bool) (base dir : List Path) (name target : Path) : Prop :=
  target ≠ [] ∧
    if unix.Absolute target then
      target ∈ cfg.entries.map Prod.fst ∧
        ∀ d, ups cfg (dir ++ [name]) = dir.length ∨ dstNames cfg d = [] ∧ dir.length ≤ ups cfg (dir ++ [name])
    else
      (rooted → climb target < base.length + dir.length) ∧
        (climb target ≤ dir.length ∨ ∀ d, (dstNames cfg d).take ((dstNames cfg d).length - (climb target - dir.length)) ++
          base.drop (base.length - (climb target - dir.length)) = dstNames cfg d)

variable {cfg : XferConfig} {rooted : Bool} {base dir t : List Path} {name target : Path}

/-- What of a directory and names below is left and comes back is right in another directory if it is in
one, unless it is more than the names. -/
theorem take_append_iff {X D stay : List Path} {c : Nat}
    (h : (X ++ dir).take ((X ++ dir).length - c) ++ stay = X ++ t) :
    (D ++ dir).take ((D ++ dir).length - c) ++ stay = D ++ t ↔
      c ≤ dir.length ∨ D.take (D.length - (c - dir.length)) ++ X.drop (X.length - (c - dir.length)) = D := by
  rw [List.length_append] at h ⊢
  by_cases hle : c ≤ dir.length
  · refine iff_of_true ?_ (.inl hle)
    have hinside : ∀ Y : List Path, (Y ++ dir).take (Y.length + dir.length - c) = Y ++ dir.take (dir.length - c) := by
      intro Y
      rw [Nat.add_sub_assoc hle, List.take_length_add_append]
    rw [hinside, List.append_assoc] at h ⊢
    exact congrArg (D ++ ·) (List.append_cancel_left h)
  · have houtside : ∀ Y : List Path,
        (Y ++ dir).take (Y.length + dir.length - c) = Y.take (Y.length - (c - dir.length)) := by
      intro Y
      rw [List.take_append_of_le_length (by omega)]
      congr 1
      omega
    rw [houtside] at h ⊢
    have hstay : stay = X.drop (X.length - (c - dir.length)) ++ t := by
      have hsplit := List.take_append_drop (X.length - (c - dir.length)) X
      have hboth : X.take (X.length - (c - dir.length)) ++ stay =
          X.take (X.length - (c - dir.length)) ++ (X.drop (X.length - (c - dir.length)) ++ t) := by
        rw [← List.append_assoc, hsplit]
        exact h
      exact List.append_cancel_left hboth
    rw [hstay, ← List.append_assoc, List.append_cancel_right_eq]
    exact (or_iff_right hle).symm

theorem Tree.slash_last (h : Tree cfg rooted base) : cfg.baseDir.getLast? = some slash := by
  rw [h.baseDir_eq, List.getLast?_concat]

/-- Where a relative target leads, name by name. -/
theorem names_relative {dirText : Path} (hlast : dirText.getLast? = some slash) (hdir : Names dir)
    (hrel : ¬unix.Absolute target) (d : unix.Dir) :
    PathSyntax.names (unix.resolve (unix.resolve d (dirText ++ dirs dir)) target) =
      (PathSyntax.names (unix.resolve d dirText) ++ dir).take
        ((PathSyntax.names (unix.resolve d dirText) ++ dir).length - climb target) ++
        unix.stays isName (target.splitOn slash) := by
  rw [PathSyntax.resolve_relative hrel, show unix.sep = slash from rfl, names_walk_unix, names_resolve_dirs hlast d hdir,
    PathSyntax.follow_eq]
  rfl

theorem pathOf_append {base s : List Path} (hbase : rooted = false → base ≠ []) (hne : s ≠ []) :
    pathOf rooted (base ++ s) = pathOf rooted base ++ slash :: pathOf false s := by
  have hrooted : rooted = true ∨ base ≠ [] := by
    cases rooted with
    | true => exact .inl rfl
    | false => exact .inr (hbase rfl)
  induction s using List.reverseRecOn with
  | nil => exact absurd rfl hne
  | append_singleton s c ih =>
    rw [← List.append_assoc, pathOf_concat, pathOf_concat]
    by_cases hs : s = []
    · subst hs
      rw [List.append_nil, if_pos hrooted, if_neg (by simp)]
    · rw [if_pos (.inr (by simp [hs])), if_pos (.inr hs), ih hs, List.append_assoc]
      rfl

theorem Tree.path_eq (h : Tree cfg rooted base) {s : List Path} (hne : s ≠ []) :
    cfg.baseDir ++ pathOf false s = pathOf rooted (base ++ s) := by
  rw [pathOf_append h.base_ne hne, h.baseDir_eq, List.append_assoc]
  rfl

theorem Tree.written (h : Tree cfg rooted base) {s : List Path} (hs : Names s) : Written (base ++ s) := by
  intro c hc
  rcases List.mem_append.mp hc with hc | hc
  · rcases h.base_names with hbase | ⟨-, rfl⟩
    · exact hbase.written c hc
    · exact List.mem_singleton.mp hc ▸ ⟨by decide, by decide⟩
  · exact hs.written c hc

/-- What a relative target is refined to. -/
theorem Tree.refined_eq (h : Tree cfg rooted base) (hdir : Names dir) (hname : unix.IsName name) (target : Path) :
    (components target).foldl refine (parentPath (cfg.baseDir ++ pathOf false (dir ++ [name]))) =
      pathOf (rooted && decide (climb target < (base ++ dir).length))
        ((base ++ dir).take ((base ++ dir).length - climb target) ++ unix.stays isName (target.splitOn slash)) := by
  have hwritten : ∀ c ∈ base ++ dir ++ [name], slash ∉ c := by
    intro c hc
    rcases List.mem_append.mp hc with hc | hc
    · exact (h.written hdir c hc).2
    · exact List.mem_singleton.mp hc ▸ hname.2.2.2
  have hparts : ∀ c ∈ target.splitOn slash, slash ∉ c :=
    fun c hc => PathSyntax.sep_not_mem_of_mem_splitOn (S := unix) (p := target) hc
  rw [h.path_eq (by simp), ← List.append_assoc, parentPath_pathOf _ hwritten, List.dropLast_concat, components_eq,
    foldl_refine _ _ _ (h.written hdir) hparts, PathSyntax.follow_eq]
  rfl

/-- A relative target that leads to an entry, read from the root of the tree on. -/
theorem LeadsTo.names (h : Tree cfg rooted base) (hdir : Names dir) (ht : Names t) (hne : t ≠ [])
    (hrel : ¬unix.Absolute target) (hleads : LeadsTo cfg dir target t) (d : unix.Dir) :
    ((if rooted then [] else PathSyntax.names d) ++ base.filter isName ++ dir).take
        (((if rooted then [] else PathSyntax.names d) ++ base.filter isName ++ dir).length - climb target) ++
      unix.stays isName (target.splitOn slash) = (if rooted then [] else PathSyntax.names d) ++ base.filter isName ++ t := by
  rw [← h.names_base d, ← names_relative h.slash_last hdir hrel d, hleads d, names_resolve_names h.slash_last d ht hne]

/-- What leads to an entry in every current directory does not climb out of a relative one. -/
theorem LeadsTo.climb_le (h : Tree cfg false base) (hdir : Names dir) (ht : Names t) (hne : t ≠ [])
    (hrel : ¬unix.Absolute target) (hleads : LeadsTo cfg dir target t) :
    climb target ≤ (base.filter isName).length + dir.length := by
  by_contra hlt
  obtain ⟨j, hj⟩ : ∃ j, climb target = (base.filter isName).length + dir.length + (j + 1) :=
    ⟨climb target - ((base.filter isName).length + dir.length) - 1, by omega⟩
  have hstay : ∀ x : { c : Path // unix.IsName c }, unix.stays isName (target.splitOn slash) =
      List.replicate (j + 1) x.1 ++ base.filter isName ++ t := by
    intro x
    have hnames : PathSyntax.names (List.replicate (j + 1) x : unix.Dir) = List.replicate (j + 1) x.1 := by
      rw [PathSyntax.names, List.map_replicate, List.reverse_replicate]
    have hall := hleads.names h hdir ht hne hrel (List.replicate (j + 1) x)
    rw [if_neg (by decide), hnames] at hall
    rw [List.length_append, List.length_append, List.length_replicate,
      show j + 1 + (base.filter isName).length + dir.length - climb target = 0 by omega] at hall
    exact hall
  have hsame := (hstay ⟨[0x61], by decide⟩).symm.trans (hstay ⟨[0x62], by decide⟩)
  exact absurd (List.cons.inj hsame).1 (by decide)

/-- A relative target is found among the entries. -/
theorem found_iff (h : Tree cfg rooted base) (hdir : Names dir) (hname : unix.IsName name) (ht : Names t) (hne : t ≠ [])
    (hentry : cfg.baseDir ++ pathOf false t ∈ cfg.entries.map Prod.fst) (hrel : ¬unix.Absolute target)
    (hleads : LeadsTo cfg dir target t) :
    (components target).foldl refine (parentPath (cfg.baseDir ++ pathOf false (dir ++ [name]))) ∈ cfg.entries.map Prod.fst ↔
      (rooted → climb target < base.length + dir.length) := by
  rw [h.refined_eq hdir hname]
  have hpath := h.path_eq hne
  cases rooted with
  | true =>
    have hbase : Names base := h.base_names.resolve_right fun hand => Bool.noConfusion hand.1
    have hall := hleads.names h hdir ht hne hrel []
    rw [if_pos rfl, List.nil_append, filter_isName hbase] at hall
    rw [hall, Bool.true_and, List.length_append]
    simp only [true_implies]
    by_cases hlt : climb target < base.length + dir.length
    · rw [decide_eq_true hlt, ← hpath]
      exact iff_of_true hentry hlt
    · rw [decide_eq_false hlt]
      refine iff_of_false (fun hmem => ?_) hlt
      obtain ⟨t', -, -, heq⟩ := h.entries_eq _ hmem
      have hhead : (cfg.baseDir ++ pathOf false t').head? = some slash := by
        rw [h.baseDir_eq]
        cases base <;> rfl
      obtain ⟨c, cs, hcs⟩ := List.exists_cons_of_ne_nil (show base ++ t ≠ [] by simp [hne])
      obtain ⟨hc, hslash⟩ := (h.written ht) c (hcs ▸ List.mem_cons_self)
      obtain ⟨x, c, rfl⟩ := List.exists_cons_of_ne_nil hc
      have hfirst : (pathOf false (base ++ t)).head? = some x := by
        rw [hcs, pathOf, if_neg (by decide)]
        cases cs with
        | nil => rfl
        | cons c' cs => rw [List.intercalate_cons_cons]; rfl
      have hx := Option.some.inj (hfirst.symm.trans ((congrArg List.head? heq).trans hhead))
      exact hslash (hx ▸ List.mem_cons_self)
  | false =>
    refine iff_of_true ?_ (by simp)
    have hle := hleads.climb_le h hdir ht hne hrel
    have hall := hleads.names h hdir ht hne hrel []
    rw [if_neg (by decide), show PathSyntax.names ([] : unix.Dir) = [] from rfl, List.nil_append] at hall
    rw [Bool.false_and]
    rcases h.base_names with hbase | ⟨-, rfl⟩
    · rw [filter_isName hbase] at hall
      rw [hall, ← hpath]
      exact hentry
    · rw [show ([[0x2E]] : List Path).filter isName = [] by decide] at hall hle
      have hdot : ([[0x2E]] ++ dir).take (([[0x2E]] ++ dir).length - climb target) =
          [[0x2E]] ++ dir.take (dir.length - climb target) := by
        rw [List.length_append, Nat.add_sub_assoc (by simpa using hle), List.take_length_add_append]
      rw [hdot, List.append_assoc]
      rw [List.nil_append, List.nil_append] at hall
      rw [hall, ← hpath]
      exact hentry

/-- Where the copy of a relative target leads. -/
theorem relative_right_iff (h : Tree cfg rooted base) (hdir : Names dir) (ht : Names t) (hne : t ≠ [])
    (hrel : ¬unix.Absolute target) (hleads : LeadsTo cfg dir target t) :
    (∀ d, unix.resolve (unix.resolve d (cfg.dstDir ++ dirs dir)) target =
        unix.resolve d (cfg.dstDir ++ pathOf false t)) ↔
      (climb target ≤ dir.length ∨ ∀ d, (dstNames cfg d).take ((dstNames cfg d).length - (climb target - dir.length)) ++
        base.drop (base.length - (climb target - dir.length)) = dstNames cfg d) := by
  have hall := hleads.names h hdir ht hne hrel []
  rw [show (if rooted = true then [] else PathSyntax.names ([] : unix.Dir)) = [] from ite_self _, List.nil_append] at hall
  have heach : ∀ d, (unix.resolve (unix.resolve d (cfg.dstDir ++ dirs dir)) target =
      unix.resolve d (cfg.dstDir ++ pathOf false t)) ↔ (climb target ≤ dir.length ∨
        (dstNames cfg d).take ((dstNames cfg d).length - (climb target - dir.length)) ++
          base.drop (base.length - (climb target - dir.length)) = dstNames cfg d) := by
    intro d
    rw [← PathSyntax.names_injective.eq_iff, names_relative h.dst_slash hdir hrel d,
      names_resolve_names h.dst_slash d ht hne, show PathSyntax.names (unix.resolve d cfg.dstDir) = dstNames cfg d from rfl,
      take_append_iff hall]
    rcases h.base_names with hbase | ⟨rfl, rfl⟩
    · rw [filter_isName hbase]
    · have hle := hleads.climb_le h hdir ht hne hrel
      exact iff_of_true (.inl (by simpa [isName, PathSyntax.IsName, unix] using hle))
        (.inl (by simpa [isName, PathSyntax.IsName, unix] using hle))
  rw [← forall_or_left]
  exact forall_congr' heach

/-- What is made of an absolute target. -/
theorem splitOn_ups (n : Nat) {t : List Path} (ht : Names t) (hne : t ≠ []) :
    ((List.replicate n [0x2E, 0x2E, slash]).flatten ++ pathOf false t).splitOn slash =
      List.replicate n [0x2E, 0x2E] ++ t := by
  induction n with
  | zero => exact splitOn_pathOf ht hne
  | succ n ih =>
    rw [List.replicate_succ, List.flatten_cons, List.append_assoc,
      show [0x2E, 0x2E, slash] ++ ((List.replicate n [0x2E, 0x2E, slash]).flatten ++ pathOf false t) =
        [0x2E, 0x2E] ++ slash :: ((List.replicate n [0x2E, 0x2E, slash]).flatten ++ pathOf false t) from rfl,
      List.splitOn_append_cons_self, ih]
    rfl

theorem not_absolute_ups (n : Nat) {t : List Path} (ht : Names t) (hne : t ≠ []) :
    ¬unix.Absolute ((List.replicate n [0x2E, 0x2E, slash]).flatten ++ pathOf false t) := by
  cases n with
  | zero =>
    obtain ⟨c, cs, rfl⟩ := List.exists_cons_of_ne_nil hne
    obtain ⟨hc, hslash⟩ := ht.written c List.mem_cons_self
    obtain ⟨x, c, rfl⟩ := List.exists_cons_of_ne_nil hc
    intro habs
    have hfirst : (pathOf false ((x :: c) :: cs)).head? = some x := by
      cases cs with
      | nil => rfl
      | cons c' cs => rfl
    exact hslash (Option.some.inj (hfirst.symm.trans habs) ▸ List.mem_cons_self)
  | succ n =>
    intro habs
    exact absurd (Option.some.inj habs) (by decide)

/-- Where the copy of an absolute target leads. -/
theorem absolute_right_iff (h : Tree cfg rooted base) (hdir : Names dir) (ht : Names t) (hne : t ≠ []) (n : Nat) :
    (∀ d, unix.resolve (unix.resolve d (cfg.dstDir ++ dirs dir))
        ((List.replicate n [0x2E, 0x2E, slash]).flatten ++ pathOf false t) =
        unix.resolve d (cfg.dstDir ++ pathOf false t)) ↔
      ∀ d, n = dir.length ∨ dstNames cfg d = [] ∧ dir.length ≤ n := by
  refine forall_congr' fun d => ?_
  have hdrop : PathSyntax.names (unix.walk (unix.resolve d (cfg.dstDir ++ dirs dir)) (List.replicate n [0x2E, 0x2E])) =
      (dstNames cfg d ++ dir).take ((dstNames cfg d ++ dir).length - n) := by
    have hdots := PathSyntax.walk_dots n (unix.resolve d (cfg.dstDir ++ dirs dir))
    rw [show dstNames cfg d ++ dir = PathSyntax.names (unix.resolve d (cfg.dstDir ++ dirs dir)) from
      (names_resolve_dirs h.dst_slash d hdir).symm, show [0x2E, 0x2E] = [unix.dot, unix.dot] from rfl, hdots,
      PathSyntax.names, PathSyntax.names, List.map_drop, List.length_reverse, List.reverse_drop]
  rw [← PathSyntax.names_injective.eq_iff, PathSyntax.resolve_relative (not_absolute_ups n ht hne),
    show unix.sep = slash from rfl, splitOn_ups n ht hne, PathSyntax.walk_append, names_walk_unix, follow_names _ ht,
    hdrop, names_resolve_names h.dst_slash d ht hne, List.append_cancel_right_eq,
    show PathSyntax.names (unix.resolve d cfg.dstDir) = dstNames cfg d from rfl]
  generalize dstNames cfg d = D
  constructor
  · intro heq
    have hlength := congrArg List.length heq
    rw [List.length_take, List.length_append] at hlength
    by_cases hD : D = []
    · subst hD
      rw [List.length_nil] at hlength
      exact .inr ⟨rfl, by omega⟩
    · have := List.length_pos_iff.mpr hD
      omega
  · rintro (rfl | ⟨rfl, hle⟩)
    · rw [List.length_append, Nat.add_sub_cancel, List.take_left]
    · rw [List.nil_append, Nat.sub_eq_zero_of_le hle, List.take_zero]

/-- **Where the copies of symlinks lead.** For every symlink under the base directory whose target leads to an
entry, the copy's target is chosen and leads to the entry's copy exactly when the target fits. -/
theorem copiedRight_iff (cfg : XferConfig) (rooted : Bool) (base dir t : List Path) (name target : Path)
    (h : Tree cfg rooted base) (hdir : Names dir) (hname : unix.IsName name) (ht : Names t) (hne : t ≠ [])
    (hentry : cfg.baseDir ++ pathOf false t ∈ cfg.entries.map Prod.fst) (hleads : LeadsTo cfg dir target t) :
    CopiedRight cfg dir name target t ↔ Fits cfg rooted base dir name target := by
  rw [CopiedRight, Fits, chooseTarget]
  by_cases hnil : target = []
  · rw [if_pos hnil]
    exact iff_of_false (fun ⟨_, heq, _⟩ => nomatch heq) fun hand => hand.1 hnil
  rw [if_neg hnil, if_neg (not_not.mpr h.smart)]
  simp only [ne_eq, hnil, not_false_eq_true, true_and]
  by_cases habs : unix.Absolute target
  · rw [if_pos (show target.head? = some slash from habs), if_pos habs]
    by_cases hmem : target ∈ cfg.entries.map Prod.fst
    · obtain ⟨t', hne', ht', rfl⟩ := h.entries_eq _ hmem
      -- as it is absolute, the target leads to the entry itself
      have hsame : t' = t := by
        have heq := hleads []
        rw [PathSyntax.resolve_absolute habs, ← PathSyntax.resolve_absolute (d := []) habs,
          ← PathSyntax.names_injective.eq_iff, names_resolve_names h.slash_last _ ht' hne',
          names_resolve_names h.slash_last _ ht hne] at heq
        exact List.append_cancel_left heq
      subst hsame
      rw [if_pos hmem, List.drop_left]
      simp only [Option.some.injEq, exists_eq_left', hmem, true_and]
      exact absolute_right_iff h hdir ht hne _
    · rw [if_neg hmem]
      exact iff_of_false (fun ⟨_, heq, _⟩ => nomatch heq) fun hand => hmem hand.1
  · rw [if_neg (show ¬target.head? = some slash from habs), if_neg habs,
      ← found_iff h hdir hname ht hne hentry habs hleads]
    by_cases hmem : (components target).foldl refine (parentPath (cfg.baseDir ++ pathOf false (dir ++ [name])))
        ∈ cfg.entries.map Prod.fst
    · simp only [hmem, if_true, Option.some.injEq, exists_eq_left', true_and]
      exact relative_right_iff h hdir ht hne habs hleads
    · simp only [hmem, if_false, false_and, iff_false]
      exact fun ⟨_, heq, _⟩ => nomatch heq

/-- The copy of `/a/`, with `l` and `f` in it, to another directory. -/
def sampleConfig (dstDir : Path) : XferConfig where
  baseDir := [slash, 0x61, slash]
  dstDir := dstDir
  kind := .XK_COPY
  onSiteMove := false
  smartSymlinksCopy := true
  useOfChmod := 0
  diffnameSuffix := []
  entries := [([slash, 0x61, slash, 0x6C], {}), ([slash, 0x61, slash, 0x66], {})]

theorem sampleConfig_tree {dstDir : Path} (hlast : dstDir.getLast? = some slash) :
    Tree (sampleConfig dstDir) true [[0x61]] where
  smart := rfl
  baseDir_eq := rfl
  base_names := .inl (by unfold Names; decide)
  base_ne := fun h => nomatch h
  entries_eq := by
    intro e he
    rcases List.mem_cons.mp he with rfl | he
    · exact ⟨[[0x6C]], by decide, by unfold Names; decide, rfl⟩
    · obtain rfl := List.mem_singleton.mp he
      exact ⟨[[0x66]], by decide, by unfold Names; decide, rfl⟩
  dst_slash := hlast

/-- The symlink `l`, to `/a/f`. -/
theorem sampleConfig_leadsTo (dstDir : Path) :
    LeadsTo (sampleConfig dstDir) [] [slash, 0x61, slash, 0x66] [[0x66]] := fun _ => rfl

theorem copiedRight_iff_b :
    CopiedRight (sampleConfig [slash, 0x62, slash]) [] [0x6C] [slash, 0x61, slash, 0x66] [[0x66]] ↔
      Fits (sampleConfig [slash, 0x62, slash]) true [[0x61]] [] [0x6C] [slash, 0x61, slash, 0x66] :=
  copiedRight_iff _ true [[0x61]] [] [[0x66]] [0x6C] _ (sampleConfig_tree rfl) (by unfold Names; decide) (by decide)
    (by unfold Names; decide) (by decide) (by decide) (sampleConfig_leadsTo _)

/-- Copied to `/b/c/`, the symlink leads to `/b/f`: as that is longer than `/a/`, one of its slashes is
counted as well. -/
theorem copy_leads_out :
    ¬∀ (cfg : XferConfig) (rooted : Bool) (base dir t : List Path) (name target : Path), Tree cfg rooted base →
      Names dir → unix.IsName name → Names t → t ≠ [] → cfg.baseDir ++ pathOf false t ∈ cfg.entries.map Prod.fst →
        LeadsTo cfg dir target t → CopiedRight cfg dir name target t := by
  intro h
  obtain ⟨made, hmade, hleads⟩ := h (sampleConfig [slash, 0x62, slash, 0x63, slash]) true [[0x61]] [] [[0x66]] [0x6C]
    [slash, 0x61, slash, 0x66] (sampleConfig_tree rfl) (by unfold Names; decide) (by decide) (by unfold Names; decide)
    (by decide) (by decide) (sampleConfig_leadsTo _)
  have hchosen : made = [0x2E, 0x2E, slash, 0x66] := Option.some.inj (hmade.symm.trans (by decide))
  subst hchosen
  exact absurd (hleads []) (by decide)

end Far2l.NetRocks.Xfer
