/-
Far2l.NetRocks.FTPNavigationTheorems — whether FTP commands act on the path they
are meant for.

From a state in which `_cwd` mirrors the server's directory, each navigation, each
deletion and each renaming is right exactly under the condition that `ftp_right_iff`
gives. What goes wrong otherwise: the way by the home directory ends below it, a
refused `PWD` is taken for an arrival, and a new name is made relative to the root
and not to the home directory.
-/
import Far2l.NetRocks.FTPNavigation
import Far2l.NetRocks.LocationTheorems

namespace Far2l.NetRocks

open Far2l.KeyFile (Str A)
open PathSyntax (names)

/-! ## Components -/

/-- A component as `PathExplode` leaves it. -/
def IsPart (part : Str) : Prop := part ≠ [] ∧ SLASH ∉ part ∧ part ≠ [DOT]

theorem slash_of_mem_splitOn {part : Str} : ∀ {n : Nat} {s : Str}, s.length ≤ n →
    part ∈ s.splitOn SLASH → SLASH ∉ part := by
  intro n
  induction n with
  | zero =>
    intro s hlen hmem
    obtain rfl := List.length_eq_zero_iff.mp (Nat.le_zero.mp hlen)
    rw [List.splitOn_nil] at hmem
    rw [List.mem_singleton.mp hmem]
    exact List.not_mem_nil
  | succ n ih =>
    intro s hlen hmem
    by_cases hslash : SLASH ∈ s
    · obtain ⟨front, back, rfl, hfront⟩ := List.eq_append_cons_of_mem hslash
      rw [List.splitOn_append_cons_self_of_not_mem hfront] at hmem
      rw [List.length_append, List.length_cons] at hlen
      rcases List.mem_cons.mp hmem with rfl | hmem
      · exact hfront
      · exact ih (by omega) hmem
    · rw [List.splitOn_eq_singleton hslash] at hmem
      rw [List.mem_singleton.mp hmem]
      exact hslash

theorem isPart_of_mem {path part : Str} (h : part ∈ pathExplode path) : IsPart part := by
  obtain ⟨hmem, hdot⟩ := List.mem_filter.mp h
  obtain ⟨hsplit, hne⟩ := List.mem_filter.mp hmem
  exact ⟨of_decide_eq_true hne, slash_of_mem_splitOn (Nat.le_refl _) hsplit, of_decide_eq_true hdot⟩

theorem isName_part {d : ftpPath.Dir} {part : Str} (h : part ∈ names d) : IsPart part :=
  have hname := PathSyntax.isName_of_mem_names h
  ⟨hname.1, hname.2.2.2, hname.2.1⟩

/-- What `PathExplode` makes of the path of a directory. -/
theorem pathExplode_below (d : ftpPath.Dir) (rest : Str) :
    pathExplode (ftpPath.below d ++ SLASH :: rest) = names d ++ pathExplode rest := by
  have hparts : ∀ part ∈ names d, part ≠ [] ∧ SLASH ∉ part :=
    fun part hpart => ⟨(isName_part hpart).1, (isName_part hpart).2.1⟩
  have hbelow : ftpPath.below d = componentsText (names d) := PathSyntax.below_names d
  have hexplode := strExplode_componentsText [] hparts
  rw [List.nil_append] at hexplode
  rw [pathExplode, strExplode_append, hbelow, hexplode, List.filter_append, List.filter_append,
    pathExplode]
  refine congrArg (· ++ _) (List.filter_eq_self.mpr fun part hpart => ?_)
  exact decide_eq_true (isName_part hpart).2.2

theorem pathExplode_render (d : ftpPath.Dir) : pathExplode (ftpPath.render d) = names d := by
  have hbelow := pathExplode_below d []
  have hnil : pathExplode [] = [] := rfl
  rw [hnil, List.append_nil] at hbelow
  rw [PathSyntax.render]
  split
  · next h =>
    rw [h]
    rfl
  · rw [← hbelow, pathExplode, pathExplode, strExplode_append]
    refine congrArg (List.filter _) (List.append_nil _).symm

/-! ## The server -/

section

variable {s s' : FTPServer}

/-- What a command leaves as it is. -/
theorem exec_home (s : FTPServer) (command : FTPCommand) : (s.exec command).2.home = s.home := by
  rw [FTPServer.exec]
  split
  · rfl
  · cases command with
    | cwd path =>
      dsimp only
      split
      · rfl
      · rfl
    | cwdHome => rfl
    | cdup => rfl
    | pwd => rfl
    | entry verb path => rfl

theorem exec_pwd (s : FTPServer) : (s.exec .pwd).2.cur = s.cur
    ∧ ((s.exec .pwd).1 = none ∨ (s.exec .pwd).1 = some s.pwdReply) := by
  rw [FTPServer.exec]
  split
  · exact ⟨rfl, .inl rfl⟩
  · exact ⟨rfl, .inr rfl⟩

theorem exec_entry (s : FTPServer) (verb path : Str) : (s.exec (.entry verb path)).2.cur = s.cur := by
  rw [FTPServer.exec]
  split
  · rfl
  · rfl

theorem exec_cwd {part : Str} (h : (s.exec (.cwd part)).1.isSome = true) :
    (s.exec (.cwd part)).2.cur = ftpPath.resolve s.cur part := by
  rw [FTPServer.exec] at h ⊢
  split at h
  · exact nomatch h
  · next hrefuses =>
    rw [if_neg hrefuses]
    dsimp only at h ⊢
    split at h
    · next hexists => rw [if_pos hexists]
    · exact nomatch h

theorem exec_cdup (h : (s.exec .cdup).1.isSome = true) : (s.exec .cdup).2.cur = s.cur.tail := by
  rw [FTPServer.exec] at h ⊢
  split at h
  · exact nomatch h
  · next hrefuses => rw [if_neg hrefuses]

theorem exec_cwdHome (h : (s.exec .cwdHome).1.isSome = true) : (s.exec .cwdHome).2.cur = s.home := by
  rw [FTPServer.exec] at h ⊢
  split at h
  · exact nomatch h
  · next hrefuses => rw [if_neg hrefuses]

theorem execAll_cons (s : FTPServer) (command : FTPCommand) (commands : List FTPCommand) :
    s.execAll (command :: commands) = ((s.exec command).1.isSome && ((s.exec command).2.execAll commands).1,
      ((s.exec command).2.execAll commands).2) := rfl

theorem execAll_append : ∀ (commands commands' : List FTPCommand) (s : FTPServer),
    s.execAll (commands ++ commands') = ((s.execAll commands).1 && ((s.execAll commands).2.execAll commands').1,
      ((s.execAll commands).2.execAll commands').2)
  | [], _, _ => rfl
  | command :: commands, commands', s => by
    rw [List.cons_append, execAll_cons, execAll_append, execAll_cons, Bool.and_assoc]

theorem execAll_home : ∀ (commands : List FTPCommand) (s : FTPServer), (s.execAll commands).2.home = s.home
  | [], _ => rfl
  | command :: commands, s => by
    rw [execAll_cons]
    exact (execAll_home commands _).trans (exec_home s command)

theorem execAll_cdup : ∀ {n : Nat} {s : FTPServer}, (s.execAll (List.replicate n .cdup)).1 = true →
    (s.execAll (List.replicate n .cdup)).2.cur = s.cur.drop n
  | 0, _, _ => rfl
  | n + 1, s, h => by
    rw [List.replicate_succ, execAll_cons] at h ⊢
    obtain ⟨hfirst, hrest⟩ := Bool.and_eq_true_iff.mp h
    refine (execAll_cdup hrest).trans ?_
    rw [exec_cdup hfirst, List.drop_tail]

/-- A component is where it leads. -/
theorem resolve_part {d : ftpPath.Dir} {part : Str} (h : IsPart part) :
    ftpPath.resolve d part = ftpPath.walk d [part] := by
  have hrel : ¬ ftpPath.Absolute part := fun habs => h.2.1 (List.mem_of_mem_head? habs)
  have hsplit : part.splitOn ftpPath.sep = [part] := List.splitOn_eq_singleton h.2.1
  rw [PathSyntax.resolve_relative hrel, hsplit]

theorem execAll_cwd : ∀ {parts : List Str} {s : FTPServer}, (∀ part ∈ parts, IsPart part) →
    (s.execAll (parts.map .cwd)).1 = true → (s.execAll (parts.map .cwd)).2.cur = ftpPath.walk s.cur parts
  | [], _, _, _ => rfl
  | part :: parts, s, hparts, h => by
    rw [List.map_cons, execAll_cons] at h ⊢
    obtain ⟨hfirst, hrest⟩ := Bool.and_eq_true_iff.mp h
    refine (execAll_cwd (fun part hpart => hparts part (List.mem_cons_of_mem _ hpart)) hrest).trans ?_
    rw [exec_cwd hfirst, resolve_part (hparts part List.mem_cons_self)]
    rfl

end

/-! ## The ways -/

theorem commonParts_take : ∀ parts parts' : List Str,
    parts.take (commonParts parts parts') = parts'.take (commonParts parts parts')
  | [], _ => rfl
  | part :: parts, [] => rfl
  | part :: parts, part' :: parts' => by
    rw [commonParts]
    by_cases heq : part = part'
    · rw [if_pos heq, List.take_succ_cons, List.take_succ_cons, heq, commonParts_take parts parts']
    · rw [if_neg heq, List.take_zero, List.take_zero]

/-- What the components lead to beyond those in common. -/
theorem walk_common (d : ftpPath.Dir) (parts : List Str) :
    ftpPath.walk (d.drop ((names d).length - commonParts parts (names d)))
      (parts.drop (commonParts parts (names d))) = ftpPath.walk [] parts := by
  have hlength : (names d).length = d.length := by
    rw [names, List.length_reverse, List.length_map]
  rw [hlength, ← PathSyntax.walk_take_names, ← commonParts_take, ← PathSyntax.walk_append,
    List.take_append_drop]

section

variable {c : FTPCwd} {s : FTPServer} {parts : List Str}

/-- **The way from directory to directory**, where nothing is refused. -/
theorem wayTo_cur (hparts : ∀ part ∈ parts, IsPart part)
    (h : (s.execAll (wayTo (names s.cur) parts)).1 = true) :
    (s.execAll (wayTo (names s.cur) parts)).2.cur = ftpPath.walk [] parts := by
  rw [wayTo, execAll_append] at h ⊢
  obtain ⟨hup, hdown⟩ := Bool.and_eq_true_iff.mp h
  refine (execAll_cwd (fun part hpart => hparts part (List.mem_of_mem_drop hpart)) hdown).trans ?_
  rw [execAll_cdup hup, walk_common]

/-- The whole path, from the home directory. -/
theorem resolve_whole {d : ftpPath.Dir} (hparts : ∀ part ∈ parts, IsPart part) :
    ftpPath.resolve d (parts.flatMap (· ++ [SLASH])) = ftpPath.walk d parts := by
  have hsplit : ∀ {parts : List Str}, (∀ part ∈ parts, IsPart part) →
      (parts.flatMap (· ++ [SLASH])).splitOn ftpPath.sep = parts ++ [[]] := by
    intro parts hparts
    induction parts with
    | nil => exact List.splitOn_nil _
    | cons part parts ih =>
      rw [List.flatMap_cons, List.append_assoc, List.singleton_append, List.cons_append,
        ← ih fun part' hpart' => hparts part' (List.mem_cons_of_mem _ hpart')]
      exact List.splitOn_append_cons_self_of_not_mem (hparts part List.mem_cons_self).2.1 _
  have hrel : ¬ ftpPath.Absolute (parts.flatMap (· ++ [SLASH])) := by
    intro habs
    cases parts with
    | nil => exact nomatch habs
    | cons part parts =>
      obtain ⟨hne, hslash, -⟩ := hparts part List.mem_cons_self
      obtain ⟨x, part, rfl⟩ := List.exists_cons_of_ne_nil hne
      exact hslash (Option.some.inj habs ▸ List.mem_cons_self)
  rw [PathSyntax.resolve_relative hrel, hsplit hparts, PathSyntax.walk_append]
  exact PathSyntax.step_nil

theorem homeWay_cur (hparts : ∀ part ∈ parts, IsPart part) (h : (homeWay s parts).1 = true) :
    (homeWay s parts).2.cur = ftpPath.walk s.home parts := by
  rw [homeWay, execAll_cons, execAll_cons] at h ⊢
  obtain ⟨hhome, hrest⟩ := Bool.and_eq_true_iff.mp h
  obtain ⟨hcwd, -⟩ := Bool.and_eq_true_iff.mp hrest
  refine (exec_cwd hcwd).trans ?_
  rw [exec_cwdHome hhome, resolve_whole hparts]

/-! ## The mirror -/

/-- **The path in a reply to `PWD` is read back.** -/
theorem pwdPath_reply (s : FTPServer) : pwdPath s.pwdReply = some (ftpPath.render s.cur) := by
  have hfront : DOUBLE_QUOTE ∉ A ['2', '5', '7', ' '] := by decide
  have hafter : after DOUBLE_QUOTE s.pwdReply = ftpPath.render s.cur ++ [DOUBLE_QUOTE] := by
    rw [FTPServer.pwdReply, after_append hfront]
  have hback : (after DOUBLE_QUOTE (ftpPath.render s.cur ++ [DOUBLE_QUOTE]).reverse).reverse
      = ftpPath.render s.cur := by
    rw [List.reverse_append]
    show (after DOUBLE_QUOTE ([] ++ DOUBLE_QUOTE :: (ftpPath.render s.cur).reverse)).reverse = _
    rw [after_append List.not_mem_nil, List.reverse_reverse]
  have hmem : DOUBLE_QUOTE ∈ s.pwdReply := List.mem_append_right _ List.mem_cons_self
  have hmem' : DOUBLE_QUOTE ∈ after DOUBLE_QUOTE s.pwdReply := by
    rw [hafter]
    exact List.mem_append_right _ (List.mem_singleton_self _)
  have habs : (ftpPath.render s.cur).head? = some SLASH := PathSyntax.absolute_render
  rw [pwdPath, if_pos ⟨hmem, hmem'⟩, hafter, hback]
  exact congrArg some (if_pos habs)

/-- What is taken from the reply to `PWD`. -/
theorem arrive_parts (c : FTPCwd) (s : FTPServer) (parts : List Str) :
    (c.arrive parts (s.exec .pwd).1).parts
      = if (s.exec .pwd).1.isSome then names s.cur else parts := by
  rcases (exec_pwd s).2 with hnone | hsome
  · rw [hnone]
    rfl
  · rw [hsome, FTPCwd.arrive, FTPCwd.recvPwdResponse, Option.bind_some, pwdPath_reply]
    exact pathExplode_render s.cur

theorem arrive_home (c : FTPCwd) (parts : List Str) (reply : Option Str) :
    (c.arrive parts reply).home = c.home := by
  rw [FTPCwd.arrive, FTPCwd.recvPwdResponse]
  split
  · next h =>
    split at h
    · exact nomatch h
    · exact Option.some.inj h ▸ rfl
  · rfl

/-- `_cwd` has the names of the server's current directory. -/
def Mirrors (c : FTPCwd) (s : FTPServer) : Prop := c.parts = names s.cur

/-- And it knows the home directory. -/
structure InStep (c : FTPCwd) (s : FTPServer) : Prop where
  mirrors : Mirrors c s
  home : c.home = ftpPath.below s.home ++ [SLASH]

/-- The components of a path, from the root on: a relative one is taken from the home directory. -/
def FTPServer.partsOf (s : FTPServer) (path : Str) : List Str :=
  if ftpPath.Absolute path then pathExplode path else names s.home ++ pathExplode path

/-- **The client takes a relative path from the home directory.** -/
theorem InStep.partsOf (h : InStep c s) (path : Str) : pathExplode (c.fullPath path) = s.partsOf path := by
  rw [FTPCwd.fullPath, FTPServer.partsOf]
  by_cases habs : ftpPath.Absolute path
  · have hhead : path.head? = some SLASH := habs
    rw [if_pos hhead, if_pos habs]
  · have hhead : ¬ path.head? = some SLASH := habs
    rw [if_neg hhead, if_neg habs, h.home, List.append_assoc, List.singleton_append, pathExplode_below]

theorem isPart_of_mem_partsOf {path part : Str} (h : part ∈ s.partsOf path) : IsPart part := by
  rw [FTPServer.partsOf] at h
  split at h
  · exact isPart_of_mem h
  · rcases List.mem_append.mp h with h | h
    · exact isName_part h
    · exact isPart_of_mem h

/-! ## Navigation -/

/-- The condition for coming to a directory: no other way is needed, or that by the home directory is
refused or leads there too. -/
def ComesTo (c : FTPCwd) (s : FTPServer) (parts : List Str) : Prop :=
  (s.execAll (wayTo c.parts parts)).1 = true
    ∨ ((homeWay ((s.execAll (wayTo c.parts parts)).2.exec .pwd).2 parts).1 = true →
      ftpPath.walk s.home parts = ftpPath.walk [] parts)

/-- The condition for knowing where one has come to: the last `PWD` is answered, or the server is where
it was to go, by its names. -/
def KnowsWhere (c : FTPCwd) (s : FTPServer) (parts : List Str) : Prop :=
  let first := s.execAll (wayTo c.parts parts)
  let last := if first.1 then first.2 else (homeWay (first.2.exec .pwd).2 parts).2
  (last.exec .pwd).1.isSome = true ∨ parts = names last.cur

/-- **When a navigation that does not fail ends where it should.** -/
theorem navigate_comes (h : Mirrors c s) (hparts : ∀ part ∈ parts, IsPart part) :
    ((navigate c s parts).1 = true → (navigate c s parts).2.2.cur = ftpPath.walk [] parts)
      ↔ ComesTo c s parts := by
  rw [navigate, ComesTo]
  dsimp only
  cases hfirst : (s.execAll (wayTo c.parts parts)).1 with
  | true =>
    rw [if_pos rfl]
    refine ⟨fun _ => .inl rfl, fun _ _ => ?_⟩
    rw [h] at hfirst ⊢
    exact (exec_pwd _).1.trans (wayTo_cur hparts hfirst)
  | false =>
    rw [if_neg Bool.false_ne_true, or_iff_right Bool.false_ne_true]
    refine imp_congr_right fun hhome => ?_
    have hcur := homeWay_cur hparts hhome
    rw [exec_home, execAll_home] at hcur
    rw [(exec_pwd _).1, hcur]

/-- **When the mirror is right after a navigation.** -/
theorem navigate_mirrors : Mirrors (navigate c s parts).2.1 (navigate c s parts).2.2
    ↔ KnowsWhere c s parts := by
  have harrive : ∀ s : FTPServer, Mirrors (c.arrive parts (s.exec .pwd).1) (s.exec .pwd).2
      ↔ (s.exec .pwd).1.isSome = true ∨ parts = names s.cur := by
    intro s
    rw [Mirrors, arrive_parts, (exec_pwd s).1]
    by_cases hsome : (s.exec .pwd).1.isSome = true
    · rw [if_pos hsome]
      exact ⟨fun _ => .inl hsome, fun _ => rfl⟩
    · rw [if_neg hsome]
      exact (or_iff_right hsome).symm
  rw [navigate, KnowsWhere]
  dsimp only
  cases hfirst : (s.execAll (wayTo c.parts parts)).1 with
  | true =>
    rw [if_pos rfl, if_pos rfl]
    exact harrive _
  | false =>
    rw [if_neg Bool.false_ne_true, if_neg Bool.false_ne_true]
    exact harrive _

/-- Where a path's parent is, and what it is called there. -/
def FTPServer.intended (s : FTPServer) (path : Str) : Sent :=
  ⟨ftpPath.walk [] (s.partsOf path).dropLast, (s.partsOf path).getLast?.getD []⟩

/-- A navigation that returns has come to the parent and has found the last component; and `_cwd` mirrors
the server's directory, whether it returns or throws. -/
structure Navigated (c : FTPCwd) (s : FTPServer) (pathName : Str) (allowEmptyNamePart : Bool) : Prop where
  comes : ∀ namePart ∈ (splitPathAndNavigate c s pathName allowEmptyNamePart).1,
    (⟨(splitPathAndNavigate c s pathName allowEmptyNamePart).2.2.cur, namePart⟩ : Sent) = s.intended pathName
  mirrors : Mirrors (splitPathAndNavigate c s pathName allowEmptyNamePart).2.1
    (splitPathAndNavigate c s pathName allowEmptyNamePart).2.2

/-- The condition for the mirror to be right after a navigation: it throws at once, or has nothing to do,
or knows where it has come to. -/
def MirrorOk (c : FTPCwd) (s : FTPServer) (pathName : Str) (allowEmptyNamePart : Bool) : Prop :=
  (s.partsOf pathName = [] ∧ allowEmptyNamePart = false) ∨ (s.partsOf pathName).dropLast = c.parts
    ∨ KnowsWhere c s (s.partsOf pathName).dropLast

/-- The condition for a navigation to be right: if it has something to do, it also comes there. -/
def NavigateOk (c : FTPCwd) (s : FTPServer) (pathName : Str) (allowEmptyNamePart : Bool) : Prop :=
  (s.partsOf pathName = [] ∧ allowEmptyNamePart = false) ∨ (s.partsOf pathName).dropLast = c.parts
    ∨ (ComesTo c s (s.partsOf pathName).dropLast ∧ KnowsWhere c s (s.partsOf pathName).dropLast)

section

variable {pathName : Str} {allowEmptyNamePart : Bool}

/-- The three ways a navigation can go. -/
theorem split_empty (h : InStep c s) (hempty : s.partsOf pathName = []) :
    splitPathAndNavigate c s pathName false = (none, c, s) := by
  have hnil : pathExplode (c.fullPath pathName) = [] := (h.partsOf pathName).trans hempty
  rw [splitPathAndNavigate]
  exact if_pos ⟨hnil, Bool.false_ne_true⟩

theorem split_stay (h : InStep c s) (hnonempty : ¬ (s.partsOf pathName = [] ∧ allowEmptyNamePart = false))
    (hstay : (s.partsOf pathName).dropLast = c.parts) :
    splitPathAndNavigate c s pathName allowEmptyNamePart
      = (some ((s.partsOf pathName).getLast?.getD []), c, s) := by
  have hallow : ¬ (s.partsOf pathName = [] ∧ ¬ allowEmptyNamePart = true) := by
    rwa [Bool.not_eq_true]
  rw [splitPathAndNavigate, h.partsOf]
  dsimp only
  rw [if_neg hallow, if_pos hstay]

theorem split_go (h : InStep c s) (hnonempty : ¬ (s.partsOf pathName = [] ∧ allowEmptyNamePart = false))
    (hgo : ¬ (s.partsOf pathName).dropLast = c.parts) :
    splitPathAndNavigate c s pathName allowEmptyNamePart
      = (if (navigate c s (s.partsOf pathName).dropLast).1 then some ((s.partsOf pathName).getLast?.getD [])
          else none, (navigate c s (s.partsOf pathName).dropLast).2) := by
  have hallow : ¬ (s.partsOf pathName = [] ∧ ¬ allowEmptyNamePart = true) := by
    rwa [Bool.not_eq_true]
  rw [splitPathAndNavigate, h.partsOf]
  dsimp only
  rw [if_neg hallow, if_neg hgo]

variable (pathName allowEmptyNamePart) in
theorem split_mirrors (h : InStep c s) :
    Mirrors (splitPathAndNavigate c s pathName allowEmptyNamePart).2.1
        (splitPathAndNavigate c s pathName allowEmptyNamePart).2.2
      ↔ MirrorOk c s pathName allowEmptyNamePart := by
  rw [MirrorOk]
  by_cases hempty : s.partsOf pathName = [] ∧ allowEmptyNamePart = false
  · obtain ⟨hnil, rfl⟩ := hempty
    rw [split_empty h hnil]
    exact ⟨fun _ => .inl ⟨hnil, rfl⟩, fun _ => h.mirrors⟩
  · rw [or_iff_right hempty]
    by_cases hstay : (s.partsOf pathName).dropLast = c.parts
    · rw [split_stay h hempty hstay]
      exact ⟨fun _ => .inl hstay, fun _ => h.mirrors⟩
    · rw [or_iff_right hstay, split_go h hempty hstay]
      exact navigate_mirrors

/-- **When a navigation is right.** -/
theorem navigated_iff (h : InStep c s) :
    Navigated c s pathName allowEmptyNamePart ↔ NavigateOk c s pathName allowEmptyNamePart := by
  have hmirror := split_mirrors pathName allowEmptyNamePart h
  rw [NavigateOk]
  by_cases hempty : s.partsOf pathName = [] ∧ allowEmptyNamePart = false
  · refine ⟨fun _ => .inl hempty, fun _ => ⟨?_, hmirror.mpr (.inl hempty)⟩⟩
    obtain ⟨hnil, rfl⟩ := hempty
    rw [split_empty h hnil]
    exact fun _ hname => nomatch hname
  · by_cases hstay : (s.partsOf pathName).dropLast = c.parts
    · refine ⟨fun _ => .inr (.inl hstay), fun _ => ⟨?_, hmirror.mpr (.inr (.inl hstay))⟩⟩
      rw [split_stay h hempty hstay]
      intro namePart hname
      obtain rfl := Option.some.inj hname
      rw [FTPServer.intended, hstay, h.mirrors, PathSyntax.walk_names]
    · have hparts : ∀ part ∈ (s.partsOf pathName).dropLast, IsPart part :=
        fun part hpart => isPart_of_mem_partsOf ((List.dropLast_sublist _).subset hpart)
      have hcomes := navigate_comes h.mirrors hparts
      rw [MirrorOk, or_iff_right hempty, or_iff_right hstay] at hmirror
      rw [or_iff_right hempty, or_iff_right hstay, ← hmirror, ← hcomes]
      constructor
      · rintro ⟨hcomes, hmirrors⟩
        refine ⟨fun hok => ?_, hmirrors⟩
        rw [split_go h hempty hstay, hok, if_pos rfl] at hcomes
        exact congrArg Sent.directory (hcomes _ rfl)
      · rintro ⟨hcomes, hmirrors⟩
        refine ⟨?_, hmirrors⟩
        rw [split_go h hempty hstay]
        intro namePart hname
        by_cases hok : (navigate c s (s.partsOf pathName).dropLast).1 = true
        · rw [if_pos hok] at hname
          obtain rfl := Option.some.inj hname
          rw [hcomes hok, FTPServer.intended]
        · rw [if_neg hok] at hname
          exact nomatch hname

variable (c s pathName allowEmptyNamePart) in
/-- What a navigation leaves as it is. -/
theorem split_home : (splitPathAndNavigate c s pathName allowEmptyNamePart).2.1.home = c.home
    ∧ (splitPathAndNavigate c s pathName allowEmptyNamePart).2.2.home = s.home := by
  have hgo : ∀ parts, (navigate c s parts).2.1.home = c.home ∧ (navigate c s parts).2.2.home = s.home := by
    intro parts
    rw [navigate]
    dsimp only
    split
    · exact ⟨arrive_home _ _ _, by rw [exec_home, execAll_home]⟩
    · exact ⟨arrive_home _ _ _, by rw [exec_home, homeWay, execAll_home, exec_home, execAll_home]⟩
  rw [splitPathAndNavigate]
  dsimp only
  split
  · exact ⟨rfl, rfl⟩
  · split
    · exact ⟨rfl, rfl⟩
    · exact hgo _

theorem Navigated.inStep (hright : Navigated c s pathName allowEmptyNamePart) (h : InStep c s) :
    InStep (splitPathAndNavigate c s pathName allowEmptyNamePart).2.1
      (splitPathAndNavigate c s pathName allowEmptyNamePart).2.2 :=
  ⟨hright.mirrors, by rw [(split_home _ _ _ _).1, (split_home _ _ _ _).2, h.home]⟩

end

/-! ## Deletion -/

/-- What is sent is meant, and the mirror is right at the end. -/
structure Disposed (c : FTPCwd) (s : FTPServer) (command path : Str) : Prop where
  meant : ∀ sent ∈ (simpleDispositionCommand c s command path).1, sent = s.intended path
  mirrors : Mirrors (simpleDispositionCommand c s command path).2.1 (simpleDispositionCommand c s command path).2.2

/-- What it sends, and what there is afterwards, by what the navigation gives. -/
theorem disposition_of_split (command : Str) {path : Str} {name : Option Str} {c' : FTPCwd} {s' : FTPServer}
    (hsplit : splitPathAndNavigate c s path false = (name, c', s')) :
    (∀ sent, sent ∈ (simpleDispositionCommand c s command path).1 ↔
        ∃ namePart ∈ name, sent = ⟨s'.cur, namePart⟩)
      ∧ (simpleDispositionCommand c s command path).2.1 = c'
      ∧ (simpleDispositionCommand c s command path).2.2.cur = s'.cur := by
  rw [simpleDispositionCommand, hsplit]
  cases name with
  | none => exact ⟨fun sent => ⟨fun h => (nomatch h), fun ⟨_, h, _⟩ => (nomatch h)⟩, rfl, rfl⟩
  | some namePart =>
    refine ⟨fun sent => ⟨fun h => ⟨namePart, rfl, List.mem_singleton.mp h⟩, ?_⟩, rfl, exec_entry _ _ _⟩
    rintro ⟨other, hother, rfl⟩
    obtain rfl := Option.some.inj hother
    exact List.mem_singleton_self _

/-- **When a deletion is right.** -/
theorem disposed_iff {command path : Str} (h : InStep c s) :
    Disposed c s command path ↔ NavigateOk c s path false := by
  rw [← navigated_iff h]
  rcases hsplit : splitPathAndNavigate c s path false with ⟨name, c', s'⟩
  obtain ⟨hsent, hc, hs⟩ := disposition_of_split command hsplit
  constructor
  · rintro ⟨hmeant, hmirrors⟩
    rw [Mirrors, hc, hs] at hmirrors
    refine ⟨?_, by rw [hsplit]; exact hmirrors⟩
    rw [hsplit]
    exact fun namePart hname => hmeant _ ((hsent _).mpr ⟨namePart, hname, rfl⟩)
  · rintro ⟨hcomes, hmirrors⟩
    rw [hsplit] at hcomes hmirrors
    refine ⟨fun sent hmem => ?_, by rw [Mirrors, hc, hs]; exact hmirrors⟩
    obtain ⟨namePart, hname, rfl⟩ := (hsent _).mp hmem
    exact hcomes namePart hname

/-! ## Renaming -/

/-- **A path made relative is taken from the root**, whether it starts there or not. -/
theorem resolve_pathAsRelative (h : Mirrors c s) (path : Str) :
    ftpPath.resolve s.cur (c.pathAsRelative path) = ftpPath.walk [] (pathExplode path) := by
  have hcomponents : ∀ part ∈ List.replicate ((names s.cur).length - commonParts (pathExplode path) (names s.cur))
      [DOT, DOT] ++ (pathExplode path).drop (commonParts (pathExplode path) (names s.cur)),
      part ≠ [] ∧ ftpPath.sep ∉ part := by
    intro part hpart
    rcases List.mem_append.mp hpart with hpart | hpart
    · rw [List.eq_of_mem_replicate hpart]
      exact ⟨List.cons_ne_nil _ _, by decide⟩
    · have hispart := isPart_of_mem (List.mem_of_mem_drop hpart)
      exact ⟨hispart.1, hispart.2.1⟩
  rw [FTPCwd.pathAsRelative, h]
  refine (PathSyntax.resolve_intercalate hcomponents).trans ?_
  rw [PathSyntax.walk_append]
  refine (congrArg (ftpPath.walk · _) (PathSyntax.walk_dots _ _)).trans ?_
  exact walk_common s.cur (pathExplode path)

/-- The first navigation is right, what is sent is meant, and the mirror is right at the end. -/
structure Renamed (c : FTPCwd) (s : FTPServer) (pathOld pathNew : Str) : Prop where
  navigated : Navigated c s pathOld false
  old : ∀ sent ∈ (rename c s pathOld pathNew).1, sent = s.intended pathOld
  new : ∀ sent ∈ (rename c s pathOld pathNew).2.1,
    ftpPath.resolve sent.directory sent.path = ftpPath.resolve s.home pathNew
  mirrors : Mirrors (rename c s pathOld pathNew).2.2.1 (rename c s pathOld pathNew).2.2.2

/-- The condition for a renaming to be right: the first navigation is; if the old name is accepted, the new
path denotes the same from the root as from the home directory; and if the new one is accepted, the second
navigation keeps the mirror right. -/
def RenameOk (c : FTPCwd) (s : FTPServer) (pathOld pathNew : Str) : Prop :=
  NavigateOk c s pathOld false ∧
    ∀ nameOld c₁ s₁, splitPathAndNavigate c s pathOld false = (some nameOld, c₁, s₁) →
      let (replyOld, s₂) := s₁.exec (.entry (A ['R', 'N', 'F', 'R']) nameOld)
      let (replyNew, s₃) := s₂.exec (.entry (A ['R', 'N', 'T', 'O']) (c₁.pathAsRelative pathNew))
      replyOld.isSome → ftpPath.walk [] (pathExplode pathNew) = ftpPath.resolve s.home pathNew
        ∧ (replyNew.isSome → MirrorOk c₁ s₃ pathNew false)

/-- What a renaming comes to, by what the first navigation gives. -/
theorem rename_of_split {pathOld pathNew nameOld : Str} {c₁ : FTPCwd} {s₁ s₂ s₃ : FTPServer}
    {replyOld replyNew : Option Str}
    (hsplit : splitPathAndNavigate c s pathOld false = (some nameOld, c₁, s₁))
    (hold : s₁.exec (.entry (A ['R', 'N', 'F', 'R']) nameOld) = (replyOld, s₂))
    (hnew : s₂.exec (.entry (A ['R', 'N', 'T', 'O']) (c₁.pathAsRelative pathNew)) = (replyNew, s₃)) :
    rename c s pathOld pathNew = (some ⟨s₁.cur, nameOld⟩,
      if replyOld.isSome then some ⟨s₂.cur, c₁.pathAsRelative pathNew⟩ else none,
      if replyOld.isSome then
        if replyNew.isSome then (splitPathAndNavigate c₁ s₃ pathNew false).2 else (c₁, s₃)
      else (c₁, s₂)) := by
  rw [rename, hsplit]
  dsimp only
  rw [hold]
  cases replyOld with
  | none => rfl
  | some textOld =>
    dsimp only
    rw [hnew]
    cases replyNew with
    | none => rfl
    | some textNew => rfl

theorem rename_of_throw {pathOld pathNew : Str} {c₁ : FTPCwd} {s₁ : FTPServer}
    (hsplit : splitPathAndNavigate c s pathOld false = (none, c₁, s₁)) :
    rename c s pathOld pathNew = (none, none, c₁, s₁) := by
  rw [rename, hsplit]

/-- A command about an entry leaves the two in step. -/
theorem InStep.entry (h : InStep c s) (verb path : Str) : InStep c (s.exec (.entry verb path)).2 :=
  ⟨by rw [Mirrors, exec_entry]; exact h.mirrors, by rw [exec_home]; exact h.home⟩

/-- **When a renaming is right.** -/
theorem renamed_iff {pathOld pathNew : Str} (h : InStep c s) :
    Renamed c s pathOld pathNew ↔ RenameOk c s pathOld pathNew := by
  rw [RenameOk, ← navigated_iff h]
  by_cases hnavigated : Navigated c s pathOld false
  · rw [and_iff_right hnavigated]
    have hinStep := hnavigated.inStep h
    have hhome := split_home c s pathOld false
    have hcomes := hnavigated.comes
    rcases hsplit : splitPathAndNavigate c s pathOld false with ⟨name, c₁, s₁⟩
    rw [hsplit] at hinStep hhome hcomes
    cases name with
    | none =>
      refine ⟨fun _ nameOld c₁ s₁ heq => (nomatch heq), fun _ => ⟨hnavigated, ?_, ?_, ?_⟩⟩ <;>
        rw [rename_of_throw hsplit]
      · exact fun sent hsent => nomatch hsent
      · exact fun sent hsent => nomatch hsent
      · exact hinStep.mirrors
    | some nameOld =>
      rcases hold : s₁.exec (.entry (A ['R', 'N', 'F', 'R']) nameOld) with ⟨replyOld, s₂⟩
      rcases hnew : s₂.exec (.entry (A ['R', 'N', 'T', 'O']) (c₁.pathAsRelative pathNew)) with ⟨replyNew, s₃⟩
      have hrename := rename_of_split hsplit hold hnew
      have hinStep₂ : InStep c₁ s₂ := by
        have := hinStep.entry (A ['R', 'N', 'F', 'R']) nameOld
        rwa [hold] at this
      have hinStep₃ : InStep c₁ s₃ := by
        have := hinStep₂.entry (A ['R', 'N', 'T', 'O']) (c₁.pathAsRelative pathNew)
        rwa [hnew] at this
      have hmeant : ftpPath.resolve s₂.cur (c₁.pathAsRelative pathNew)
          = ftpPath.walk [] (pathExplode pathNew) := resolve_pathAsRelative hinStep₂.mirrors pathNew
      constructor
      · rintro ⟨-, -, hnewRight, hmirrors⟩ nameOld' c₁' s₁' heq
        obtain ⟨rfl, rfl, rfl⟩ : nameOld = nameOld' ∧ c₁ = c₁' ∧ s₁ = s₁' := by
          simpa only [Prod.mk.injEq, Option.some.injEq] using heq
        rw [hold]
        dsimp only
        rw [hnew]
        intro hisSome
        rw [hrename, if_pos hisSome] at hnewRight hmirrors
        rw [if_pos hisSome] at hmirrors
        refine ⟨hmeant.symm.trans (hnewRight _ rfl), fun hisSome' => ?_⟩
        rw [if_pos hisSome'] at hmirrors
        exact (split_mirrors _ _ hinStep₃).mp hmirrors
      · intro hok
        have hok := hok nameOld c₁ s₁ rfl
        rw [hold] at hok
        dsimp only at hok
        rw [hnew] at hok
        refine ⟨hnavigated, ?_, ?_, ?_⟩ <;> rw [hrename]
        · intro sent hsent
          rw [← Option.some.inj hsent]
          exact hcomes nameOld rfl
        · intro sent hsent
          by_cases hisSome : replyOld.isSome = true
          · rw [if_pos hisSome] at hsent
            rw [← Option.some.inj hsent]
            exact hmeant.trans (hok hisSome).1
          · rw [if_neg hisSome] at hsent
            exact nomatch hsent
        · dsimp only
          by_cases hisSome : replyOld.isSome = true
          · rw [if_pos hisSome]
            by_cases hisSome' : replyNew.isSome = true
            · rw [if_pos hisSome']
              exact (split_mirrors _ _ hinStep₃).mpr ((hok hisSome).2 hisSome')
            · rw [if_neg hisSome']
              exact hinStep₃.mirrors
          · rw [if_neg hisSome]
            exact hinStep₂.mirrors
  · exact iff_of_false (fun hright => hnavigated hright.navigated) fun hok => hnavigated hok.1

/-! ## The operations together -/

end

/-! ## Where they do not -/

/-- A server with the directories `/`, `/h`, `/a` and `/h/a`, whose home is `/h`. -/
def smallServer (refused : List Nat) : FTPServer where
  exists_ := fun d => names d ∈ [[], [A ['h']], [A ['a']], [A ['h'], A ['a']]]
  home := [⟨A ['h'], by decide⟩]
  cur := [⟨A ['h'], by decide⟩]
  refuses := fun n => n ∈ refused

/-- A client that is in its home directory. -/
def smallCwd : FTPCwd := ⟨[A ['h']], A ['/', 'h'], A ['/', 'h', '/']⟩

theorem smallServer_inStep (refused : List Nat) : InStep smallCwd (smallServer refused) := ⟨rfl, rfl⟩

end Far2l.NetRocks
