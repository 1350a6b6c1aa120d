/-
Far2l.Sudo.CurDirTheorems — relative paths follow the last `sdc_chdir` that
returned 0.

The directory they are relative to is known in one of two ways: it is what the
override denotes, or there is no override and both processes are in it. A path is
joined with an override as text, which is right but for some overrides and "..".
-/
import Far2l.Sudo.CurDir
import Mathlib.Data.List.TakeWhile

namespace Far2l.Sudo

variable {base last : Dir} {override path : Path}

/-! ## Reconstructed paths -/

/-- A path with a slash has two parts. -/
theorem firstPart_lastPart (h : slash ∈ override) :
    override = firstPart override ++ slash :: lastPart override := by
  have hsplit := List.takeWhile_append_dropWhile (p := (· ≠ slash)) (l := override.reverse)
  cases hdrop : override.reverse.dropWhile (· ≠ slash) with
  | nil =>
    have hall := List.dropWhile_eq_nil_iff.mp hdrop slash (List.mem_reverse.mpr h)
    exact absurd rfl (of_decide_eq_true hall)
  | cons ch rest =>
    have hch : ch = slash := by
      have hhead := List.head?_dropWhile_not (· ≠ slash) override.reverse
      rw [hdrop] at hhead
      exact Decidable.not_not.mp (of_decide_eq_false (by simpa using hhead))
    rw [hdrop, hch] at hsplit
    have hreverse := congrArg List.reverse hsplit
    rw [List.reverse_reverse, List.reverse_append, List.reverse_cons, List.append_assoc] at hreverse
    rw [firstPart, hdrop, lastPart]
    exact hreverse.symm

/-- Joined with ".." as text, the override denotes the directory above: its last part is a name that
is behind something. -/
def Rebuilds (override path : Path) : Prop :=
  path = [dot, dot] ∨ path = [dot, dot, slash] → override ≠ [] →
    posix.IsName (lastPart override) ∧ firstPart override ≠ []

/-- What an override stands for. -/
def Stands (override : Path) (last : Dir) : Prop :=
  posix.Absolute override ∧ posix.resolve [] override = last

theorem Stands.resolve (h : Stands override last) (base : Dir) :
    posix.resolve base override = last := by
  rw [PathSyntax.resolve_absolute h.1, ← PathSyntax.resolve_absolute (d := []) h.1, h.2]

theorem stands_render (d : Dir) : Stands (posix.render d) d :=
  ⟨PathSyntax.absolute_render, PathSyntax.resolve_render⟩

theorem absolute_ne_nil (h : posix.Absolute path) : path ≠ [] := by
  rintro rfl
  exact nomatch h

/-- An absolute override whose last part is a name behind something denotes what is above. -/
theorem Stands.firstPart (h : Stands override last) (hname : posix.IsName (lastPart override))
    (hfirst : firstPart override ≠ []) (base : Dir) :
    posix.resolve base (Sudo.firstPart override) = last.tail := by
  have hmem : slash ∈ override := List.mem_of_mem_head? h.1
  have hsplit := firstPart_lastPart hmem
  have habs : posix.Absolute (Sudo.firstPart override) := by
    have hwhole := h.1
    rw [hsplit] at hwhole
    cases hparts : Sudo.firstPart override with
    | nil => exact absurd hparts hfirst
    | cons ch rest =>
      rw [hparts] at hwhole
      exact hwhole
  have hres := h.resolve base
  rw [hsplit, show slash = posix.sep from rfl, PathSyntax.resolve_append_name habs hname] at hres
  rw [← hres]
  rfl

/-- **A reconstructed path** denotes what the argument means: through the override, or because the
call is made in the right directory. -/
theorem denote_reconstruct (hbase : override = [] → base = last)
    (hover : override ≠ [] → Stands override last) (hpath : path ≠ [])
    (hrebuilds : Rebuilds override path) :
    denote base (reconstructCurDir override path) = some (posix.resolve last path) := by
  rw [reconstructCurDir]
  split
  · next hasis =>
    rw [denote, if_neg hpath]
    rcases hasis with habs | hnil | hnone
    · rw [PathSyntax.resolve_absolute habs, PathSyntax.resolve_absolute habs]
    · exact absurd hnil hpath
    · rw [hbase hnone]
  next hrel =>
  rw [not_or, not_or] at hrel
  obtain ⟨hrel, -, hsome⟩ := hrel
  have hstands := hover hsome
  rw [PathSyntax.resolve_relative hrel]
  split
  · next hdot =>
    rw [denote, if_neg hsome, hstands.resolve]
    rcases hdot with rfl | rfl
    · rfl
    · rfl
  split
  · next hdots =>
    obtain ⟨hname, hfirst⟩ := hrebuilds hdots hsome
    have hslash : slash ∈ override := List.mem_of_mem_head? hstands.1
    rw [if_pos hslash, denote, if_neg hfirst,
      hstands.firstPart hname hfirst]
    rcases hdots with rfl | rfl
    · rfl
    · rfl
  split
  · next htake =>
    have hparts : path = [dot] ++ slash :: path.drop 2 := by
      conv => lhs; rw [← List.take_append_drop 2 path, htake]
      rfl
    have hdrop : path.drop 1 = slash :: path.drop 2 := by
      conv => lhs; rw [hparts]
      rfl
    rw [denote, if_neg (List.append_ne_nil_of_left_ne_nil hsome _), hdrop,
      show slash = posix.sep from rfl, PathSyntax.resolve_append hstands.1, hstands.resolve]
    conv => rhs; rw [hparts, show slash = posix.sep from rfl, List.splitOn_append_cons_self,
      PathSyntax.walk_append]
    rfl
  · rw [denote, if_neg (List.append_ne_nil_of_left_ne_nil hsome _),
      show slash = posix.sep from rfl, PathSyntax.resolve_append hstands.1, hstands.resolve]

theorem denote_eq_some {d : Dir} (h : denote base path = some d) :
    path ≠ [] ∧ posix.resolve base path = d := by
  rw [denote] at h
  split at h
  · exact nomatch h
  · next hne => exact ⟨hne, Option.some.inj h⟩

theorem reconstruct_nil : reconstructCurDir override [] = [] := if_pos (.inr (.inl rfl))

/-! ## The connection -/

/-- Touching the connection opens it or leaves it as it is. -/
theorem Client.touch_spec (c : Client) (wantModify : Bool) (w : World) :
    (c.touchClientConnection wantModify w).1.count = c.count
    ∧ ((c.touchClientConnection wantModify w).2 = true →
        (c.touchClientConnection wantModify w).1.connected = true)
    ∧ ((c.touchClientConnection wantModify w).2 = false →
        (c.touchClientConnection wantModify w).1.connected = true → c.connected = true) := by
  rw [touchClientConnection]
  split
  · exact ⟨rfl, fun h => Bool.noConfusion h, fun _ h => h⟩
  split
  · exact ⟨rfl, fun h => Bool.noConfusion h, fun _ h => h⟩
  split
  · rw [openConnection]
    split
    · exact ⟨rfl, fun h => Bool.noConfusion h, fun _ h => h⟩
    split
    · exact ⟨rfl, fun h => Bool.noConfusion h, fun _ h => h⟩
    · exact ⟨rfl, fun _ => rfl, fun h => Bool.noConfusion h⟩
  next hconn =>
  have hconn : c.connected = true := by simpa using hconn
  split
  · rw [askModify]
    split
    · exact ⟨rfl, fun _ => hconn, fun _ _ => hconn⟩
    · exact ⟨rfl, fun _ => hconn, fun _ _ => hconn⟩
  · exact ⟨rfl, fun _ => hconn, fun _ _ => hconn⟩

/-- A transaction does not open the connection. -/
theorem Client.transaction_connected {c : Client} {modify : Bool} {w : World}
    (h : (c.transaction modify w).connected = true) : c.connected = true := by
  rw [transaction] at h
  dsimp only at h
  split at h
  · cases h
  · exact h

theorem Client.checkForClose_connected {c : Client} {time : Int}
    (h : (c.checkForCloseClientConnection time).connected = true) : c.connected = true := by
  rw [checkForCloseClientConnection] at h
  split at h
  · exact h
  · split at h
    · exact h
    · cases h

/-- Nor does leaving a region. -/
theorem Client.regionLeave_connected {c : Client} {time : Int}
    (h : (c.regionLeave time).connected = true) : c.connected = true := by
  have hclose := checkForClose_connected h
  split at hclose
  · exact hclose
  · exact hclose

theorem Client.drop_connected {c : Client} (h : c.drop.connected = true) : c.connected = true := by
  rw [drop] at h
  split at h
  · exact h
  · cases h

/-! ## Where both processes are -/

/-- **A path is passed rightly**: it denotes the directory of the last `sdc_chdir` that returned 0,
joined with the argument. -/
def Passed.Right (e : Passed) : Prop := e.argument ≠ [] → e.denoted = some e.meant

namespace CurDirs

variable {d : CurDirs} {op : Operation} {path1 path2 : Path} {w : DirWorld}

/-- The dispatcher is in the directory of the last `sdc_chdir`, if there is one. -/
def Follows (d : CurDirs) : Prop := d.client.connected = true → d.dispatcher = d.last

/-- Both processes are. -/
def Settled (d : CurDirs) : Prop := d.process = d.last ∧ d.Follows

/-- **What relative paths are relative to.** -/
structure Held (d : CurDirs) : Prop where
  settled : d.override = [] → d.Settled
  stands : d.override ≠ [] → Stands d.override d.last
  recent : ∀ path ∈ d.recent, posix.Absolute path
  passed : ∀ e ∈ d.passed, e.Right

theorem Held.client (h : d.Held) {c : Client}
    (hc : c.connected = true → d.client.connected = true) : { d with client := c }.Held where
  settled hnone := ⟨(h.settled hnone).1, fun hconn => (h.settled hnone).2 (hc hconn)⟩
  stands := h.stands
  recent := h.recent
  passed := h.passed

theorem pass_right (h : ∀ e ∈ d.passed, e.Right) {argument : Path}
    (hright : argument ≠ [] → denote base path = some (posix.resolve d.last argument)) :
    ∀ e ∈ (d.pass base argument path).passed, e.Right :=
  List.forall_mem_append.mpr ⟨h, List.forall_mem_singleton.mpr hright⟩

/-- What is passed does not change the rest. -/
theorem foldl_pass (f : Path → Path) : ∀ (paths : List Path) (d : CurDirs),
    paths.foldl (fun d path => d.pass base path (f path)) d
      = { d with passed := d.passed ++ paths.map fun path =>
          ⟨path, posix.resolve d.last path, denote base (f path)⟩ }
  | [], d => by simp only [List.foldl_nil, List.map_nil, List.append_nil]
  | path :: paths, d => by
    rw [List.foldl_cons, foldl_pass f paths]
    simp only [pass, List.map_cons, List.append_assoc, List.singleton_append]

theorem passAll_eq (d : CurDirs) (base : Dir) (override path1 path2 : Path) (op : Operation) :
    ∃ passed, d.passAll base override path1 path2 op = { d with passed := passed } := by
  rw [passAll, foldl_pass, foldl_pass]
  exact ⟨_, rfl⟩

theorem passAll_right (h : ∀ e ∈ d.passed, e.Right)
    (hrebuilt : ∀ path ∈ op.rebuilt path1 path2, path ≠ [] →
      denote base (reconstructCurDir override path) = some (posix.resolve d.last path))
    (hasIs : ∀ path ∈ op.asIs path1 path2, path ≠ [] →
      denote base path = some (posix.resolve d.last path)) :
    ∀ e ∈ (d.passAll base override path1 path2 op).passed, e.Right := by
  rw [passAll, foldl_pass, foldl_pass]
  refine List.forall_mem_append.mpr ⟨List.forall_mem_append.mpr ⟨h, ?_⟩, ?_⟩
  · exact List.forall_mem_map.mpr hrebuilt
  · exact List.forall_mem_map.mpr hasIs

/-! ## The other functions -/

theorem touch_eq (d : CurDirs) (wantModify : Bool) (w : DirWorld) :
    ∃ dispatcher, (d.touch wantModify w).1 = { d with
      client := (d.client.touchClientConnection wantModify w.touch).1, dispatcher := dispatcher } := by
  rw [touch]
  dsimp only
  split
  · exact ⟨_, rfl⟩
  · exact ⟨_, rfl⟩

theorem touch_passed (d : CurDirs) (passed : List Passed) (wantModify : Bool) (w : DirWorld) :
    { d with passed := passed }.touch wantModify w
      = ({ (d.touch wantModify w).1 with passed := passed }, (d.touch wantModify w).2) := by
  simp only [touch]
  split
  · rfl
  · rfl

theorem touchDenied_passed (d : CurDirs) (passed : List Passed) (wantModify : Bool) (w : DirWorld) :
    { d with passed := passed }.touchDenied wantModify w
      = ({ (d.touchDenied wantModify w).1 with passed := passed }, (d.touchDenied wantModify w).2) := by
  simp only [touchDenied]
  split
  · exact touch_passed d passed wantModify w
  · rfl

theorem touchDenied_eq (d : CurDirs) (wantModify : Bool) (w : DirWorld) :
    ∃ c dispatcher, (d.touchDenied wantModify w).1 = { d with client := c, dispatcher := dispatcher }
      ∧ ((d.touchDenied wantModify w).2 = true → c.connected = true) := by
  rw [touchDenied]
  split
  · obtain ⟨dispatcher, htouch⟩ := touch_eq d wantModify w
    exact ⟨_, dispatcher, htouch, (d.client.touch_spec wantModify w.touch).2.1⟩
  · exact ⟨d.client, d.dispatcher, rfl, fun h => nomatch h⟩

/-- **When a function's paths are right**: its reconstructed ones where ".." can be joined with the
override, and the others where they are absolute or both processes are in the directory. A
connection that is opened without an override leads there. -/
structure Fits (d : CurDirs) (op : Operation) (path1 path2 : Path) (w : DirWorld) : Prop where
  follows : d.override = [] → (d.touchDenied op.wantModify w).1.Follows
  rebuilds : ∀ path ∈ op.rebuilt path1 path2, Rebuilds d.override path
  asIs : ∀ path ∈ op.asIs path1 path2,
    posix.Absolute path ∨ (d.touchDenied op.wantModify w).1.Settled

/-- **A function but `sdc_chdir`.** -/
theorem Held.proxied (h : d.Held) (hfits : d.Fits op path1 path2 w) :
    (d.proxied op path1 path2 w).Held := by
  have hasIs : ∀ {base : Dir} {path : Path}, (posix.Absolute path ∨ base = d.last) → path ≠ [] →
      denote base path = some (posix.resolve d.last path) := by
    intro base path hcase hne
    rw [denote, if_neg hne]
    rcases hcase with habs | rfl
    · rw [PathSyntax.resolve_absolute habs, PathSyntax.resolve_absolute habs]
    · rfl
  obtain ⟨c, dispatcher, htouch, hconn⟩ := touchDenied_eq d op.wantModify w
  have hfollows := hfits.follows
  have hsettled := hfits.asIs
  rw [htouch] at hfollows hsettled
  have hhere : ∀ e ∈ (d.passAll d.process d.override path1 path2 op).passed, e.Right := by
    refine passAll_right h.passed (fun path hpath hne => ?_) fun path hpath => hasIs ?_
    · exact denote_reconstruct (fun hnone => (h.settled hnone).1) h.stands hne
        (hfits.rebuilds path hpath)
    · exact (hsettled path hpath).imp_right fun hs => hs.1
  obtain ⟨passed, hpassed⟩ := passAll_eq d d.process d.override path1 path2 op
  rw [hpassed] at hhere
  rw [CurDirs.proxied, hpassed]
  dsimp only
  rw [touchDenied_passed, htouch]
  split
  · next htrue =>
    have hthere : ∀ e ∈ ((⟨c, d.process, dispatcher, d.override, d.recent, d.last, passed⟩ :
        CurDirs).passAll dispatcher d.override path1 path2 op).passed, e.Right := by
      refine passAll_right hhere (fun path hpath hne => ?_) fun path hpath => hasIs ?_
      · exact denote_reconstruct (fun hnone => hfollows hnone (hconn htrue)) h.stands hne
          (hfits.rebuilds path hpath)
      · exact (hsettled path hpath).imp_right fun hs => hs.2 (hconn htrue)
    obtain ⟨passed', hpassed'⟩ := passAll_eq ⟨c, d.process, dispatcher, d.override, d.recent, d.last,
      passed⟩ dispatcher d.override path1 path2 op
    rw [hpassed'] at hthere
    rw [hpassed']
    exact ⟨fun hnone => ⟨(h.settled hnone).1, fun hc => hfollows hnone
      (Client.transaction_connected hc)⟩, h.stands, h.recent, hthere⟩
  · exact ⟨fun hnone => ⟨(h.settled hnone).1, hfollows hnone⟩, h.stands, h.recent, hhere⟩

/-! ## `sdc_chdir` -/

theorem localChdir_succeeds (h : localChdir path w = .succeeds) : path ≠ [] := by
  rintro rfl
  exact nomatch h

theorem remoteChdir_succeeds {getcwd : Bool} (h : remoteChdir path w = .succeeds getcwd) :
    path ≠ [] := by
  rintro rfl
  rw [remoteChdir] at h
  split at h
  · exact nomatch h
  · exact nomatch h
  · exact nomatch h

/-- Setting an override that stands for the directory. -/
theorem Held.set {d : CurDirs} (hrecent : ∀ path ∈ d.recent, posix.Absolute path)
    (hpassed : ∀ e ∈ d.passed, e.Right) (hstands : Stands path last) :
    { d.curDirOverrideSet path with last := last }.Held := by
  have hne := absolute_ne_nil hstands.1
  rw [curDirOverrideSet, if_neg hne]
  refine ⟨fun hnone => absurd hnone hne, fun _ => hstands, fun p hp => ?_, hpassed⟩
  rcases List.mem_append.mp (List.mem_of_mem_drop hp) with hp | hp
  · exact hrecent p hp
  · exact List.mem_singleton.mp hp ▸ hstands.1

/-- Without an override, both processes have to be in the directory. -/
theorem Held.unset {d : CurDirs} (hover : d.override = [])
    (hrecent : ∀ path ∈ d.recent, posix.Absolute path) (hpassed : ∀ e ∈ d.passed, e.Right)
    (hsettled : d.Settled) : d.Held :=
  ⟨fun _ => hsettled, fun hsome => absurd hover hsome, hrecent, hpassed⟩

/-- The connection is touched by `sdc_chdir` as by the other functions. -/
theorem touchChdir_eq (d : CurDirs) (path : Path) (w : DirWorld) :
    ∃ c dispatcher, (d.touchChdir path w).1 = { d with client := c, dispatcher := dispatcher }
      ∧ ((d.touchChdir path w).2 = true → c.connected = true)
      ∧ ((d.touchChdir path w).2 = false → (d.touchChdir path w).1.isSudoRegionActive = false) := by
  rw [touchChdir]
  split
  · next hactive =>
    exact ⟨d.client, d.dispatcher, rfl, fun _ => (of_decide_eq_true hactive).1,
      fun h => Bool.noConfusion h⟩
  next hactive =>
  have hactive := Bool.eq_false_iff.mpr hactive
  split
  · obtain ⟨dispatcher, htouch⟩ := touch_eq d false w
    obtain ⟨hcount, hconn, hnot⟩ := d.client.touch_spec false w.touch
    refine ⟨_, dispatcher, htouch, hconn, fun hr => ?_⟩
    rw [htouch]
    refine decide_eq_false fun hboth => of_decide_eq_false hactive ?_
    exact ⟨hnot hr hboth.1, hcount ▸ hboth.2⟩
  · exact ⟨d.client, d.dispatcher, rfl, fun h => Bool.noConfusion h, fun _ => hactive⟩

/-- When the transaction of `sdc_chdir` leaves the directories right: the dispatcher names the
directory it has changed to, or it need not; where it fails, both processes have to be in the old one;
where the connection is lost, the process has to be in the new one or in the old one. -/
def TransactFits (t : CurDirs) (path : Path) (w : DirWorld) : Prop :=
  match remoteChdir path w with
  | .succeeds getcwd => getcwd = true ∨ localChdir path w = .succeeds
  | .fails => t.Settled
  | .throws received => received = [] ∧ (localChdir path w = .succeeds ∨ t.process = t.last)

/-- When `sdc_chdir` does without a transaction: a relative path leaves no dispatcher behind, and
where it fails both processes have to be in the old directory. -/
def TransactNotFits (t : CurDirs) (path : Path) (w : DirWorld) : Prop :=
  match localChdir path w with
  | .denied => (t.client.mode ≠ .SCM_DISABLE ∧ path ∈ t.recent) ∨ t.Settled
  | .succeeds => posix.Absolute path ∨ t.client.connected = false
  | .fails => t.Settled

section

variable {t : CurDirs} {argument rebuilt : Path}

/-- Where neither is anywhere else, the old directory and the new one are the same. -/
theorem settled_either {new : Dir} {r : Bool} (hsettled : t.Settled)
    (hnew : r = true → t.process = new) :
    (remember (t, r) t.last new).Settled := by
  cases r with
  | false => exact hsettled
  | true =>
    have hsame : new = t.last := (hnew rfl).symm.trans hsettled.1
    rw [hsame]
    exact hsettled

/-- **The transaction of `sdc_chdir`.** -/
theorem transact_held (hover : t.override = []) (hrecent : ∀ path ∈ t.recent, posix.Absolute path)
    (hpassed : ∀ e ∈ t.passed, e.Right)
    (hlocal : localChdir rebuilt w = .succeeds → t.process = posix.resolve t.last argument)
    (hremote : argument ≠ [] →
      denote t.dispatcher rebuilt = some (posix.resolve t.last argument))
    (hnil : argument = [] → rebuilt = []) (hfits : t.TransactFits rebuilt w) :
    (remember (t.transact argument rebuilt w) t.last (posix.resolve t.last argument)).Held := by
  have hpassed' := pass_right hpassed hremote
  rw [TransactFits] at hfits
  cases hend : remoteChdir rebuilt w with
  | succeeds getcwd =>
    simp only [hend] at hfits
    have hthere : posix.resolve t.dispatcher rebuilt = posix.resolve t.last argument :=
      (denote_eq_some (hremote fun h => remoteChdir_succeeds hend (hnil h))).2
    simp only [transact, hend]
    cases getcwd with
    | true =>
      refine Held.set hrecent hpassed' (?_ : Stands _ (posix.resolve t.last argument))
      rw [← hthere]
      exact stands_render _
    | false =>
      have hhere := hlocal (hfits.resolve_left Bool.false_ne_true)
      exact Held.unset hover hrecent hpassed' ⟨hhere, fun _ => hthere⟩
  | fails =>
    simp only [hend] at hfits
    simp only [transact, hend]
    refine Held.unset hover hrecent hpassed' ?_
    have heither := settled_either (r := localChdir rebuilt w = .succeeds) hfits
      fun hr => hlocal (of_decide_eq_true hr)
    exact ⟨heither.1, fun hc => heither.2 (Client.transaction_connected hc)⟩
  | throws received =>
    simp only [hend] at hfits
    obtain ⟨rfl, hplace⟩ := hfits
    simp only [transact, hend]
    refine Held.unset rfl hrecent hpassed' ⟨?_, fun hc => nomatch hc⟩
    show t.process = if decide (localChdir rebuilt w = .succeeds) = true then
      posix.resolve t.last argument else t.last
    split
    · next hs => exact hlocal (of_decide_eq_true hs)
    · next hs => exact hplace.resolve_left fun h => hs (decide_eq_true h)

/-- **`sdc_chdir` without a transaction.** -/
theorem transactNot_held (hover : t.override = [])
    (hrecent : ∀ path ∈ t.recent, posix.Absolute path) (hpassed : ∀ e ∈ t.passed, e.Right)
    (hlocal : localChdir rebuilt w = .succeeds → t.process = posix.resolve t.last argument)
    (hmeans : argument ≠ [] → denote base rebuilt = some (posix.resolve t.last argument))
    (hnil : argument = [] → rebuilt = []) (hactive : t.isSudoRegionActive = false)
    (hfits : t.TransactNotFits rebuilt w) :
    (remember (t.transactNot rebuilt w) t.last (posix.resolve t.last argument)).Held := by
  have hstands : posix.Absolute rebuilt → Stands rebuilt (posix.resolve t.last argument) := by
    intro habs
    refine ⟨habs, ?_⟩
    have hres := (denote_eq_some (hmeans fun h => absolute_ne_nil habs (hnil h))).2
    rw [PathSyntax.resolve_absolute habs] at hres ⊢
    exact hres
  rw [TransactNotFits] at hfits
  rw [transactNot]
  cases hend : localChdir rebuilt w with
  | denied =>
    rw [hend] at hfits
    simp only [hactive]
    rw [if_neg Bool.false_ne_true, curDirOverrideSetIfRecent]
    split
    · next hnot =>
      have hsettled : t.Settled := hfits.resolve_left fun hhit => hnot.elim hhit.1 fun h => h hhit.2
      exact Held.unset hover hrecent hpassed (settled_either hsettled fun h => by cases h)
    · next hhit =>
      have hmem : rebuilt ∈ t.recent := Decidable.not_not.mp fun h => hhit (.inr h)
      have hstands := hstands (hrecent rebuilt hmem)
      refine ⟨fun hnone => absurd hnone (absolute_ne_nil hstands.1), fun _ => hstands,
        fun p hp => ?_, hpassed⟩
      rcases List.mem_append.mp hp with hp | hp
      · exact hrecent p (List.mem_of_mem_erase hp)
      · exact List.mem_singleton.mp hp ▸ hstands.1
  | succeeds =>
    rw [hend] at hfits
    dsimp only
    split
    · next habs => exact Held.set hrecent hpassed (hstands habs)
    · next habs =>
      have hnone := hfits.resolve_left habs
      exact Held.unset hover hrecent hpassed
        ⟨hlocal hend, fun hc => by cases hnone.symm.trans hc⟩
  | fails =>
    rw [hend] at hfits
    exact Held.unset hover hrecent hpassed (settled_either hfits fun h => by cases h)

end

/-- **When a `chdir` keeps what relative paths are relative to.** -/
structure ChdirFits (d : CurDirs) (path : Path) (w : DirWorld) : Prop where
  follows : d.override = [] →
    ((d.attempt path w).touchChdir (reconstructCurDir d.override path) w).1.Follows
  rebuilds : Rebuilds d.override path
  transact : ((d.attempt path w).touchChdir (reconstructCurDir d.override path) w).2 = true →
    ((d.attempt path w).touchChdir (reconstructCurDir d.override path) w).1.TransactFits
      (reconstructCurDir d.override path) w
  transactNot : ((d.attempt path w).touchChdir (reconstructCurDir d.override path) w).2 = false →
    ((d.attempt path w).touchChdir (reconstructCurDir d.override path) w).1.TransactNotFits
      (reconstructCurDir d.override path) w

/-- **`sdc_chdir`.** -/
theorem Held.chdir (h : d.Held) (hfits : d.ChdirFits path w) : (d.perform (.chdir path w)).Held := by
  have hnil : path = [] → reconstructCurDir d.override path = [] := by
    rintro rfl
    exact reconstruct_nil
  have hmeans : path ≠ [] → denote d.process (reconstructCurDir d.override path)
      = some (posix.resolve d.last path) := fun hne =>
    denote_reconstruct (fun hnone => (h.settled hnone).1) h.stands hne hfits.rebuilds
  have hpassed : ∀ e ∈ (d.attempt path w).passed, e.Right := pass_right h.passed hmeans
  have hlocal : localChdir (reconstructCurDir d.override path) w = .succeeds →
      (d.attempt path w).process = posix.resolve d.last path := by
    intro hs
    have hne : path ≠ [] := fun hp => localChdir_succeeds hs (hnil hp)
    exact (if_pos hs).trans (denote_eq_some (hmeans hne)).2
  obtain ⟨c, dispatcher, htouch, hconn, hactive⟩ :=
    touchChdir_eq (d.attempt path w) (reconstructCurDir d.override path) w
  obtain ⟨hfollows, hrebuilds, htransact, hnot⟩ := hfits
  rw [htouch] at hfollows htransact hnot hactive
  have hremote : c.connected = true → path ≠ [] → denote dispatcher
      (reconstructCurDir d.override path) = some (posix.resolve d.last path) := fun hc hne =>
    denote_reconstruct (fun hnone => hfollows hnone hc) h.stands hne hrebuilds
  rw [perform, sdcChdir, htouch]
  cases ht : ((d.attempt path w).touchChdir (reconstructCurDir d.override path) w).2 with
  | true =>
    exact transact_held rfl h.recent hpassed hlocal (hremote (hconn ht)) hnil (htransact ht)
  | false =>
    exact transactNot_held rfl h.recent hpassed hlocal hmeans hnil (hactive ht) (hnot ht)

/-! ## Runs -/

/-- The steps after which relative paths are still relative to the right directory. -/
def Meets (d : CurDirs) : Op → Prop
  | .proxied op path1 path2 w => d.Fits op path1 path2 w
  | .chdir path w => d.ChdirFits path w
  | op => d.Can op

/-- **One step.** -/
theorem Held.perform (h : d.Held) (op : Op) (hmeets : d.Meets op) : (d.perform op).Held := by
  cases op with
  | enter => exact h.client fun hc => hc
  | leave time => exact h.client Client.regionLeave_connected
  | silentEnter => exact h.client fun hc => hc
  | silentLeave => exact h.client fun hc => hc
  | drop => exact h.client Client.drop_connected
  | proxied op path1 path2 w => exact h.proxied hmeets
  | chdir path w => exact h.chdir hmeets
  | untouched w => exact h.client Client.transaction_connected

/-- A process that has just been started in a directory. -/
def started (mode : SudoClientMode) (passwordExpiration : Int) (process : Dir) : CurDirs :=
  { client := { mode := mode, passwordExpiration := passwordExpiration }
    process := process
    last := process }

/-- **Relative paths follow the last `sdc_chdir` that returned 0**: in every run whose steps meet the
condition, each path that is passed to a local call or to the dispatcher denotes that directory,
joined with the argument. -/
theorem reach_right {mode : SudoClientMode} {passwordExpiration : Int} {process : Dir}
    (h : Reach perform Meets (started mode passwordExpiration process) d) :
    ∀ e ∈ d.passed, e.Right := by
  have hheld : d.Held := by
    refine h.invariant ?_ fun d op hd hmeets => hd.perform op hmeets
    refine Held.unset rfl ?_ ?_ ⟨rfl, fun hc => nomatch hc⟩
    · exact fun _ hp => absurd hp List.not_mem_nil
    · exact fun _ he => absurd he List.not_mem_nil
  exact hheld.passed

instance (e : Passed) : Decidable e.Right := inferInstanceAs (Decidable (_ → _))

/-- `/a` -/
def a : Path := [slash, 0x61]

/-- The process changes to `/a`, and looks there for a file it has no access to. -/
def looked : CurDirs :=
  [Op.enter, .chdir a {}, .proxied .stat [0x78] [] { localEnd := .denied }].foldl perform
    (started .SCM_CONFIRM_NONE 0 [])

/-- The file is looked for in `/a`, first by the process and then by the dispatcher. -/
theorem reach_right_looked : looked.passed.length = 3 ∧ ∀ e ∈ looked.passed, e.Right := by
  have h0 : Reach perform Meets (started .SCM_CONFIRM_NONE 0 []) (started .SCM_CONFIRM_NONE 0 []) := .start
  have h1 := h0.step Op.enter trivial
  have h2 := h1.step (Op.chdir a {})
    ⟨fun _ hc => Bool.noConfusion hc, fun hdots => absurd hdots (by decide),
      fun ht => Bool.noConfusion ht, fun _ => Or.inl rfl⟩
  have h3 := h2.step (Op.proxied .stat [0x78] [] { localEnd := .denied })
    ⟨fun hnone => absurd hnone (by decide),
      fun path hpath hdots => absurd (List.mem_singleton.mp hpath ▸ hdots) (by decide),
      fun path hpath => absurd hpath List.not_mem_nil⟩
  exact ⟨by decide, reach_right h3⟩

/-- The dispatcher changes to `/a`, where the process has no access, and a file is renamed there. -/
def renamed : CurDirs :=
  [Op.enter, .chdir a { localEnd := .denied },
    .proxied .rename [0x78] [0x79] { localEnd := .denied }].foldl perform
    (started .SCM_CONFIRM_NONE 0 [])

/-- **The second path of a rename** is passed as it is. -/
theorem renamed_not_right :
    ¬ ∀ (mode : SudoClientMode) (passwordExpiration : Int) (process : Dir) (d : CurDirs),
      Reach perform Can (started mode passwordExpiration process) d → ∀ e ∈ d.passed, e.Right := by
  intro hall
  have h0 : Reach perform Can (started .SCM_CONFIRM_NONE 0 []) (started .SCM_CONFIRM_NONE 0 []) := .start
  have h1 := h0.step Op.enter trivial
  have h2 := h1.step (Op.chdir a { localEnd := .denied }) trivial
  have h3 := h2.step (Op.proxied .rename [0x78] [0x79] { localEnd := .denied }) trivial
  have hwrong : ¬ ∀ e ∈ renamed.passed, e.Right := by decide
  exact hwrong (hall .SCM_CONFIRM_NONE 0 [] _ h3)

end CurDirs

end Far2l.Sudo
