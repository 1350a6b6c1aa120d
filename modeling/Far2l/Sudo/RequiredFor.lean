/-
Far2l.Sudo.RequiredFor — `sudo_client_is_required_for` of
`WinPort/src/sudo/sudo_client_api.cpp`, with `ClientReconstructCurDir`.

A file system answers `stat` and `access` for every path. Any answers are possible,
but for two things: the empty path names nothing, and where a lookup below a path
ends with `ENOENT`, empty and single-dot components of that path make no
difference, as everything on the way was looked up as a directory.
-/
import Far2l.Sudo.CurDirTheorems

namespace Far2l.Sudo

/-! ## The file system -/

/-- How `stat` ends. `denied` is `EACCES` or `EPERM`. -/
inductive StatEnd where
  | found
  | denied
  | noEntry
  | failed
  deriving DecidableEq, Repr

/-- How `access` ends. `denied` is `EACCES` or `EPERM`. -/
inductive AccessEnd where
  | granted
  | denied
  | failed
  deriving DecidableEq, Repr

def R_OK : Nat := 4

def W_OK : Nat := 2

/-- A component that leads somewhere. -/
def leads (c : Path) : Bool := decide (c ≠ [] ∧ c ≠ [dot])

/-- The components that lead somewhere, and whether they do so from the root. -/
def reading (path : Path) : Bool × List Path :=
  (decide (posix.Absolute path), (path.splitOn slash).filter leads)

structure FileSystem where
  stat : Path → StatEnd
  access : Path → Nat → AccessEnd
  access_nil : ∀ mode, access [] mode = .failed
  access_same : ∀ {p q name : Path} (mode : Nat), p ≠ [] → q ≠ [] → slash ∉ name → reading p = reading q →
    stat (p ++ slash :: name) = .noEntry → access p mode = access q mode

/-! ## The function -/

/-- What an end of `access` is returned as. -/
def AccessEnd.answer : AccessEnd → Int
  | .granted => 0
  | .denied => 1
  | .failed => -1

def accessMode (modify : Bool) : Nat := if modify then R_OK ||| W_OK else R_OK

/-- The path that is looked at where there is none of that name: `tmp`. -/
def parentLookedAt (pathname : Path) : Path :=
  if slash ∉ pathname then [dot]
  else if (firstPart pathname).length > 0 then pathname.take ((firstPart pathname).length - 1)
  else [slash]

/-- `sudo_client_is_required_for` -/
def sudoClientIsRequiredFor (fs : FileSystem) (override path : Path) (modify : Bool) : Int :=
  let pathname := reconstructCurDir override path
  match fs.stat pathname with
  | .found => (fs.access pathname (accessMode modify)).answer
  | .denied => 1
  | .failed => -1
  | .noEntry => (fs.access (parentLookedAt pathname) (accessMode modify)).answer

/-- The directory that a path is in: what is in front of the last slash. -/
def parentOf (pathname : Path) : Path :=
  if slash ∉ pathname then [dot] else if firstPart pathname = [] then [slash] else firstPart pathname

/-! ## One character less -/

theorem slash_not_mem_lastPart (path : Path) : slash ∉ lastPart path := by
  intro hmem
  have hkept := List.mem_takeWhile_imp (List.mem_reverse.mp hmem)
  exact of_decide_eq_true hkept rfl

theorem reading_append {d x : Path} (hx : slash ∉ x) :
    reading (d ++ slash :: x) = (decide (posix.Absolute (d ++ [slash])), (reading d).2 ++ [x].filter leads) := by
  have hhead : (d ++ slash :: x).head? = (d ++ [slash]).head? := by
    cases d <;> rfl
  have habs : posix.Absolute (d ++ slash :: x) = posix.Absolute (d ++ [slash]) := congrArg (· = some slash) hhead
  rw [reading, reading, List.splitOn_append_cons_self, List.splitOn_eq_singleton hx, List.filter_append]
  simp only [habs]

theorem reading_single {x : Path} (hx : slash ∉ x) : (reading x).2 = [x].filter leads := by
  rw [reading, List.splitOn_eq_singleton hx]

/-- One more character at its end changes a component, unless it makes it a dot. -/
theorem filter_leads_iff (x : Path) (c : Byte) :
    [x].filter leads = [x ++ [c]].filter leads ↔ x = [] ∧ c = dot := by
  constructor
  · intro h
    by_cases hdot : x ++ [c] = [dot]
    · exact List.append_eq_singleton_iff.mp hdot |>.elim (fun ⟨hx, hc⟩ => ⟨hx, List.singleton_inj.mp hc⟩)
        fun ⟨_, hc⟩ => nomatch hc
    · have hkept : leads (x ++ [c]) = true := decide_eq_true ⟨by simp, hdot⟩
      rw [List.filter_cons_of_pos hkept, List.filter_nil] at h
      have hmem := (List.mem_filter.mp (h ▸ List.mem_singleton_self (x ++ [c]) : x ++ [c] ∈ [x].filter leads)).1
      simp at hmem
  · rintro ⟨rfl, rfl⟩
    decide

/-- In front of the last slash there is an empty component or a dot, and something before it. -/
def Spared (front : Path) : Prop := (∃ d, d ≠ [] ∧ front = d ++ [slash]) ∨ ∃ d, front = d ++ [slash, dot]

theorem spared_concat (w : Path) (c : Byte) :
    Spared (w ++ [c]) ↔ (w ≠ [] ∧ c = slash) ∨ (c = dot ∧ ∃ d, w = d ++ [slash]) := by
  constructor
  · rintro (⟨d, hd, heq⟩ | ⟨d, heq⟩)
    · obtain ⟨rfl, hc⟩ := List.append_inj' heq rfl
      exact .inl ⟨hd, List.singleton_inj.mp hc⟩
    · rw [show d ++ [slash, dot] = (d ++ [slash]) ++ [dot] by simp] at heq
      obtain ⟨rfl, hc⟩ := List.append_inj' heq rfl
      exact .inr ⟨List.singleton_inj.mp hc, d, rfl⟩
  · rintro (⟨hw, rfl⟩ | ⟨rfl, d, rfl⟩)
    · exact .inl ⟨w, hw, rfl⟩
    · exact .inr ⟨d, by simp⟩

/-- **A character less reads the same** only where it was a slash or a dot of its own. -/
theorem reading_dropLast_iff {front : Path} (h : front ≠ []) :
    front.dropLast ≠ [] ∧ reading front.dropLast = reading front ↔ Spared front := by
  obtain ⟨w, c, rfl⟩ : ∃ w c, front = w ++ [c] := ⟨_, _, (List.dropLast_concat_getLast h).symm⟩
  rw [List.dropLast_concat, spared_concat]
  by_cases hc : c = slash
  · subst hc
    simp only [and_true, show slash ≠ dot by decide, false_and, or_false, and_iff_left_iff_imp]
    intro hw
    obtain ⟨a, w, rfl⟩ := List.exists_cons_of_ne_nil hw
    rw [reading_append (x := []) (by simp), List.filter_cons_of_neg (by decide), List.filter_nil, List.append_nil]
    rfl
  simp only [hc, and_false, false_or]
  by_cases hw : slash ∈ w
  · have hparts := firstPart_lastPart hw
    generalize firstPart w = u at hparts
    have hx := slash_not_mem_lastPart w
    generalize lastPart w = x at hparts hx
    subst hparts
    have hne : u ++ slash :: x ≠ [] := by simp
    rw [List.append_assoc, List.cons_append, reading_append hx,
      reading_append (x := x ++ [c]) (by simp [hx, Ne.symm hc]), Prod.mk.injEq]
    simp only [ne_eq, hne, not_false_eq_true, true_and, List.append_cancel_left_eq, filter_leads_iff]
    constructor
    · rintro ⟨rfl, rfl⟩
      exact ⟨rfl, u, rfl⟩
    · rintro ⟨rfl, d, heq⟩
      refine ⟨?_, rfl⟩
      by_contra hx'
      obtain ⟨x', y, rfl⟩ : ∃ x' y, x = x' ++ [y] := ⟨_, _, (List.dropLast_concat_getLast hx').symm⟩
      rw [← List.cons_append, ← List.append_assoc] at heq
      have hy := List.singleton_inj.mp (List.append_inj' heq rfl).2
      exact hx (by simp [hy])
  · refine iff_of_false (fun ⟨hne, heq⟩ => ?_) ?_
    · have hsteps := congrArg Prod.snd heq
      rw [reading_single hw, reading_single (by simp [hw, Ne.symm hc]), filter_leads_iff] at hsteps
      exact hne hsteps.1
    · rintro ⟨-, d, rfl⟩
      exact hw (by simp)

/-! ## The answer -/

/-- The directory that a path is in is looked at: there is no slash, or only the first character is one,
or the character that is cut off made no difference. -/
def LooksAtParent (pathname : Path) : Prop :=
  slash ∉ pathname ∨ firstPart pathname = [] ∨ Spared (firstPart pathname)

/-- Every path that is read otherwise can be told from the parent: the file system that grants access to
what reads like the parent, and to nothing else. -/
def onlyGrants (parent : Path) : FileSystem where
  stat := fun _ => .noEntry
  access := fun path _ => if path = [] then .failed else if reading path = reading parent then .granted else .denied
  access_nil := fun _ => if_pos rfl
  access_same := by
    intro p q name mode hp hq _ heq _
    simp only [hp, hq, if_false, heq]

theorem parentLookedAt_eq {pathname : Path} (hslash : slash ∈ pathname) (hfront : firstPart pathname ≠ []) :
    parentLookedAt pathname = (firstPart pathname).dropLast := by
  have hpos := List.length_pos_iff.mpr hfront
  have hparts := firstPart_lastPart hslash
  rw [parentLookedAt, if_neg (not_not.mpr hslash), if_pos hpos, List.dropLast_eq_take]
  have htake := congrArg (List.take ((firstPart pathname).length - 1)) hparts
  rw [List.take_append_of_le_length (by omega)] at htake
  exact htake

/-- **Where the test looks.** For every path, the function answers by the access to the directory that
the path is in, whatever the file system, exactly when it looks at that directory. -/
theorem requiredFor_parent_iff (override path : Path) (modify : Bool) :
    (∀ fs : FileSystem, fs.stat (reconstructCurDir override path) = .noEntry →
        sudoClientIsRequiredFor fs override path modify =
          (fs.access (parentOf (reconstructCurDir override path)) (accessMode modify)).answer) ↔
      LooksAtParent (reconstructCurDir override path) := by
  generalize hpath : reconstructCurDir override path = pathname
  have hrun : ∀ fs : FileSystem, fs.stat pathname = .noEntry →
      sudoClientIsRequiredFor fs override path modify =
        (fs.access (parentLookedAt pathname) (accessMode modify)).answer := by
    intro fs hstat
    simp only [sudoClientIsRequiredFor, hpath, hstat]
  by_cases hslash : slash ∈ pathname
  · by_cases hfront : firstPart pathname = []
    · refine iff_of_true (fun fs hstat => ?_) (.inr (.inl hfront))
      rw [hrun fs hstat, parentLookedAt, parentOf, if_neg (not_not.mpr hslash), if_neg (not_not.mpr hslash),
        if_pos hfront, if_neg (by simp [hfront])]
    · have hparent : parentOf pathname = firstPart pathname := by
        rw [parentOf, if_neg (not_not.mpr hslash), if_neg hfront]
      have hlooks : LooksAtParent pathname ↔ Spared (firstPart pathname) := by
        simp only [LooksAtParent, hslash, not_true_eq_false, hfront, false_or]
      rw [hlooks, ← reading_dropLast_iff hfront, hparent]
      constructor
      · intro h
        have hanswer := h (onlyGrants (firstPart pathname)) rfl
        rw [hrun _ rfl, parentLookedAt_eq hslash hfront] at hanswer
        have hgranted :
            ((onlyGrants (firstPart pathname)).access (firstPart pathname) (accessMode modify)).answer = 0 := by
          simp [onlyGrants, hfront, AccessEnd.answer]
        rw [hgranted] at hanswer
        by_cases hnil : (firstPart pathname).dropLast = []
        · simp [onlyGrants, hnil, AccessEnd.answer] at hanswer
        · refine ⟨hnil, ?_⟩
          by_contra hreading
          simp [onlyGrants, hnil, hreading, AccessEnd.answer] at hanswer
      · rintro ⟨hne, hreading⟩ fs hstat
        rw [hrun fs hstat, parentLookedAt_eq hslash hfront]
        have hparts := firstPart_lastPart hslash
        rw [fs.access_same (accessMode modify) hfront hne (slash_not_mem_lastPart pathname) hreading.symm
          (hparts ▸ hstat)]
  · refine iff_of_true (fun fs hstat => ?_) (.inl hslash)
    rw [hrun fs hstat, parentLookedAt, parentOf, if_pos hslash, if_pos hslash]

/-- For "/a/b" the test looks at "/", and not at "/a". -/
theorem requiredFor_not_parent :
    ¬∀ (fs : FileSystem) (override path : Path) (modify : Bool),
      fs.stat (reconstructCurDir override path) = .noEntry →
        sudoClientIsRequiredFor fs override path modify =
          (fs.access (parentOf (reconstructCurDir override path)) (accessMode modify)).answer := by
  intro h
  exact absurd (h (onlyGrants [slash, 0x61]) [] [slash, 0x61, slash, 0x62] false rfl) (by decide)

end Far2l.Sudo
