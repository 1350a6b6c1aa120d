/-
Far2l.Utils.KeyFileReadSection — `KeyFileReadSection` of `utils/src/KeyFileHelper.cpp`:
one section read out of a key file.

`LoadKeyFile` is a template over what gives it the values of a section. The reader of
one section gives its own values for that section and none for the others, the helper
those of its map. What the reader comes to is what the helper finds.
-/
import Far2l.Utils.ConfigRWTheorems

namespace Far2l.KeyFile

/-! ## The reader -/

/-- What a line is to `LoadKeyFile`. -/
inductive Line where
  | heading (section_ : Str)
  | assignment (key value : Str)
  | other

/-- `LoadKeyFile`: a line. -/
def Line.of (line : Str) : Line :=
  let line := strTrim [BLANK, TABULATOR, CARRIAGE] line
  match line with
  | [] => .other
  | c :: rest =>
      if c = LBRACKET then
        if line.getLast? = some RBRACKET then .heading (decode rest.dropLast) else .other
      else if c ≠ SEMICOLON ∧ c ≠ HASH then
        if EQUALS ∈ line then
          .assignment (strTrimRight [BLANK, TABULATOR] (line.takeWhile (· ≠ EQUALS)))
            (strTrimLeft [BLANK, TABULATOR] ((line.dropWhile (· ≠ EQUALS)).drop 1))
        else .other
      else .other

/-- The variables of `LoadKeyFile` and the members of `KeyFileReadSection`; `current` tells whether the line is one of
the section. -/
structure SectionReader where
  values : KeyFileValues := .empty
  current : Bool := false
  reachedNamedSection : Bool := false
  sectionLoaded : Bool := false

namespace SectionReader

variable (section_ : Str) (R : SectionReader)

/-- `values = values_provider(section_name)` -/
def enter (name : Str) (named : Bool) : SectionReader :=
  { R with
    current := name = section_
    reachedNamedSection := R.reachedNamedSection || named
    sectionLoaded := R.sectionLoaded || name = section_ }

/-- A line of the form `key=value`. -/
def assign (key value : Str) : SectionReader :=
  let R := if !R.current ∧ !R.reachedNamedSection then R.enter section_ [] false else R
  if R.current then { R with values := R.values.set (decode key) (decode value) } else R

/-- A line. -/
def line (line : Str) : SectionReader :=
  match Line.of line with
  | .heading name => R.enter section_ name true
  | .assignment key value => R.assign section_ key value
  | .other => R

end SectionReader

/-- `KeyFileReadSection`: the values of the section, if it is in the file. -/
def readSection (content section_ : Str) : Option KeyFileValues :=
  let R := (contentLines content).foldl (SectionReader.line section_) {}
  if R.sectionLoaded then some R.values else none

/-! ## It reads what the helper finds -/

theorem Loader.line_eq {ci : Bool} (R : Loader ci) (line : Str) :
    R.line line =
      match Line.of line with
      | .heading name => R.enter name true
      | .assignment key value => R.assign key value
      | .other => R := by
  rw [Loader.line, Line.of]
  cases strTrim [BLANK, TABULATOR, CARRIAGE] line with
  | nil => rfl
  | cons c rest =>
    dsimp only
    split
    · split <;> rfl
    · split
      · split <;> rfl
      · rfl

/-- The reader and the helper behind the same lines. -/
structure Abreast (section_ : Str) (R : Loader false) (r : SectionReader) : Prop where
  ordered : R.kf.Ordered
  reached : r.reachedNamedSection = R.reachedNamedSection
  found : R.kf.find section_ = if r.sectionLoaded then some r.values else none
  unread : r.sectionLoaded = false → r.values = .empty
  current : (R.values = none ∧ r.current = false ∧ R.reachedNamedSection = false) ∨
    ∃ name e, R.kf.map.find? name = some e ∧ R.values = some e.2.id ∧ r.current = decide (name = section_) ∧
      (R.reachedNamedSection = false → name = [])

section

variable {section_ : Str} {R : Loader false} {r : SectionReader}

theorem Abreast.enter (h : Abreast section_ R r) {name : Str} {named : Bool} (hname : named = false → name = []) :
    Abreast section_ (R.enter name named) (r.enter section_ name named) := by
  obtain ⟨e, he, hit⟩ := Sections.ensure_find? R.kf name
  refine ⟨h.ordered.ensure name, ?_, ?_, fun hunread => ?_, Or.inr ⟨name, e, he, congrArg some hit, rfl, fun hreached =>
    hname (Bool.or_eq_false_iff.mp hreached).2⟩⟩
  · show (r.reachedNamedSection || named) = (R.reachedNamedSection || named)
    rw [h.reached]
  · show (R.kf.ensure name).1.find section_
      = if r.sectionLoaded || decide (name = section_) then some r.values else none
    rw [Sections.find_ensure]
    by_cases hsame : section_ = name
    · have hboth : (r.sectionLoaded || decide (name = section_)) = true := by
        rw [decide_eq_true hsame.symm, Bool.or_true]
      rw [if_pos hsame, if_pos hboth, ← hsame, h.found]
      cases hloaded : r.sectionLoaded with
      | true => rfl
      | false => rw [h.unread hloaded]; rfl
    · rw [if_neg hsame, decide_eq_false (Ne.symm hsame), Bool.or_false]
      exact h.found
  · exact h.unread (Bool.or_eq_false_iff.mp hunread).1

/-- A line of the section that is being read. -/
theorem Abreast.set (h : Abreast section_ R r) {it : Nat} (hvalues : R.values = some it) (key value : Str) :
    Abreast section_ { R with kf := R.kf.modifyValues it fun values => values.set key value }
      (if r.current then { r with values := r.values.set key value } else r) := by
  obtain ⟨hnone, -, -⟩ | ⟨name, e, he, hsome, hcurrent, hnamed⟩ := h.current
  · exact absurd (hnone.symm.trans hvalues) (by simp)
  obtain rfl : e.2.id = it := Option.some.inj (hsome.symm.trans hvalues)
  have hfind := fun other => h.ordered.find_modifyValues he (fun values => values.set key value) other
  have hmap : ∃ e', (R.kf.modifyValues e.2.id fun values => values.set key value).map.find? name = some e' ∧
      e'.2.id = e.2.id := by
    refine ⟨(e.1, if e.2.id = e.2.id then { e.2 with values := e.2.values.set key value } else e.2), ?_, ?_⟩
    · show (R.kf.map.mapValues _).find? name = _
      rw [SortedMap.find?_mapValues, he]
      rfl
    · rw [if_pos rfl]
  obtain ⟨e', he', hid⟩ := hmap
  by_cases hsame : name = section_
  · have hread : r.current = true := by rw [hcurrent, decide_eq_true hsame]
    have hthere : R.kf.find section_ = some e.2.values := by rw [← hsame, Sections.find, he]; rfl
    have hloaded : r.sectionLoaded = true := by
      have hfound := h.found
      rw [hthere] at hfound
      cases hloaded : r.sectionLoaded with
      | true => rfl
      | false => rw [hloaded] at hfound; exact absurd hfound (by simp)
    have hvalue : r.values = e.2.values := by
      have hfound := h.found
      rw [hthere, hloaded, if_pos rfl] at hfound
      exact (Option.some.inj hfound).symm
    rw [if_pos hread]
    refine ⟨h.ordered.modifyValues _ fun values => values.set key value, h.reached, ?_, fun hunread =>
      absurd (hloaded.symm.trans hunread) (by simp), Or.inr ⟨name, e', he', hid ▸ hvalues, hcurrent, hnamed⟩⟩
    show (R.kf.modifyValues _ _).find section_ = if r.sectionLoaded then some (r.values.set key value) else none
    rw [hfind, if_pos hsame.symm, hloaded, if_pos rfl, hvalue]
  · have hread : ¬r.current = true := by rw [hcurrent, decide_eq_false hsame]; exact Bool.false_ne_true
    rw [if_neg hread]
    refine ⟨h.ordered.modifyValues _ fun values => values.set key value, h.reached, ?_, h.unread,
      Or.inr ⟨name, e', he', hid ▸ hvalues, hcurrent, hnamed⟩⟩
    show (R.kf.modifyValues _ _).find section_ = _
    rw [hfind, if_neg (Ne.symm hsame)]
    exact h.found

theorem Abreast.assign (h : Abreast section_ R r) (key value : Str) :
    Abreast section_ (R.assign key value) (r.assign section_ key value) := by
  -- both are at a section now, or both enter the one without a name
  obtain ⟨R', r', hR, hr, h', hthere⟩ : ∃ R' r',
      (if R.values = none ∧ !R.reachedNamedSection then R.enter [] false else R) = R' ∧
      (if !r.current ∧ !r.reachedNamedSection then r.enter section_ [] false else r) = r' ∧
      Abreast section_ R' r' ∧ ∃ it, R'.values = some it := by
    refine ⟨_, _, rfl, rfl, ?_⟩
    obtain ⟨hnone, hcurrent, hreached⟩ | ⟨name, e, he, hsome, hcurrent, hnamed⟩ := h.current
    · rw [if_pos ⟨hnone, by rw [hreached]; rfl⟩, if_pos ⟨by rw [hcurrent]; rfl, by rw [h.reached, hreached]; rfl⟩]
      exact ⟨h.enter fun _ => rfl, _, rfl⟩
    · rw [if_neg fun hboth => absurd (hboth.1.symm.trans hsome) (by simp)]
      refine ⟨?_, _, hsome⟩
      split
      · next hboth =>
        have hreached : R.reachedNamedSection = false := by
          rw [← h.reached]
          exact Bool.not_eq_true' _ ▸ hboth.2
        have hread : r.current = false := Bool.not_eq_true' _ ▸ hboth.1
        have hother : decide (([] : Str) = section_) = false := decide_eq_false fun heq => by
          rw [hcurrent, decide_eq_true ((hnamed hreached).trans heq)] at hread
          exact Bool.false_ne_true hread.symm
        have hsame : r.enter section_ [] false = r := by
          rw [SectionReader.enter, hother, Bool.or_false, Bool.or_false, ← hread]
        rw [hsame]
        exact h
      · exact h
  obtain ⟨it, hit⟩ := hthere
  have hassign : R.assign key value
      = { R' with kf := R'.kf.modifyValues it fun values => values.set (decode key) (decode value) } := by
    rw [Loader.assign, hR, hit]
  have hassign' : r.assign section_ key value
      = if r'.current then { r' with values := r'.values.set (decode key) (decode value) } else r' := by
    rw [SectionReader.assign, hr]
  rw [hassign, hassign']
  exact h'.set hit _ _

theorem Abreast.line (h : Abreast section_ R r) (line : Str) :
    Abreast section_ (R.line line) (r.line section_ line) := by
  rw [Loader.line_eq, SectionReader.line]
  cases Line.of line with
  | heading name => exact h.enter fun hnamed => absurd hnamed (by simp)
  | assignment key value => exact h.assign key value
  | other => exact h

end

/-- **`KeyFileReadSection` reads what `KeyFileHelper` finds**, whatever the file is. -/
theorem readSection_eq (content section_ : Str) :
    readSection content section_ = (loadKeyFile false content).find section_ := by
  have hlines : ∀ (lines : List Str) {R : Loader false} {r : SectionReader}, Abreast section_ R r →
      Abreast section_ (lines.foldl Loader.line R) (lines.foldl (SectionReader.line section_) r) := by
    intro lines
    induction lines with
    | nil => exact fun h => h
    | cons line lines ih => exact fun h => ih (h.line line)
  have hstart : Abreast section_ {} {} := ⟨.empty, rfl, rfl, fun _ => rfl, Or.inl ⟨rfl, rfl, rfl⟩⟩
  exact (hlines (contentLines content) hstart).found.symm

/-! ## Which sections are there -/

section

variable {S : Sections false}

theorem Sections.Ordered.find_removeNode (h : S.Ordered) {name : Str} {e : Str × Node}
    (he : S.map.find? name = some e) (other : Str) :
    (S.removeNode e.2.id).find other = if other = name then none else S.find other := by
  obtain ⟨hmem, hname⟩ := SortedMap.find?_some he
  have hentries : ∀ x, x ∈ (S.removeNode e.2.id).map.entries ↔ x ∈ S.map.entries ∧ x.2.id ≠ e.2.id := fun x => by
    show x ∈ S.map.entries.filter _ ↔ _
    rw [List.mem_filter, decide_eq_true_iff]
  have hnone : (∀ x ∈ (S.removeNode e.2.id).map.entries, x.1 ≠ other) → (S.removeNode e.2.id).find other = none := by
    intro hall
    have hfind : (S.removeNode e.2.id).map.find? other = none :=
      List.find?_eq_none.mpr fun x hx hsame => hall x hx (Sections.equiv_iff_eq.mp hsame)
    rw [Sections.find, hfind]
    rfl
  split
  · next heq =>
    refine hnone fun x hx hxname => ?_
    obtain ⟨hx, hid⟩ := (hentries x).mp hx
    have hxe : S.map.find? name = some x := SortedMap.find?_of_mem hx (Sections.equiv_iff_eq.mpr (hxname.trans heq))
    rw [Option.some.inj (hxe.symm.trans he)] at hid
    exact hid rfl
  · next hne =>
    cases hother : S.map.find? other with
    | none =>
      rw [hnone fun x hx hxname => ?_, Sections.find, hother]
      · rfl
      · have := SortedMap.find?_none hother x ((hentries x).mp hx).1
        rw [Sections.equiv_iff_eq.mpr hxname] at this
        exact Bool.false_ne_true this.symm
    | some x =>
      obtain ⟨hx, hxname⟩ := SortedMap.find?_some hother
      have hid : x.2.id ≠ e.2.id := fun hid => by
        have hxe := List.inj_on_of_nodup_map h.nodup hx hmem hid
        rw [hxe] at hxname
        exact hne ((Sections.equiv_iff_eq.mp hxname).symm.trans (Sections.equiv_iff_eq.mp hname))
      have hfind : (S.removeNode e.2.id).map.find? other = some x :=
        SortedMap.find?_of_mem ((hentries x).mpr ⟨hx, hid⟩) hxname
      rw [Sections.find, Sections.find, hfind, hother]

end

namespace KeyFileHelper

variable {K : KeyFileHelper false}

/-- Only the section that is removed is gone. -/
theorem find_removeSection (h : K.kf.Ordered) (section_ other : Str) :
    (K.removeSection section_).kf.find other = if other = section_ then none else K.kf.find other := by
  show (K.kf.remove section_).1.find other = _
  rw [Sections.remove]
  cases he : K.kf.map.find? section_ with
  | none =>
    show K.kf.find other = _
    split
    · next heq =>
      rw [heq, Sections.find, he]
      rfl
    · rfl
  | some e => exact h.find_removeNode he other

/-- A value is set in one section only. -/
theorem find_setString_other (h : K.kf.Ordered) {section_ other : Str} (hne : other ≠ section_) (name value : Str) :
    (K.setString section_ name value).kf.find other = K.kf.find other := by
  rw [setString_eq h]
  split
  · exact (Sections.find_ensure _ _ _).trans (if_neg hne)
  · obtain ⟨e, he, hit⟩ := Sections.ensure_find? K.kf section_
    rw [hit, (h.ensure section_).find_modifyValues he, if_neg hne, Sections.find_ensure, if_neg hne]

/-- A key is removed in one section only, and the section stays. -/
theorem find_removeKey (h : K.kf.Ordered) (section_ name other : Str) :
    (other ≠ section_ → (K.removeKey section_ name).kf.find other = K.kf.find other) ∧
      ((K.removeKey section_ name).kf.find other = none ↔ K.kf.find other = none) := by
  rw [removeKey]
  cases he : K.kf.map.find? section_ with
  | none => exact ⟨fun _ => rfl, Iff.rfl⟩
  | some e =>
    dsimp only
    split
    · exact ⟨fun _ => rfl, Iff.rfl⟩
    · rw [h.find_modifyValues he]
      refine ⟨fun hne => if_neg hne, ?_⟩
      split
      · next heq =>
        rw [heq, Sections.find, he]
        exact iff_of_false (by simp) (by simp)
      · exact Iff.rfl

variable {file : Str}

theorem Follows.removeSection (h : K.Follows file) (section_ : Str) : (K.removeSection section_).Follows file := by
  refine ⟨ordered_removeSection h.ordered section_, fun hclean other => ?_⟩
  have hboth : (K.dirty || (K.kf.remove section_).2) = false := hclean
  obtain ⟨hdirty, hfound⟩ := Bool.or_eq_false_iff.mp hboth
  rw [find_removeSection h.ordered, ← h.clean hdirty]
  split
  · next heq =>
    rw [Sections.remove] at hfound
    rw [heq, Sections.find]
    cases he : K.kf.map.find? section_ with
    | none => rfl
    | some e =>
      rw [he] at hfound
      exact absurd hfound.symm Bool.false_ne_true
  · rfl

/-! ## A key file over a run -/

/-- A call on a helper, or the end of one: it is saved, and another one is made from the file. -/
inductive Use where
  | setString (section_ name value : Str)
  | removeKey (section_ name : Str)
  | removeSection (section_ : Str)
  | reopen

/-- The file and its helper. -/
def use (st : Str × KeyFileHelper false) : Use → Str × KeyFileHelper false
  | .setString section_ name value => (st.1, st.2.setString section_ name value)
  | .removeKey section_ name => (st.1, st.2.removeKey section_ name)
  | .removeSection section_ => (st.1, st.2.removeSection section_)
  | .reopen => (st.2.saved st.1, configWriter (st.2.saved st.1))

/-- A key file as a map from sections and keys to values. -/
def Use.effect (V : Str → Str → Option Str) : Use → Str → Str → Option Str
  | .setString section_ name value => fun s n => if s = section_ ∧ n = name then some value else V s n
  | .removeKey section_ name => fun s n => if s = section_ ∧ n = name then none else V s n
  | .removeSection section_ => fun s n => if s = section_ then none else V s n
  | .reopen => V

/-- A call has its effect on the map, and a reopened file has the map it was saved with. -/
theorem Follows.use (h : K.Follows file) (u : Use) :
    (KeyFileHelper.use (file, K) u).2.Follows (KeyFileHelper.use (file, K) u).1
      ∧ (KeyFileHelper.use (file, K) u).2.kf.value = u.effect K.kf.value := by
  cases u with
  | setString section_ name value =>
    exact ⟨h.setString section_ name value, funext₂ (value_setString h.ordered section_ name value)⟩
  | removeKey section_ name => exact ⟨h.removeKey section_ name, funext₂ (value_removeKey h.ordered section_ name)⟩
  | removeSection section_ =>
    refine ⟨h.removeSection section_, funext₂ fun s n => ?_⟩
    show (K.removeSection section_).kf.value s n = if s = section_ then none else K.kf.value s n
    rw [Sections.value_eq, Sections.value_eq, find_removeSection h.ordered]
    split <;> rfl
  | reopen => exact ⟨follows_configWriter _, funext₂ h.value_saved⟩

/-- **A key file is a map** over every run of calls, however often it is saved and opened again: the helper's
values are those of the map, and so are those that `KeyFileReadSection` reads from the file that is saved. -/
theorem uses_map (file : Str) (us : List Use) (s n : Str) :
    let st := us.foldl use (file, configWriter file)
    let V := us.foldl Use.effect (loadKeyFile false file).value
    st.2.kf.value s n = V s n ∧ (readSection (st.2.saved st.1) s).bind (·.value? n) = V s n := by
  have hrun : ∀ (us : List Use) {file : Str} {K : KeyFileHelper false}, K.Follows file →
      (us.foldl use (file, K)).2.Follows (us.foldl use (file, K)).1
        ∧ (us.foldl use (file, K)).2.kf.value = us.foldl Use.effect K.kf.value := by
    intro us
    induction us with
    | nil => exact fun h => ⟨h, rfl⟩
    | cons u us ih =>
      intro file K h
      obtain ⟨hnext, hvalue⟩ := h.use u
      have hrest := ih hnext
      rw [hvalue] at hrest
      exact hrest
  obtain ⟨hfollows, hvalue⟩ := hrun us (follows_configWriter file)
  refine ⟨congrFun₂ hvalue s n, ?_⟩
  rw [readSection_eq, ← Sections.value_eq, hfollows.value_saved, hvalue]
  rfl

end KeyFileHelper

end Far2l.KeyFile
