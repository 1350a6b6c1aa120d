/-
Far2l.Utils.KeyFileRename — the sections of a `KeyFileHelper` over a run of its
operations: each is listed once, and renaming one changes its name and nothing
else.

Both hold as long as a section is never renamed to a name that is there, and a
section is not renamed to one below it together with its subsections, which are
listed after it has got its new name.
-/
import Far2l.Utils.KeyFileSections

namespace Far2l.KeyFile

namespace Sections

variable {ci : Bool} {S : Sections ci}

/-! ## One section -/

theorem replaceIt_eq_map {old it : Nat} : ∀ {l : List Nat}, l.Nodup →
    replaceIt old it l = l.map fun x => if x = old then it else x
  | [], _ => rfl
  | x :: xs, hnodup => by
    obtain ⟨hx, hxs⟩ := List.nodup_cons.mp hnodup
    rw [replaceIt, List.map_cons]
    by_cases hxo : x = old
    · subst hxo
      have hself : (xs.map fun y => if y = x then it else y) = xs.map id := by
        refine List.map_congr_left fun y hy => if_neg fun hyx => hx ?_
        rwa [← hyx]
      rw [if_pos rfl, if_pos rfl, hself, List.map_id]
    · rw [if_neg hxo, if_neg hxo, replaceIt_eq_map hxs]

/-- A node takes another name, at another address. -/
def moveNode (old it : Nat) (dst : Str) (x : Str × Node) : Str × Node :=
  if x.2.id = old then (dst, ⟨it, x.2.values⟩) else x

theorem Ordered.nodes_rename (h : S.Ordered) {src dst : Str} {e : Str × Node}
    (hsrc : S.map.find? src = some e) (hdst : S.map.find? dst = none) :
    (S.rename src dst).1.nodes = S.nodes.map (moveNode e.2.id S.fresh dst) := by
  have hfresh : ∀ x ∈ S.map.entries, x.2.id ≠ S.fresh := fun x hx heq =>
    h.fresh_not_mem (heq ▸ mem_ids hx)
  have hordered : (S.rename src dst).1.ordered = replaceIt e.2.id S.fresh S.ordered := by
    rw [rename_new hsrc hdst]
    rfl
  have hentries : (S.rename src dst).1.map.entries
      = ((SortedMap.insertEntry (keyFileCmp ci) dst ⟨S.fresh, .empty⟩ S.map.entries).map fun x =>
          (x.1, if x.2.id = S.fresh then { x.2 with values := e.2.values } else x.2)).filter
            fun x => x.2.id ≠ e.2.id := by
    rw [rename_new hsrc hdst, emplace_none hdst]
    show List.filter _ (List.map _ _) = _
    rw [SortedMap.entries_emplace hdst]
  obtain ⟨he, -⟩ := SortedMap.find?_some hsrc
  refine (h.rename fun _ => hdst).nodes_eq ?_ ?_
  · rw [hordered, replaceIt_eq_map (h.perm.nodup_iff.mpr h.nodup), ← h.nodes_ids, List.map_map,
      List.map_map]
    refine List.map_congr_left fun x _ => ?_
    simp only [Function.comp, moveNode]
    split <;> rfl
  · intro y hy
    obtain ⟨x, hx, rfl⟩ := List.mem_map.mp hy
    have hxm := h.mem_nodes.mp hx
    rw [hentries, List.mem_filter, List.mem_map]
    by_cases hid : x.2.id = e.2.id
    · have hxe : x = e := List.inj_on_of_nodup_map h.nodup hxm he hid
      refine ⟨⟨(dst, ⟨S.fresh, .empty⟩),
        (SortedMap.perm_insertEntry _ _ _).mem_iff.mpr List.mem_cons_self, ?_⟩, ?_⟩
      · rw [moveNode, if_pos hid, hxe, if_pos rfl]
      · rw [moveNode, if_pos hid]
        exact decide_eq_true (hfresh e he).symm
    · refine ⟨⟨x, (SortedMap.perm_insertEntry _ _ _).mem_iff.mpr (List.mem_cons_of_mem _ hxm), ?_⟩, ?_⟩
      · rw [moveNode, if_neg hid, if_neg (hfresh x hxm)]
      · rw [moveNode, if_neg hid]
        exact decide_eq_true hid

/-- The entry `src` gets the name `dst`. -/
def renameEntry {β : Type} (ci : Bool) (src dst : Str) (x : Str × β) : Str × β :=
  (if sameName ci x.1 src then dst else x.1, x.2)

theorem renameEntry_same {β : Type} {src dst : Str} {x : Str × β}
    (h : sameName ci x.1 src = true) : renameEntry ci src dst x = (dst, x.2) := by
  rw [renameEntry, if_pos h]

theorem renameEntry_other {β : Type} {src dst : Str} {x : Str × β}
    (h : sameName ci x.1 src = false) : renameEntry ci src dst x = x := by
  rw [renameEntry, h, if_neg Bool.false_ne_true]

/-- **`Rename` to a new name changes the name of the section, and nothing else.** -/
theorem Ordered.enumeration_rename (h : S.Ordered) {src dst : Str}
    (hnew : S.map.find? src ≠ none → S.map.find? dst = none) :
    (S.rename src dst).1.enumeration = S.enumeration.map (renameEntry ci src dst) := by
  cases hsrc : S.map.find? src with
  | none =>
    have hnone := h.find?_none_iff.mp hsrc
    rw [Sections.rename, hsrc]
    have hself : S.enumeration.map (renameEntry ci src dst) = S.enumeration.map id := by
      refine List.map_congr_left fun x hx => ?_
      rw [renameEntry_other (hnone x.1 (List.mem_map_of_mem hx))]
      rfl
    rw [hself, List.map_id]
  | some e =>
    have hdst := hnew (by rw [hsrc]; exact Option.some_ne_none e)
    obtain ⟨he, hse⟩ := SortedMap.find?_some hsrc
    rw [enumeration, h.nodes_rename hsrc hdst, enumeration, List.map_map, List.map_map]
    refine List.map_congr_left fun x hx => ?_
    have hxm := h.mem_nodes.mp hx
    simp only [Function.comp, moveNode, renameEntry]
    by_cases hid : x.2.id = e.2.id
    · have hxe : x = e := List.inj_on_of_nodup_map h.nodup hxm he hid
      rw [if_pos hid, hxe, if_pos hse]
    · have hne : sameName ci x.1 src = false := by
        refine Bool.eq_false_iff.mpr fun hsame => hid ?_
        rw [SortedMap.equiv_comm] at hse
        rw [SortedMap.eq_of_equiv hxm he (SortedMap.equiv_trans hsame hse)]
      rw [if_neg hid, hne, if_neg Bool.false_ne_true]

end Sections

/-! ## When sections may be renamed -/

/-- The name of a section after the section `src` got the name `dst`. -/
def renameName (ci : Bool) (src dst n : Str) : Str := if sameName ci n src then dst else n

/-- There is no section `src`, or none that has the name `dst` already. -/
def NewName (ci : Bool) (src dst : Str) (names : List Str) : Prop :=
  (∃ n ∈ names, sameName ci n src = true) → ∀ n ∈ names, sameName ci n dst = false

instance (ci : Bool) (src dst : Str) (names : List Str) : Decidable (NewName ci src dst names) :=
  inferInstanceAs (Decidable (_ → _))

/-- The same for sections that are renamed one after the other. -/
def NewNames (ci : Bool) : List (Str × Str) → List Str → Prop
  | [], _ => True
  | (src, dst) :: rest, names =>
      NewName ci src dst names ∧ NewNames ci rest (names.map (renameName ci src dst))

instance decidableNewNames (ci : Bool) : ∀ (renamings : List (Str × Str)) (names : List Str),
    Decidable (NewNames ci renamings names)
  | [], _ => inferInstanceAs (Decidable True)
  | (src, dst) :: rest, names =>
      have := decidableNewNames ci rest (names.map (renameName ci src dst))
      inferInstanceAs (Decidable (_ ∧ _))

/-- The sections below `src`, other than itself. -/
def subsections (ci : Bool) (src : Str) (names : List Str) : List Str :=
  names.filter fun n =>
    !sameName ci n src && KeyFileHelper.isAt ci (KeyFileHelper.sectionPrefix src) n

/-- What is renamed, and to what. -/
def renamings (ci : Bool) (src dst : Str) (recursed : Bool) (names : List Str) :
    List (Str × Str) :=
  (src, dst) :: if recursed then
    (subsections ci src names).map fun n => (n, KeyFileHelper.subname src dst n) else []

/-- `RenameSection` finds no section under a new name, and the new name of a section that is
renamed with its subsections is not the name of one of them. -/
def RenameOk (ci : Bool) (src dst : Str) (recursed : Bool) (names : List Str) : Prop :=
  src = dst ∨
    (NewNames ci (renamings ci src dst recursed names) names
      ∧ (recursed = true → (∃ n ∈ names, sameName ci n src = true) →
          KeyFileHelper.isAt ci (KeyFileHelper.sectionPrefix src) dst = false))

instance (ci : Bool) (src dst : Str) (recursed : Bool) (names : List Str) :
    Decidable (RenameOk ci src dst recursed names) := inferInstanceAs (Decidable (_ ∨ _))

/-- The name of a section after `RenameSection`. -/
def renamedTo (ci : Bool) (src dst : Str) (recursed : Bool) (n : Str) : Str :=
  if src = dst then n
  else if sameName ci n src then dst
  else if recursed ∧ KeyFileHelper.isAt ci (KeyFileHelper.sectionPrefix src) n then
    KeyFileHelper.subname src dst n
  else n

namespace Sections

variable {ci : Bool} {S : Sections ci}

theorem Ordered.new_of_newName (h : S.Ordered) {src dst : Str} (hnew : NewName ci src dst S.names)
    (hsrc : S.map.find? src ≠ none) : S.map.find? dst = none := by
  refine h.find?_none_iff.mpr (hnew ?_)
  refine Classical.byContradiction fun hall => hsrc (h.find?_none_iff.mpr fun n hn => ?_)
  exact Bool.eq_false_iff.mpr fun hsame => hall ⟨n, hn, hsame⟩

theorem Ordered.names_rename (h : S.Ordered) {src dst : Str} (hnew : NewName ci src dst S.names) :
    (S.rename src dst).1.names = S.names.map (renameName ci src dst) := by
  rw [names, h.enumeration_rename (h.new_of_newName hnew), names, List.map_map, List.map_map]
  rfl

theorem Ordered.eq_of_same (h : S.Ordered) {a b : Str} (ha : a ∈ S.names) (hb : b ∈ S.names)
    (hsame : sameName ci a b = true) : a = b := by
  obtain ⟨x, hx, rfl⟩ := List.mem_map.mp (h.names_perm.mem_iff.mp ha)
  obtain ⟨y, hy, rfl⟩ := List.mem_map.mp (h.names_perm.mem_iff.mp hb)
  rw [SortedMap.eq_of_equiv hx hy hsame]

theorem Ordered.names_nodup (h : S.Ordered) : S.names.Nodup := by
  refine h.names_distinct.imp fun {a b} hne hab => ?_
  rw [hab, sameName, SortedMap.equiv_refl] at hne
  exact Bool.noConfusion hne

end Sections

/-! ## `RenameSection` -/

namespace KeyFileHelper

variable {ci : Bool} {K : KeyFileHelper ci}

/-- A name that is new is not one of those that are there. -/
theorem new_not_mem {names : List Str} {dst : Str} (h : ∀ n ∈ names, sameName ci n dst = false) :
    dst ∉ names := fun hmem => by
  have hself := h dst hmem
  rw [sameName, SortedMap.equiv_refl] at hself
  exact Bool.noConfusion hself

/-- The subsections `subs` are renamed, the other sections stay. -/
theorem renameSubsections_spec (src dst : Str) : ∀ (subs : List Str) {K : KeyFileHelper ci},
    K.kf.Ordered → subs.Nodup → (∀ n ∈ subs, n ∈ K.kf.names) →
    NewNames ci (subs.map fun n => (n, subname src dst n)) K.kf.names →
    (renameSubsections src dst subs K).kf.Ordered
      ∧ (renameSubsections src dst subs K).kf.enumeration = K.kf.enumeration.map fun x =>
          (if x.1 ∈ subs then subname src dst x.1 else x.1, x.2)
  | [], K, h, _, _, _ => by
    refine ⟨h, ?_⟩
    rw [renameSubsections]
    simp
  | sub :: subs, K, h, hnodup, hmem, hnew => by
    obtain ⟨hsub, hnodup⟩ := List.nodup_cons.mp hnodup
    obtain ⟨hsubmem, hmem⟩ := List.forall_mem_cons.mp hmem
    obtain ⟨hnewsub, hnew⟩ := hnew
    have hfresh : ∀ n ∈ K.kf.names, sameName ci n (subname src dst sub) = false :=
      hnewsub ⟨sub, hsubmem, SortedMap.equiv_refl sub⟩
    have hother : ∀ n ∈ K.kf.names, n ≠ sub → sameName ci n sub = false := fun n hn hne =>
      Bool.eq_false_iff.mpr fun hsame => hne (h.eq_of_same hn hsubmem hsame)
    have h1 : (K.rename sub (subname src dst sub)).kf.Ordered :=
      h.rename (h.new_of_newName hnewsub)
    have hnames : (K.rename sub (subname src dst sub)).kf.names
        = K.kf.names.map (renameName ci sub (subname src dst sub)) := h.names_rename hnewsub
    have hmem1 : ∀ n ∈ subs, n ∈ (K.rename sub (subname src dst sub)).kf.names := by
      intro n hn
      have hne : n ≠ sub := fun heq => hsub (heq ▸ hn)
      rw [hnames]
      refine List.mem_map.mpr ⟨n, hmem n hn, ?_⟩
      rw [renameName, hother n (hmem n hn) hne, if_neg Bool.false_ne_true]
    obtain ⟨hord, henum⟩ := renameSubsections_spec src dst subs h1 hnodup hmem1 (hnames ▸ hnew)
    refine ⟨hord, ?_⟩
    rw [renameSubsections, henum]
    show List.map _ (K.kf.rename _ _).1.enumeration = _
    rw [h.enumeration_rename (h.new_of_newName hnewsub), List.map_map]
    refine List.map_congr_left fun x hx => ?_
    have hxn : x.1 ∈ K.kf.names := List.mem_map_of_mem hx
    by_cases hxs : x.1 = sub
    · have hdst : subname src dst sub ∉ subs := fun hin => new_not_mem hfresh (hmem _ hin)
      have hsame : sameName ci x.1 sub = true := by rw [hxs]; exact SortedMap.equiv_refl sub
      simp only [Function.comp, Sections.renameEntry_same hsame, if_neg hdst, hxs,
        List.mem_cons_self, if_true]
    · simp only [Function.comp, Sections.renameEntry_other (hother x.1 hxn hxs), List.mem_cons, hxs,
        false_or]

/-- After the section has its new name, its subsections are those it had before. -/
theorem enumSectionsAt_rename (h : K.kf.Ordered) {src dst : Str}
    (hnew : NewName ci src dst K.kf.names)
    (hat : (∃ n ∈ K.kf.names, sameName ci n src = true) → isAt ci (sectionPrefix src) dst = false) :
    (K.rename src dst).enumSectionsAt src true = subsections ci src K.kf.names := by
  have hnames : (K.rename src dst).enumSections = K.kf.names.map (renameName ci src dst) :=
    h.names_rename hnew
  rw [enumSectionsAt, hnames, List.filter_map, subsections]
  have hfilter : K.kf.names.filter ((fun name => isAt ci (sectionPrefix src) name
        && (true || !(SLASH ∈ ((name.drop (sectionPrefix src).length).takeWhile (· ≠ 0)))))
          ∘ renameName ci src dst)
      = K.kf.names.filter fun n => !sameName ci n src && isAt ci (sectionPrefix src) n := by
    refine List.filter_congr fun n hn => ?_
    simp only [Function.comp, Bool.true_or, Bool.and_true, renameName]
    cases hsame : sameName ci n src with
    | true => rw [if_pos rfl, hat ⟨n, hn, hsame⟩]; rfl
    | false => rw [if_neg Bool.false_ne_true]; rfl
  rw [hfilter]
  have hself : (K.kf.names.filter fun n => !sameName ci n src && isAt ci (sectionPrefix src) n).map
      (renameName ci src dst)
      = (K.kf.names.filter fun n => !sameName ci n src && isAt ci (sectionPrefix src) n).map id := by
    refine List.map_congr_left fun n hn => ?_
    have hne : sameName ci n src = false := by
      have hp := (List.mem_filter.mp hn).2
      simp only [Bool.and_eq_true, Bool.not_eq_true'] at hp
      exact hp.1
    rw [renameName, hne, if_neg Bool.false_ne_true]
    rfl
  rw [hself, List.map_id]

/-- **`RenameSection` changes the names of the section and, if asked to, of its subsections. The
order of the sections and their values stay.** -/
theorem renameSection_spec (h : K.kf.Ordered) {src dst : Str} {recursed : Bool}
    (hok : RenameOk ci src dst recursed K.kf.names) :
    (K.renameSection src dst recursed).kf.Ordered
      ∧ (K.renameSection src dst recursed).kf.enumeration
          = K.kf.enumeration.map fun x => (renamedTo ci src dst recursed x.1, x.2) := by
  rw [renameSection]
  by_cases hsd : src = dst
  · rw [if_pos hsd]
    refine ⟨h, ?_⟩
    simp [renamedTo, hsd]
  obtain ⟨⟨hnew, hnews⟩, hat⟩ := hok.resolve_left hsd
  have h1 : (K.rename src dst).kf.Ordered := h.rename (h.new_of_newName hnew)
  have henum1 : (K.rename src dst).kf.enumeration
      = K.kf.enumeration.map (Sections.renameEntry ci src dst) :=
    h.enumeration_rename (h.new_of_newName hnew)
  rw [if_neg hsd]
  cases recursed with
  | false =>
    refine ⟨h1, henum1.trans (List.map_congr_left fun x _ => ?_)⟩
    rw [Sections.renameEntry, renamedTo, if_neg hsd]
    simp
  | true =>
    simp only [if_true] at hnews ⊢
    rw [enumSectionsAt_rename h hnew (hat rfl)]
    have hmem : ∀ n ∈ subsections ci src K.kf.names, n ∈ (K.rename src dst).kf.names := by
      intro n hn
      obtain ⟨hn, hp⟩ := List.mem_filter.mp hn
      simp only [Bool.and_eq_true, Bool.not_eq_true'] at hp
      have hnames : (K.rename src dst).kf.names = K.kf.names.map (renameName ci src dst) :=
        h.names_rename hnew
      rw [hnames]
      refine List.mem_map.mpr ⟨n, hn, ?_⟩
      rw [renameName, hp.1, if_neg Bool.false_ne_true]
    have hnews1 : NewNames ci ((subsections ci src K.kf.names).map fun n => (n, subname src dst n))
        (K.rename src dst).kf.names := by
      have hnames : (K.rename src dst).kf.names = K.kf.names.map (renameName ci src dst) :=
        h.names_rename hnew
      rw [hnames]
      exact hnews
    obtain ⟨hord, henum⟩ := renameSubsections_spec src dst (subsections ci src K.kf.names) h1
      (h.names_nodup.filter _) hmem hnews1
    refine ⟨hord, ?_⟩
    rw [henum, henum1, List.map_map]
    refine List.map_congr_left fun x hx => ?_
    have hxn : x.1 ∈ K.kf.names := List.mem_map_of_mem hx
    cases hsame : sameName ci x.1 src with
    | true =>
      have hdst : dst ∉ subsections ci src K.kf.names := fun hin =>
        new_not_mem (hnew ⟨x.1, hxn, hsame⟩) (List.mem_filter.mp hin).1
      simp only [Function.comp, Sections.renameEntry_same hsame, if_neg hdst, renamedTo,
        if_neg hsd, hsame, if_true]
    | false =>
      have hiff : x.1 ∈ subsections ci src K.kf.names
          ↔ isAt ci (sectionPrefix src) x.1 = true := by
        rw [subsections, List.mem_filter, hsame]
        simp [hxn]
      simp only [Function.comp, Sections.renameEntry_other hsame, hiff, renamedTo, if_neg hsd,
        hsame, Bool.false_eq_true, if_false, true_and]

/-! ## Runs -/

/-- An operation on a `KeyFileHelper`. -/
inductive Op where
  | setString (section_ name value : Str)
  | removeKey (section_ name : Str)
  | removeSection (section_ : Str)
  | removeSectionsAt (parentSection : Str)
  | renameSection (src dst : Str) (recursed : Bool)

/-- An operation is carried out. -/
def perform (K : KeyFileHelper ci) : Op → KeyFileHelper ci
  | .setString section_ name value => K.setString section_ name value
  | .removeKey section_ name => K.removeKey section_ name
  | .removeSection section_ => K.removeSection section_
  | .removeSectionsAt parentSection => K.removeSectionsAt parentSection
  | .renameSection src dst recursed => K.renameSection src dst recursed

/-- `RenameSection` is used for names that are not there. -/
def renamesToNew (K : KeyFileHelper ci) : Op → Prop
  | .renameSection src dst recursed => RenameOk ci src dst recursed K.enumSections
  | _ => True

theorem ordered_setString (h : K.kf.Ordered) (section_ name value : Str) :
    (K.setString section_ name value).kf.Ordered := by
  have h1 := h.ensure section_
  simp only [setString]
  split
  · exact h1
  · exact h1.modifyValues _ fun values => values.set name value

theorem ordered_removeKey (h : K.kf.Ordered) (section_ name : Str) :
    (K.removeKey section_ name).kf.Ordered := by
  rw [removeKey]
  cases K.kf.map.find? section_ with
  | none => exact h
  | some e =>
    dsimp only
    split
    · exact h
    · exact h.modifyValues _ fun values => values.erase name

theorem ordered_removeSection (h : K.kf.Ordered) (section_ : Str) :
    (K.removeSection section_).kf.Ordered := by
  show (K.kf.remove section_).1.Ordered
  rw [Sections.remove]
  cases K.kf.map.find? section_ with
  | none => exact h
  | some e => exact h.removeNode e.2.id

theorem ordered_perform (h : K.kf.Ordered) (op : Op) (hok : K.renamesToNew op) :
    (K.perform op).kf.Ordered := by
  cases op with
  | setString section_ name value => exact ordered_setString h section_ name value
  | removeKey section_ name => exact ordered_removeKey h section_ name
  | removeSection section_ => exact ordered_removeSection h section_
  | removeSectionsAt parentSection => exact h.removeAtLoop _ _
  | renameSection src dst recursed => exact (renameSection_spec h hok).1

end KeyFileHelper

namespace Loader

variable {ci : Bool} {R : Loader ci}

theorem ordered_enter (h : R.kf.Ordered) (section_ : Str) (named : Bool) :
    (R.enter section_ named).kf.Ordered := h.ensure section_

theorem ordered_assign (h : R.kf.Ordered) (key value : Str) : (R.assign key value).kf.Ordered := by
  have hentered : (if R.values = none ∧ !R.reachedNamedSection then R.enter [] false
      else R : Loader ci).kf.Ordered := by
    split
    · exact ordered_enter h [] false
    · exact h
  rw [assign]
  generalize (if R.values = none ∧ !R.reachedNamedSection then R.enter [] false
      else R : Loader ci) = R1 at hentered ⊢
  cases R1.values with
  | none => exact hentered
  | some it => exact hentered.modifyValues it fun values => values.set (decode key) (decode value)

theorem ordered_line (h : R.kf.Ordered) (line : Str) : (R.line line).kf.Ordered := by
  rw [Loader.line]
  cases strTrim [BLANK, TABULATOR, CARRIAGE] line with
  | nil => exact h
  | cons c rest =>
    dsimp only
    split
    · split
      · exact ordered_enter h _ true
      · exact h
    · split
      · split
        · exact ordered_assign h _ _
        · exact h
      · exact h

end Loader

theorem ordered_loadKeyFile (ci : Bool) (content : Str) : (loadKeyFile ci content).Ordered := by
  have hfold : ∀ (lines : List Str) {R : Loader ci}, R.kf.Ordered →
      (lines.foldl Loader.line R).kf.Ordered := by
    intro lines
    induction lines with
    | nil => exact fun h => h
    | cons line lines ih => exact fun h => ih (Loader.ordered_line h line)
  exact hfold _ .empty

namespace KeyFileHelper

/-- **In every state of a run the vector holds an iterator to every section, once, so that
`EnumSections` lists every section once; and `RenameSection` moves what it is asked to move.** As
long as no section is renamed to a name that is there. -/
theorem reach_ordered (ci : Bool) (content : Str) (dirty : Bool) {K : KeyFileHelper ci}
    (h : Reach perform renamesToNew ⟨loadKeyFile ci content, dirty⟩ K) :
    K.kf.Ordered
      ∧ K.enumSections.Perm (K.kf.map.entries.map Prod.fst)
      ∧ K.enumSections.Pairwise (fun a b => sameName ci a b = false)
      ∧ ∀ src dst recursed, RenameOk ci src dst recursed K.enumSections →
          (K.renameSection src dst recursed).kf.enumeration
            = K.kf.enumeration.map fun x => (renamedTo ci src dst recursed x.1, x.2) := by
  have hord : K.kf.Ordered := by
    have hstart : (loadKeyFile ci content).Ordered := ordered_loadKeyFile ci content
    exact h.invariant hstart fun K op h hok => ordered_perform h op hok
  refine ⟨hord, hord.names_perm, hord.names_distinct, fun src dst recursed hok => ?_⟩
  exact (renameSection_spec hord hok).2

/-- A section `a` is made and renamed to `b`. -/
theorem reach_ordered_renamed :
    let K := [Op.setString [0x61] [0x6B] [0x76], Op.renameSection [0x61] [0x62] true].foldl perform
      (⟨loadKeyFile false [], false⟩ : KeyFileHelper false)
    K.kf.Ordered ∧ K.enumSections = [[0x62]] := by
  have hok : renamesToNew (perform (⟨loadKeyFile false [], false⟩ : KeyFileHelper false)
      (Op.setString [0x61] [0x6B] [0x76])) (Op.renameSection [0x61] [0x62] true) := by
    show RenameOk _ _ _ _ _
    decide
  refine ⟨(reach_ordered false [] false (.step (Op.renameSection [0x61] [0x62] true)
    (.step (Op.setString [0x61] [0x6B] [0x76]) .start trivial) hok)).1, ?_⟩
  decide

/-- **Renamed to a section that is there, a section is listed twice; renamed to itself in other
letters, it is erased and its iterator is kept.** -/
theorem renamed_not_ordered :
    (let K := [Op.setString [0x61] [0x6B] [0x76], Op.setString [0x62] [0x6B] [0x76],
        Op.renameSection [0x61] [0x62] false].foldl perform
      (⟨loadKeyFile false [], false⟩ : KeyFileHelper false)
    K.enumSections = [[0x62], [0x62]] ∧ ¬K.kf.Ordered)
    ∧ (let K := [Op.setString [0x61] [0x6B] [0x76], Op.renameSection [0x61] [0x41] false].foldl
        perform (⟨loadKeyFile true [], false⟩ : KeyFileHelper true)
    K.kf.ordered = [0] ∧ K.kf.map.entries.length = 0 ∧ ¬K.kf.Ordered) := by
  refine ⟨⟨by decide, fun h => ?_⟩, ⟨by decide +kernel, by decide +kernel, fun h => ?_⟩⟩
  · have hnodup := h.names_nodup
    revert hnodup
    decide
  · have hlength := h.perm.length_eq
    revert hlength
    decide

end KeyFileHelper

end Far2l.KeyFile
