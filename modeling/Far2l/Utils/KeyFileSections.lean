/-
Far2l.Utils.KeyFileSections — the vector of iterators of `Sections` and the map
it points into stay in step, as long as no section is renamed to a name that is
already there.

`Rename` puts the iterator `emplace` returns in the place of the old one. When
`emplace` finds a section, that one is in the vector twice, or, when it finds the
section itself, the vector keeps an iterator that has been erased.
-/
import Far2l.Utils.KeyFile
import Far2l.Lib.Reach
import Mathlib.Data.List.Basic
import Mathlib.Data.List.Nodup

namespace Far2l.KeyFile

namespace Sections

variable {ci : Bool} {S : Sections ci}

/-! ## The invariant -/

/-- The nodes of the map. -/
def ids (S : Sections ci) : List Nat := S.map.entries.map fun e => e.2.id

/-- The vector holds an iterator to every node of the map, once, and no other. -/
structure Ordered (S : Sections ci) : Prop where
  perm : S.ordered.Perm S.ids
  nodup : S.ids.Nodup
  fresh : ∀ it ∈ S.ids, it < S.fresh

theorem Ordered.empty : Ordered ({} : Sections ci) :=
  ⟨.refl _, .nil, fun _ h => absurd h List.not_mem_nil⟩

theorem ids_mapValues {m : SortedMap Str Node (keyFileCmp ci)} {f : Str → Node → Node}
    (hf : ∀ k n, (f k n).id = n.id) :
    ((m.mapValues f).entries.map fun e => e.2.id) = m.entries.map fun e => e.2.id := by
  rw [SortedMap.mapValues, List.map_map]
  exact List.map_congr_left fun e _ => hf e.1 e.2

theorem ids_modifyValues (S : Sections ci) (it : Nat) (f : KeyFileValues → KeyFileValues) :
    (S.modifyValues it f).ids = S.ids :=
  ids_mapValues fun _ n => by split <;> rfl

theorem Ordered.modifyValues (h : S.Ordered) (it : Nat) (f : KeyFileValues → KeyFileValues) :
    (S.modifyValues it f).Ordered := by
  have hids := ids_modifyValues S it f
  refine ⟨?_, ?_, ?_⟩
  · rw [hids]
    exact h.perm
  · rw [hids]
    exact h.nodup
  · rw [hids]
    exact h.fresh

theorem ids_eraseNode (S : Sections ci) (it : Nat) :
    (S.eraseNode it).ids = S.ids.filter (· != it) := by
  show List.map _ (List.filter _ _) = List.filter _ (List.map _ _)
  rw [List.filter_map]
  refine congrArg _ (List.filter_congr fun e _ => ?_)
  rw [Bool.eq_iff_iff]
  simp

theorem Ordered.mem_ids {e : Str × Node} (he : e ∈ S.map.entries) : e.2.id ∈ S.ids :=
  List.mem_map_of_mem he

/-- An entry of the map that is removed together with its iterator. -/
theorem Ordered.removeNode (h : S.Ordered) (it : Nat) : (S.removeNode it).Ordered := by
  have hids : (S.removeNode it).ids = S.ids.filter (· != it) := ids_eraseNode S it
  refine ⟨?_, ?_, ?_⟩
  · rw [hids, ← List.Nodup.erase_eq_filter h.nodup]
    exact h.perm.erase it
  · rw [hids]
    exact h.nodup.filter _
  · rw [hids]
    exact fun it hit => h.fresh it (List.mem_filter.mp hit).1

theorem Ordered.removeAtLoop (prefix_ : Str) : ∀ (rest : List (Str × Node)) {S : Sections ci},
    S.Ordered → (Sections.removeAtLoop prefix_ rest S).1.Ordered
  | [], _, h => h
  | e :: rest, S, h => by
    rw [Sections.removeAtLoop]
    split
    · exact Ordered.removeAtLoop prefix_ rest (h.removeNode e.2.id)
    · exact Ordered.removeAtLoop prefix_ rest h

/-! ## A new section -/

theorem emplace_none {name : Str} (hname : S.map.find? name = none) :
    S.emplace name
      = ({ S with map := S.map.emplace name ⟨S.fresh, .empty⟩, fresh := S.fresh + 1 }, S.fresh) := by
  rw [Sections.emplace, hname]

theorem emplace_some {name : Str} {e : Str × Node} (hname : S.map.find? name = some e) :
    S.emplace name = (S, e.2.id) := by
  rw [Sections.emplace, hname]

theorem ids_emplace {name : Str} (hname : S.map.find? name = none) :
    (S.emplace name).1.ids.Perm (S.fresh :: S.ids) := by
  rw [emplace_none hname]
  show ((S.map.emplace name ⟨S.fresh, .empty⟩).entries.map _).Perm _
  rw [SortedMap.entries_emplace hname]
  exact (SortedMap.perm_insertEntry _ _ _).map _

theorem Ordered.fresh_not_mem (h : S.Ordered) : S.fresh ∉ S.ids := fun hmem =>
  Nat.lt_irrefl _ (h.fresh _ hmem)

/-- The nodes of a map with a new section. -/
theorem Ordered.of_emplace (h : S.Ordered) {name : Str} (hname : S.map.find? name = none) :
    (S.emplace name).1.ids.Nodup ∧ ∀ it ∈ (S.emplace name).1.ids, it < S.fresh + 1 := by
  have hperm := ids_emplace hname
  refine ⟨hperm.nodup_iff.mpr (List.nodup_cons.mpr ⟨h.fresh_not_mem, h.nodup⟩), fun it hit => ?_⟩
  rcases List.mem_cons.mp (hperm.mem_iff.mp hit) with rfl | hit
  · exact Nat.lt_succ_self _
  · exact Nat.lt_succ_of_lt (h.fresh it hit)

theorem ensure_none {name : Str} (hname : S.map.find? name = none) :
    S.ensure name = ({ (S.emplace name).1 with ordered := S.ordered ++ [S.fresh] }, S.fresh) := by
  rw [Sections.ensure, emplace_none hname]
  simp [hname]

theorem ensure_some {name : Str} {e : Str × Node} (hname : S.map.find? name = some e) :
    S.ensure name = (S, e.2.id) := by
  rw [Sections.ensure, emplace_some hname]
  simp [hname]

theorem Ordered.ensure (h : S.Ordered) (name : Str) : (S.ensure name).1.Ordered := by
  cases hname : S.map.find? name with
  | some e =>
    rw [ensure_some hname]
    exact h
  | none =>
    rw [ensure_none hname]
    obtain ⟨hnodup, hfresh⟩ := h.of_emplace hname
    refine ⟨?_, hnodup, ?_⟩
    · refine (List.perm_append_singleton _ _).trans ((h.perm.cons S.fresh).trans ?_)
      exact (ids_emplace hname).symm
    · rw [emplace_none hname] at hfresh ⊢
      exact hfresh

/-! ## `Rename` -/

theorem replaceIt_perm {old it : Nat} : ∀ {l : List Nat}, old ∈ l →
    (replaceIt old it l).Perm (it :: l.erase old)
  | x :: xs, hmem => by
    rw [replaceIt]
    by_cases hx : x = old
    · rw [if_pos hx, hx, List.erase_cons_head]
    · have hxs : old ∈ xs := (List.mem_cons.mp hmem).resolve_left fun heq => hx heq.symm
      rw [if_neg hx, List.erase_cons_tail (by simpa using hx)]
      exact ((replaceIt_perm hxs).cons x).trans (.swap _ _ _)

/-- A section that is renamed to a new name. -/
theorem rename_new {src dst : Str} {e : Str × Node} (hsrc : S.map.find? src = some e)
    (hdst : S.map.find? dst = none) :
    (S.rename src dst).1 = (({ (S.emplace dst).1 with
      ordered := replaceIt e.2.id S.fresh S.ordered }).modifyValues S.fresh
        fun _ => e.2.values).eraseNode e.2.id := by
  rw [Sections.rename, hsrc, emplace_none hdst]

theorem Ordered.rename (h : S.Ordered) {src dst : Str}
    (hnew : S.map.find? src ≠ none → S.map.find? dst = none) : (S.rename src dst).1.Ordered := by
  cases hsrc : S.map.find? src with
  | none =>
    rw [Sections.rename, hsrc]
    exact h
  | some e =>
    have hdst := hnew (by rw [hsrc]; exact Option.some_ne_none e)
    rw [rename_new hsrc hdst]
    obtain ⟨hnodup, hfresh⟩ := h.of_emplace hdst
    have hmem : e.2.id ∈ S.ids := Ordered.mem_ids (SortedMap.find?_some hsrc).1
    have hne : S.fresh ≠ e.2.id := fun heq => h.fresh_not_mem (heq ▸ hmem)
    generalize hS2 : ({ (S.emplace dst).1 with
      ordered := replaceIt e.2.id S.fresh S.ordered } : Sections ci) = S2
    have hids : ((S2.modifyValues S.fresh fun _ => e.2.values).eraseNode e.2.id).ids
        = (S.emplace dst).1.ids.filter (· != e.2.id) := by
      rw [ids_eraseNode, ids_modifyValues, ← hS2]
      rfl
    refine ⟨?_, ?_, ?_⟩
    · rw [hids]
      show S2.ordered.Perm _
      rw [← hS2]
      refine (replaceIt_perm (h.perm.mem_iff.mpr hmem)).trans ?_
      refine (((h.perm.erase e.2.id).cons S.fresh).trans ?_)
      rw [List.Nodup.erase_eq_filter h.nodup]
      refine List.Perm.trans ?_ ((ids_emplace hdst).filter _).symm
      rw [List.filter_cons, if_pos (by simpa using hne)]
    · rw [hids]
      exact hnodup.filter _
    · rw [hids]
      intro it hit
      show it < S2.fresh
      rw [← hS2, emplace_none hdst]
      exact hfresh it (List.mem_filter.mp hit).1

/-! ## The order of the sections -/

theorem Ordered.deref (h : S.Ordered) {e : Str × Node} (he : e ∈ S.map.entries) :
    S.deref e.2.id = some e := by
  cases hfind : S.deref e.2.id with
  | none => simpa using List.find?_eq_none.mp hfind e he
  | some e' =>
    have he' := List.mem_of_find?_eq_some hfind
    have hid : e'.2.id = e.2.id := by simpa using List.find?_some hfind
    rw [List.inj_on_of_nodup_map h.nodup he' he hid]

/-- The nodes in order are the nodes of the map with these iterators. -/
theorem Ordered.nodes_eq (h : S.Ordered) {ns : List (Str × Node)}
    (hids : (ns.map fun e => e.2.id) = S.ordered) (hmem : ∀ e ∈ ns, e ∈ S.map.entries) :
    S.nodes = ns := by
  rw [nodes, ← hids, List.filterMap_map]
  have hsome : ns.filterMap (S.deref ∘ fun e => e.2.id) = ns.filterMap some :=
    List.filterMap_congr fun e he => h.deref (hmem e he)
  rw [hsome, List.filterMap_some]

/-- Every node is listed. -/
theorem Ordered.nodes_perm (h : S.Ordered) : S.nodes.Perm S.map.entries := by
  have hperm : (S.ordered.filterMap S.deref).Perm (S.ids.filterMap S.deref) :=
    h.perm.filterMap S.deref
  have hself : S.ids.filterMap S.deref = S.map.entries := by
    rw [ids, List.filterMap_map]
    have hsome : S.map.entries.filterMap (S.deref ∘ fun e => e.2.id)
        = S.map.entries.filterMap some := List.filterMap_congr fun e he => h.deref he
    rw [hsome, List.filterMap_some]
  rw [nodes]
  rwa [hself] at hperm

theorem Ordered.nodes_ids (h : S.Ordered) : S.nodes.map (fun e => e.2.id) = S.ordered := by
  have hderef : ∀ l : List Nat, (∀ it ∈ l, it ∈ S.ids) →
      (l.filterMap S.deref).map (fun e => e.2.id) = l := by
    intro l
    induction l with
    | nil => exact fun _ => rfl
    | cons it l ih =>
      intro hl
      obtain ⟨hit, htail⟩ := List.forall_mem_cons.mp hl
      obtain ⟨e, he, rfl⟩ := List.mem_map.mp hit
      rw [List.filterMap_cons_some (h.deref he), List.map_cons, ih htail]
  exact hderef _ fun it hit => h.perm.mem_iff.mp hit

theorem Ordered.mem_nodes (h : S.Ordered) {e : Str × Node} : e ∈ S.nodes ↔ e ∈ S.map.entries :=
  h.nodes_perm.mem_iff

/-- The names of the sections in order. -/
def names (S : Sections ci) : List Str := S.enumeration.map Prod.fst

theorem names_eq (S : Sections ci) : S.names = S.nodes.map Prod.fst := by
  rw [names, enumeration, List.map_map]
  rfl

/-- A section is found when it is listed. -/
theorem Ordered.find?_none_iff (h : S.Ordered) {name : Str} :
    S.map.find? name = none ↔ ∀ n ∈ S.names, sameName ci n name = false := by
  rw [names_eq]
  constructor
  · intro hnone n hn
    obtain ⟨e, he, rfl⟩ := List.mem_map.mp hn
    exact SortedMap.find?_none hnone e (h.mem_nodes.mp he)
  · intro hall
    refine List.find?_eq_none.mpr fun e he => ?_
    show ¬sameName ci e.1 name = true
    rw [hall e.1 (List.mem_map_of_mem (h.mem_nodes.mpr he))]
    exact Bool.false_ne_true

/-- No two sections listed have the same name. -/
theorem Ordered.names_distinct (h : S.Ordered) :
    S.names.Pairwise fun a b => sameName ci a b = false := by
  rw [names_eq, List.pairwise_map]
  have hsorted : S.map.entries.Pairwise fun e e' => sameName ci e.1 e'.1 = false :=
    S.map.sorted.imp fun hlt => SortedMap.equiv_of_lt hlt
  refine h.nodes_perm.symm.pairwise hsorted fun {e e'} hne => ?_
  rwa [sameName, SortedMap.equiv_comm]

/-- The sections listed are those of the map. -/
theorem Ordered.names_perm (h : S.Ordered) : S.names.Perm (S.map.entries.map Prod.fst) := by
  rw [names_eq]
  exact h.nodes_perm.map Prod.fst

end Sections

end Far2l.KeyFile
