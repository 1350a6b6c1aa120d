/-
Far2l.NetRocks.DirectoryEnumCacheTheorems — what the cache of listings serves.

`reached_serves`: in every run of steps that are `Safe` each listing served is a
complete one without the names removed since, and no removed node is touched. The
other steps fill an entry that is still in use, end a listing that has been cut
off, read the clock while an entry without a time stamp counts as fresh, or remove
the node that a reader stands on.
-/
import Far2l.NetRocks.DirectoryEnumCache

namespace Far2l.NetRocks

open Far2l.KeyFile (Str)

variable {Info : Type}

namespace EnumCache

/-! ## The condition -/

/-- What underlying enumerators do: their names are distinct, and they are at the end when everything
has been given, or say so after having thrown. -/
def Op.Proper (c : EnumCache Info) : Op Info → Prop
  | .getCachingWrapper _ listing _ => (listing.map (·.name)).Nodup
  | .wrapperEnum w outcome => ∀ W, c.wrappers w = some W →
      (outcome = .item → W.yielded < W.listing.length)
        ∧ (outcome = .ends → W.yielded = W.listing.length ∨ W.thrown = true)
  | .destroyWrapper w count ends _ => ∀ W, c.wrappers w = some W → W.enumedTilTheEnd = false →
      W.yielded + count ≤ W.listing.length
        ∧ (ends = true → W.yielded + count = W.listing.length ∨ W.thrown = true)
  | _ => True

/-- No listing is begun in an entry that is being filled or read; none is ended that has been cut off;
at no clock value that is read an entry without a time stamp is valid; and no name is removed that a
reader stands on. -/
def Op.Safe (expiration : Nat) (c : EnumCache Info) : Op Info → Prop
  | .getCachingWrapper path _ ts => ∀ e, (c.inspected expiration ts).cache path = some e →
      (∀ w W, c.wrappers w = some W → W.entry ≠ e)
        ∧ ∀ r R, c.readers r = some R → R.entry = e → R.it = none
  | .destroyWrapper w count ends _ => ∀ W, c.wrappers w = some W →
      (W.enumedTilTheEnd = true → W.yielded = W.listing.length)
        ∧ (W.enumedTilTheEnd = false → ends = true → W.yielded + count = W.listing.length)
  | .getCached _ ts => valid expiration ({} : DirCacheEntry Info) ts = false
  | .removeName path name ts => valid expiration ({} : DirCacheEntry Info) ts = false
      ∧ ∀ e, c.cache path = some e → valid expiration (c.entries e) ts = true →
        ∀ r R n, c.readers r = some R → R.entry = e → R.it = some n →
          ((c.entries e).nodes.deref n).map (·.name) ≠ some name
  | _ => True

/-- **What is served**: no removed node has been touched, and what a reader has returned and still has
before it is the listing of an underlying enumerator for its path, without the names that were removed
before it came to them. -/
structure Serves (c : EnumCache Info) : Prop where
  untouched : c.touched = false
  listings : ∀ r R, c.readers r = some R → ∃ listing, (R.path, listing) ∈ c.given
    ∧ R.returned ++ NodeList.rest R.it (c.entries R.entry).nodes
      = listing.filter fun item => item.name ∉ R.absent

/-! ## The invariant -/

/-- An entry that a wrapper is filling. -/
structure Filling (c : EnumCache Info) (W : CachingWrapper Info) : Prop where
  lt : W.entry < c.entryCount
  ts : (c.entries W.entry).ts = 0
  index : (c.entries W.entry).index = []
  removed : (c.entries W.entry).removed = []
  le : W.yielded ≤ W.listing.length
  values : (c.entries W.entry).nodes.values = W.listing.take W.yielded
  names : (W.listing.map (·.name)).Nodup
  given : ∀ path, c.cache path = some W.entry → (path, W.listing) ∈ c.given

/-- An entry that has a whole listing, but for the removed names. -/
structure Complete (entry : DirCacheEntry Info) (listing : List (DirCachedListEntry Info)) : Prop where
  names : (listing.map (·.name)).Nodup
  values : entry.nodes.values = listing.filter fun item => item.name ∉ entry.removed
  index : entry.index = [] ∨ entry.index = entry.nodes.map fun node => (node.2.name, node.1)

/-- A reader that has a listing to serve, and stands on a node of an entry that is not being filled, or
at the end. -/
structure Reading (c : EnumCache Info) (R : CachedEnumer Info) : Prop where
  lt : R.entry < c.entryCount
  served : ∃ listing, (R.path, listing) ∈ c.given ∧ (listing.map (·.name)).Nodup
    ∧ R.returned ++ NodeList.rest R.it (c.entries R.entry).nodes
      = listing.filter fun item => item.name ∉ R.absent
  stands : ∀ n, R.it = some n → n ∈ (c.entries R.entry).nodes.ids
  filled : ∀ n, R.it = some n → ∀ w W, c.wrappers w = some W → W.entry ≠ R.entry

structure Good (c : EnumCache Info) : Prop where
  cache_lt : ∀ path e, c.cache path = some e → e < c.entryCount
  cache_inj : ∀ path path' e, c.cache path = some e → c.cache path' = some e → path = path'
  ids_lt : ∀ e, ∀ n ∈ (c.entries e).nodes.ids, n < c.nodeCount
  ids_nodup : ∀ e, (c.entries e).nodes.ids.Nodup
  names : ∀ e, ((c.entries e).nodes.values.map (·.name)).Nodup
  wrappers : ∀ w W, c.wrappers w = some W → Filling c W
  alone : ∀ w w' W W', c.wrappers w = some W → c.wrappers w' = some W' → W.entry = W'.entry → w = w'
  complete : ∀ e, (c.entries e).ts ≠ 0 → ∃ listing, Complete (c.entries e) listing
    ∧ ∀ path, c.cache path = some e → (path, listing) ∈ c.given
  readers : ∀ r R, c.readers r = some R → Reading c R
  untouched : c.touched = false
  fresh : ∀ e, c.entryCount ≤ e → (c.entries e).ts = 0

variable {c : EnumCache Info} {expiration : Nat}

/-- An entry that a step leaves alone. -/
theorem Filling.kept {c' : EnumCache Info} {W : CachingWrapper Info} (h : Filling c W)
    (hlt : W.entry < c'.entryCount) (hsame : c'.entries W.entry = c.entries W.entry)
    (hgiven : ∀ path, c'.cache path = some W.entry → (path, W.listing) ∈ c'.given) : Filling c' W := by
  refine ⟨hlt, ?_, ?_, ?_, h.le, ?_, h.names, hgiven⟩
  all_goals rw [hsame]
  exacts [h.ts, h.index, h.removed, h.values]

theorem Good.serves (h : Good c) : Serves c where
  untouched := h.untouched
  listings r R hr := by
    obtain ⟨listing, hgiven, -, hserved⟩ := (h.readers r R hr).served
    exact ⟨listing, hgiven, hserved⟩

theorem good_start : Good ({} : EnumCache Info) where
  cache_lt := nofun
  cache_inj := nofun
  ids_lt _ _ h := absurd h List.not_mem_nil
  ids_nodup _ := List.nodup_nil
  names _ := List.nodup_nil
  wrappers := nofun
  alone := nofun
  complete _ h := absurd rfl h
  readers := nofun
  untouched := rfl
  fresh _ _ := rfl

/-- The cache may forget. -/
theorem Good.shrink (h : Good c) {cache : Str → Option Nat} (lastInspection : Int)
    (hsub : ∀ path e, cache path = some e → c.cache path = some e) :
    Good { c with cache, lastInspection } where
  cache_lt path e hpath := h.cache_lt path e (hsub path e hpath)
  cache_inj path path' e hpath hpath' := h.cache_inj path path' e (hsub path e hpath) (hsub path' e hpath')
  ids_lt := h.ids_lt
  ids_nodup := h.ids_nodup
  names := h.names
  wrappers w W hw := by
    have hfill := h.wrappers w W hw
    exact ⟨hfill.lt, hfill.ts, hfill.index, hfill.removed, hfill.le, hfill.values, hfill.names,
      fun path hpath => hfill.given path (hsub path _ hpath)⟩
  alone := h.alone
  complete e hts := by
    obtain ⟨listing, hall, hgiven⟩ := h.complete e hts
    exact ⟨listing, hall, fun path hpath => hgiven path (hsub path e hpath)⟩
  readers r R hr := by
    have hread := h.readers r R hr
    exact ⟨hread.lt, hread.served, hread.stands, hread.filled⟩
  untouched := h.untouched
  fresh := h.fresh

theorem Good.forget (h : Good c) (path : Str) : Good (c.forget path) := by
  refine h.shrink c.lastInspection fun path' e hpath => ?_
  by_cases heq : path' = path
  · rw [heq, Function.update_self] at hpath
    exact nomatch hpath
  · rw [Function.update_of_ne heq] at hpath
    exact hpath

theorem Good.inspected (expiration : Nat) (h : Good c) (ts : Int) : Good (c.inspected expiration ts) := by
  rw [EnumCache.inspected]
  split
  · exact h.shrink _ fun path e hpath => (Option.filter_eq_some_iff.mp hpath).1
  · exact h

/-- A reader is as it should be. -/
theorem Good.setReader (h : Good c) {r readerCount : Nat} {reader : Option (CachedEnumer Info)}
    (hreader : ∀ R, reader = some R → Reading c R) :
    Good { c with readers := Function.update c.readers r reader, readerCount } where
  cache_lt := h.cache_lt
  cache_inj := h.cache_inj
  ids_lt := h.ids_lt
  ids_nodup := h.ids_nodup
  names := h.names
  wrappers w W hw := by
    have hfill := h.wrappers w W hw
    exact ⟨hfill.lt, hfill.ts, hfill.index, hfill.removed, hfill.le, hfill.values, hfill.names, hfill.given⟩
  alone := h.alone
  complete := h.complete
  readers r' R hr := by
    have hread : Reading c R := by
      by_cases heq : r' = r
      · rw [heq] at hr
        dsimp only at hr
        rw [Function.update_self] at hr
        exact hreader R hr
      · dsimp only at hr
        rw [Function.update_of_ne heq] at hr
        exact h.readers r' R hr
    exact ⟨hread.lt, hread.served, hread.stands, hread.filled⟩
  untouched := h.untouched
  fresh := h.fresh

/-! ## Serving -/

/-- An entry is only valid when it has a time stamp. -/
theorem ts_ne_of_valid {e : DirCacheEntry Info} {ts : Int}
    (hclock : valid expiration ({} : DirCacheEntry Info) ts = false)
    (hvalid : valid expiration e ts = true) : e.ts ≠ 0 := by
  intro hts
  rw [valid, hts] at hvalid
  rw [valid, hvalid] at hclock
  exact nomatch hclock

theorem Good.getCached (h : Good c) {path : Str} {ts : Int}
    (hclock : valid expiration ({} : DirCacheEntry Info) ts = false) :
    Good (c.getCached expiration path ts) := by
  rw [EnumCache.getCached]
  cases hcache : c.cache path with
  | none => exact h
  | some e =>
    dsimp only
    split
    · next hvalid =>
      have hts := ts_ne_of_valid hclock hvalid
      obtain ⟨listing, hall, hgiven⟩ := h.complete e hts
      refine h.setReader fun R hR => ?_
      obtain rfl := Option.some.inj hR
      refine ⟨h.cache_lt path e hcache, ⟨listing, hgiven path hcache, hall.names, ?_⟩, fun n hn => ?_,
        fun n hn w W hw heq => ?_⟩
      · rw [NodeList.rest_begin, hall.values, List.nil_append]
      · exact NodeList.begin_mem hn
      · have heq : W.entry = e := heq
        exact hts (heq ▸ (h.wrappers w W hw).ts)
    · exact h.forget path

theorem Good.readerEnum (h : Good c) (r : Nat) : Good (c.readerEnum r) := by
  rw [EnumCache.readerEnum]
  cases hr : c.readers r with
  | none => exact h
  | some R =>
    dsimp only
    have hread := h.readers r R hr
    cases hit : R.it with
    | none => exact h
    | some n =>
      dsimp only
      obtain ⟨item, hderef, -, hrest, hnext⟩ := NodeList.rest_next (h.ids_nodup R.entry) (hread.stands n hit)
      obtain ⟨listing, hgiven, hnames, hserved⟩ := hread.served
      rw [hderef]
      refine h.setReader fun R' hR' => ?_
      obtain rfl := Option.some.inj hR'
      refine ⟨hread.lt, ⟨listing, hgiven, hnames, ?_⟩, hnext, fun _ _ => hread.filled n hit⟩
      rw [← hserved, hit, hrest, List.append_assoc, List.singleton_append]

/-! ## Filling -/

/-- A wrapper's enumerator changes, but not what it has given. -/
theorem Good.setWrapper (h : Good c) {w : Nat} {W W' : CachingWrapper Info} (hw : c.wrappers w = some W)
    (hentry : W'.entry = W.entry) (hlisting : W'.listing = W.listing) (hyielded : W'.yielded = W.yielded) :
    Good { c with wrappers := Function.update c.wrappers w (some W') } := by
  have hof : ∀ w' V, Function.update c.wrappers w (some W') w' = some V →
      ∃ V₀, c.wrappers w' = some V₀ ∧ V.entry = V₀.entry ∧ V.listing = V₀.listing
        ∧ V.yielded = V₀.yielded := by
    intro w' V hV
    by_cases heq : w' = w
    · rw [heq, Function.update_self] at hV
      obtain rfl := Option.some.inj hV
      exact ⟨W, heq ▸ hw, hentry, hlisting, hyielded⟩
    · rw [Function.update_of_ne heq] at hV
      exact ⟨V, hV, rfl, rfl, rfl⟩
  refine ⟨h.cache_lt, h.cache_inj, h.ids_lt, h.ids_nodup, h.names, fun w' V hV => ?_,
    fun w₁ w₂ V₁ V₂ h₁ h₂ heq => ?_, h.complete, fun r R hr => ?_, h.untouched, h.fresh⟩
  · obtain ⟨V₀, hV₀, he, hl, hy⟩ := hof w' V hV
    have hfill := h.wrappers w' V₀ hV₀
    refine ⟨he ▸ hfill.lt, he ▸ hfill.ts, he ▸ hfill.index, he ▸ hfill.removed, ?_, ?_, hl ▸ hfill.names, ?_⟩
    · rw [hy, hl]
      exact hfill.le
    · rw [hy, hl, he]
      exact hfill.values
    · rw [he, hl]
      exact hfill.given
  · obtain ⟨U₁, hU₁, he₁, -⟩ := hof w₁ V₁ h₁
    obtain ⟨U₂, hU₂, he₂, -⟩ := hof w₂ V₂ h₂
    exact h.alone w₁ w₂ U₁ U₂ hU₁ hU₂ (he₁.symm.trans (heq.trans he₂))
  · have hread := h.readers r R hr
    refine ⟨hread.lt, hread.served, hread.stands, fun n hn w' V hV heq => ?_⟩
    obtain ⟨V₀, hV₀, he, -⟩ := hof w' V hV
    exact hread.filled n hn w' V₀ hV₀ (he.symm.trans heq)

theorem NodeList.values_append {α : Type} (l l' : NodeList α) :
    NodeList.values (l ++ l') = NodeList.values l ++ NodeList.values l' := List.map_append

theorem NodeList.ids_append {α : Type} (l l' : NodeList α) :
    NodeList.ids (l ++ l') = NodeList.ids l ++ NodeList.ids l' := List.map_append

/-- The wrapper after an entry. -/
def filled (W : CachingWrapper Info) : CachingWrapper Info := { W with yielded := W.yielded + 1 }

/-- **An entry is put behind those given before.** -/
theorem Good.item (h : Good c) {w : Nat} {W : CachingWrapper Info} (hw : c.wrappers w = some W)
    (hlt : W.yielded < W.listing.length) :
    Good (c.wrapperEnum w .item) ∧ (c.wrapperEnum w .item).wrappers w = some (filled W) := by
  have hitem := List.getElem?_eq_getElem hlt
  have hstep : c.wrapperEnum w .item = { c.emplaceBack W.entry W.listing[W.yielded] with
      wrappers := Function.update c.wrappers w (some (filled W)) } := by
    rw [wrapperEnum, hw]
    dsimp only
    rw [hitem]
    rfl
  rw [hstep]
  have hfill := h.wrappers w W hw
  have hself : (Function.update c.entries W.entry { c.entries W.entry with
      nodes := (c.entries W.entry).nodes ++ [(c.nodeCount, W.listing[W.yielded])] }) W.entry
      = { c.entries W.entry with
        nodes := (c.entries W.entry).nodes ++ [(c.nodeCount, W.listing[W.yielded])] } :=
    Function.update_self _ _ _
  have hother : ∀ e, e ≠ W.entry → (Function.update c.entries W.entry { c.entries W.entry with
      nodes := (c.entries W.entry).nodes ++ [(c.nodeCount, W.listing[W.yielded])] }) e = c.entries e :=
    fun e he => Function.update_of_ne he _ _
  have hvalues : NodeList.values ((c.entries W.entry).nodes ++ [(c.nodeCount, W.listing[W.yielded])])
      = W.listing.take (W.yielded + 1) := by
    rw [NodeList.values_append, hfill.values, List.take_add_one, hitem]
    rfl
  have hof : ∀ w' V, Function.update c.wrappers w (some (filled W)) w' = some V →
      w' = w ∧ V = filled W ∨ w' ≠ w ∧ c.wrappers w' = some V ∧ V.entry ≠ W.entry := by
    intro w' V hV
    by_cases heq : w' = w
    · rw [heq, Function.update_self] at hV
      exact .inl ⟨heq, (Option.some.inj hV).symm⟩
    · rw [Function.update_of_ne heq] at hV
      exact .inr ⟨heq, hV, fun hentry => heq (h.alone w' w V W hV hw hentry)⟩
  refine ⟨⟨h.cache_lt, h.cache_inj, fun e n hn => ?_, fun e => ?_, fun e => ?_, fun w' V hV => ?_,
    fun w₁ w₂ V₁ V₂ h₁ h₂ heq => ?_, fun e hts => ?_, fun r R hr => ?_, h.untouched, fun e he => ?_⟩,
    Function.update_self _ _ _⟩
  · dsimp only [emplaceBack] at hn
    by_cases he : e = W.entry
    · rw [he, hself, NodeList.ids_append] at hn
      rcases List.mem_append.mp hn with hn | hn
      · exact Nat.lt_succ_of_lt (h.ids_lt _ n hn)
      · exact (List.mem_singleton.mp hn) ▸ Nat.lt_succ_self _
    · rw [hother e he] at hn
      exact Nat.lt_succ_of_lt (h.ids_lt e n hn)
  · dsimp only [emplaceBack]
    by_cases he : e = W.entry
    · rw [he, hself, NodeList.ids_append]
      refine List.nodup_append.mpr ⟨h.ids_nodup _, List.nodup_singleton _, fun n hn m hm heq => ?_⟩
      obtain rfl := List.mem_singleton.mp hm
      exact Nat.lt_irrefl _ (heq ▸ h.ids_lt _ n hn)
    · rw [hother e he]
      exact h.ids_nodup e
  · dsimp only [emplaceBack]
    by_cases he : e = W.entry
    · rw [he, hself, hvalues, List.map_take]
      exact hfill.names.sublist (List.take_sublist _ _)
    · rw [hother e he]
      exact h.names e
  · rcases hof w' V hV with ⟨-, rfl⟩ | ⟨-, hV', hne⟩
    · refine ⟨hfill.lt, ?_, ?_, ?_, hlt, ?_, hfill.names, hfill.given⟩
      all_goals
        dsimp only [emplaceBack, filled]
        rw [hself]
      exacts [hfill.ts, hfill.index, hfill.removed, hvalues]
    · have hfill' := h.wrappers w' V hV'
      exact hfill'.kept hfill'.lt (hother V.entry hne) hfill'.given
  · rcases hof w₁ V₁ h₁ with ⟨hw₁, rfl⟩ | ⟨hw₁, hV₁, hne₁⟩
    · rcases hof w₂ V₂ h₂ with ⟨hw₂, rfl⟩ | ⟨hw₂, hV₂, hne₂⟩
      · exact hw₁.trans hw₂.symm
      · exact absurd heq.symm hne₂
    · rcases hof w₂ V₂ h₂ with ⟨hw₂, rfl⟩ | ⟨hw₂, hV₂, hne₂⟩
      · exact absurd heq hne₁
      · exact h.alone w₁ w₂ V₁ V₂ hV₁ hV₂ heq
  · dsimp only [emplaceBack] at hts
    have he : e ≠ W.entry := by
      rintro rfl
      rw [hself] at hts
      exact hts hfill.ts
    rw [hother e he] at hts
    dsimp only [emplaceBack]
    rw [hother e he]
    exact h.complete e hts
  · have hread := h.readers r R hr
    by_cases he : R.entry = W.entry
    · -- a reader of the entry is at the end
      have hend : R.it = none := by
        cases hit : R.it with
        | none => rfl
        | some n => exact absurd he.symm (hread.filled n hit w W hw)
      refine ⟨hread.lt, ?_, fun n hn => ?_, fun n hn => ?_⟩
      · have hserved := hread.served
        rw [hend] at hserved ⊢
        exact hserved
      · rw [hend] at hn
        exact nomatch hn
      · rw [hend] at hn
        exact nomatch hn
    · have hsame := hother R.entry he
      refine ⟨hread.lt, ?_, fun n hn => ?_, fun n hn w' V hV => ?_⟩
      · dsimp only [emplaceBack]
        rw [hsame]
        exact hread.served
      · dsimp only [emplaceBack]
        rw [hsame]
        exact hread.stands n hn
      · rcases hof w' V hV with ⟨-, rfl⟩ | ⟨-, hV', -⟩
        · exact fun heq => he heq.symm
        · exact hread.filled n hn w' V hV'
  · exact (congrArg DirCacheEntry.ts (hother e fun heq => Nat.not_lt.mpr he (heq ▸ hfill.lt))).trans
      (h.fresh e he)

/-- The wrapper after so many. -/
def filledBy (W : CachingWrapper Info) (count : Nat) : CachingWrapper Info :=
  { W with yielded := W.yielded + count }

theorem Good.drain : ∀ (count : Nat) {c : EnumCache Info} {w : Nat} {W : CachingWrapper Info}, Good c →
    c.wrappers w = some W → W.yielded + count ≤ W.listing.length →
    Good (drain count c w) ∧ (EnumCache.drain count c w).wrappers w = some (filledBy W count)
  | 0, _, _, _, h, hw, _ => ⟨h, hw⟩
  | count + 1, c, w, W, h, hw, hle => by
    obtain ⟨hgood, hwrapper⟩ := h.item hw (by omega)
    obtain ⟨hdrained, hlast⟩ := hgood.drain count hwrapper (by
      show W.yielded + 1 + count ≤ W.listing.length
      omega)
    refine ⟨hdrained, hlast.trans ?_⟩
    rw [filledBy, filledBy, filled]
    dsimp only
    rw [Nat.add_assoc, Nat.add_comm 1 count]

/-- A wrapper is gone, and its entry has the whole listing if it has got a time stamp. -/
theorem Good.release (h : Good c) {w : Nat} {W : CachingWrapper Info} (hw : c.wrappers w = some W)
    {ts : Int} (hts : ts = 0 ∨ W.yielded = W.listing.length) :
    Good { c.setEntry W.entry { c.entries W.entry with ts } with
      wrappers := Function.update c.wrappers w none } := by
  have hfill := h.wrappers w W hw
  have hself : (Function.update c.entries W.entry { c.entries W.entry with ts }) W.entry
      = { c.entries W.entry with ts } := Function.update_self _ _ _
  have hother : ∀ e, e ≠ W.entry →
      (Function.update c.entries W.entry { c.entries W.entry with ts }) e = c.entries e :=
    fun e he => Function.update_of_ne he _ _
  have hnodes : ∀ e, ((Function.update c.entries W.entry { c.entries W.entry with ts }) e).nodes
      = (c.entries e).nodes := by
    intro e
    by_cases he : e = W.entry
    · rw [he, hself]
    · rw [hother e he]
  have hof : ∀ w' V, Function.update c.wrappers w none w' = some V →
      c.wrappers w' = some V ∧ V.entry ≠ W.entry := by
    intro w' V hV
    by_cases heq : w' = w
    · rw [heq, Function.update_self] at hV
      exact nomatch hV
    · rw [Function.update_of_ne heq] at hV
      exact ⟨hV, fun hentry => heq (h.alone w' w V W hV hw hentry)⟩
  refine ⟨h.cache_lt, h.cache_inj, fun e n hn => ?_, fun e => ?_, fun e => ?_, fun w' V hV => ?_,
    fun w₁ w₂ V₁ V₂ h₁ h₂ heq => ?_, fun e hts' => ?_, fun r R hr => ?_, h.untouched, fun e he => ?_⟩
  · dsimp only [setEntry] at hn
    rw [hnodes] at hn
    exact h.ids_lt e n hn
  · dsimp only [setEntry]
    rw [hnodes]
    exact h.ids_nodup e
  · dsimp only [setEntry]
    rw [hnodes]
    exact h.names e
  · obtain ⟨hV', hne⟩ := hof w' V hV
    have hfill' := h.wrappers w' V hV'
    exact hfill'.kept hfill'.lt (hother V.entry hne) hfill'.given
  · exact h.alone w₁ w₂ V₁ V₂ (hof w₁ V₁ h₁).1 (hof w₂ V₂ h₂).1 heq
  · dsimp only [setEntry] at hts' ⊢
    by_cases he : e = W.entry
    · rw [he] at hts' ⊢
      rw [hself] at hts' ⊢
      have hall := hts.resolve_left hts'
      refine ⟨W.listing, ⟨hfill.names, ?_, .inl hfill.index⟩, hfill.given⟩
      dsimp only
      rw [hfill.values, hall, List.take_length, hfill.removed]
      exact (List.filter_eq_self.mpr fun item _ => decide_eq_true List.not_mem_nil).symm
    · rw [hother e he] at hts' ⊢
      exact h.complete e hts'
  · have hread := h.readers r R hr
    refine ⟨hread.lt, ?_, fun n hn => ?_, fun n hn w' V hV => hread.filled n hn w' V (hof w' V hV).1⟩
    · dsimp only [setEntry]
      rw [hnodes]
      exact hread.served
    · dsimp only [setEntry]
      rw [hnodes]
      exact hread.stands n hn
  · exact (congrArg DirCacheEntry.ts (hother e fun heq => Nat.not_lt.mpr he (heq ▸ hfill.lt))).trans
      (h.fresh e he)

theorem Good.destroyWrapper (h : Good c) {w count : Nat} {ends : Bool} {ts : Int}
    (hproper : (Op.destroyWrapper w count ends ts).Proper c)
    (hsafe : (Op.destroyWrapper w count ends ts).Safe expiration c) :
    Good (c.destroyWrapper w count ends ts) := by
  rw [EnumCache.destroyWrapper]
  cases hw : c.wrappers w with
  | none => exact h
  | some W =>
    dsimp only
    cases hend : W.enumedTilTheEnd with
    | true =>
      rw [if_pos rfl]
      exact h.release hw (.inr ((hsafe W hw).1 hend))
    | false =>
      obtain ⟨hle, -⟩ := hproper W hw hend
      obtain ⟨hdrained, hlast⟩ := h.drain count hw hle
      rw [if_neg Bool.false_ne_true]
      refine hdrained.release hlast ?_
      cases ends with
      | true => exact .inr ((hsafe W hw).2 hend rfl)
      | false => exact .inl (if_neg fun hor => hor.elim Bool.false_ne_true Bool.false_ne_true)

/-! ## A new listing -/

/-- A wrapper begins to fill an entry that is empty, that nothing else fills, and that readers have
come to the end of. -/
theorem Good.begin_ (h : Good c) {path : Str} {e : Nat} {listing : List (DirCachedListEntry Info)}
    (hnames : (listing.map (·.name)).Nodup) (hlt : e < c.entryCount) (hcache : c.cache path = some e)
    (hfree : ∀ w W, c.wrappers w = some W → W.entry ≠ e)
    (hends : ∀ r R, c.readers r = some R → R.entry = e → R.it = none) :
    Good ((c.setEntry e {}).addWrapper path e listing) := by
  have hself : (Function.update c.entries e {}) e = {} := Function.update_self _ _ _
  have hother : ∀ e', e' ≠ e → (Function.update c.entries e {}) e' = c.entries e' :=
    fun e' he => Function.update_of_ne he _ _
  have hof : ∀ w V, Function.update c.wrappers c.wrapperCount (some { entry := e, listing }) w = some V →
      w = c.wrapperCount ∧ V = { entry := e, listing }
        ∨ w ≠ c.wrapperCount ∧ c.wrappers w = some V ∧ V.entry ≠ e := by
    intro w V hV
    by_cases heq : w = c.wrapperCount
    · rw [heq, Function.update_self] at hV
      exact .inl ⟨heq, (Option.some.inj hV).symm⟩
    · rw [Function.update_of_ne heq] at hV
      exact .inr ⟨heq, hV, hfree w V hV⟩
  refine ⟨h.cache_lt, h.cache_inj, fun e' n hn => ?_, fun e' => ?_, fun e' => ?_, fun w V hV => ?_,
    fun w₁ w₂ V₁ V₂ h₁ h₂ heq => ?_, fun e' hts => ?_, fun r R hr => ?_, h.untouched, fun e' he => ?_⟩
  · dsimp only [setEntry, addWrapper] at hn
    by_cases he : e' = e
    · rw [he, hself] at hn
      exact absurd hn List.not_mem_nil
    · rw [hother e' he] at hn
      exact h.ids_lt e' n hn
  · dsimp only [setEntry, addWrapper]
    by_cases he : e' = e
    · rw [he, hself]
      exact List.nodup_nil
    · rw [hother e' he]
      exact h.ids_nodup e'
  · dsimp only [setEntry, addWrapper]
    by_cases he : e' = e
    · rw [he, hself]
      exact List.nodup_nil
    · rw [hother e' he]
      exact h.names e'
  · rcases hof w V hV with ⟨-, rfl⟩ | ⟨-, hV', hne⟩
    · refine ⟨hlt, ?_, ?_, ?_, Nat.zero_le _, ?_, hnames, fun path' hpath' => ?_⟩
      · exact congrArg DirCacheEntry.ts hself
      · exact congrArg DirCacheEntry.index hself
      · exact congrArg DirCacheEntry.removed hself
      · exact congrArg (fun entry => NodeList.values entry.nodes) hself
      · rw [h.cache_inj path' path e hpath' hcache]
        exact List.mem_cons_self
    · have hfill := h.wrappers w V hV'
      exact hfill.kept hfill.lt (hother V.entry hne)
        fun path' hpath' => List.mem_cons_of_mem _ (hfill.given path' hpath')
  · rcases hof w₁ V₁ h₁ with ⟨hw₁, rfl⟩ | ⟨hw₁, hV₁, hne₁⟩
    · rcases hof w₂ V₂ h₂ with ⟨hw₂, rfl⟩ | ⟨hw₂, hV₂, hne₂⟩
      · exact hw₁.trans hw₂.symm
      · exact absurd heq.symm hne₂
    · rcases hof w₂ V₂ h₂ with ⟨hw₂, rfl⟩ | ⟨hw₂, hV₂, hne₂⟩
      · exact absurd heq hne₁
      · exact h.alone w₁ w₂ V₁ V₂ hV₁ hV₂ heq
  · dsimp only [setEntry, addWrapper] at hts ⊢
    have he : e' ≠ e := by
      rintro rfl
      rw [hself] at hts
      exact hts rfl
    rw [hother e' he] at hts ⊢
    obtain ⟨listing', hall, hgiven⟩ := h.complete e' hts
    exact ⟨listing', hall, fun path' hpath' => List.mem_cons_of_mem _ (hgiven path' hpath')⟩
  · have hread := h.readers r R hr
    obtain ⟨listing', hgiven, hnames', hserved⟩ := hread.served
    by_cases he : R.entry = e
    · have hend := hends r R hr he
      refine ⟨hread.lt, ⟨listing', List.mem_cons_of_mem _ hgiven, hnames', ?_⟩, fun n hn => ?_,
        fun n hn => ?_⟩
      · rw [hend] at hserved ⊢
        exact hserved
      · rw [hend] at hn
        exact nomatch hn
      · rw [hend] at hn
        exact nomatch hn
    · have hsame := hother R.entry he
      refine ⟨hread.lt, ⟨listing', List.mem_cons_of_mem _ hgiven, hnames', ?_⟩, fun n hn => ?_,
        fun n hn w V hV => ?_⟩
      · dsimp only [setEntry, addWrapper]
        rw [hsame]
        exact hserved
      · dsimp only [setEntry, addWrapper]
        rw [hsame]
        exact hread.stands n hn
      · rcases hof w V hV with ⟨-, rfl⟩ | ⟨-, hV', -⟩
        · exact fun heq => he heq.symm
        · exact hread.filled n hn w V hV'
  · exact (congrArg DirCacheEntry.ts (hother e' fun heq => Nat.not_lt.mpr he (heq ▸ hlt))).trans
      (h.fresh e' he)

/-- An entry that has not been there before. -/
theorem Good.extend (h : Good c) (path : Str) :
    Good { c with
      entryCount := c.entryCount + 1, cache := Function.update c.cache path (some c.entryCount) } := by
  have hof : ∀ path' e, Function.update c.cache path (some c.entryCount) path' = some e →
      path' = path ∧ e = c.entryCount ∨ c.cache path' = some e := by
    intro path' e hpath'
    by_cases heq : path' = path
    · rw [heq, Function.update_self] at hpath'
      exact .inl ⟨heq, (Option.some.inj hpath').symm⟩
    · rw [Function.update_of_ne heq] at hpath'
      exact .inr hpath'
  refine ⟨fun path' e hpath' => ?_, fun p q e hp hq => ?_, h.ids_lt, h.ids_nodup, h.names,
    fun w W hw => ?_, h.alone, fun e hts => ?_, fun r R hr => ?_, h.untouched,
    fun e he => h.fresh e (Nat.le_of_succ_le he)⟩
  · rcases hof path' e hpath' with ⟨-, rfl⟩ | hpath'
    · exact Nat.lt_succ_self _
    · exact Nat.lt_succ_of_lt (h.cache_lt path' e hpath')
  · rcases hof p e hp with ⟨hpath, hnew⟩ | hold
    · rcases hof q e hq with ⟨hpath', -⟩ | hold'
      · exact hpath.trans hpath'.symm
      · exact absurd (hnew ▸ h.cache_lt q e hold') (Nat.lt_irrefl _)
    · rcases hof q e hq with ⟨-, hnew⟩ | hold'
      · exact absurd (hnew ▸ h.cache_lt p e hold) (Nat.lt_irrefl _)
      · exact h.cache_inj p q e hold hold'
  · have hfill := h.wrappers w W hw
    refine ⟨Nat.lt_succ_of_lt hfill.lt, hfill.ts, hfill.index, hfill.removed, hfill.le, hfill.values,
      hfill.names, fun path' hpath' => ?_⟩
    rcases hof path' W.entry hpath' with ⟨-, heq⟩ | hpath'
    · exact absurd (heq ▸ hfill.lt) (Nat.lt_irrefl _)
    · exact hfill.given path' hpath'
  · obtain ⟨listing, hall, hgiven⟩ := h.complete e hts
    refine ⟨listing, hall, fun path' hpath' => ?_⟩
    rcases hof path' e hpath' with ⟨-, rfl⟩ | hpath'
    · exact absurd (h.fresh c.entryCount (Nat.le_refl _)) hts
    · exact hgiven path' hpath'
  · have hread := h.readers r R hr
    exact ⟨Nat.lt_succ_of_lt hread.lt, hread.served, hread.stands, hread.filled⟩

theorem Good.getCachingWrapper (h : Good c) {path : Str} {listing : List (DirCachedListEntry Info)}
    {ts : Int} (hnames : (listing.map (·.name)).Nodup)
    (hsafe : (Op.getCachingWrapper path listing ts).Safe expiration c) :
    Good (c.getCachingWrapper expiration path listing ts) := by
  have hgood := h.inspected expiration ts
  have hsame : (c.inspected expiration ts).wrappers = c.wrappers
      ∧ (c.inspected expiration ts).readers = c.readers := by
    rw [EnumCache.inspected]
    split
    · exact ⟨rfl, rfl⟩
    · exact ⟨rfl, rfl⟩
  rw [EnumCache.getCachingWrapper]
  cases hcache : (c.inspected expiration ts).cache path with
  | some e =>
    obtain ⟨hfree, hends⟩ := hsafe e hcache
    exact hgood.begin_ hnames (hgood.cache_lt path e hcache) hcache (hsame.1 ▸ hfree) (hsame.2 ▸ hends)
  | none =>
    refine (hgood.extend _).begin_ hnames (Nat.lt_succ_self _) (Function.update_self _ _ _)
      (fun w W hw heq => ?_) fun r R hr heq => ?_
    · exact absurd (heq ▸ (hgood.wrappers w W hw).lt) (Nat.lt_irrefl _)
    · exact absurd (heq ▸ (hgood.readers r R hr).lt) (Nat.lt_irrefl _)

/-! ## Removing a name -/

section

variable {nodes : NodeList (DirCachedListEntry Info)} {name : Str}

theorem indexOf_eq : ∀ {nodes : NodeList (DirCachedListEntry Info)} {index : List (Str × Nat)},
    (nodes.values.map (·.name)).Nodup →
    (∀ item ∈ nodes.values, item.name ∉ index.map Prod.fst) →
    indexOf nodes index = index ++ nodes.map fun node => (node.2.name, node.1)
  | [], index, _, _ => (List.append_nil _).symm
  | (n, item) :: nodes, index, hnodup, hnew => by
    rw [NodeList.values, List.map_cons, List.map_cons, List.nodup_cons] at hnodup
    rw [indexOf, if_neg (hnew item List.mem_cons_self), indexOf_eq hnodup.2, List.append_assoc]
    · rfl
    · intro item' hitem' hmem
      rw [List.map_append, List.mem_append] at hmem
      rcases hmem with hmem | hmem
      · exact hnew item' (List.mem_cons_of_mem _ hitem') hmem
      · have heq : item'.name = item.name := List.mem_singleton.mp hmem
        exact hnodup.1 (heq ▸ List.mem_map.mpr ⟨item', hitem', rfl⟩)

/-- The nodes of other names. -/
def others (name : Str) (nodes : NodeList (DirCachedListEntry Info)) :
    NodeList (DirCachedListEntry Info) := nodes.filter fun node => node.2.name ≠ name

theorem values_others : (others name nodes).values
    = nodes.values.filter fun item => item.name ≠ name := by
  rw [NodeList.values, NodeList.values, List.filter_map]
  rfl

theorem node_of_id {x y : Nat × DirCachedListEntry Info} (hnodup : nodes.ids.Nodup) (hx : x ∈ nodes)
    (hy : y ∈ nodes) (h : x.1 = y.1) : x = y := List.inj_on_of_nodup_map hnodup hx hy h

theorem node_of_name {x y : Nat × DirCachedListEntry Info}
    (hnodup : (nodes.values.map (·.name)).Nodup) (hx : x ∈ nodes) (hy : y ∈ nodes)
    (h : x.2.name = y.2.name) : x = y := by
  rw [NodeList.values, List.map_map] at hnodup
  exact List.inj_on_of_nodup_map hnodup hx hy h

/-- **A name is removed with its node**, and the index goes with the nodes. -/
theorem without_eq (name : Str) {entry : DirCacheEntry Info} (hids : entry.nodes.ids.Nodup)
    (hnames : (entry.nodes.values.map (·.name)).Nodup)
    (hindex : entry.index = [] ∨ entry.index = entry.nodes.map fun node => (node.2.name, node.1)) :
    DirCacheEntry.without entry name = { entry with
      nodes := others name entry.nodes
      index := (others name entry.nodes).map fun node => (node.2.name, node.1)
      removed := name :: entry.removed } := by
  have hbuilt : (if entry.index = [] then indexOf entry.nodes [] else entry.index)
      = entry.nodes.map fun node => (node.2.name, node.1) := by
    by_cases hnil : entry.index = []
    · rw [if_pos hnil, indexOf_eq hnames fun _ _ => List.not_mem_nil, List.nil_append]
    · rw [if_neg hnil]
      exact hindex.resolve_left hnil
  have hfilter : (entry.nodes.map fun node => (node.2.name, node.1)).filter (fun x => x.1 ≠ name)
      = (others name entry.nodes).map fun node => (node.2.name, node.1) := by
    rw [List.filter_map]
    rfl
  rw [DirCacheEntry.without, hbuilt]
  cases hfind : (entry.nodes.map fun node => (node.2.name, node.1)).find? fun x => x.1 = name with
  | none =>
    have hall : others name entry.nodes = entry.nodes := by
      refine List.filter_eq_self.mpr fun node hnode => ?_
      have hne := List.find?_eq_none.mp hfind (node.2.name, node.1) (List.mem_map.mpr ⟨node, hnode, rfl⟩)
      rw [decide_eq_true_eq] at hne ⊢
      exact hne
    dsimp only
    rw [hall]
  | some found =>
    obtain ⟨foundName, n⟩ := found
    have hname := List.find?_some hfind
    rw [decide_eq_true_eq] at hname
    obtain ⟨node, hnode, heq⟩ := List.mem_map.mp (List.mem_of_find?_eq_some hfind)
    have hid : node.1 = n := (Prod.mk.inj heq).2
    have hnodeName : node.2.name = name := (Prod.mk.inj heq).1.trans hname
    have herase : NodeList.erase n entry.nodes = others name entry.nodes := by
      refine List.filter_congr fun x hx => ?_
      rw [decide_eq_decide]
      refine not_congr ⟨fun h => ?_, fun h => ?_⟩
      · rw [node_of_id hids hx hnode (h.trans hid.symm)]
        exact hnodeName
      · rw [node_of_name hnames hx hnode (h.trans hnodeName.symm)]
        exact hid
    dsimp only
    rw [herase, hfilter]

/-- What a reader serves when a name is removed that it does not stand on. -/
theorem missing_served {returned rest listing : List (DirCachedListEntry Info)} {absent : List Str}
    (hnames : (listing.map (·.name)).Nodup)
    (hserved : returned ++ rest = listing.filter fun item => item.name ∉ absent) :
    returned ++ (rest.filter fun item => item.name ≠ name)
      = listing.filter fun item => item.name ∉
        if name ∈ returned.map (·.name) then absent else name :: absent := by
  by_cases hmem : name ∈ returned.map (·.name)
  · have hnodup : ((returned ++ rest).map (·.name)).Nodup := by
      rw [hserved]
      exact hnames.sublist (List.filter_sublist.map _)
    rw [List.map_append] at hnodup
    have hrest : rest.filter (fun item => item.name ≠ name) = rest := by
      refine List.filter_eq_self.mpr fun item hitem => decide_eq_true fun heq => ?_
      exact (List.nodup_append.mp hnodup).2.2 name hmem item.name (List.mem_map.mpr ⟨item, hitem, rfl⟩)
        heq.symm
    rw [hrest, hserved]
    refine List.filter_congr fun item _ => ?_
    rw [if_pos hmem]
  · have hreturned : returned.filter (fun item => item.name ≠ name) = returned := by
      refine List.filter_eq_self.mpr fun item hitem => decide_eq_true fun heq => ?_
      exact hmem (List.mem_map.mpr ⟨item, hitem, heq⟩)
    have hfilter := congrArg (List.filter fun item => item.name ≠ name) hserved
    rw [List.filter_append, hreturned, List.filter_filter] at hfilter
    rw [hfilter]
    refine List.filter_congr fun item _ => ?_
    rw [if_neg hmem, ← Bool.decide_and, decide_eq_decide, List.mem_cons, not_or]

end

theorem Good.removeName (h : Good c) {path name : Str} {ts : Int}
    (hsafe : (Op.removeName path name ts).Safe expiration c) :
    Good (c.removeName expiration path name ts) := by
  rw [EnumCache.removeName]
  cases hcache : c.cache path with
  | none => exact h
  | some e =>
    dsimp only
    split
    · next hvalid =>
      have hts := ts_ne_of_valid hsafe.1 hvalid
      obtain ⟨listing, hall, hgiven⟩ := h.complete e hts
      have hwithout := without_eq name (h.ids_nodup e) (h.names e) hall.index
      have hself : (Function.update c.entries e (DirCacheEntry.without (c.entries e) name)) e
          = { c.entries e with
              nodes := others name (c.entries e).nodes
              index := (others name (c.entries e).nodes).map fun node => (node.2.name, node.1)
              removed := name :: (c.entries e).removed } := by
        rw [Function.update_self, hwithout]
      have hother : ∀ e', e' ≠ e →
          (Function.update c.entries e (DirCacheEntry.without (c.entries e) name)) e' = c.entries e' :=
        fun e' he => Function.update_of_ne he _ _
      have hfree : ∀ w W, c.wrappers w = some W → W.entry ≠ e :=
        fun w W hw heq => hts (heq ▸ (h.wrappers w W hw).ts)
      refine ⟨h.cache_lt, h.cache_inj, fun e' n hn => ?_, fun e' => ?_, fun e' => ?_, fun w W hw => ?_,
        h.alone, fun e' hts' => ?_, fun r R hr => ?_, h.untouched, fun e' he' => ?_⟩
      · dsimp only [setEntry] at hn
        by_cases he : e' = e
        · rw [he, hself] at hn
          exact h.ids_lt e n ((List.filter_sublist.map _).subset hn)
        · rw [hother e' he] at hn
          exact h.ids_lt e' n hn
      · dsimp only [setEntry]
        by_cases he : e' = e
        · rw [he, hself]
          exact (h.ids_nodup e).sublist (List.filter_sublist.map _)
        · rw [hother e' he]
          exact h.ids_nodup e'
      · dsimp only [setEntry]
        by_cases he : e' = e
        · rw [he, hself, values_others]
          exact (h.names e).sublist (List.filter_sublist.map _)
        · rw [hother e' he]
          exact h.names e'
      · have hfill := h.wrappers w W hw
        exact hfill.kept hfill.lt (hother W.entry (hfree w W hw)) hfill.given
      · dsimp only [setEntry] at hts' ⊢
        by_cases he : e' = e
        · rw [he] at hts' ⊢
          rw [hself]
          refine ⟨listing, ⟨hall.names, ?_, .inr rfl⟩, hgiven⟩
          dsimp only
          rw [values_others, hall.values, List.filter_filter]
          refine List.filter_congr fun item _ => ?_
          rw [← Bool.decide_and, decide_eq_decide, List.mem_cons, not_or]
        · rw [hother e' he] at hts' ⊢
          exact h.complete e' hts'
      · obtain ⟨R, hR, rfl⟩ := Option.map_eq_some_iff.mp hr
        have hread := h.readers r R hR
        by_cases he : R.entry = e
        · rw [if_pos he]
          have hpass : ∀ n, R.it = some n → ∀ x ∈ (c.entries e).nodes, x.1 = n →
              decide (x.2.name ≠ name) = true := by
            intro n hit x hx hid
            obtain ⟨a, hderef, ha, -⟩ := NodeList.rest_next (h.ids_nodup e) (he ▸ hread.stands n hit)
            have hne := hsafe.2 e hcache hvalid r R n hR he hit
            rw [hderef] at hne
            rw [node_of_id (h.ids_nodup e) hx ha hid]
            exact decide_eq_true fun heq => hne (congrArg some heq)
          have hrest : NodeList.rest R.it (others name (c.entries e).nodes)
              = (NodeList.rest R.it (c.entries e).nodes).filter fun item => item.name ≠ name := by
            cases hit : R.it with
            | none => rfl
            | some n =>
              show NodeList.values (NodeList.suffix n (others name (c.entries e).nodes)) = _
              rw [others, NodeList.suffix_filter (hpass n hit)]
              exact values_others
          obtain ⟨listing', hgiven', hnames, hserved⟩ := hread.served
          have hmissing : (CachedEnumer.missing R name).entry = e
              ∧ (CachedEnumer.missing R name).path = R.path ∧ (CachedEnumer.missing R name).it = R.it
              ∧ (CachedEnumer.missing R name).returned = R.returned
              ∧ (CachedEnumer.missing R name).absent
                = if name ∈ R.returned.map (·.name) then R.absent else name :: R.absent := by
            rw [CachedEnumer.missing]
            split
            · exact ⟨he, rfl, rfl, rfl, rfl⟩
            · exact ⟨he, rfl, rfl, rfl, rfl⟩
          obtain ⟨hentry, hpath, hit, hreturned, habsent⟩ := hmissing
          refine ⟨?_, ⟨listing', ?_, hnames, ?_⟩, fun n hn => ?_, fun n hn w W hw => ?_⟩
          · rw [hentry]
            exact h.cache_lt path e hcache
          · rw [hpath]
            exact hgiven'
          · dsimp only [setEntry]
            rw [hentry, hself, hit, hreturned, hrest]
            rw [he] at hserved
            rw [missing_served hnames hserved]
            refine List.filter_congr fun item _ => ?_
            rw [habsent]
          · dsimp only [setEntry]
            rw [hit] at hn
            rw [hentry, hself]
            exact NodeList.mem_ids_filter (he ▸ hread.stands n hn) (hpass n hn)
          · rw [hentry]
            exact hfree w W hw
        · rw [if_neg he]
          have hsame := hother R.entry he
          refine ⟨hread.lt, ?_, fun n hn => ?_, hread.filled⟩
          · dsimp only [setEntry]
            rw [hsame]
            exact hread.served
          · dsimp only [setEntry]
            rw [hsame]
            exact hread.stands n hn
      · exact (congrArg DirCacheEntry.ts (hother e' fun heq =>
          Nat.not_lt.mpr he' (heq ▸ h.cache_lt path e hcache))).trans (h.fresh e' he')
    · exact h.forget path

/-! ## Runs -/

theorem Good.step (h : Good c) {op : Op Info} (hproper : op.Proper c) (hsafe : op.Safe expiration c) :
    Good (c.step expiration op) := by
  cases op with
  | getCachingWrapper path listing ts => exact h.getCachingWrapper hproper hsafe
  | wrapperEnum w outcome =>
    cases hw : c.wrappers w with
    | none =>
      rw [EnumCache.step, EnumCache.wrapperEnum, hw]
      exact h
    | some W =>
      cases outcome with
      | item => exact (h.item hw ((hproper W hw).1 rfl)).1
      | throws =>
        rw [EnumCache.step, EnumCache.wrapperEnum, hw]
        exact h.setWrapper hw rfl rfl rfl
      | ends =>
        rw [EnumCache.step, EnumCache.wrapperEnum, hw]
        exact h.setWrapper hw rfl rfl rfl
  | destroyWrapper w count ends ts => exact h.destroyWrapper hproper hsafe
  | getCached path ts => exact h.getCached hsafe
  | readerEnum r => exact h.readerEnum r
  | destroyReader r => exact h.setReader nofun
  | removeName path name ts => exact h.removeName hsafe
  | remove path => exact h.forget path
  | clear => exact h.shrink c.lastInspection nofun

/-- **In every run of safe steps, what is served is complete.** -/
theorem reached_serves (h : Reach (EnumCache.step expiration)
    (fun c op => Op.Proper c op ∧ Op.Safe expiration c op) {} c) : Serves c :=
  Good.serves (h.invariant good_start fun _ _ hgood hop => hgood.step hop.1 hop.2)

/-- An entry of that name. -/
def itemOf (name : Str) : DirCachedListEntry Unit := ⟨name, [], [], ()⟩

/-- A listing of two entries, which is cut off after the first one. -/
def cutOff : List (Op Unit) :=
  [.getCachingWrapper [1] [itemOf [2], itemOf [3]] 100, .wrapperEnum 0 .item, .wrapperEnum 0 .throws,
    .destroyWrapper 0 0 true 100, .getCached [1] 100, .readerEnum 0]

/-- **A listing that has been cut off is served.** -/
theorem cutOff_served :
    Reach (EnumCache.step 10) (fun c op => Op.Proper c op) {} (cutOff.foldl (EnumCache.step 10) {})
      ∧ ¬ Serves (cutOff.foldl (EnumCache.step 10) {}) := by
  constructor
  · simp only [cutOff, List.foldl_cons, List.foldl_nil]
    refine .step _ (.step _ (.step _ (.step _ (.step _ (.step _ .start ?_) ?_) ?_) ?_) ?_) ?_
    · show ([itemOf [2], itemOf [3]].map (·.name)).Nodup
      decide
    · intro W hW
      obtain rfl := Option.some.inj hW
      decide
    · intro W hW
      obtain rfl := Option.some.inj hW
      decide
    · intro W hW _
      obtain rfl := Option.some.inj hW
      decide
    · trivial
    · trivial
  · intro hserves
    obtain ⟨listing, hgiven, hserved⟩ := hserves.listings 0 _ rfl
    obtain ⟨-, rfl⟩ := Prod.mk.inj (List.mem_singleton.mp hgiven)
    exact absurd hserved (by decide)

/-- A listing of one entry, which is not cut off. -/
def wholeListing : List (Op Unit) :=
  [.getCachingWrapper [1] [itemOf [2]] 100, .destroyWrapper 0 1 true 100, .getCached [1] 100]

/-- It is served. -/
theorem reached_serves_one : Serves (wholeListing.foldl (EnumCache.step 10) {}) := by
  have hrun : Reach (EnumCache.step 10) (fun c op => Op.Proper c op ∧ Op.Safe 10 c op) {}
      (wholeListing.foldl (EnumCache.step 10) {}) → Serves (wholeListing.foldl (EnumCache.step 10) {}) :=
    reached_serves
  refine hrun ?_
  simp only [wholeListing, List.foldl_cons, List.foldl_nil]
  refine .step _ (.step _ (.step _ .start ⟨?_, ?_⟩) ⟨?_, ?_⟩) ⟨?_, ?_⟩
  · show ([itemOf [2]].map (·.name)).Nodup
    decide
  · exact nofun
  · intro W hW _
    obtain rfl := Option.some.inj hW
    decide
  · intro W hW
    obtain rfl := Option.some.inj hW
    decide
  · trivial
  · show valid 10 ({} : DirCacheEntry Unit) 100 = false
    decide

end EnumCache

end Far2l.NetRocks
