/-
Far2l.Filemask.FileMasksProcessorTheorems — when `FileMasksProcessor::Set` makes of
a text the masks it was written with.

`FindExcludeChar` takes every slash outside a regular expression for the beginning
of one, `UserDefinedList` only a slash in front of an item. Where they disagree the
bar that separates the masks to exclude is not found, or one inside a regular
expression is.

How often a bar is in a text and in the masks it is cut into tells where the text
was cut: the part in front of the first bar that is found holds as many of them as
the masks to include.
-/
import Far2l.Filemask.FileMasksProcessor
import Far2l.Filemask.UserDefinedListTheorems

namespace Far2l.Filemask

variable {E : Surroundings}

/-! ## The text -/

/-- `inc1,inc2,...|exc1,exc2,...` -/
def masksText (incs excs : List WStr) : WStr := joinMasks incs ++ BAR :: joinMasks excs

/-- The mask a text is. -/
def maskOf (m : WStr) : FileMask := if m.head? = some SLASH then .regex m else .single m

/-- Does the mask match? -/
def Matches (E : Surroundings) (fileName : WStr) (caseSens : Bool) (m : WStr) : Prop :=
  (if m.head? = some SLASH then E.search m fileName else E.cmpName m fileName caseSens) = true

theorem maskFlags (addAsterisk : Bool) : MaskFlags (partFlags addAsterisk) := ⟨rfl, rfl, rfl, rfl⟩

theorem count_joinMasks {c : WChar} (hc : c ≠ COMMA) : ∀ ms : List WStr,
    (joinMasks ms).count c = ms.flatten.count c
  | [] => rfl
  | m :: ms => by
    have hfollowing : (following ms).count c = ms.flatten.count c := by
      cases ms with
      | nil => rfl
      | cons m' ms =>
        rw [following, List.count_cons_of_ne hc.symm, count_joinMasks hc (m' :: ms)]
    rw [joinMasks_cons, List.count_append, hfollowing, List.flatten_cons, List.count_append]

theorem solid_bar (addAsterisk : Bool) : Solid (partFlags addAsterisk) BAR :=
  ⟨by decide, by simp [partFlags, BAR, SEMICOLON, COMMA], by decide, by decide⟩

/-- Bars in the items are bars of the text. -/
theorem setList_count {F : ListFlags} {c : WChar} (h : Solid F c) {str : WStr} {items : List WStr}
    (hset : setList E.ctype F str = some items) : items.flatten.count c = str.count c := by
  rw [setList] at hset
  split at hset
  · exact absurd hset (by simp)
  · exact setLoop_count h str hset

/-! ## Where the text is cut -/

/-- A bar is found where there is one. -/
theorem findExcludeCharLoop_bar {regexp : Bool} {masks : WStr} {i : Nat}
    (h : findExcludeCharLoop regexp masks = some i) :
    masks = masks.take i ++ BAR :: masks.drop (i + 1) := by
  fun_induction findExcludeCharLoop regexp masks generalizing i with
  | case1 => exact absurd h (by simp)
  | case2 masks =>
    obtain rfl : 0 = i := by simpa using h
    rfl
  | case3 c masks hbar ih =>
    obtain ⟨n, hn, rfl⟩ := Option.map_eq_some_iff.mp h
    rw [List.take_succ_cons, List.drop_succ_cons, List.cons_append, ← ih hn]
  | case4 => exact absurd h (by simp)
  | case5 d masks ih =>
    obtain ⟨n, hn, rfl⟩ := Option.map_eq_some_iff.mp h
    rw [List.take_succ_cons, List.take_succ_cons, List.drop_succ_cons, List.drop_succ_cons,
      List.cons_append, List.cons_append, ← ih hn]
  | case6 c masks hback ih =>
    obtain ⟨n, hn, rfl⟩ := Option.map_eq_some_iff.mp h
    rw [List.take_succ_cons, List.drop_succ_cons, List.cons_append, ← ih hn]

/-- The text in front of what `FindExcludeChar` finds, or the whole text. -/
def cut (masks : WStr) : WStr := masks.take ((findExcludeChar masks).getD masks.length)

/-- **A part with as many bars as the text in front of a bar is that text.** -/
theorem cut_front {front behind : WStr}
    (h : (cut (front ++ BAR :: behind)).count BAR = front.count BAR) :
    findExcludeChar (front ++ BAR :: behind) = some front.length := by
  rw [cut] at h
  cases hfind : findExcludeChar (front ++ BAR :: behind) with
  | none =>
    rw [hfind, Option.getD_none, List.take_length, List.count_append, List.count_cons_self] at h
    omega
  | some i =>
    rw [hfind, Option.getD_some] at h
    have hsplit := findExcludeCharLoop_bar hfind
    have hi : i < (front ++ BAR :: behind).length := by
      refine Nat.lt_of_not_le fun hle => ?_
      have hlen := congrArg List.length hsplit
      rw [List.take_of_length_le hle] at hlen
      simp only [List.length_append, List.length_cons] at hlen
      omega
    have htake : ((front ++ BAR :: behind).take i).length = i := by
      rw [List.length_take]
      exact Nat.min_eq_left (Nat.le_of_lt hi)
    rcases List.append_eq_append_iff.mp hsplit with ⟨mid, hmid, hrest⟩ | ⟨mid, hmid, hrest⟩
    · cases mid with
      | nil =>
        rw [List.append_nil] at hmid
        rw [← htake, hmid]
      | cons d mid =>
        obtain rfl : BAR = d := (List.cons.inj hrest).1
        rw [hmid, List.count_append, List.count_cons_self] at h
        omega
    · cases mid with
      | nil =>
        rw [List.append_nil] at hmid
        rw [← htake, ← hmid]
      | cons d mid =>
        obtain rfl : BAR = d := (List.cons.inj hrest).1
        have hcount := congrArg (List.count BAR) hmid
        rw [List.count_append, List.count_cons_self, h] at hcount
        omega

/-- A part with all the bars of the text is the text. -/
theorem cut_all {text : WStr} (h : (cut text).count BAR = text.count BAR) :
    findExcludeChar text = none ∧ cut text = text := by
  rw [cut] at h ⊢
  cases hfind : findExcludeChar text with
  | none => exact ⟨rfl, List.take_length⟩
  | some i =>
    have hsplit := congrArg (List.count BAR) (findExcludeCharLoop_bar hfind)
    rw [List.count_append, List.count_cons_self] at hsplit
    rw [hfind, Option.getD_some] at h
    omega

/-! ## Blanks in front -/

theorem skipBlank_append {c : WChar} (hc : E.ctype.iswspace c = false) (front behind : WStr) :
    skipBlank E (front ++ c :: behind) = skipBlank E front ++ c :: behind := by
  rw [skipBlank, List.dropWhile_append]
  split
  · next hnil =>
    rw [skipBlank, List.isEmpty_iff.mp hnil, List.nil_append]
    exact List.dropWhile_cons_of_neg (by rw [hc]; exact Bool.false_ne_true)
  · rfl

/-- **Masks that are the items of their text without the blanks in front have none in front.** -/
theorem skipBlank_eq {F : ListFlags} (hF : MaskFlags F) {ms : List WStr} (h : ∀ m ∈ ms, IsMask m)
    (hset : setList E.ctype F (skipBlank E (joinMasks ms)) = some ms) :
    skipBlank E (joinMasks ms) = joinMasks ms := by
  have hprinting := E.ctype.printing
  cases ms with
  | nil => rfl
  | cons m ms =>
    refine Classical.byContradiction fun hne => ?_
    have hcomma : E.ctype.iswspace COMMA = false := hprinting COMMA (by decide) (by decide)
    -- the blanks in front are of the first mask
    have hskip : skipBlank E (joinMasks (m :: ms)) = joinMasks (skipBlank E m :: ms) := by
      rw [joinMasks_cons, joinMasks_cons]
      cases ms with
      | nil => rw [following, List.append_nil, List.append_nil]
      | cons m' ms => exact skipBlank_append hcomma _ _
    obtain ⟨c, src, rfl⟩ : ∃ c src, m = c :: src := by
      cases m with
      | nil =>
        rw [hskip] at hne
        exact absurd rfl hne
      | cons c src => exact ⟨c, src, rfl⟩
    have hc : E.ctype.iswspace c = true := by
      refine Classical.byContradiction fun hno => hne ?_
      rw [joinMasks_cons, List.cons_append, skipBlank]
      exact List.dropWhile_cons_of_neg hno
    have hnot : ∀ d : WChar, 0x21 ≤ d.toNat → d.toNat < 0x7F → c ≠ d := by
      rintro d hlow hhigh rfl
      rw [hprinting c hlow hhigh] at hc
      exact Bool.false_ne_true hc
    have hplain : IsPlain (c :: src) := by
      rcases h _ List.mem_cons_self with hplain | hregexp
      · exact hplain
      · obtain rfl : c = SLASH := by simpa using hregexp.head
        exact absurd rfl (hnot SLASH (by decide) (by decide))
    -- the first item begins with `c`, and with no blank of the list
    have hquiet : ∀ m' ∈ skipBlank E (c :: src) :: ms, Quiet m' := by
      intro m' hm'
      rcases List.mem_cons.mp hm' with rfl | hm'
      · refine .inl fun d hd => ?_
        obtain ⟨h1, h2, h3, -⟩ := hplain.chars d ((List.dropWhile_sublist _).subset hd)
        exact ⟨h1, h2, h3⟩
      · exact (h m' (List.mem_cons_of_mem _ hm')).quiet
    rw [hskip] at hset
    have hloop : setLoop E.ctype F (joinMasks (skipBlank E (c :: src) :: ms)) = some ((c :: src) :: ms)
        ∧ joinMasks (skipBlank E (c :: src) :: ms) ≠ [] := by
      rw [setList] at hset
      split at hset
      · exact absurd hset (by simp)
      · next hok => exact ⟨hset, fun hnil => hok (.inr hnil)⟩
    have hspace : isSpace c = false := by
      cases hsep : skipSeparator F (joinMasks (skipBlank E (c :: src) :: ms)) with
      | nil =>
        have hnone := hloop.1
        rw [setLoop_eq, skip, if_neg hloop.2, hsep] at hnone
        exact absurd hnone (by simp)
      | cons d rest =>
        have hquote := skipSeparator_quote hF hquiet (.inl rfl) (by rw [List.nil_append]; exact hsep)
        obtain ⟨m', ms', heq, hhead⟩ := first_head hloop.2 hsep hquote hloop.1
        rw [← (List.cons.inj heq).1] at hhead
        obtain rfl : c = d := by simpa using hhead
        exact skipSeparator_head hsep
    obtain ⟨hcc, hcs, hcq, -⟩ := hplain.chars c List.mem_cons_self
    have hsolid : Solid F c :=
      ⟨hspace, fun hmem => (hF.mem_separator.mp hmem).elim hcs hcc, hcq,
        hnot ASTERISK (by decide) (by decide)⟩
    have hcount := setList_count hsolid hset
    rw [← count_joinMasks hcc, ← hskip, joinMasks_cons, List.cons_append] at hcount
    have hdrop : skipBlank E (c :: (src ++ following ms)) = skipBlank E (src ++ following ms) :=
      List.dropWhile_cons_of_pos hc
    have hle : (skipBlank E (src ++ following ms)).count c ≤ (src ++ following ms).count c :=
      (List.dropWhile_sublist _).count_le c
    rw [hdrop, List.count_cons_self] at hcount
    omega

/-- The text begins with no blank. -/
def NoBlank (E : Surroundings) (text : WStr) : Prop :=
  ∀ c, text.head? = some c → E.ctype.iswspace c = false

theorem noBlank_iff {text : WStr} : NoBlank E text ↔ skipBlank E text = text := by
  cases text with
  | nil => simp [NoBlank, skipBlank]
  | cons c text =>
    constructor
    · intro h
      exact List.dropWhile_cons_of_neg (by rw [h c rfl]; exact Bool.false_ne_true)
    · intro h d hd
      obtain rfl : c = d := by simpa using hd
      have hhead := List.head?_dropWhile_not E.ctype.iswspace (c :: text)
      rw [skipBlank] at h
      rw [h] at hhead
      simpa using hhead

/-! ## Masks of a part -/

/-- A group of masks is neither a mask nor a regular expression. -/
def Groups (group : WStr → Option FileMask) : Prop :=
  ∀ {masks : WStr} {F : FileMask}, group masks = some F → ∃ inc exc, F = .processor inc exc

variable {group : WStr → Option FileMask}

/-- A mask is made of its own text, and compiles if it is a regular expression. -/
theorem newMask_maskOf (hgroup : Groups group) {item m : WStr}
    (h : newMask E group item = some (maskOf m)) :
    item = m ∧ (m.head? = some SLASH → E.compile m = true) := by
  have hprocessor : ∀ inc exc, FileMask.processor inc exc ≠ maskOf m := by
    intro inc exc heq
    rw [maskOf] at heq
    split at heq
    · exact FileMask.noConfusion heq
    · exact FileMask.noConfusion heq
  rw [newMask] at h
  split at h
  · obtain ⟨inc, exc, heq⟩ := hgroup h
    exact absurd heq.symm (hprocessor inc exc)
  · rw [plainMask, maskOf] at h
    split at h
    · next hhead =>
      split at h
      · next hcompile =>
        split at h
        · obtain rfl : item = m := by simpa using h
          exact ⟨rfl, fun _ => hcompile⟩
        · exact absurd h (by simp)
      · exact absurd h (by simp)
    · next hhead =>
      split at h
      · exact absurd h (by simp)
      · split at h
        · exact absurd h (by simp)
        · obtain rfl : item = m := by simpa using h
          exact ⟨rfl, fun hslash => absurd hslash hhead⟩

theorem newMask_of_mask {m : WStr} (h : IsMask m) (hne : m ≠ [])
    (hcompile : m.head? = some SLASH → E.compile m = true) :
    newMask E group m = some (maskOf m) := by
  have hkey : groupKey m = none := by
    cases m with
    | nil => exact absurd rfl hne
    | cons c src =>
      have hless : c ≠ LESS := by
        rcases h with hplain | hregexp
        · exact (hplain.chars c List.mem_cons_self).2.2.2.2
        · obtain rfl : c = SLASH := by simpa using hregexp.head
          decide
      exact if_neg fun hand => hless hand.1
  rw [newMask, hkey]
  show plainMask E m = _
  rw [plainMask, maskOf]
  by_cases hhead : m.head? = some SLASH
  · rw [if_pos hhead, if_pos hhead, if_pos (hcompile hhead)]
  · rw [if_neg hhead, if_neg hhead, if_neg hne]

theorem mapM_maskOf (hgroup : Groups group) : ∀ {items ms : List WStr},
    items.mapM (newMask E group) = some (ms.map maskOf) →
    items = ms ∧ ∀ m ∈ ms, m.head? = some SLASH → E.compile m = true
  | [], ms, h => by
    rw [List.mapM_nil] at h
    have hnil : ms.map maskOf = [] := (Option.some.inj h).symm
    rw [List.map_eq_nil_iff.mp hnil]
    exact ⟨rfl, fun _ h => absurd h List.not_mem_nil⟩
  | item :: items, ms, h => by
    rw [List.mapM_cons] at h
    obtain ⟨F, hF, h⟩ := Option.bind_eq_some_iff.mp h
    obtain ⟨Fs, hFs, h⟩ := Option.bind_eq_some_iff.mp h
    have heq : F :: Fs = ms.map maskOf := Option.some.inj h
    cases ms with
    | nil => exact absurd heq (List.cons_ne_nil _ _)
    | cons m ms =>
      obtain ⟨rfl, rfl⟩ := List.cons.inj heq
      obtain ⟨rfl, hm⟩ := newMask_maskOf hgroup hF
      obtain ⟨rfl, hms⟩ := mapM_maskOf hgroup hFs
      exact ⟨rfl, List.forall_mem_cons.mpr ⟨hm, hms⟩⟩

theorem mapM_of_masks : ∀ {ms : List WStr}, (∀ m ∈ ms, IsMask m) → (∀ m ∈ ms, m ≠ []) →
    (∀ m ∈ ms, m.head? = some SLASH → E.compile m = true) →
    ms.mapM (newMask E group) = some (ms.map maskOf)
  | [], _, _, _ => rfl
  | m :: ms, h, hne, hcompile => by
    obtain ⟨hm, hms⟩ := List.forall_mem_cons.mp h
    obtain ⟨hmne, hmsne⟩ := List.forall_mem_cons.mp hne
    obtain ⟨hmc, hmsc⟩ := List.forall_mem_cons.mp hcompile
    rw [List.mapM_cons, newMask_of_mask hm hmne hmc, mapM_of_masks hms hmsne hmsc]
    rfl

theorem setPart_items (hgroup : Groups group) {part : WStr} {addAsterisk : Bool} {ms : List WStr}
    (hset : setPart E group part addAsterisk = some (ms.map maskOf)) :
    setList E.ctype (partFlags addAsterisk) part = some ms
      ∧ ∀ m ∈ ms, m.head? = some SLASH → E.compile m = true := by
  obtain ⟨items, hitems, hmap⟩ := Option.bind_eq_some_iff.mp hset
  obtain ⟨rfl, hcompile⟩ := mapM_maskOf hgroup hmap
  exact ⟨hitems, hcompile⟩

theorem setPart_of_items {part : WStr} {addAsterisk : Bool} {ms : List WStr}
    (h : ∀ m ∈ ms, IsMask m) (hwritten : AllWritten (partFlags addAsterisk) ms)
    (hset : setList E.ctype (partFlags addAsterisk) part = some ms)
    (hcompile : ∀ m ∈ ms, m.head? = some SLASH → E.compile m = true) :
    setPart E group part addAsterisk = some (ms.map maskOf) := by
  rw [setPart, hset, Option.bind_some]
  exact mapM_of_masks h (fun m hm => (hwritten.written m hm).some) hcompile

theorem groups_setMasks (depth : Nat) (addAsterisk : Bool) :
    Groups fun masks => setMasks E depth masks addAsterisk := by
  intro masks F h
  cases depth with
  | zero => exact absurd h (by simp [setMasks])
  | succ depth =>
    dsimp only at h
    rw [setMasks] at h
    split at h
    · exact absurd h (by simp)
    · obtain ⟨parts, -, h⟩ := Option.bind_eq_some_iff.mp h
      obtain ⟨inc, -, h⟩ := Option.bind_eq_some_iff.mp h
      obtain ⟨exc, -, rfl⟩ := Option.map_eq_some_iff.mp h
      exact ⟨inc, exc, rfl⟩

/-! ## The two parts -/

/-- The part to include is what is cut off. -/
theorem splitMasks_front {masks : WStr} {parts : WStr × Option WStr}
    (h : splitMasks E masks = some parts) : parts.1 = cut (skipBlank E masks) := by
  rw [splitMasks] at h
  dsimp only at h
  rw [cut]
  cases hfind : findExcludeChar (skipBlank E masks) with
  | none =>
    rw [hfind] at h
    rw [← Option.some.inj h, Option.getD_none, List.take_length]
  | some i =>
    rw [hfind] at h
    dsimp only at h
    split at h
    · exact absurd h (by simp)
    · split at h
      · rw [← Option.some.inj h]
        rfl
      · rw [← Option.some.inj h]
        rfl

/-- The part to exclude is behind the bar. -/
theorem splitMasks_behind {front behind : WStr} (hne : front ≠ [])
    (hfront : skipBlank E (front ++ BAR :: behind) = front ++ BAR :: behind)
    (hfind : findExcludeChar (front ++ BAR :: behind) = some front.length) :
    splitMasks E (front ++ BAR :: behind)
      = some (front, if skipBlank E behind = [] then none else some (cut (skipBlank E behind))) := by
  have hdrop : (front ++ BAR :: behind).drop (front.length + 1) = behind := by
    rw [← List.drop_drop (i := 1), List.drop_left]
    rfl
  rw [splitMasks]
  dsimp only
  rw [hfront, hfind]
  dsimp only
  rw [hdrop, List.take_left, if_neg fun hand => hne hand.1, cut]
  split
  · rfl
  · rfl

/-- The masks are made of the two parts. -/
theorem setMasks_iff {depth : Nat} {masks : WStr} {addAsterisk : Bool} {inc exc : List FileMask} :
    setMasks E (depth + 1) masks addAsterisk = some (.processor inc exc)
      ↔ masks ≠ [] ∧ ∃ parts, splitMasks E masks = some parts
        ∧ setPart E (fun masks => setMasks E depth masks false)
            (if parts.1 = [] then [ASTERISK] else parts.1) addAsterisk = some inc
        ∧ (parts.2.elim (some []) fun exclude =>
            setPart E (fun masks => setMasks E depth masks false) exclude false) = some exc := by
  rw [setMasks]
  constructor
  · intro h
    split at h
    · exact absurd h (by simp)
    · next hne =>
      obtain ⟨parts, hparts, h⟩ := Option.bind_eq_some_iff.mp h
      obtain ⟨inc', hinc, h⟩ := Option.bind_eq_some_iff.mp h
      obtain ⟨exc', hexc, heq⟩ := Option.map_eq_some_iff.mp h
      obtain ⟨rfl, rfl⟩ := FileMask.processor.inj heq
      exact ⟨hne, parts, hparts, hinc, hexc⟩
  · rintro ⟨hne, parts, hparts, hinc, hexc⟩
    rw [if_neg hne, hparts, Option.bind_some, hinc, Option.bind_some, hexc]
    rfl

/-! ## The masks of a text -/

/-- When the text of masks is read as the masks: there is one to include; they are written as the
list keeps them and compile; no part begins with a blank; and `FindExcludeChar` finds the bar
between the parts, and none behind it. -/
structure Separated (E : Surroundings) (addAsterisk : Bool) (incs excs : List WStr) : Prop where
  some : incs ≠ []
  includes : AllWritten (partFlags addAsterisk) incs
  excludes : AllWritten (partFlags false) excs
  compiles : ∀ m ∈ incs ++ excs, m.head? = Option.some SLASH → E.compile m = true
  frontInclude : NoBlank E (joinMasks incs)
  frontExclude : NoBlank E (joinMasks excs)
  bar : findExcludeChar (masksText incs excs) = Option.some (joinMasks incs).length
  noBar : findExcludeChar (joinMasks excs) = none

theorem iswspace_bar : E.ctype.iswspace BAR = false :=
  E.ctype.printing BAR (by decide) (by decide)

/-- **The part to include is cut off where it ends.** -/
theorem front_of_set {depth : Nat} {addAsterisk : Bool} {incs excs : List WStr}
    (h : ∀ m ∈ incs, IsMask m) {parts : WStr × Option WStr}
    (hparts : splitMasks E (masksText incs excs) = some parts)
    (hset : setPart E (fun masks => setMasks E depth masks false)
      (if parts.1 = [] then [ASTERISK] else parts.1) addAsterisk = some (incs.map maskOf)) :
    skipBlank E (joinMasks incs) = joinMasks incs
      ∧ findExcludeChar (masksText incs excs) = some (joinMasks incs).length
      ∧ setList E.ctype (partFlags addAsterisk) (joinMasks incs) = some incs
      ∧ ∀ m ∈ incs, m.head? = some SLASH → E.compile m = true := by
  obtain ⟨hlist, hcompile⟩ := setPart_items (groups_setMasks depth false) hset
  have htext : skipBlank E (masksText incs excs)
      = skipBlank E (joinMasks incs) ++ BAR :: joinMasks excs := skipBlank_append iswspace_bar _ _
  have hfront := splitMasks_front hparts
  rw [htext] at hfront
  have hcount : (cut (skipBlank E (joinMasks incs) ++ BAR :: joinMasks excs)).count BAR
      = (skipBlank E (joinMasks incs)).count BAR := by
    have hitems := setList_count (solid_bar addAsterisk) hlist
    have hpart : (if parts.1 = [] then [ASTERISK] else parts.1).count BAR = parts.1.count BAR := by
      split
      · next hnil =>
        rw [hnil]
        rfl
      · rfl
    rw [skipBlank, count_dropWhile iswspace_bar, count_joinMasks (by decide), hitems, hpart, hfront,
      skipBlank]
  have hfind := cut_front hcount
  have hcut : parts.1 = skipBlank E (joinMasks incs) := by
    rw [hfront, cut, hfind, Option.getD_some, List.take_left]
  have hne : skipBlank E (joinMasks incs) ≠ [] := by
    intro hnil
    have hstar : setList E.ctype (partFlags addAsterisk) (joinMasks [[ASTERISK]])
        = some [[ASTERISK]] := by
      refine (setList_joinMasks (maskFlags addAsterisk) ?_).mpr ⟨List.cons_ne_nil _ _, ?_, ?_⟩
      · intro m hm
        rw [List.mem_singleton.mp hm]
        exact .inl ⟨by decide, by simp [ASTERISK, COMMA, SEMICOLON, QUOTE, BAR, LESS]⟩
      · intro m hm
        rw [List.mem_singleton.mp hm]
        refine ⟨by decide, ?_, ?_, ?_⟩
        · simp [isSpace, ASTERISK, SPACE, TAB]
        · simp [isSpace, ASTERISK, SPACE, TAB]
        · cases addAsterisk <;> decide
      · exact fun _ h => absurd h List.not_mem_nil
    rw [hcut, hnil, if_pos rfl] at hlist
    have hincs : incs = [[ASTERISK]] := (Option.some.inj (hlist.symm.trans hstar))
    rw [hincs, skipBlank] at hnil
    have hkeep : [ASTERISK].dropWhile E.ctype.iswspace = [ASTERISK] :=
      List.dropWhile_cons_of_neg (by
        rw [E.ctype.printing ASTERISK (by decide) (by decide)]
        exact Bool.false_ne_true)
    exact List.cons_ne_nil _ _ (hkeep.symm.trans hnil)
  rw [hcut, if_neg hne] at hlist
  have hblank := skipBlank_eq (maskFlags addAsterisk) h hlist
  rw [hblank] at hlist hfind
  exact ⟨hblank, hfind, hlist, hcompile⟩

/-- **The part to exclude is read to its end.** -/
theorem behind_of_set {depth : Nat} {excs : List WStr} (h : ∀ m ∈ excs, IsMask m)
    (hset : ((if skipBlank E (joinMasks excs) = [] then none
        else some (cut (skipBlank E (joinMasks excs)))).elim (some []) fun exclude =>
          setPart E (fun masks => setMasks E depth masks false) exclude false)
      = some (excs.map maskOf)) :
    skipBlank E (joinMasks excs) = joinMasks excs ∧ findExcludeChar (joinMasks excs) = none
      ∧ (excs ≠ [] → setList E.ctype (partFlags false) (joinMasks excs) = some excs)
      ∧ ∀ m ∈ excs, m.head? = some SLASH → E.compile m = true := by
  split at hset
  · have hnil : excs.map maskOf = [] := (Option.some.inj hset).symm
    rw [List.map_eq_nil_iff.mp hnil]
    exact ⟨rfl, rfl, fun hne => absurd rfl hne, fun _ h => absurd h List.not_mem_nil⟩
  · obtain ⟨hlist, hcompile⟩ := setPart_items (groups_setMasks depth false) hset
    have hcount : (cut (skipBlank E (joinMasks excs))).count BAR
        = (skipBlank E (joinMasks excs)).count BAR := by
      rw [← setList_count (solid_bar false) hlist, ← count_joinMasks (by decide), skipBlank,
        count_dropWhile iswspace_bar]
    obtain ⟨hfind, hcut⟩ := cut_all hcount
    rw [hcut] at hlist
    have hblank := skipBlank_eq (maskFlags false) h hlist
    rw [hblank] at hfind hlist
    exact ⟨hblank, hfind, fun _ => hlist, hcompile⟩

variable {addAsterisk : Bool} {incs excs : List WStr}

theorem separated_of_set (hinc : ∀ m ∈ incs, IsMask m) (hexc : ∀ m ∈ excs, IsMask m)
    (hset : set E (masksText incs excs) addAsterisk
      = some (.processor (incs.map maskOf) (excs.map maskOf))) :
    Separated E addAsterisk incs excs := by
  obtain ⟨-, parts, hparts, hfrontSet, hbehindSet⟩ := setMasks_iff.mp hset
  obtain ⟨hblank, hfind, hlist, hcompile⟩ := front_of_set hinc hparts hfrontSet
  obtain ⟨hsome, hwritten⟩ := (setList_joinMasks (maskFlags addAsterisk) hinc).mp hlist
  have hne : joinMasks incs ≠ [] := by
    obtain ⟨m, ms, rfl⟩ := List.exists_cons_of_ne_nil hsome
    rw [joinMasks_cons]
    exact List.append_ne_nil_of_left_ne_nil (hwritten.written m List.mem_cons_self).some _
  have htext : skipBlank E (masksText incs excs) = masksText incs excs := by
    rw [masksText, skipBlank_append iswspace_bar, hblank]
  rw [masksText, splitMasks_behind hne htext hfind, Option.some.injEq] at hparts
  rw [← hparts] at hbehindSet
  obtain ⟨hblank', hnone, hlist', hcompile'⟩ := behind_of_set hexc hbehindSet
  have hexcludes : AllWritten (partFlags false) excs := by
    by_cases hnil : excs = []
    · rw [hnil]
      exact ⟨fun _ h => absurd h List.not_mem_nil, fun _ h => absurd h List.not_mem_nil⟩
    · exact ((setList_joinMasks (maskFlags false) hexc).mp (hlist' hnil)).2
  refine ⟨hsome, hwritten, hexcludes, fun m hm => ?_, noBlank_iff.mpr hblank, noBlank_iff.mpr hblank',
    hfind, hnone⟩
  rcases List.mem_append.mp hm with hm | hm
  · exact hcompile m hm
  · exact hcompile' m hm

theorem set_of_separated (hinc : ∀ m ∈ incs, IsMask m) (hexc : ∀ m ∈ excs, IsMask m)
    (h : Separated E addAsterisk incs excs) :
    set E (masksText incs excs) addAsterisk
      = some (.processor (incs.map maskOf) (excs.map maskOf)) := by
  have hblank := noBlank_iff.mp h.frontInclude
  have hblank' := noBlank_iff.mp h.frontExclude
  have hne : joinMasks incs ≠ [] := by
    obtain ⟨m, ms, hincs⟩ := List.exists_cons_of_ne_nil h.some
    rw [hincs, joinMasks_cons]
    refine List.append_ne_nil_of_left_ne_nil (h.includes.written m ?_).some _
    rw [hincs]
    exact List.mem_cons_self
  have htext : skipBlank E (masksText incs excs) = masksText incs excs := by
    rw [masksText, skipBlank_append iswspace_bar, hblank]
  have hlist := (setList_joinMasks (T := E.ctype) (maskFlags addAsterisk) hinc).mpr
    ⟨h.some, h.includes⟩
  refine setMasks_iff.mpr ⟨List.append_ne_nil_of_left_ne_nil hne _, _,
    splitMasks_behind hne htext h.bar, ?_, ?_⟩
  · rw [if_neg hne]
    exact setPart_of_items hinc h.includes hlist fun m hm =>
      h.compiles m (List.mem_append_left _ hm)
  · rw [hblank']
    split
    · next hnil =>
      cases hexcs : excs with
      | nil => rfl
      | cons m ms =>
        have hm : m ∈ excs := by
          rw [hexcs]
          exact List.mem_cons_self
        rw [hexcs, joinMasks_cons] at hnil
        exact absurd (List.append_eq_nil_iff.mp hnil).1 (h.excludes.written m hm).some
    · next hsome =>
      have hcut : cut (joinMasks excs) = joinMasks excs := by
        rw [cut, h.noBar, Option.getD_none, List.take_length]
      have hexcs : excs ≠ [] := by
        rintro rfl
        exact hsome rfl
      have hlist' := (setList_joinMasks (T := E.ctype) (maskFlags false) hexc).mpr
        ⟨hexcs, h.excludes⟩
      rw [hcut]
      exact setPart_of_items hexc h.excludes hlist' fun m hm =>
        h.compiles m (List.mem_append_right _ hm)

/-! ## Matching -/

theorem compareAny_maskOf (fileName : WStr) (caseSens : Bool) : ∀ ms : List WStr,
    compareAny E fileName caseSens (ms.map maskOf) = true ↔ ∃ m ∈ ms, Matches E fileName caseSens m
  | [] => by simp [compareAny]
  | m :: ms => by
    have ih := compareAny_maskOf fileName caseSens ms
    have hm : (maskOf m).compare E fileName caseSens = true ↔ Matches E fileName caseSens m := by
      rw [maskOf, Matches]
      split
      · rw [FileMask.compare]
      · rw [FileMask.compare]
    rw [List.map_cons, compareAny, List.exists_mem_cons_iff, ← hm, ← ih]
    cases (maskOf m).compare E fileName caseSens with
    | false => simp
    | true => simp

theorem compare_processor (fileName : WStr) (caseSens : Bool) (incs excs : List WStr) :
    (FileMask.processor (incs.map maskOf) (excs.map maskOf)).compare E fileName caseSens = true
      ↔ (∃ m ∈ incs, Matches E fileName caseSens m) ∧ ¬∃ m ∈ excs, Matches E fileName caseSens m := by
  rw [← compareAny_maskOf, ← compareAny_maskOf, FileMask.compare]
  cases compareAny E fileName caseSens (incs.map maskOf) with
  | false => simp
  | true => simp

/-- The surroundings of a test: masks match their own text, every regular expression compiles. -/
def plainSurroundings : Surroundings :=
  { ctype :=
      { isAlpha := fun c => 0x61 ≤ c.toNat ∧ c.toNat ≤ 0x7A
        iswspace := fun c => c = SPACE ∨ c = TAB
        printing := by
          intro c hlow _
          have h1 : c ≠ SPACE := by
            rintro rfl
            exact absurd hlow (by decide)
          have h2 : c ≠ TAB := by
            rintro rfl
            exact absurd hlow (by decide)
          simp [h1, h2] }
    cmpName := fun mask name _ => mask = name
    compile := fun _ => true
    search := fun pattern name => pattern = name
    getMaskGroup := fun _ => none }

end Far2l.Filemask
