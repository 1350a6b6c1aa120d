/-
Far2l.Filemask.UserDefinedListTheorems — which texts `UserDefinedList::Set` cuts
into the items they were made of.

Of a character that is no blank, no separator, no quote and no asterisk none is
lost and none is added, whatever the text is. The items of a text are the masks it
was made of when every mask is written as the list keeps it and no bracket is left
open in front of a separator.
-/
import Far2l.Filemask.UserDefinedList
import Mathlib.Data.List.Basic

namespace Far2l.Filemask

variable {T : Ctype} {F : ListFlags}

/-! ## Characters are kept -/

/-- A character that the list neither skips nor adds. -/
structure Solid (F : ListFlags) (c : WChar) : Prop where
  space : isSpace c = false
  separator : c ∉ F.separator
  quote : c ≠ QUOTE
  asterisk : c ≠ ASTERISK

variable {c : WChar}

theorem count_dropWhile {p : WChar → Bool} (hc : p c = false) (str : WStr) :
    (str.dropWhile p).count c = str.count c := by
  have hzero : (str.takeWhile p).count c = 0 := by
    refine List.count_eq_zero.mpr fun hmem => ?_
    have hall := List.all_eq_true.mp (@List.all_takeWhile _ p str) c hmem
    rw [hc] at hall
    exact Bool.false_ne_true hall
  have hsplit := congrArg (List.count c) (@List.takeWhile_append_dropWhile _ p str)
  rw [List.count_append, hzero, Nat.zero_add] at hsplit
  exact hsplit

theorem count_trimLeft (hspace : isSpace c = false) (str : WStr) :
    (trimLeft str).count c = str.count c := count_dropWhile hspace str

theorem drop_spaces (str : WStr) : str.drop (spaces str) = trimLeft str := by
  have hsplit := @List.takeWhile_append_dropWhile _ isSpace str
  rw [spaces, trimLeft]
  nth_rewrite 2 [← hsplit]
  exact List.drop_left

theorem Solid.count_drop (h : Solid F c) (str : WStr) (n : Nat) :
    (str.drop (n + spaces (str.drop n))).count c = (str.drop n).count c := by
  rw [← List.drop_drop, drop_spaces, count_trimLeft h.space]

theorem Solid.count_skipSeparator (h : Solid F c) (str : WStr) :
    (skipSeparator F str).count c = str.count c := by
  rw [← count_trimLeft h.space str, skipSeparator]
  cases trimLeft str with
  | nil => rfl
  | cons d rest =>
    dsimp only
    split
    · next hd =>
      have hne : d ≠ c := fun heq => h.separator (heq ▸ hd)
      rw [count_trimLeft h.space, List.count_cons_of_ne hne]
    · rfl

/-- At the end of a quoted item there is a quote. -/
theorem quotesEnd_quote {str : WStr} {stop : Nat} (h : quotesEnd str = some stop) :
    ∃ rest, str.drop stop = QUOTE :: rest := by
  fun_induction quotesEnd str generalizing stop with
  | case1 => exact absurd h (by simp)
  | case2 str ih =>
    obtain ⟨n, hn, rfl⟩ := Option.map_eq_some_iff.mp h
    exact ih hn
  | case3 d str hne =>
    obtain rfl : 0 = stop := by simpa using h
    exact ⟨_, rfl⟩
  | case4 =>
    obtain rfl : 0 = stop := by simpa using h
    exact ⟨_, rfl⟩
  | case5 d str hquote ih =>
    obtain ⟨n, hn, rfl⟩ := Option.map_eq_some_iff.mp h
    exact ih hn

theorem plainLength_le (b : Bool) (str : WStr) : plainLength F b str ≤ str.length := by
  induction str generalizing b with
  | nil => exact Nat.le_refl _
  | cons d str ih =>
    simp only [plainLength]
    split
    · exact Nat.zero_le _
    · exact Nat.succ_le_succ (ih _)

/-- A text without the blanks at its end. -/
def trimRight (str : WStr) : WStr := (trimLeft str.reverse).reverse

theorem take_trimRight (str : WStr) : str.take (str.length - spaces str.reverse) = trimRight str := by
  have hsplit := congrArg List.reverse (@List.takeWhile_append_dropWhile _ isSpace str.reverse)
  rw [List.reverse_append, List.reverse_reverse] at hsplit
  have hlen := congrArg List.length hsplit
  rw [List.length_append, List.length_reverse, List.length_reverse] at hlen
  have htake : str.length - spaces str.reverse = (trimRight str).length := by
    rw [trimRight, List.length_reverse, trimLeft, spaces]
    omega
  rw [htake]
  nth_rewrite 2 [← hsplit]
  exact List.take_left

/-- The text of an item that is neither quoted nor a regular expression. -/
theorem plain_take (str : WStr) :
    str.take (plainLength F false str - spaces (str.take (plainLength F false str)).reverse)
      = trimRight (str.take (plainLength F false str)) := by
  have hlen : (str.take (plainLength F false str)).length = plainLength F false str := by
    rw [List.length_take]
    exact Nat.min_eq_left (plainLength_le false str)
  rw [← take_trimRight, hlen, List.take_take, Nat.min_eq_left (Nat.sub_le _ _)]

theorem count_trimRight (hspace : isSpace c = false) (str : WStr) :
    (trimRight str).count c = str.count c := by
  rw [trimRight, List.count_reverse, count_trimLeft hspace, List.count_reverse]

theorem Solid.count_skipItem (h : Solid F c) {str cur : WStr} {length realLength : Nat}
    {inQuotes : Bool} (hskip : skipItem T F str = .item cur length realLength inQuotes) :
    str.count c = (cur.take length).count c + (cur.drop realLength).count c := by
  rw [skipItem] at hskip
  split at hskip
  · next hquote =>
    dsimp only at hskip
    cases hend : quotesEnd (str.drop 1) with
    | none =>
      rw [hend] at hskip
      exact Skipped.noConfusion hskip
    | some stop =>
      rw [hend] at hskip
      dsimp only at hskip
      split at hskip
      · cases hskip
        obtain ⟨rest, hrest⟩ := quotesEnd_quote hend
        have hstr : str = QUOTE :: str.drop 1 := by
          cases str with
          | nil => simp at hquote
          | cons d str =>
            obtain rfl : d = QUOTE := by simpa using hquote
            rfl
        have hdrop : ((str.drop 1).drop (length + 1)).count c = ((str.drop 1).drop length).count c := by
          have hnext : (str.drop 1).drop (length + 1) = rest := by
            rw [← List.drop_drop (i := 1), hrest]
            rfl
          rw [hnext, hrest, List.count_cons_of_ne h.quote.symm]
        rw [h.count_drop, hdrop, ← List.count_append, List.take_append_drop]
        nth_rewrite 1 [hstr]
        exact List.count_cons_of_ne h.quote.symm
      · exact Skipped.noConfusion hskip
  · split at hskip
    · cases hend : regexpEnd (str.drop 1) with
      | none =>
        rw [hend] at hskip
        exact Skipped.noConfusion hskip
      | some stop =>
        rw [hend] at hskip
        dsimp only at hskip
        split at hskip
        · cases hskip
          rw [h.count_drop, ← List.count_append, List.take_append_drop]
        · exact Skipped.noConfusion hskip
    · cases hskip
      rw [plain_take, count_trimRight h.space, ← List.count_append, List.take_append_drop]

theorem count_compact {char : WChar} (hchar : c ≠ char) (byPairs : Bool) :
    ∀ (found : Bool) (src : WStr), (compact char byPairs found src).count c = src.count c
  | _, [] => rfl
  | false, d :: src => by
    have ih := count_compact hchar byPairs (d = char) src
    simp only [compact, Bool.not_false, if_true, List.count_cons, ih]
  | true, d :: src => by
    simp only [compact, Bool.not_true, Bool.false_eq_true, if_false]
    split
    · next heq =>
      rw [count_compact hchar byPairs (!byPairs) src, heq, List.count_cons_of_ne hchar.symm]
    · rw [List.count_cons, List.count_cons, count_compact hchar byPairs false src]

theorem count_listItem (hasterisk : c ≠ ASTERISK) (hquote : c ≠ QUOTE) (str : WStr)
    (inQuotes : Bool) : (listItem F str inQuotes).count c = str.count c := by
  rw [listItem]
  split
  · rfl
  · have hpack : (if F.packAsterisks then compact ASTERISK false false str else str).count c
        = str.count c := by
      split
      · exact count_compact hasterisk false false str
      · rfl
    dsimp only
    generalize (if F.packAsterisks then compact ASTERISK false false str else str) = packed
      at hpack ⊢
    have hunquote : (if inQuotes then compact QUOTE true false packed else packed).count c
        = packed.count c := by
      split
      · exact count_compact hquote true false packed
      · rfl
    generalize (if inQuotes then compact QUOTE true false packed else packed) = unquoted at hunquote ⊢
    rw [← hpack, ← hunquote]
    split
    · rw [List.count_append, List.count_singleton, if_neg (by simpa using hasterisk.symm),
        Nat.add_zero]
    · rfl

theorem skipItem_ne_finished (str : WStr) : skipItem T F str ≠ .finished := by
  rw [skipItem]
  split
  · dsimp only
    split
    · exact Skipped.noConfusion
    · split <;> exact Skipped.noConfusion
  · split
    · split
      · exact Skipped.noConfusion
      · dsimp only
        split <;> exact Skipped.noConfusion
    · exact Skipped.noConfusion

theorem skip_finished {str : WStr} (h : skip T F str = .finished) : str = [] := by
  rw [skip] at h
  split at h
  · assumption
  · split at h
    · exact Skipped.noConfusion h
    · exact absurd h (skipItem_ne_finished _)

/-- **A solid character is in the items as often as in the text.** -/
theorem setLoop_count (h : Solid F c) (str : WStr) {items : List WStr}
    (hset : setLoop T F str = some items) : items.flatten.count c = str.count c := by
  fun_induction setLoop T F str generalizing items with
  | case1 str hskip =>
    obtain rfl : [] = items := by simpa using hset
    rw [skip_finished hskip]
    rfl
  | case2 => exact absurd hset (by simp)
  | case3 => exact absurd hset (by simp)
  | case4 str cur length realLength inQuotes hskip hlen ih =>
    obtain ⟨rest, hrest, rfl⟩ := Option.map_eq_some_iff.mp hset
    rw [List.flatten_cons, List.count_append, count_listItem h.asterisk h.quote, ih hrest]
    rw [skip] at hskip
    split at hskip
    · exact Skipped.noConfusion hskip
    · rw [← h.count_skipSeparator str]
      cases hsep : skipSeparator F str with
      | nil =>
        rw [hsep] at hskip
        cases hskip
        exact absurd rfl hlen
      | cons d rest =>
        rw [hsep] at hskip
        exact (h.count_skipItem hskip).symm

/-! ## Masks that are items -/

/-- A mask that is no regular expression: no separator, quote, bar or `<` is in it, and it does not
begin with a slash. -/
structure IsPlain (m : WStr) : Prop where
  head : m.head? ≠ some SLASH
  chars : ∀ c ∈ m, c ≠ COMMA ∧ c ≠ SEMICOLON ∧ c ≠ QUOTE ∧ c ≠ BAR ∧ c ≠ LESS

/-- A regular expression between slashes; slashes inside it are escaped. -/
def IsRegexp (m : WStr) : Prop :=
  ∃ body, m = SLASH :: body ++ [SLASH] ∧ regexpEnd (body ++ [SLASH]) = some body.length

/-- A plain mask or a regular expression. -/
def IsMask (m : WStr) : Prop := IsPlain m ∨ IsRegexp m

/-- The mask is written as the list keeps it: not empty, no blank at its ends, and nothing of it is
packed or added. -/
structure Written (F : ListFlags) (m : WStr) : Prop where
  some : m ≠ []
  head : ∀ c, m.head? = Option.some c → isSpace c = false
  last : ∀ c, m.getLast? = Option.some c → isSpace c = false
  kept : listItem F m false = m

/-- No bracket of a plain mask is left open. -/
def Closed (m : WStr) : Prop :=
  m.head? = some SLASH ∨ m.foldl (bracketsAfter true) false = false

/-- The flags of a list of masks. -/
structure MaskFlags (F : ListFlags) : Prop where
  separator : F.separator = [SEMICOLON, COMMA]
  brackets : F.processBrackets = true
  pack : F.packAsterisks = true
  regexp : F.processRegexp = true

/-- Masks with a comma between each two of them. -/
def joinMasks : List WStr → WStr
  | [] => []
  | [m] => m
  | m :: m' :: ms => m ++ COMMA :: joinMasks (m' :: ms)

/-- What follows a mask: nothing, or a comma and the other masks. -/
def following : List WStr → WStr
  | [] => []
  | m :: ms => COMMA :: joinMasks (m :: ms)

theorem joinMasks_cons (m : WStr) (ms : List WStr) :
    joinMasks (m :: ms) = m ++ following ms := by
  cases ms with
  | nil => exact (List.append_nil m).symm
  | cons m' ms => rfl

theorem isSpace_comma : isSpace COMMA = false := by decide

theorem trimLeft_cons {c : WChar} (h : isSpace c = false) (str : WStr) :
    trimLeft (c :: str) = c :: str :=
  List.dropWhile_cons_of_neg (by rw [h]; exact Bool.false_ne_true)

/-- Blanks in front of what follows a mask are not skipped. -/
theorem trimLeft_following (ms : List WStr) : trimLeft (following ms) = following ms := by
  cases ms with
  | nil => rfl
  | cons m ms => exact trimLeft_cons isSpace_comma _

theorem spaces_following (ms : List WStr) : spaces (following ms) = 0 := by
  cases ms with
  | nil => rfl
  | cons m ms =>
    rw [following, spaces, List.takeWhile_cons_of_neg (by rw [isSpace_comma]; exact Bool.false_ne_true)]
    rfl

section Flags

variable (hF : MaskFlags F)

theorem MaskFlags.mem_separator (hF : MaskFlags F) {c : WChar} :
    c ∈ F.separator ↔ c = SEMICOLON ∨ c = COMMA := by
  rw [hF.separator, List.mem_cons, List.mem_singleton]

include hF

theorem atSeparator_following (ms : List WStr) : atSeparator F (following ms) = true := by
  cases ms with
  | nil => rfl
  | cons m ms => exact decide_eq_true (hF.mem_separator.mpr (.inr rfl))

theorem flagsLength_following (n : Nat) (ms : List WStr) :
    flagsLength T F.separator n (following ms) = 0 := by
  cases n with
  | zero => rfl
  | succ n =>
    cases ms with
    | nil => rfl
    | cons m ms => exact if_pos (.inl (hF.mem_separator.mpr (.inr rfl)))

end Flags

/-- What follows a regular expression does not change where it ends. -/
theorem regexpEnd_append {str : WStr} {stop : Nat} (h : regexpEnd str = some stop) (rest : WStr) :
    regexpEnd (str ++ rest) = some stop := by
  fun_induction regexpEnd str generalizing stop with
  | case1 => exact absurd h (by simp)
  | case2 d str ih =>
    obtain ⟨n, hn, rfl⟩ := Option.map_eq_some_iff.mp h
    rw [List.cons_append, List.cons_append, regexpEnd, if_pos rfl, ih hn]
    rfl
  | case3 => exact absurd h (by simp)
  | case4 str hne =>
    rw [List.cons_append, regexpEnd.eq_def]
    dsimp only
    rw [if_neg hne, if_pos rfl]
    exact h
  | case5 d str hne hslash ih =>
    obtain ⟨n, hn, rfl⟩ := Option.map_eq_some_iff.mp h
    rw [List.cons_append, regexpEnd.eq_def]
    dsimp only
    rw [if_neg hne, if_neg hslash, ih hn]
    rfl

/-- A regular expression in front is skipped as one item. -/
theorem skipItem_regexp (hF : MaskFlags F) {m : WStr} (h : IsRegexp m) (ms : List WStr) :
    skipItem T F (m ++ following ms) = .item (m ++ following ms) m.length m.length false := by
  obtain ⟨body, rfl, hbody⟩ := h
  have hend : regexpEnd (((SLASH :: body ++ [SLASH]) ++ following ms).drop 1) = some body.length :=
    regexpEnd_append hbody (following ms)
  have hlen : (SLASH :: body ++ [SLASH]).length = body.length + 2 := by simp
  have hdrop : ((SLASH :: body ++ [SLASH]) ++ following ms).drop (body.length + 2) = following ms := by
    rw [← hlen, List.drop_left]
  rw [skipItem, if_neg (by simp [SLASH, QUOTE]), if_pos ⟨hF.regexp, rfl⟩, hend]
  dsimp only
  rw [hdrop, flagsLength_following hF, Nat.add_zero, hdrop, spaces_following, Nat.add_zero, hdrop,
    if_pos (atSeparator_following hF ms), hlen]

theorem plainLength_append (hF : MaskFlags F) {m : WStr}
    (h : ∀ c ∈ m, c ≠ COMMA ∧ c ≠ SEMICOLON) (b : Bool) (rest : WStr) :
    plainLength F b (m ++ rest)
      = m.length + plainLength F (m.foldl (bracketsAfter true) b) rest := by
  induction m generalizing b with
  | nil => simp
  | cons c m ih =>
    obtain ⟨hc, hm⟩ := List.forall_mem_cons.mp h
    have hsep : c ∉ F.separator := fun hmem =>
      (hF.mem_separator.mp hmem).elim hc.2 hc.1
    rw [List.cons_append, plainLength, if_neg (fun hand => hsep hand.2), hF.brackets, ih hm, List.foldl_cons, List.length_cons]
    omega

/-! ## The first item -/

/-- The loop by what `Skip` returns. -/
theorem setLoop_eq (str : WStr) : setLoop T F str
    = match skip T F str with
      | .finished => some []
      | .error => none
      | .item cur length realLength inQuotes =>
          if length = 0 then none
          else (setLoop T F (cur.drop realLength)).map (listItem F (cur.take length) inQuotes :: ·) := by
  rw [setLoop]
  split
  · next hskip => rw [hskip]
  · next hskip => rw [hskip]
  · next hskip =>
    rw [hskip]
    rfl

/-- What is in front once separators and blanks are skipped. -/
theorem setLoop_skipItem {str cur : WStr} (hne : str ≠ []) (hcur : cur ≠ [])
    (hsep : skipSeparator F str = cur) :
    setLoop T F str = match skipItem T F cur with
      | .finished => some []
      | .error => none
      | .item cur length realLength inQuotes =>
          if length = 0 then none
          else
            (setLoop T F (cur.drop realLength)).map (listItem F (cur.take length) inQuotes :: ·) := by
  obtain ⟨c, rest, rfl⟩ := List.exists_cons_of_ne_nil hcur
  rw [setLoop_eq, skip, if_neg hne, hsep]

theorem listItem_head {c : WChar} {str : WStr} (h : str.head? = some c) :
    (listItem F str false).head? = some c := by
  obtain ⟨src, rfl⟩ : ∃ src, str = c :: src := by
    cases str with
    | nil => simp at h
    | cons d src =>
      obtain rfl : d = c := by simpa using h
      exact ⟨src, rfl⟩
  rw [listItem]
  split
  · rfl
  · dsimp only
    rw [if_neg Bool.false_ne_true]
    split
    · split <;> rfl
    · split <;> rfl

theorem skipSeparator_head {str rest : WStr} {c : WChar} (h : skipSeparator F str = c :: rest) :
    isSpace c = false := by
  have htrim : ∀ {str : WStr}, trimLeft str = c :: rest → isSpace c = false := by
    intro str hstr
    have hhead := List.head?_dropWhile_not isSpace str
    rw [trimLeft] at hstr
    rw [hstr] at hhead
    simpa using hhead
  rw [skipSeparator] at h
  split at h
  · exact absurd h (by simp)
  · next hstr =>
    split at h
    · exact htrim h
    · exact htrim (hstr.trans h)

/-- An item that does not begin with a quote begins where it is. -/
theorem skipItem_cases (cur : WStr) (h : cur.head? ≠ some QUOTE) :
    skipItem T F cur = .error ∨ ∃ length realLength, skipItem T F cur = .item cur length realLength false := by
  rw [skipItem, if_neg h]
  split
  · split
    · exact .inl rfl
    · dsimp only
      split
      · exact .inr ⟨_, _, rfl⟩
      · exact .inl rfl
  · exact .inr ⟨_, _, rfl⟩

/-- **The first item begins with what is in front**, where that is no quote. -/
theorem first_head {str rest : WStr} {c : WChar} {items : List WStr} (hne : str ≠ [])
    (hsep : skipSeparator F str = c :: rest) (hquote : c ≠ QUOTE)
    (hset : setLoop T F str = some items) : ∃ m ms, items = m :: ms ∧ m.head? = some c := by
  rw [setLoop_skipItem hne (List.cons_ne_nil c rest) hsep] at hset
  rcases skipItem_cases (T := T) (F := F) (c :: rest) (by simpa using hquote) with
    herror | ⟨length, realLength, hitem⟩
  · rw [herror] at hset
    exact absurd hset (by simp)
  · rw [hitem] at hset
    dsimp only at hset
    split at hset
    · exact absurd hset (by simp)
    · next hlen =>
      obtain ⟨ms, -, rfl⟩ := Option.map_eq_some_iff.mp hset
      obtain ⟨n, rfl⟩ := Nat.exists_eq_succ_of_ne_zero hlen
      exact ⟨_, _, rfl, listItem_head rfl⟩

/-! ## Lists of masks -/

/-- Nothing, or a comma. -/
def Lead (lead : WStr) : Prop := lead = [] ∨ lead = [COMMA]

theorem IsRegexp.head {m : WStr} (h : IsRegexp m) : m.head? = some SLASH := by
  obtain ⟨body, rfl, -⟩ := h
  rfl

theorem trimLeft_append {m : WStr} (h : trimLeft m ≠ []) (rest : WStr) :
    trimLeft (m ++ rest) = trimLeft m ++ rest := by
  have hdrop : m.dropWhile isSpace ≠ [] := h
  rw [trimLeft, List.dropWhile_append]
  exact if_neg (by simpa using hdrop)

theorem trimLeft_blank {m : WStr} (h : trimLeft m = []) (rest : WStr) :
    trimLeft (m ++ rest) = trimLeft rest := by
  have hdrop : m.dropWhile isSpace = [] := h
  rw [trimLeft, List.dropWhile_append]
  exact if_pos (by simpa using hdrop)

/-- No separator and no quote is in the mask, or it is a regular expression. -/
def Quiet (m : WStr) : Prop :=
  (∀ c ∈ m, c ≠ COMMA ∧ c ≠ SEMICOLON ∧ c ≠ QUOTE) ∨ IsRegexp m

theorem IsMask.quiet {m : WStr} (h : IsMask m) : Quiet m := by
  rcases h with hplain | hregexp
  · refine .inl fun c hc => ?_
    obtain ⟨hcomma, hsemicolon, hquote, -⟩ := hplain.chars c hc
    exact ⟨hcomma, hsemicolon, hquote⟩
  · exact .inr hregexp

/-- What is in front of masks is no quote. -/
theorem trimLeft_head {ms : List WStr} (h : ∀ m ∈ ms, Quiet m) {c : WChar} {rest : WStr}
    (hc : trimLeft (joinMasks ms) = c :: rest) :
    c ≠ QUOTE ∧ (c ∈ [SEMICOLON, COMMA] → ∃ m ms', ms = m :: ms' ∧ c :: rest = following ms') := by
  cases ms with
  | nil => exact absurd hc (by simp [joinMasks, trimLeft])
  | cons m ms =>
    rw [joinMasks_cons] at hc
    by_cases hblank : trimLeft m = []
    · rw [trimLeft_blank hblank, trimLeft_following] at hc
      refine ⟨?_, fun _ => ⟨m, ms, rfl, hc.symm⟩⟩
      cases ms with
      | nil => exact absurd hc (by simp [following])
      | cons m' ms =>
        obtain rfl : COMMA = c := (List.cons.inj hc).1
        decide
    · rw [trimLeft_append hblank] at hc
      obtain ⟨d, m', hm'⟩ := List.exists_cons_of_ne_nil hblank
      obtain rfl : d = c := by
        rw [hm'] at hc
        exact (List.cons.inj hc).1
      have hmem : d ∈ m := (List.dropWhile_sublist _).subset (hm' ▸ List.mem_cons_self : d ∈ trimLeft m)
      rcases h m List.mem_cons_self with hplain | hregexp
      · obtain ⟨hcomma, hsemicolon, hquote⟩ := hplain d hmem
        refine ⟨hquote, fun hsep => ?_⟩
        rcases List.mem_cons.mp hsep with heq | hsep
        · exact absurd heq hsemicolon
        · exact absurd (List.mem_singleton.mp hsep) hcomma
      · obtain ⟨body, rfl, -⟩ := hregexp
        obtain rfl : SLASH = d := by
          have htrim : trimLeft (SLASH :: body ++ [SLASH]) = SLASH :: (body ++ [SLASH]) :=
            trimLeft_cons (by decide) _
          rw [htrim] at hm'
          exact (List.cons.inj hm').1
        exact ⟨by decide, fun hsep => absurd hsep (by decide)⟩

/-- What is in front of masks, once a separator is skipped, is no quote either. -/
theorem skipSeparator_quote (hF : MaskFlags F) {ms : List WStr} (h : ∀ m ∈ ms, Quiet m)
    {lead : WStr} (hlead : Lead lead) {c : WChar} {rest : WStr}
    (hc : skipSeparator F (lead ++ joinMasks ms) = c :: rest) : c ≠ QUOTE := by
  rcases hlead with rfl | rfl
  · rw [List.nil_append, skipSeparator] at hc
    split at hc
    · exact absurd hc (by simp)
    · next d rest' htrim =>
      split at hc
      · next hsep =>
        rw [hF.separator] at hsep
        obtain ⟨m, ms', rfl, hfollowing⟩ := (trimLeft_head h htrim).2 hsep
        cases ms' with
        | nil => exact absurd hfollowing (by simp [following])
        | cons m' ms' =>
          rw [(List.cons.inj hfollowing).2] at hc
          exact (trimLeft_head (fun m hm => h m (List.mem_cons_of_mem _ hm)) hc).1
      · rw [← (List.cons.inj hc).1]
        exact (trimLeft_head h htrim).1
  · rw [skipSeparator, List.singleton_append, trimLeft_cons isSpace_comma] at hc
    dsimp only at hc
    rw [if_pos (hF.mem_separator.mpr (.inr rfl))] at hc
    exact (trimLeft_head h hc).1

/-- A mask that begins with no blank is what is in front. -/
theorem skipSeparator_mask (hF : MaskFlags F) {m : WStr} (ms : List WStr) (h : IsMask m) {c : WChar}
    (hc : m.head? = some c) (hspace : isSpace c = false) {lead : WStr} (hlead : Lead lead) :
    skipSeparator F (lead ++ joinMasks (m :: ms)) = m ++ following ms := by
  obtain ⟨src, rfl⟩ : ∃ src, m = c :: src := by
    cases m with
    | nil => simp at hc
    | cons d src =>
      obtain rfl : d = c := by simpa using hc
      exact ⟨src, rfl⟩
  have hsep : c ∉ F.separator := by
    intro hmem
    rw [hF.mem_separator] at hmem
    rcases h with hplain | hregexp
    · obtain ⟨hcomma, hsemicolon, -⟩ := hplain.chars c List.mem_cons_self
      exact hmem.elim hsemicolon hcomma
    · obtain rfl : c = SLASH := by simpa using hregexp.head
      exact absurd hmem (by decide)
  rw [joinMasks_cons]
  rcases hlead with rfl | rfl
  · rw [List.nil_append, skipSeparator, List.cons_append, trimLeft_cons hspace]
    exact if_neg hsep
  · rw [skipSeparator, List.singleton_append, trimLeft_cons isSpace_comma]
    dsimp only
    rw [if_pos (hF.mem_separator.mpr (.inr rfl)), List.cons_append, trimLeft_cons hspace]

/-- **The first of masks that are items again begins with no blank.** -/
theorem head_of_setLoop (hF : MaskFlags F) {m : WStr} {ms : List WStr}
    (h : ∀ m' ∈ m :: ms, IsMask m') {lead : WStr} (hlead : Lead lead)
    (hset : setLoop T F (lead ++ joinMasks (m :: ms)) = some (m :: ms)) :
    ∃ c, m.head? = some c ∧ isSpace c = false := by
  have hne : lead ++ joinMasks (m :: ms) ≠ [] := by
    intro hnil
    rw [hnil, setLoop_eq] at hset
    exact absurd hset (by simp [skip])
  cases hsep : skipSeparator F (lead ++ joinMasks (m :: ms)) with
  | nil =>
    rw [setLoop_eq, skip, if_neg hne, hsep] at hset
    exact absurd hset (by simp)
  | cons c rest =>
    obtain ⟨m', ms', heq, hhead⟩ := first_head hne hsep
      (skipSeparator_quote hF (fun m hm => (h m hm).quiet) hlead hsep) hset
    rw [(List.cons.inj heq).1]
    exact ⟨c, hhead, skipSeparator_head hsep⟩

/-! ## Plain masks -/

theorem trimRight_eq {str : WStr} (h : ∀ c, str.getLast? = some c → isSpace c = false) :
    trimRight str = str := by
  rw [trimRight]
  cases hrev : str.reverse with
  | nil => exact (List.reverse_eq_nil_iff.mp hrev).symm
  | cons c src =>
    have hlast : str.getLast? = some c := by
      rw [List.getLast?_eq_head?_reverse, hrev]
      rfl
    rw [trimLeft_cons (h c hlast), ← hrev, List.reverse_reverse]

theorem trimRight_last {str : WStr} {c : WChar} (h : (trimRight str).getLast? = some c) :
    isSpace c = false := by
  rw [trimRight, List.getLast?_reverse] at h
  have hhead := List.head?_dropWhile_not isSpace str.reverse
  rw [trimLeft] at h
  rw [h] at hhead
  simpa using hhead

/-- No blank gets to the end of a text that is packed. -/
theorem compact_last {char : WChar} (hchar : isSpace char = false) : ∀ (found : Bool) (src : WStr),
    (∀ c, src.getLast? = some c → isSpace c = false) →
    ∀ c, (compact char false found src).getLast? = some c → isSpace c = false
  | _, [], _, c, hc => absurd hc (by simp [compact])
  | found, d :: src, hlast, c, hc => by
    have htail : ∀ c, src.getLast? = some c → isSpace c = false := by
      intro c hc
      refine hlast c ?_
      rw [List.getLast?_cons, hc]
      rfl
    have hd : src = [] → isSpace d = false := by
      rintro rfl
      exact hlast d rfl
    -- what is kept of `d` and the rest: `d` is at the end when nothing of the rest is kept
    have hkept : ∀ found', (found' = true → d = char) →
        (d :: compact char false found' src).getLast? = some c → isSpace c = false := by
      intro found' hfound h
      rw [List.getLast?_cons, Option.some.injEq] at h
      cases hx : (compact char false found' src).getLast? with
      | some c' =>
        rw [hx] at h
        rw [← h]
        exact compact_last hchar found' src htail c' hx
      | none =>
        rw [hx] at h
        obtain rfl : d = c := h
        cases src with
        | nil => exact hd rfl
        | cons e src =>
          cases found' with
          | false => exact absurd (List.getLast?_eq_none_iff.mp hx) (by simp [compact])
          | true =>
            rw [hfound rfl]
            exact hchar
    cases found with
    | false => exact hkept (d = char) (fun h => by simpa using h) hc
    | true =>
      rw [compact, if_neg (by simp)] at hc
      split at hc
      · exact compact_last hchar _ src htail c hc
      · exact hkept false (fun h => absurd h Bool.false_ne_true) hc

theorem listItem_last (hF : MaskFlags F) {str : WStr} (hhead : str.head? ≠ some SLASH)
    (h : ∀ c, str.getLast? = some c → isSpace c = false) {c : WChar}
    (hc : (listItem F str false).getLast? = some c) : isSpace c = false := by
  rw [listItem, if_neg (fun hand => hhead hand.2)] at hc
  dsimp only at hc
  rw [if_pos hF.pack, if_neg Bool.false_ne_true] at hc
  split at hc
  · rw [List.getLast?_concat, Option.some.injEq] at hc
    rw [← hc]
    decide
  · exact compact_last (by decide) false str h c hc

/-- Skipping a plain mask and what follows it. -/
theorem skipItem_plain {m : WStr} {ms : List WStr} (h : IsPlain m) (hm : m ≠ []) :
    skipItem T F (m ++ following ms)
      = .item (m ++ following ms)
          (plainLength F false (m ++ following ms)
            - spaces ((m ++ following ms).take (plainLength F false (m ++ following ms))).reverse)
          (plainLength F false (m ++ following ms)) false := by
  obtain ⟨c, src, rfl⟩ := List.exists_cons_of_ne_nil hm
  have hquote := (h.chars c List.mem_cons_self).2.2.1
  have hslash : c ≠ SLASH := fun heq => h.head (by rw [heq]; rfl)
  rw [skipItem, if_neg (by simpa using hquote), if_neg (by simpa using fun _ => hslash)]

/-- The item a plain mask becomes, up to what follows it. -/
theorem setLoop_plain (hF : MaskFlags F) {m : WStr} {ms : List WStr} (h : IsPlain m) {c : WChar}
    (hc : m.head? = some c) (hspace : isSpace c = false) {lead : WStr} (hlead : Lead lead)
    {items : List WStr} (hset : setLoop T F (lead ++ joinMasks (m :: ms)) = some items) :
    ∃ rest, setLoop T F ((m ++ following ms).drop (plainLength F false (m ++ following ms))) = some rest
      ∧ items = listItem F (trimRight ((m ++ following ms).take (plainLength F false (m ++ following ms))))
          false :: rest := by
  have hm : m ≠ [] := by
    rintro rfl
    simp at hc
  have hsep := skipSeparator_mask hF ms (.inl h) hc hspace hlead
  have hne : lead ++ joinMasks (m :: ms) ≠ [] := by
    rw [joinMasks_cons]
    exact List.append_ne_nil_of_right_ne_nil _ (List.append_ne_nil_of_left_ne_nil hm _)
  rw [setLoop_skipItem hne (List.append_ne_nil_of_left_ne_nil hm _) hsep, skipItem_plain h hm] at hset
  dsimp only at hset
  split at hset
  · exact absurd hset (by simp)
  · rw [plain_take] at hset
    obtain ⟨rest, hrest, heq⟩ := Option.map_eq_some_iff.mp hset
    exact ⟨rest, hrest, heq.symm⟩

/-- How far a plain mask reaches: to its end, or behind the comma when a bracket is left open. -/
theorem plainLength_mask (hF : MaskFlags F) {m : WStr} (ms : List WStr) (h : IsPlain m) :
    plainLength F false (m ++ following ms) = m.length ∧ (ms = [] ∨ Closed m)
      ∨ m.foldl (bracketsAfter true) false = true ∧ ms ≠ []
        ∧ m.length < plainLength F false (m ++ following ms) := by
  have hchars : ∀ c ∈ m, c ≠ COMMA ∧ c ≠ SEMICOLON := fun c hc =>
    ⟨(h.chars c hc).1, (h.chars c hc).2.1⟩
  rw [plainLength_append hF hchars]
  cases ms with
  | nil => exact .inl ⟨rfl, .inl rfl⟩
  | cons m' ms =>
    cases hopen : m.foldl (bracketsAfter true) false with
    | true =>
      refine .inr ⟨rfl, List.cons_ne_nil _ _, ?_⟩
      rw [following, plainLength, hF.brackets]
      have hcomma : bracketsAfter true true COMMA = true := by decide
      rw [hcomma, if_neg (by simp)]
      omega
    | false =>
      refine .inl ⟨?_, .inr (.inr hopen)⟩
      rw [following, plainLength, hF.brackets]
      have hcomma : bracketsAfter true false COMMA = false := by decide
      rw [hcomma, if_pos ⟨rfl, hF.mem_separator.mpr (.inr rfl)⟩]
      rfl

theorem head_take {str : WStr} {n : Nat} {d : WChar} (h : (str.take n).head? = some d) :
    str.head? = some d := by
  cases str with
  | nil => simp at h
  | cons e str =>
    cases n with
    | zero => simp at h
    | succ n => exact h

theorem IsRegexp.last {m : WStr} (h : IsRegexp m) :
    ∀ d, m.getLast? = some d → isSpace d = false := by
  obtain ⟨body, rfl, -⟩ := h
  intro d hd
  rw [List.getLast?_concat, Option.some.injEq] at hd
  rw [← hd]
  decide

/-- **The first of masks that are items again**: how it is written, and what follows it. -/
theorem written_of_setLoop (hF : MaskFlags F) {m : WStr} {ms : List WStr}
    (h : ∀ m' ∈ m :: ms, IsMask m') {lead : WStr} (hlead : Lead lead)
    (hset : setLoop T F (lead ++ joinMasks (m :: ms)) = some (m :: ms)) :
    Written F m ∧ (ms = [] ∨ Closed m) ∧ setLoop T F (following ms) = some ms := by
  obtain ⟨c, hc, hspace⟩ := head_of_setLoop hF h hlead hset
  have hne : m ≠ [] := by
    rintro rfl
    simp at hc
  have hhead : ∀ d, m.head? = some d → isSpace d = false := by
    intro d hd
    rw [hc, Option.some.injEq] at hd
    rw [← hd]
    exact hspace
  rcases h m List.mem_cons_self with hplain | hregexp
  · obtain ⟨rest, hrest, heq⟩ := setLoop_plain hF hplain hc hspace hlead hset
    obtain ⟨hitem, rfl⟩ := List.cons.inj heq
    rcases plainLength_mask hF ms hplain with ⟨hlen, hclosed⟩ | ⟨-, hms, hlen⟩
    · rw [hlen, List.take_left] at hitem
      rw [hlen, List.drop_left] at hrest
      have hlast : ∀ d, m.getLast? = some d → isSpace d = false := by
        intro d hd
        rw [hitem] at hd
        refine listItem_last hF (fun hslash => hplain.head ?_) (fun d => trimRight_last) hd
        rw [← take_trimRight] at hslash
        exact head_take hslash
      rw [trimRight_eq hlast] at hitem
      exact ⟨⟨hne, hhead, hlast, hitem.symm⟩, hclosed, hrest⟩
    · -- a comma gets into the item
      exfalso
      obtain ⟨m', ms', rfl⟩ := List.exists_cons_of_ne_nil hms
      have hcomma : COMMA ∈ m := by
        rw [hitem, ← List.count_pos_iff, count_listItem (by decide) (by decide),
          count_trimRight isSpace_comma, List.count_pos_iff, List.take_append, List.mem_append]
        right
        obtain ⟨n, hn⟩ := Nat.exists_eq_add_of_lt hlen
        rw [hn, show m.length + n + 1 - m.length = n + 1 from by omega, following, List.take_succ_cons]
        exact List.mem_cons_self
      exact (hplain.chars COMMA hcomma).1 rfl
  · have hsep := skipSeparator_mask hF ms (.inr hregexp) hc hspace hlead
    have hcur : m ++ following ms ≠ [] := List.append_ne_nil_of_left_ne_nil hne _
    have htext : lead ++ joinMasks (m :: ms) ≠ [] := by
      rw [joinMasks_cons]
      exact List.append_ne_nil_of_right_ne_nil _ hcur
    rw [setLoop_skipItem htext hcur hsep, skipItem_regexp hF hregexp] at hset
    dsimp only at hset
    rw [if_neg (fun hzero => hne (List.length_eq_zero_iff.mp hzero)), List.drop_left,
      List.take_left] at hset
    obtain ⟨rest, hrest, heq⟩ := Option.map_eq_some_iff.mp hset
    obtain ⟨hitem, rfl⟩ := List.cons.inj heq
    exact ⟨⟨hne, hhead, hregexp.last, hitem⟩, .inr (.inl hregexp.head), hrest⟩

/-- **Masks written as the list keeps them are its items.** -/
theorem setLoop_of_written (hF : MaskFlags F) {m : WStr} {ms : List WStr} (hmask : IsMask m)
    (hwritten : Written F m) (hclosed : ms = [] ∨ Closed m) {lead : WStr} (hlead : Lead lead) :
    setLoop T F (lead ++ joinMasks (m :: ms)) = (setLoop T F (following ms)).map (m :: ·) := by
  obtain ⟨c, hc⟩ : ∃ c, m.head? = some c := by
    cases m with
    | nil => exact absurd rfl hwritten.some
    | cons c src => exact ⟨c, rfl⟩
  have hsep := skipSeparator_mask hF ms hmask hc (hwritten.head c hc) hlead
  have hcur : m ++ following ms ≠ [] := List.append_ne_nil_of_left_ne_nil hwritten.some _
  have htext : lead ++ joinMasks (m :: ms) ≠ [] := by
    rw [joinMasks_cons]
    exact List.append_ne_nil_of_right_ne_nil _ hcur
  have hlength : m.length ≠ 0 := fun hzero => hwritten.some (List.length_eq_zero_iff.mp hzero)
  rw [setLoop_skipItem htext hcur hsep]
  rcases hmask with hplain | hregexp
  · have hlen : plainLength F false (m ++ following ms) = m.length := by
      rcases plainLength_mask hF ms hplain with ⟨hlen, -⟩ | ⟨hopen, hms, -⟩
      · exact hlen
      · rcases hclosed with hnil | hslash | hclosed
        · exact absurd hnil hms
        · exact absurd hslash hplain.head
        · rw [hopen] at hclosed
          exact absurd hclosed.symm Bool.false_ne_true
    have hspaces : spaces m.reverse = 0 := by
      rw [spaces]
      cases hrev : m.reverse with
      | nil => rfl
      | cons d src =>
        have hlast : m.getLast? = some d := by
          rw [List.getLast?_eq_head?_reverse, hrev]
          rfl
        rw [List.takeWhile_cons_of_neg (by rw [hwritten.last d hlast]; exact Bool.false_ne_true)]
        rfl
    rw [skipItem_plain hplain hwritten.some]
    dsimp only
    rw [hlen, List.take_left, hspaces, Nat.sub_zero, if_neg hlength, List.take_left, List.drop_left,
      hwritten.kept]
  · rw [skipItem_regexp hF hregexp]
    dsimp only
    rw [if_neg hlength, List.take_left, List.drop_left, hwritten.kept]

/-- The masks are written as the list keeps them, and no bracket is open in front of a comma. -/
structure AllWritten (F : ListFlags) (ms : List WStr) : Prop where
  written : ∀ m ∈ ms, Written F m
  closed : ∀ m ∈ ms.dropLast, Closed m

theorem allWritten_cons {m : WStr} {ms : List WStr} :
    AllWritten F (m :: ms) ↔ Written F m ∧ (ms = [] ∨ Closed m) ∧ AllWritten F ms := by
  cases ms with
  | nil =>
    constructor
    · intro h
      exact ⟨h.written m List.mem_cons_self, .inl rfl,
        ⟨fun _ h => absurd h List.not_mem_nil, fun _ h => absurd h List.not_mem_nil⟩⟩
    · rintro ⟨hm, -, -⟩
      refine ⟨fun m' hm' => ?_, fun _ h => absurd h List.not_mem_nil⟩
      rw [List.mem_singleton.mp hm']
      exact hm
  | cons m' ms =>
    constructor
    · intro h
      obtain ⟨hm, hms⟩ := List.forall_mem_cons.mp h.written
      have hclosed := h.closed
      rw [List.dropLast_cons_cons] at hclosed
      obtain ⟨hc, hcs⟩ := List.forall_mem_cons.mp hclosed
      exact ⟨hm, .inr hc, ⟨hms, hcs⟩⟩
    · rintro ⟨hm, hc, hms⟩
      refine ⟨List.forall_mem_cons.mpr ⟨hm, hms.written⟩, ?_⟩
      rw [List.dropLast_cons_cons]
      exact List.forall_mem_cons.mpr ⟨hc.resolve_left (List.cons_ne_nil _ _), hms.closed⟩

/-- What follows a mask is the masks that follow it. -/
theorem setLoop_following (hF : MaskFlags F) : ∀ {ms : List WStr}, (∀ m ∈ ms, IsMask m) →
    (setLoop T F (following ms) = some ms ↔ AllWritten F ms)
  | [], _ => by
    rw [following, setLoop_eq]
    exact iff_of_true rfl
      ⟨fun _ h => absurd h List.not_mem_nil, fun _ h => absurd h List.not_mem_nil⟩
  | m :: ms, h => by
    have ih := @setLoop_following hF ms fun m' hm' => h m' (List.mem_cons_of_mem _ hm')
    have hlead : Lead [COMMA] := .inr rfl
    show setLoop T F ([COMMA] ++ joinMasks (m :: ms)) = _ ↔ _
    rw [allWritten_cons]
    constructor
    · intro hset
      obtain ⟨hwritten, hclosed, hrest⟩ := written_of_setLoop hF h hlead hset
      exact ⟨hwritten, hclosed, ih.mp hrest⟩
    · rintro ⟨hwritten, hclosed, hrest⟩
      rw [setLoop_of_written hF (h m List.mem_cons_self) hwritten hclosed hlead, ih.mpr hrest]
      rfl

/-- **A text of masks has the masks as its items if, and only if, they are written as the list keeps
them.** -/
theorem setList_joinMasks (hF : MaskFlags F) {ms : List WStr} (h : ∀ m ∈ ms, IsMask m) :
    setList T F (joinMasks ms) = some ms ↔ ms ≠ [] ∧ AllWritten F ms := by
  have hcheck : checkSeparators F = true := by
    rw [checkSeparators, hF.separator, hF.brackets, hF.regexp]
    decide
  rw [setList, hcheck]
  cases ms with
  | nil => simp [joinMasks]
  | cons m ms =>
    have hlead : Lead [] := .inl rfl
    have hrest := @setLoop_following T F hF ms fun m' hm' => h m' (List.mem_cons_of_mem _ hm')
    rw [allWritten_cons]
    constructor
    · intro hset
      split at hset
      · exact absurd hset (by simp)
      · obtain ⟨hwritten, hclosed, hfollowing⟩ := written_of_setLoop hF h hlead hset
        exact ⟨List.cons_ne_nil _ _, hwritten, hclosed, hrest.mp hfollowing⟩
    · rintro ⟨-, hwritten, hclosed, hms⟩
      have hne : joinMasks (m :: ms) ≠ [] := by
        rw [joinMasks_cons]
        exact List.append_ne_nil_of_left_ne_nil hwritten.some _
      have hset := setLoop_of_written (T := T) hF (h m List.mem_cons_self) hwritten hclosed hlead
      rw [if_neg (by simpa using hne), ← List.nil_append (joinMasks (m :: ms)), hset, hrest.mpr hms]
      rfl

end Far2l.Filemask
