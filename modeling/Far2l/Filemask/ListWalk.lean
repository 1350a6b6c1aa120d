/-
Far2l.Filemask.ListWalk — where `Skip` and `Set` of `far/src/mix/udlist.cpp` go in
the text, with every combination of flags.

A pointer into the list is what is behind it, up to the NUL; one that has gone past
the NUL, or in front of the text, is an outcome of its own. Lengths are converted to
`int`. What `Set` does with the items when the text has been read is left out.
-/
import Mathlib.Data.List.TakeWhile
import Far2l.Filemask.UserDefinedListTheorems

namespace Far2l.Filemask

/-- The members of `UserDefinedList` that say how a text is read. -/
structure WalkFlags extends ListFlags where
  trim : Bool := true
  accountEmptyLine : Bool := false

/-- `(int)`. -/
def toInt (n : Nat) : Int := Int.bmod n (2 ^ 32)

/-- `if (mTrim) while (IsSpace(*Str)) ++Str`. -/
def WalkFlags.trimmed (F : WalkFlags) (str : WStr) : WStr := if F.trim then trimLeft str else str

/-- How far the loop behind an item goes. -/
def WalkFlags.blanks (F : WalkFlags) (str : WStr) : Nat := if F.trim then spaces str else 0

/-- What `Skip` returns, or that the pointer is past the NUL. -/
inductive Walked where
  | finished
  | error
  | outside
  | item (cur : WStr) (length realLength : Int) (inQuotes : Bool)

/-- `Skip`: the item in front. -/
def walkItem (T : Ctype) (F : WalkFlags) (cur : WStr) : Walked :=
  if cur.head? = some QUOTE then
    let cur := cur.drop 1
    match quotesEnd cur with
    | none => .error
    | some stop =>
        let realEnd := stop + 1 + F.blanks (cur.drop (stop + 1))
        if atSeparator F.toListFlags (cur.drop realEnd) then
          .item cur (toInt stop) (toInt realEnd) true
        else .error
  else if F.processRegexp ∧ cur.head? = some SLASH then
    match regexpEnd (cur.drop 1) with
    | none => .error
    | some stop =>
        let stop := stop + 2
        let stop := stop + flagsLength T F.separator 4 (cur.drop stop)
        let realEnd := stop + F.blanks (cur.drop stop)
        if atSeparator F.toListFlags (cur.drop realEnd) then
          .item cur (toInt stop) (toInt realEnd) false
        else .error
  else
    let realLength := plainLength F.toListFlags false cur
    -- `while (Length>0 && IsSpace(*--cur)) --Length`
    let trailing := F.blanks (cur.take realLength).reverse
    .item cur (toInt realLength - min (toInt realLength).toNat trailing) (toInt realLength) false

/-- `Skip`. The NUL is found by `wcschr`, too. -/
def walkSkip (T : Ctype) (F : WalkFlags) (str : WStr) : Walked :=
  if str = [] then .finished
  else
    match F.trimmed str with
    | [] => .outside
    | c :: rest =>
        let str := if c ∈ F.separator then F.trimmed rest else c :: rest
        if str = [] then .item [] 0 0 false else walkItem T F str

/-- How a call of `Set` ends, or that it is still running. -/
inductive Walk where
  | returned (rc : Bool) (items : List WStr)
  | leaves
  | runs

/-- `Set`: the loop, in a text and at a place in it. -/
def walkLoop (T : Ctype) (F : WalkFlags) (list : WStr) : (turns : Nat) → WStr → List WStr → Walk
  | 0, _, _ => .runs
  | turns + 1, cur, items =>
      match walkSkip T F cur with
      | .finished => .returned true items
      | .error => .returned false []
      | .outside => .leaves
      | .item cur length realLength inQuotes =>
          if length > 0 then
            let str := cur.take length.toNat
            if str = [] then .returned false []
            else
              let pos := (list.length : Int) - cur.length + realLength
              if pos < 0 ∨ list.length < pos then .leaves
              else
                walkLoop T F list turns (list.drop pos.toNat)
                  (items ++ [listItem F.toListFlags str inQuotes])
          else if F.accountEmptyLine then walkLoop T F list turns cur items
          else .returned false []

/-- `Set`. -/
def walkSet (T : Ctype) (F : WalkFlags) (turns : Nat) (list : WStr) (addToList : Bool)
    (items : List WStr) : Walk :=
  if !checkSeparators F.toListFlags then .returned false items
  else if list = [] then .returned addToList items
  else walkLoop T F list turns list (if addToList then items else [])

end Far2l.Filemask

/-! # When `Set` stays in the text and comes to an end.

With trimming, a text of nothing but blanks is left: the blanks are passed, and
`wcschr` finds the NUL among the separators. Any other text is read with pointers in
front of which something is left that is not blank (`Safe`), and each call of `Skip`
goes forward. -/

namespace Far2l.Filemask

/-- Trimming stops in front of the NUL. -/
def Safe (F : WalkFlags) (str : WStr) : Prop :=
  F.trim = true → str = [] ∨ ∃ c ∈ str, isSpace c = false

/-- `";,"` -/
def DefaultSeparators (F : WalkFlags) : Prop := F.separator = [SEMICOLON, COMMA]

variable {T : Ctype} {F : WalkFlags} {str cur rest : WStr}

/-! ## Pieces of a text -/

theorem toInt_eq {n : Nat} (h : n < 2 ^ 31) : toInt n = n :=
  Int.bmod_eq_of_le (by omega) (by omega)

theorem trimmed_suffix (F : WalkFlags) (str : WStr) : F.trimmed str <:+ str := by
  rw [WalkFlags.trimmed]
  split
  · exact List.dropWhile_suffix _
  · exact List.suffix_refl _

theorem trimmed_ne_nil (h : Safe F str) (hne : str ≠ []) : F.trimmed str ≠ [] := by
  rw [WalkFlags.trimmed]
  split
  · next htrim =>
    intro hnil
    obtain ⟨c, hc, hspace⟩ := (h htrim).resolve_left hne
    have hall := List.dropWhile_eq_nil_iff.mp hnil c hc
    rw [hspace] at hall
    exact Bool.false_ne_true hall
  · exact hne

theorem blanks_le (F : WalkFlags) (str : WStr) : F.blanks str ≤ str.length := by
  rw [WalkFlags.blanks]
  split
  · exact (List.takeWhile_prefix _).length_le
  · exact Nat.zero_le _

theorem safe_of_head {c : WChar} (h : isSpace c = false) : Safe F (c :: rest) :=
  fun _ => .inr ⟨c, List.mem_cons_self, h⟩

theorem safe_of_atSeparator (hF : DefaultSeparators F) (h : atSeparator F.toListFlags str = true) :
    Safe F str := by
  cases str with
  | nil => exact fun _ => .inl rfl
  | cons c rest =>
    have hc : c ∈ F.separator := of_decide_eq_true h
    rw [hF] at hc
    refine safe_of_head ?_
    rcases List.mem_pair.mp hc with rfl | rfl <;> decide

theorem quotesEnd_lt {stop : Nat} (h : quotesEnd str = some stop) : stop < str.length := by
  obtain ⟨rest, hrest⟩ := quotesEnd_quote h
  have hlen := congrArg List.length hrest
  rw [List.length_drop, List.length_cons] at hlen
  omega

theorem regexpEnd_lt {stop : Nat} (h : regexpEnd str = some stop) : stop < str.length := by
  fun_induction regexpEnd str generalizing stop with
  | case1 => cases h
  | case2 d str ih =>
    obtain ⟨n, hn, rfl⟩ := Option.map_eq_some_iff.mp h
    have hlt := ih hn
    rw [List.length_cons, List.length_cons]
    omega
  | case3 => cases h
  | case4 =>
    cases h
    exact Nat.succ_pos _
  | case5 d str hback hslash ih =>
    obtain ⟨n, hn, rfl⟩ := Option.map_eq_some_iff.mp h
    exact Nat.succ_lt_succ (ih hn)

theorem flagsLength_le (separator : List WChar) (n : Nat) (str : WStr) :
    flagsLength T separator n str ≤ str.length := by
  induction n generalizing str with
  | zero => cases str <;> exact Nat.zero_le _
  | succ n ih =>
    cases str with
    | nil => exact Nat.zero_le _
    | cons c str =>
      rw [flagsLength]
      split
      · exact Nat.zero_le _
      · exact Nat.succ_le_succ (ih str)

/-- Behind a plain item stands a separator, or nothing. -/
theorem atSeparator_plain (F : ListFlags) (b : Bool) (str : WStr) :
    atSeparator F (str.drop (plainLength F b str)) = true := by
  induction str generalizing b with
  | nil => rfl
  | cons c str ih =>
    rw [plainLength]
    split
    · next h => exact decide_eq_true h.2
    · exact ih _

/-! ## A call of `Skip` -/

/-- What an item has to be like for `Set` to go on: `CurList` or the place behind the item is in the
text, it is safe, and it is closer to the end than the text that was skipped. -/
structure Onward (F : WalkFlags) (str cur : WStr) (length realLength : Int) : Prop where
  suffix : cur <:+ str
  taken : 0 < length → cur ≠ [] ∧ 0 < realLength ∧ realLength ≤ cur.length
    ∧ Safe F (cur.drop realLength.toNat)
  empty : length ≤ 0 → Safe F cur ∧ (cur.length < str.length ∨ atSeparator F.toListFlags str = true)

/-- A result with which `Set` stays in the text. -/
def Walked.Ok (F : WalkFlags) (str : WStr) : Walked → Prop
  | .error => True
  | .item cur length realLength _ => Onward F str cur length realLength
  | _ => False

theorem onward_taken (hF : DefaultSeparators F) {stop realEnd : Nat} (hcur : cur <:+ str)
    (hlen : str.length < 2 ^ 31) (hstop : 0 < stop ∧ stop ≤ realEnd) (hend : realEnd ≤ cur.length)
    (hsep : atSeparator F.toListFlags (cur.drop realEnd) = true) :
    Onward F str cur (toInt stop) (toInt realEnd) := by
  have hle := hcur.length_le
  rw [toInt_eq (by omega), toInt_eq (by omega)]
  refine ⟨hcur, fun _ => ⟨?_, by omega, by omega, safe_of_atSeparator hF hsep⟩, fun hzero => by omega⟩
  rintro rfl
  rw [List.length_nil] at hend
  omega

/-- An item in quotes, from behind the first of them on. -/
theorem onward_quotes (hF : DefaultSeparators F) {c : WChar} {stop : Nat}
    (hlen : (c :: rest).length < 2 ^ 31) (hend : quotesEnd rest = some stop)
    (hsep : atSeparator F.toListFlags
      (rest.drop (stop + 1 + F.blanks (rest.drop (stop + 1)))) = true) :
    Onward F (c :: rest) rest (toInt stop) (toInt (stop + 1 + F.blanks (rest.drop (stop + 1)))) := by
  have hstop := quotesEnd_lt hend
  have hblanks := blanks_le F (rest.drop (stop + 1))
  rw [List.length_drop] at hblanks
  rcases Nat.eq_zero_or_pos stop with rfl | hpos
  · obtain ⟨behind, hbehind⟩ := quotesEnd_quote hend
    rw [List.drop_zero] at hbehind
    refine ⟨List.suffix_cons c rest, fun hlt => absurd hlt (Int.lt_irrefl 0), fun _ => ⟨?_, .inl ?_⟩⟩
    · rw [hbehind]
      exact safe_of_head (by decide)
    · exact Nat.lt_succ_self _
  · exact onward_taken hF (List.suffix_cons c rest) hlen ⟨hpos, by omega⟩ (by omega) hsep

/-- An item that is neither in quotes nor a regular expression. -/
theorem onward_plain (hF : DefaultSeparators F) {c : WChar} (hlen : (c :: rest).length < 2 ^ 31)
    (hblank : F.trim = true → isSpace c = false) {r : Nat}
    (hr : plainLength F.toListFlags false (c :: rest) = r) :
    Onward F (c :: rest) (c :: rest)
      (toInt r - min (toInt r).toNat (F.blanks ((c :: rest).take r).reverse)) (toInt r) := by
  have hsep := atSeparator_plain F.toListFlags false (c :: rest)
  have hle := plainLength_le (F := F.toListFlags) false (c :: rest)
  rw [hr] at hsep hle
  rcases Nat.eq_zero_or_pos r with rfl | hpos
  · rw [List.drop_zero] at hsep
    refine ⟨List.suffix_refl _, fun hlt => absurd hlt (by rw [toInt_eq (by decide)]; omega), fun _ =>
      ⟨safe_of_atSeparator hF hsep, .inr hsep⟩⟩
  · have hshort : F.blanks ((c :: rest).take r).reverse < r := by
      rw [WalkFlags.blanks]
      split
      · next htrim =>
        -- the item begins with a character that is not blank
        have hc : c ∈ ((c :: rest).take r).reverse := by
          rw [List.mem_reverse, List.take_cons hpos]
          exact List.mem_cons_self
        have hlength : ((c :: rest).take r).reverse.length = r := by
          rw [List.length_reverse, List.length_take]
          omega
        have hsplit := congrArg List.length
          (List.takeWhile_append_dropWhile (p := isSpace) (l := ((c :: rest).take r).reverse))
        have hdrop : ((c :: rest).take r).reverse.dropWhile isSpace ≠ [] := by
          intro hnil
          have hspace := List.dropWhile_eq_nil_iff.mp hnil c hc
          rw [hblank htrim] at hspace
          exact Bool.false_ne_true hspace
        have hlast := List.length_pos_iff.mpr hdrop
        rw [List.length_append, hlength] at hsplit
        rw [spaces]
        omega
      · exact hpos
    have htaken := onward_taken hF (List.suffix_refl (c :: rest)) hlen ⟨hpos, Nat.le_refl r⟩ hle hsep
    rw [toInt_eq (by omega)] at htaken ⊢
    exact ⟨htaken.suffix, fun _ => htaken.taken (by omega), fun hzero => by omega⟩

/-- The item in front, of a text that does not begin with a blank that could be trimmed. -/
theorem walkItem_ok (hF : DefaultSeparators F) {c : WChar} (hlen : (c :: rest).length < 2 ^ 31)
    (hblank : F.trim = true → isSpace c = false) :
    (walkItem T F (c :: rest)).Ok F (c :: rest) := by
  rw [walkItem]
  by_cases hquote : (c :: rest).head? = some QUOTE
  · rw [if_pos hquote, List.drop_one, List.tail_cons]
    dsimp only
    cases hend : quotesEnd rest with
    | none => trivial
    | some stop =>
      dsimp only
      split
      · next hsep => exact onward_quotes hF hlen hend hsep
      · trivial
  · rw [if_neg hquote]
    split
    · rw [List.drop_one, List.tail_cons]
      cases hend : regexpEnd rest with
      | none => trivial
      | some stop =>
        have hstop := regexpEnd_lt hend
        have hflags := flagsLength_le (T := T) F.separator 4 ((c :: rest).drop (stop + 2))
        dsimp only
        generalize flagsLength T F.separator 4 ((c :: rest).drop (stop + 2)) = flags at hflags ⊢
        have hblanks := blanks_le F ((c :: rest).drop (stop + 2 + flags))
        rw [List.length_drop, List.length_cons] at hflags hblanks
        split
        · next hsep =>
          exact onward_taken hF (List.suffix_refl _) hlen ⟨by omega, by omega⟩
            (by rw [List.length_cons]; omega) hsep
        · trivial
    · exact onward_plain hF hlen hblank rfl

/-- **`Skip` stays in a safe text**, and goes forward. -/
theorem walkSkip_ok (hF : DefaultSeparators F) (hsafe : Safe F str) (hne : str ≠ [])
    (hlen : str.length < 2 ^ 31) :
    match walkSkip T F str with
    | .error => True
    | .item cur length realLength _ => cur <:+ str
        ∧ (0 < length → cur ≠ [] ∧ 0 < realLength ∧ realLength ≤ cur.length
          ∧ Safe F (cur.drop realLength.toNat))
        ∧ (length ≤ 0 → Safe F cur ∧ cur.length < str.length)
    | _ => False := by
  have htrim := trimmed_suffix F str
  rw [walkSkip, if_neg hne]
  cases hstr : F.trimmed str with
  | nil => exact absurd hstr (trimmed_ne_nil hsafe hne)
  | cons c rest =>
    rw [hstr] at htrim
    have hrest : F.trimmed rest <:+ str := (trimmed_suffix F rest).trans ((List.suffix_cons c rest).trans htrim)
    have hless : (F.trimmed rest).length < str.length := by
      have hle := htrim.length_le
      have hle' := (trimmed_suffix F rest).length_le
      rw [List.length_cons] at hle
      omega
    -- what `walkItem` begins with is not a blank, if blanks are trimmed
    have hblank : ∀ {s t : WStr} {d : WChar}, F.trimmed s = d :: t → F.trim = true → isSpace d = false := by
      intro s t d hs ht
      rw [WalkFlags.trimmed, if_pos ht, trimLeft] at hs
      have hhead := List.head?_dropWhile_not isSpace s
      rw [hs] at hhead
      simpa using hhead
    dsimp only
    by_cases hsep : c ∈ F.separator
    · rw [if_pos hsep]
      cases hbehind : F.trimmed rest with
      | nil =>
        rw [if_pos rfl]
        refine ⟨List.nil_suffix, fun hlt => absurd hlt (Int.lt_irrefl 0), fun _ => ⟨fun _ => .inl rfl, ?_⟩⟩
        exact List.length_pos_iff.mpr hne
      | cons d behind =>
        rw [hbehind] at hrest hless
        have hok := walkItem_ok (T := T) hF (Nat.lt_trans hless hlen) (hblank hbehind)
        rw [if_neg (List.cons_ne_nil _ _)]
        cases hitem : walkItem T F (d :: behind) with
        | item cur length realLength inQuotes =>
          rw [hitem] at hok
          have hle := hok.suffix.length_le
          exact ⟨hok.suffix.trans hrest, hok.taken, fun hzero =>
            ⟨(hok.empty hzero).1, Nat.lt_of_le_of_lt hle hless⟩⟩
        | error => trivial
        | finished => rw [hitem] at hok; exact hok
        | outside => rw [hitem] at hok; exact hok
    · rw [if_neg hsep, if_neg (List.cons_ne_nil _ _)]
      have hok := walkItem_ok (T := T) hF (Nat.lt_of_le_of_lt htrim.length_le hlen) (hblank hstr)
      cases hitem : walkItem T F (c :: rest) with
      | item cur length realLength inQuotes =>
        rw [hitem] at hok
        refine ⟨hok.suffix.trans htrim, hok.taken, fun hzero => ⟨(hok.empty hzero).1, ?_⟩⟩
        rcases (hok.empty hzero).2 with hlt | hat
        · exact Nat.lt_of_lt_of_le hlt htrim.length_le
        · exact absurd (of_decide_eq_true hat) hsep
      | error => trivial
      | finished => rw [hitem] at hok; exact hok
      | outside => rw [hitem] at hok; exact hok

/-! ## The loop of `Set` -/

theorem drop_suffix {list : WStr} (h : cur <:+ list) (k : Nat) :
    list.drop (list.length - cur.length + k) = cur.drop k := by
  obtain ⟨front, rfl⟩ := h
  rw [List.length_append, Nat.add_sub_cancel, List.drop_length_add_append]

/-- **The loop comes to an end in the text**, from every safe place on. -/
theorem walkLoop_returns (hF : DefaultSeparators F) {list : WStr} (hlen : list.length < 2 ^ 31)
    (cur : WStr) (hcur : cur <:+ list) (hsafe : Safe F cur) (items : List WStr) :
    ∃ turns rc out, walkLoop T F list turns cur items = .returned rc out := by
  induction hn : cur.length using Nat.strongRecOn generalizing cur items with
  | ind n ih =>
    have hle := hcur.length_le
    by_cases hne : cur = []
    · exact ⟨1, true, items, by rw [walkLoop, walkSkip, if_pos hne]⟩
    · have hok := walkSkip_ok (T := T) hF hsafe hne (Nat.lt_of_le_of_lt hle hlen)
      cases hskip : walkSkip T F cur with
      | finished => rw [hskip] at hok; exact hok.elim
      | outside => rw [hskip] at hok; exact hok.elim
      | error => exact ⟨1, false, [], by rw [walkLoop, hskip]⟩
      | item next length realLength inQuotes =>
        rw [hskip] at hok
        obtain ⟨hnext, htaken, hempty⟩ := hok
        have hlist : next <:+ list := hnext.trans hcur
        have hnextLe := hnext.length_le
        by_cases hlength : 0 < length
        · obtain ⟨hnil, hreal, hrealLe, hbehind⟩ := htaken hlength
          have hstr : next.take length.toNat ≠ [] := by
            intro htake
            rcases List.take_eq_nil_iff.mp htake with hzero | hzero
            · omega
            · exact hnil hzero
          have hpos := List.length_pos_iff.mpr hnil
          have hlistLe := hlist.length_le
          have hplace : ((list.length : Int) - next.length + realLength).toNat
              = list.length - next.length + realLength.toNat := by omega
          have hdrop := List.length_drop (i := realLength.toNat) (l := next)
          obtain ⟨turns, rc, out, hrun⟩ := ih _ (by omega) (next.drop realLength.toNat)
            ((List.drop_suffix _ _).trans hlist) hbehind
            (items ++ [listItem F.toListFlags (next.take length.toNat) inQuotes]) rfl
          refine ⟨turns + 1, rc, out, ?_⟩
          rw [walkLoop, hskip]
          dsimp only
          rw [if_pos hlength, if_neg hstr, if_neg (by omega), hplace, drop_suffix hlist]
          exact hrun
        · obtain ⟨hsafe', hless⟩ := hempty (by omega)
          by_cases hall : F.accountEmptyLine = true
          · obtain ⟨turns, rc, out, hrun⟩ := ih _ (by omega) next hlist hsafe' items rfl
            refine ⟨turns + 1, rc, out, ?_⟩
            rw [walkLoop, hskip]
            dsimp only
            rw [if_neg hlength, if_pos hall]
            exact hrun
          · refine ⟨1, false, [], ?_⟩
            rw [walkLoop, hskip]
            dsimp only
            rw [if_neg hlength, if_neg hall]

/-! ## The claim -/

/-- **`Set` ends, and never leaves the text.** -/
def Stays (T : Ctype) (F : WalkFlags) (list : WStr) (addToList : Bool) (items : List WStr) : Prop :=
  ∃ turns rc out, walkSet T F turns list addToList items = .returned rc out

theorem checkSeparators_default (hF : DefaultSeparators F) : checkSeparators F.toListFlags = true := by
  rw [checkSeparators, show F.toListFlags.separator = [SEMICOLON, COMMA] from hF]
  cases F.processBrackets <;> cases F.processRegexp <;> decide

/-- The blanks are trimmed, and the NUL behind them is taken for a separator. -/
theorem walkLoop_leaves {list : WStr} (hne : str ≠ []) (hrisky : ¬Safe F str) (turns : Nat)
    (items : List WStr) : walkLoop T F list (turns + 1) str items = .leaves := by
  have hblank : F.trim = true ∧ ∀ c ∈ str, isSpace c = true := by
    rw [Safe, Classical.not_imp] at hrisky
    refine ⟨hrisky.1, fun c hc => ?_⟩
    by_contra hspace
    exact hrisky.2 (.inr ⟨c, hc, Bool.not_eq_true _ ▸ hspace⟩)
  have hnil : F.trimmed str = [] := by
    rw [WalkFlags.trimmed, if_pos hblank.1]
    exact List.dropWhile_eq_nil_iff.mpr hblank.2
  rw [walkLoop, walkSkip, if_neg hne, hnil]

/-- **`Set` ends within the text** exactly when blanks are not trimmed or the list is empty or has a
character that is no blank. -/
theorem walkSet_stays_iff (hF : DefaultSeparators F) {list : WStr} (hlen : list.length < 2 ^ 31)
    (addToList : Bool) (items : List WStr) : Stays T F list addToList items
      ↔ (F.trim = true → list = [] ∨ ∃ c ∈ list, isSpace c = false) := by
  have hcheck : ¬(!checkSeparators F.toListFlags) = true := by
    rw [checkSeparators_default hF]
    decide
  by_cases hne : list = []
  · refine iff_of_true ⟨0, addToList, items, ?_⟩ fun _ => .inl hne
    rw [walkSet, if_neg hcheck, if_pos hne]
  · have hset : ∀ turns, walkSet T F turns list addToList items
        = walkLoop T F list turns list (if addToList then items else []) := by
      intro turns
      rw [walkSet, if_neg hcheck, if_neg hne]
    constructor
    · rintro ⟨turns, rc, out, hout⟩
      rw [hset] at hout
      by_contra hrisky
      cases turns with
      | zero => cases hout
      | succ turns =>
        rw [walkLoop_leaves hne hrisky] at hout
        cases hout
    · intro hsafe
      obtain ⟨turns, rc, out, hout⟩ := walkLoop_returns (T := T) hF hlen list (List.suffix_refl _) hsafe
        (if addToList then items else [])
      exact ⟨turns, rc, out, by rw [hset]; exact hout⟩

/-- What the platform says of the characters of ASCII. -/
def asciiCtype : Ctype where
  isAlpha c := decide (0x41 ≤ c.toNat ∧ c.toNat ≤ 0x5A ∨ 0x61 ≤ c.toNat ∧ c.toNat ≤ 0x7A)
  iswspace c := decide (0x09 ≤ c.toNat ∧ c.toNat ≤ 0x0D ∨ c.toNat = 0x20)
  printing c hlo hhi := decide_eq_false (by omega)

theorem walkSet_stays_iff_letters :
    Stays asciiCtype {} (L ['a', ';', ' ']) false []
      ↔ ((true : Bool) = true → L ['a', ';', ' '] = [] ∨ ∃ c ∈ L ['a', ';', ' '], isSpace c = false) :=
  @walkSet_stays_iff asciiCtype {} rfl (L ['a', ';', ' ']) (by decide) false []

/-- A list that is one blank: `Skip` goes past its end. -/
theorem walkSet_blank : ¬Stays asciiCtype {} [SPACE] false [] := by
  rintro ⟨turns, rc, out, hout⟩
  cases turns with
  | zero => cases hout
  | succ turns => cases hout

end Far2l.Filemask
