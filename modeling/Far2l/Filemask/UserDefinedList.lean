/-
Far2l.Filemask.UserDefinedList — `UserDefinedList` of `far/src/mix/udlist.cpp`: a
text that is a list of items, with the flags a list of masks is read with.

A pointer into the text is what is behind it. Items are trimmed; empty items are
errors; the list is neither sorted nor made unique.
-/
import Far2l.Utils.Chars

namespace Far2l.Filemask

/-! ## Characters -/

def QUOTE : WChar := 0x22
def ASTERISK : WChar := 0x2A
def COMMA : WChar := 0x2C
def DOT : WChar := 0x2E
def SLASH : WChar := 0x2F
def SEMICOLON : WChar := 0x3B
def LESS : WChar := 0x3C
def GREATER : WChar := 0x3E
def QUESTION : WChar := 0x3F
def LBRACKET : WChar := 0x5B
def BACKSLASH : WChar := 0x5C
def RBRACKET : WChar := 0x5D
def BAR : WChar := 0x7C

/-- `IsSpace`. -/
def isSpace (c : WChar) : Bool := c = SPACE ∨ c = TAB ∨ c = 0x3000

/-- What the platform says of characters. The printing characters of ASCII are no blanks. -/
structure Ctype where
  isAlpha : WChar → Bool
  iswspace : WChar → Bool
  printing : ∀ c : WChar, 0x21 ≤ c.toNat → c.toNat < 0x7F → iswspace c = false

/-- The members of `UserDefinedList` that a list of masks is read with. -/
structure ListFlags where
  separator : List WChar := [SEMICOLON, COMMA]
  processBrackets : Bool := false
  addAsterisk : Bool := false
  packAsterisks : Bool := false
  processRegexp : Bool := false

/-! ## `Skip` -/

/-- `while (IsSpace(*Str)) ++Str`. -/
def trimLeft (str : WStr) : WStr := str.dropWhile isSpace

/-- How many blanks the text begins with. -/
def spaces (str : WStr) : Nat := (str.takeWhile isSpace).length

/-- `Skip`: where a quoted item ends. -/
def quotesEnd : WStr → Option Nat
  | [] => none
  | c :: str =>
      if c = QUOTE then
        match str with
        | d :: str => if d = QUOTE then (quotesEnd str).map (· + 2) else some 0
        | [] => some 0
      else (quotesEnd str).map (· + 1)

/-- `Skip`: where a regular expression ends, from behind its first slash on. -/
def regexpEnd : WStr → Option Nat
  | [] => none
  | c :: str =>
      if c = BACKSLASH then
        match str with
        | _ :: str => (regexpEnd str).map (· + 2)
        | [] => none
      else if c = SLASH then some 0
      else (regexpEnd str).map (· + 1)

/-- `Skip`: how many flags follow, of at most `n`. -/
def flagsLength (T : Ctype) (separator : List WChar) : Nat → WStr → Nat
  | n + 1, c :: str =>
      if c ∈ separator ∨ !T.isAlpha c then 0 else flagsLength T separator n str + 1
  | _, _ => 0

/-- `Skip`: is one in brackets behind this character? -/
def bracketsAfter (processBrackets inBrackets : Bool) (c : WChar) : Bool :=
  if processBrackets then
    if c = LBRACKET then true else if c = RBRACKET then false else inBrackets
  else inBrackets

/-- `Skip`: how long an item is that is neither quoted nor a regular expression. -/
def plainLength (F : ListFlags) : Bool → WStr → Nat
  | _, [] => 0
  | inBrackets, c :: str =>
      let inBrackets := bracketsAfter F.processBrackets inBrackets c
      if !inBrackets ∧ c ∈ F.separator then 0 else plainLength F inBrackets str + 1

/-- What `Skip` returns: `nullptr`, with `Error` or without, or where an item begins and its
`Length`, `RealLength` and `InQuotes`. -/
inductive Skipped where
  | finished
  | error
  | item (cur : WStr) (length realLength : Nat) (inQuotes : Bool)

/-- The text ends here or a separator follows. -/
def atSeparator (F : ListFlags) : WStr → Bool
  | [] => true
  | c :: _ => c ∈ F.separator

/-- `Skip`: the item in front. -/
def skipItem (T : Ctype) (F : ListFlags) (cur : WStr) : Skipped :=
  if cur.head? = some QUOTE then
    let cur := cur.drop 1
    match quotesEnd cur with
    | none => .error
    | some stop =>
        let realEnd := stop + 1 + spaces (cur.drop (stop + 1))
        if atSeparator F (cur.drop realEnd) then .item cur stop realEnd true else .error
  else if F.processRegexp ∧ cur.head? = some SLASH then
    match regexpEnd (cur.drop 1) with
    | none => .error
    | some stop =>
        let stop := stop + 2
        let stop := stop + flagsLength T F.separator 4 (cur.drop stop)
        let realEnd := stop + spaces (cur.drop stop)
        if atSeparator F (cur.drop realEnd) then .item cur stop realEnd false else .error
  else
    let realLength := plainLength F false cur
    .item cur (realLength - spaces (cur.take realLength).reverse) realLength false

/-- A separator in front is skipped, and the blanks around it. -/
def skipSeparator (F : ListFlags) (str : WStr) : WStr :=
  match trimLeft str with
  | [] => []
  | c :: rest => if c ∈ F.separator then trimLeft rest else c :: rest

/-- `Skip`. -/
def skip (T : Ctype) (F : ListFlags) (str : WStr) : Skipped :=
  if str = [] then .finished
  else
    match skipSeparator F str with
    | [] => .item [] 0 0 false
    | c :: rest => skipItem T F (c :: rest)

/-! ## `Set` -/

/-- `Compact`; `found` as in the loop. -/
def compact (char : WChar) (byPairs : Bool) : Bool → WStr → WStr
  | _, [] => []
  | found, c :: src =>
      if !found then c :: compact char byPairs (c = char) src
      else if c = char then compact char byPairs (!byPairs) src
      else c :: compact char byPairs false src

/-- `Set`: what is kept of an item. -/
def listItem (F : ListFlags) (str : WStr) (inQuotes : Bool) : WStr :=
  if F.processRegexp ∧ str.head? = some SLASH then str
  else
    let str := if F.packAsterisks then compact ASTERISK false false str else str
    let str := if inQuotes then compact QUOTE true false str else str
    if F.addAsterisk ∧ !str.any (· ∈ [QUESTION, ASTERISK, DOT]) then str ++ [ASTERISK] else str

/-! ## The text gets shorter -/

theorem length_trimLeft (str : WStr) : (trimLeft str).length ≤ str.length :=
  (List.dropWhile_sublist _).length_le

theorem length_skipSeparator (F : ListFlags) (str : WStr) :
    (skipSeparator F str).length ≤ str.length := by
  have htrim := length_trimLeft str
  rw [skipSeparator]
  cases h : trimLeft str with
  | nil => exact Nat.zero_le _
  | cons c rest =>
    rw [h] at htrim
    have hrest := length_trimLeft rest
    dsimp only
    split
    · exact Nat.le_trans hrest (Nat.le_trans (Nat.le_succ _) htrim)
    · exact htrim

theorem skipItem_length {T : Ctype} {F : ListFlags} {str cur : WStr} {length realLength : Nat}
    {inQuotes : Bool} (h : skipItem T F str = .item cur length realLength inQuotes) :
    cur.length ≤ str.length ∧ length ≤ realLength := by
  rw [skipItem] at h
  split at h
  · dsimp only at h
    split at h
    · exact Skipped.noConfusion h
    · split at h
      · cases h
        rw [List.length_drop]
        omega
      · exact Skipped.noConfusion h
  · split at h
    · split at h
      · exact Skipped.noConfusion h
      · dsimp only at h
        split at h
        · cases h
          exact ⟨Nat.le_refl _, Nat.le_add_right _ _⟩
        · exact Skipped.noConfusion h
    · cases h
      exact ⟨Nat.le_refl _, Nat.sub_le _ _⟩

theorem skip_length {T : Ctype} {F : ListFlags} {str cur : WStr} {length realLength : Nat}
    {inQuotes : Bool} (h : skip T F str = .item cur length realLength inQuotes) :
    str ≠ [] ∧ cur.length ≤ str.length ∧ length ≤ realLength := by
  have hsep := length_skipSeparator F str
  rw [skip] at h
  split at h
  · exact Skipped.noConfusion h
  · next hne =>
    refine ⟨hne, ?_⟩
    cases hskip : skipSeparator F str with
    | nil =>
      rw [hskip] at h
      cases h
      exact ⟨Nat.zero_le _, Nat.le_refl _⟩
    | cons c rest =>
      rw [hskip] at h hsep
      obtain ⟨hcur, hlen⟩ := skipItem_length h
      exact ⟨Nat.le_trans hcur hsep, hlen⟩

/-- `Set`: the loop. An empty item is an error. -/
def setLoop (T : Ctype) (F : ListFlags) (str : WStr) : Option (List WStr) :=
  match _h : skip T F str with
  | .finished => some []
  | .error => none
  | .item cur length realLength inQuotes =>
      if _hlen : length = 0 then none
      else
        (setLoop T F (cur.drop realLength)).map
          (listItem F (cur.take length) inQuotes :: ·)
termination_by str.length
decreasing_by
  obtain ⟨hne, hcur, hle⟩ := skip_length _h
  have hpos := List.length_pos_iff.mpr hne
  rw [List.length_drop]
  omega

/-- `CheckSeparators`. -/
def checkSeparators (F : ListFlags) : Bool :=
  !F.separator.any fun c =>
    c = QUOTE ∨ (F.processBrackets ∧ (c = LBRACKET ∨ c = RBRACKET)) ∨ (F.processRegexp ∧ c = SLASH)

/-- `Set`. -/
def setList (T : Ctype) (F : ListFlags) (list : WStr) : Option (List WStr) :=
  if !checkSeparators F ∨ list = [] then none else setLoop T F list

end Far2l.Filemask
