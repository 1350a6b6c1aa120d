/-
Far2l.NetRocks.LocationTheorems — which locations come back from their text.

`roundTrips_iff` gives the exact condition: a URL without a user name must have no
`@` in its path, which would be taken for the one behind a user name, and an
absolute path under `file` must have components, of which the first is not a dot.
-/
import Far2l.NetRocks.Location
import Far2l.Utils.ConfigRWTheorems
import Mathlib.Data.List.TakeWhile

namespace Far2l.NetRocks

open Far2l.KeyFile (Str A upCase makeHexDigit parseHexDigit parseHexDigit_digit)

/-! ## Separators -/

section

variable {c : Byte} {s t : Str}

theorem differ (h : c ∉ s) : ∀ x ∈ s, decide (x ≠ c) = true :=
  fun x hx => decide_eq_true fun heq => h (heq.symm ▸ hx)

theorem not_differ : ¬ decide (c ≠ c) = true := by
  rw [decide_eq_true_eq]
  exact fun h => h rfl

theorem before_append (h : c ∉ s) : before c (s ++ c :: t) = s := by
  rw [before, List.takeWhile_append_of_pos (differ h),
    List.takeWhile_cons_of_neg (p := fun x => decide (x ≠ c)) not_differ, List.append_nil]

theorem after_append (h : c ∉ s) : after c (s ++ c :: t) = t := by
  rw [after, List.dropWhile_append_of_pos (differ h),
    List.dropWhile_cons_of_neg (p := fun x => decide (x ≠ c)) not_differ]
  rfl

theorem before_self (h : c ∉ s) : before c s = s := by
  have happend := @List.takeWhile_append_of_pos _ _ _ [] (differ h)
  rw [List.append_nil, List.takeWhile_nil, List.append_nil] at happend
  exact happend

theorem after_self (h : c ∉ s) : after c s = [] := by
  have happend := @List.dropWhile_append_of_pos _ _ _ [] (differ h)
  rw [List.append_nil, List.dropWhile_nil] at happend
  rw [after, happend]
  rfl

end

theorem strExplode_append (s t : Str) :
    strExplode (s ++ SLASH :: t) = strExplode s ++ strExplode t := by
  rw [strExplode, List.splitOn_append_cons_self, List.filter_append]
  rfl

theorem strExplode_one {c : Str} (hne : c ≠ []) (h : SLASH ∉ c) : strExplode c = [c] := by
  rw [strExplode, List.splitOn_eq_singleton h]
  exact List.filter_cons_of_pos (decide_eq_true hne)

/-! ## Paths -/

/-- The components are names. -/
def LocationPath.Proper (path : LocationPath) : Prop :=
  ∀ c ∈ path.components, c ≠ [] ∧ SLASH ∉ c

/-- What `ToString` writes of the components. -/
def componentsText (components : List Str) : Str := components.flatMap (SLASH :: ·)

/-- What it writes of a path. -/
def LocationPath.text (path : LocationPath) : Str :=
  (if path.absolute then [SLASH] else []) ++ componentsText path.components

theorem strExplode_componentsText : ∀ {components : List Str} (s : Str),
    (∀ c ∈ components, c ≠ [] ∧ SLASH ∉ c) →
    strExplode (s ++ componentsText components) = strExplode s ++ components
  | [], s, _ => by
    rw [componentsText, List.flatMap_nil, List.append_nil, List.append_nil]
  | c :: components, s, h => by
    obtain ⟨hne, hslash⟩ := h c List.mem_cons_self
    rw [componentsText, List.flatMap_cons, List.cons_append, strExplode_append]
    have hrest := strExplode_componentsText c fun c' hc' => h c' (List.mem_cons_of_mem _ hc')
    rw [componentsText, strExplode_one hne hslash] at hrest
    rw [hrest, List.singleton_append]

theorem LocationPath.text_cases (path : LocationPath) :
    path.text = [] ∨ path.text = SLASH :: path.text.tail := by
  rw [text]
  cases path.absolute with
  | true => exact .inr rfl
  | false =>
    cases path.components with
    | nil => exact .inl rfl
    | cons c components => exact .inr rfl

/-- **A path comes back from behind its first slash.** -/
theorem pathOf_text {path : LocationPath} (h : path.Proper) {s : Str}
    (hlast : s.getLast? ≠ some SLASH) : pathOf (s ++ path.text) path.text.tail = path := by
  obtain ⟨components, absolute⟩ := path
  have hgetLast : ∀ t, t ≠ [] → (s ++ t).getLast? = t.getLast? := fun t ht =>
    List.getLast?_append_of_ne_nil s ht
  cases components with
  | nil =>
    cases absolute with
    | true =>
      show pathOf (s ++ [SLASH]) [] = _
      rw [pathOf, if_pos rfl, hgetLast _ (List.cons_ne_nil _ _)]
      rfl
    | false =>
      show pathOf (s ++ []) [] = _
      rw [pathOf, if_pos rfl, List.append_nil, decide_eq_false hlast]
  | cons c components =>
    have hcomponents := strExplode_componentsText [] h
    obtain ⟨hcne, hslash⟩ := h c List.mem_cons_self
    cases absolute with
    | true =>
      show pathOf _ (componentsText (c :: components)) = _
      rw [List.nil_append] at hcomponents
      have hcons : componentsText (c :: components) ≠ [] := List.cons_ne_nil _ _
      rw [pathOf, if_neg hcons, pathFromString, hcomponents]
      rfl
    | false =>
      have htail : (LocationPath.text ⟨c :: components, false⟩).tail
          = c ++ componentsText components := rfl
      have hhead : (c ++ componentsText components).head? ≠ some SLASH := by
        obtain ⟨x, c', rfl⟩ := List.exists_cons_of_ne_nil hcne
        exact fun heq => hslash (Option.some.inj heq ▸ List.mem_cons_self)
      have hexplode : strExplode (c ++ componentsText components) = c :: components := by
        rw [strExplode_componentsText c fun c' hc' => h c' (List.mem_cons_of_mem _ hc'),
          strExplode_one hcne hslash]
        rfl
      rw [htail, pathOf, if_neg (List.append_ne_nil_of_left_ne_nil hcne _), pathFromString, hexplode,
        decide_eq_false hhead]

/-! ## Ports -/

theorem digitValue_text {d : Nat} (h : d < 10) : digitValue (makeHexDigit d) = some d := by
  revert d
  decide

/-- The characters of a number. -/
def IsDigitText (c : Byte) : Prop := ∃ d, d < 10 ∧ c = makeHexDigit d

theorem isDigitText {n : Nat} {c : Byte} (h : c ∈ A (Nat.toDigits 10 n)) : IsDigitText c := KeyFile.A_toDigits_mem h

theorem digitsValue_eq_foldl : ∀ {s : Str} (n : Nat), (∀ c ∈ s, IsDigitText c) →
    digitsValue n s = s.foldl (fun n c => 10 * n + parseHexDigit c) n
  | [], n, _ => rfl
  | c :: s, n, h => by
    obtain ⟨d, hd, rfl⟩ := h c List.mem_cons_self
    rw [digitsValue, digitValue_text hd]
    dsimp only
    rw [digitsValue_eq_foldl _ fun c hc => h c (List.mem_cons_of_mem _ hc), List.foldl_cons,
      parseHexDigit_digit hd]

/-- **A port comes back from its text.** -/
theorem atoi_port (port : UInt32) : UInt32.ofNat (atoi (A (Nat.toDigits 10 port.toNat))) = port := by
  have hdigit : ∀ c ∈ A (Nat.toDigits 10 port.toNat), IsDigitText c := fun c hc => isDigitText hc
  have hvalue : digitsValue 0 (A (Nat.toDigits 10 port.toNat)) = port.toNat := by
    rw [digitsValue_eq_foldl 0 hdigit, KeyFile.foldl_toDigits]
  have hatoi : ∀ {s : Str}, s ≠ [] → (∀ c ∈ s, IsDigitText c) → atoi s = digitsValue 0 s % 2 ^ 32 := by
    intro s hne hs
    obtain ⟨c, s, rfl⟩ := List.exists_cons_of_ne_nil hne
    obtain ⟨d, hd, rfl⟩ := hs c List.mem_cons_self
    have hcases : d = 0 ∨ d = 1 ∨ d = 2 ∨ d = 3 ∨ d = 4 ∨ d = 5 ∨ d = 6 ∨ d = 7 ∨ d = 8 ∨ d = 9 := by
      omega
    rcases hcases with rfl | rfl | rfl | rfl | rfl | rfl | rfl | rfl | rfl | rfl <;> rfl
  have hne : A (Nat.toDigits 10 port.toNat) ≠ [] := fun h => Nat.toDigits_ne_nil (List.map_eq_nil_iff.mp h)
  rw [hatoi hne hdigit, hvalue, Nat.mod_eq_of_lt port.toNat_lt, UInt32.ofNat_toNat]

/-! ## URLs -/

/-- None of the characters that separate the parts of a URL. -/
def NoSeparator (s : Str) : Prop := COLON ∉ s ∧ SLASH ∉ s ∧ AT ∉ s

instance (s : Str) : Decidable (NoSeparator s) := inferInstanceAs (Decidable (_ ∧ _))

/-- A URL without a password that can be written, of a protocol other than `file`. -/
structure URL.Proper (url : URL) : Prop where
  other : isFile url.protocol = false
  colon : COLON ∉ url.protocol
  less : url.protocol.head? ≠ some LESS
  host_ne : url.host ≠ []
  host : NoSeparator url.host
  username : NoSeparator url.username
  password : url.password = []

/-- The port in the text. -/
def portText (port : UInt32) : Str := if port ≠ 0 then COLON :: A (Nat.toDigits 10 port.toNat) else []

/-- What is behind the user name in the text. -/
def URL.hostText (url : URL) : Str := url.host ++ portText url.port

theorem URL.server_eq (url : URL) : url.server
    = url.protocol ++ COLON :: ((if url.username ≠ [] then url.username ++ [AT] else []) ++ url.hostText) := by
  rw [server, hostText, List.append_assoc]
  rfl

theorem portText_mem {port : UInt32} {c : Byte} (h : c ∈ portText port) :
    c = COLON ∨ IsDigitText c := by
  rw [portText] at h
  split at h
  · rcases List.mem_cons.mp h with h | h
    · exact .inl h
    · exact .inr (isDigitText h)
  · exact absurd h List.not_mem_nil

theorem isDigitText_ne {c : Byte} (h : IsDigitText c) : c ≠ SLASH ∧ c ≠ AT := by
  obtain ⟨d, hd, rfl⟩ := h
  revert d
  decide

section

variable {E : LocationEnv} {url : URL} {path : LocationPath} {s : Str}

theorem URL.Proper.hostText_ne (h : url.Proper) : url.hostText ≠ [] :=
  List.append_ne_nil_of_left_ne_nil h.host_ne _

theorem URL.Proper.hostText_head (h : url.Proper) {c : Byte} (hc : c ∉ url.host) (t : Str) :
    (url.hostText ++ t).head? ≠ some c := by
  obtain ⟨x, host, hhost⟩ := List.exists_cons_of_ne_nil h.host_ne
  rw [hostText, hhost]
  exact fun heq => hc (hhost ▸ (Option.some.inj heq ▸ List.mem_cons_self))

theorem URL.Proper.slash_hostText (h : url.Proper) : SLASH ∉ url.hostText := by
  rw [hostText, List.mem_append, not_or]
  refine ⟨h.host.2.1, fun hport => ?_⟩
  rcases portText_mem hport with hcolon | hdigit
  · exact absurd hcolon (by decide)
  · exact (isDigitText_ne hdigit).1 rfl

theorem URL.Proper.at_hostText (h : url.Proper) : AT ∉ url.hostText := by
  rw [hostText, List.mem_append, not_or]
  refine ⟨h.host.2.2, fun hport => ?_⟩
  rcases portText_mem hport with hcolon | hdigit
  · exact absurd hcolon (by decide)
  · exact (isDigitText_ne hdigit).2 rfl

/-- The host and the port come back. -/
theorem URL.Proper.host_port (h : url.Proper) : before COLON url.hostText = url.host
    ∧ UInt32.ofNat (if COLON ∈ url.hostText then atoi (after COLON url.hostText) else 0) = url.port := by
  rw [hostText, portText]
  by_cases hport : url.port ≠ 0
  · have hmem : COLON ∈ url.host ++ COLON :: A (Nat.toDigits 10 url.port.toNat) :=
      List.mem_append_right _ List.mem_cons_self
    rw [if_pos hport, before_append h.host.1, after_append h.host.1, if_pos hmem]
    exact ⟨rfl, atoi_port url.port⟩
  · rw [if_neg hport, List.append_nil, before_self h.host.1, if_neg h.host.1]
    exact ⟨rfl, (not_not.mp hport).symm⟩

theorem dropWhile_slash (h : s.head? ≠ some SLASH) : s.dropWhile (· = SLASH) = s := by
  cases s with
  | nil => rfl
  | cons c s =>
    refine List.dropWhile_cons_of_neg ?_
    rw [decide_eq_true_eq]
    exact fun heq => h (congrArg some heq)

/-- The text of a URL and a path, behind the protocol. -/
def URL.rest (url : URL) (t : Str) : Str :=
  (if url.username ≠ [] then url.username ++ [AT] else []) ++ url.hostText ++ t

theorem URL.Proper.rest_head (h : url.Proper) (t : Str) : (url.rest t).head? ≠ some SLASH := by
  rw [rest]
  by_cases huser : url.username ≠ []
  · obtain ⟨x, user, huser'⟩ := List.exists_cons_of_ne_nil huser
    rw [if_pos huser, huser']
    exact fun heq => h.username.2.1 (huser' ▸ (Option.some.inj heq ▸ List.mem_cons_self))
  · rw [if_neg huser, List.nil_append]
    exact h.hostText_head h.host.2.1 t

theorem URL.server_append (url : URL) (t : Str) :
    url.server ++ t = url.protocol ++ COLON :: url.rest t := by
  rw [server_eq, List.append_assoc, List.cons_append, rest]

/-- What `SplitLocationSpecification` goes on with. -/
theorem URL.Proper.split_eq (h : url.Proper) (t : Str) :
    COLON ∈ url.server ++ t ∧ before COLON (url.server ++ t) = url.protocol
      ∧ (after COLON (url.server ++ t)).dropWhile (· = SLASH) = url.rest t := by
  rw [server_append, before_append h.colon, after_append h.colon, dropWhile_slash (h.rest_head t)]
  exact ⟨List.mem_append_right _ List.mem_cons_self, rfl, rfl⟩

/-- **The parts of a URL come back**, where no `@` comes before the one behind the user name. -/
theorem split_url (h : url.Proper) (hat : url.username ≠ [] ∨ AT ∉ path.text) :
    splitLocationSpecification E (url.server ++ path.text) = some (url, path.text.tail) := by
  obtain ⟨hmem, hbefore, hrest⟩ := h.split_eq path.text
  have hlogin : (if AT ∈ url.rest path.text then before AT (url.rest path.text) else []) = url.username
      ∧ (if AT ∈ url.rest path.text then after AT (url.rest path.text) else url.rest path.text)
        = url.hostText ++ path.text := by
    rw [URL.rest]
    by_cases huser : url.username ≠ []
    · rw [if_pos huser, List.append_assoc, List.append_assoc, List.singleton_append,
        before_append h.username.2.2, after_append h.username.2.2,
        if_pos (List.mem_append_right _ List.mem_cons_self),
        if_pos (List.mem_append_right _ List.mem_cons_self)]
      exact ⟨rfl, rfl⟩
    · have hnot : AT ∉ url.hostText ++ path.text := by
        rw [List.mem_append, not_or]
        exact ⟨h.at_hostText, hat.resolve_left huser⟩
      rw [if_neg huser, List.nil_append, if_neg hnot, if_neg hnot]
      exact ⟨(not_not.mp huser).symm, rfl⟩
  have hserver : before SLASH (url.hostText ++ path.text) = url.hostText
      ∧ after SLASH (url.hostText ++ path.text) = path.text.tail := by
    rcases path.text_cases with htext | htext
    · rw [htext, List.append_nil, before_self h.slash_hostText, after_self h.slash_hostText]
      exact ⟨rfl, rfl⟩
    · conv => lhs; rw [htext, before_append h.slash_hostText]
      conv => rhs; rw [htext, after_append h.slash_hostText]
      exact ⟨rfl, rfl⟩
  rw [splitLocationSpecification, if_neg (not_not.mpr hmem)]
  dsimp only
  rw [hbefore, hrest, if_neg (by rw [h.other]; decide), hlogin.1, hlogin.2, hserver.1, hserver.2,
    if_neg (List.append_ne_nil_of_left_ne_nil h.hostText_ne _), before_self h.username.1,
    after_self h.username.1, h.host_port.1, h.host_port.2, ← h.password]

/-- The text before an `@` in a path is taken for a user name. -/
theorem split_at (h : url.Proper) (huser : url.username = []) (hat : AT ∈ path.text)
    {split : URL × Str} (hsplit : splitLocationSpecification E (url.server ++ path.text) = some split) :
    split.1.username ≠ [] := by
  obtain ⟨hmem, hbefore, hrest⟩ := h.split_eq path.text
  have hrest' : url.rest path.text = url.hostText ++ path.text := by
    rw [URL.rest, if_neg (not_not.mpr huser), List.nil_append]
  have hat' : AT ∈ url.hostText ++ path.text := List.mem_append_right _ hat
  have hne : before COLON (before AT (url.hostText ++ path.text)) ≠ [] := by
    obtain ⟨x, host, hhost⟩ := List.exists_cons_of_ne_nil h.host_ne
    have hx : x ≠ AT := fun heq => h.host.2.2 (hhost ▸ heq ▸ List.mem_cons_self)
    have hx' : x ≠ COLON := fun heq => h.host.1 (hhost ▸ heq ▸ List.mem_cons_self)
    rw [URL.hostText, hhost, List.cons_append, List.cons_append, before, before,
      List.takeWhile_cons_of_pos (p := fun x => decide (x ≠ AT)) (decide_eq_true hx),
      List.takeWhile_cons_of_pos (p := fun x => decide (x ≠ COLON)) (decide_eq_true hx')]
    exact List.cons_ne_nil _ _
  rw [splitLocationSpecification, if_neg (not_not.mpr hmem)] at hsplit
  dsimp only at hsplit
  rw [hbefore, hrest, hrest', if_neg (by rw [h.other]; decide), if_pos hat', if_pos hat'] at hsplit
  split at hsplit
  · split at hsplit
    · exact Option.some.inj hsplit ▸ hne
    · exact nomatch hsplit
  · exact Option.some.inj hsplit ▸ hne

end

/-! ## Locations -/

/-- The locations that are spoken about: a URL of a protocol other than `file`, a site with a path
that says something, and an absolute path under `file`. -/
inductive Covered : Location → Prop where
  | url {url : URL} {path : LocationPath} (h : url.Proper) (hpath : path.Proper) :
      Covered ⟨.SK_URL, url, url.server, path⟩
  | site {server : Str} {path : LocationPath} (hpath : path.Proper)
      (hgiven : path.components ≠ [] ∨ path.absolute = true) : Covered ⟨.SK_SITE, {}, server, path⟩
  | file {protocol : Str} {path : LocationPath} (h : isFile protocol = true) (hpath : path.Proper)
      (habsolute : path.absolute = true) :
      Covered ⟨.SK_URL, { protocol }, URL.server { protocol }, path⟩

/-- A location comes back from its text. -/
def RoundTrips (E : LocationEnv) (l : Location) : Prop := fromString E (l.toString true) = some l

instance (E : LocationEnv) (l : Location) : Decidable (RoundTrips E l) :=
  inferInstanceAs (Decidable (_ = _))

/-- The condition: the name of a site is one, and has no `>`; a URL has a user name or no `@` in its
path; and a path under `file` begins with a name, or it is the root, which is then where we are. -/
def Distinguishable (E : LocationEnv) (l : Location) : Prop :=
  match l.serverKind with
  | .SK_SITE => l.server ≠ [] ∧ GREATER ∉ l.server
  | .SK_URL =>
      if isFile l.url.protocol then
        match l.path.components with
        | [] => strExplode E.curDir = []
        | c :: _ => c ≠ [DOT]
      else l.url.username ≠ [] ∨ ∀ c ∈ l.path.components, AT ∉ c

section

variable {E : LocationEnv} {url : URL} {path : LocationPath}

theorem mem_text {c : Byte} (hc : c ≠ SLASH) :
    c ∈ path.text ↔ ∃ component ∈ path.components, c ∈ component := by
  rw [LocationPath.text, List.mem_append, componentsText, List.mem_flatMap]
  constructor
  · intro h
    rcases h with h | ⟨component, hmem, h⟩
    · split at h
      · exact absurd (List.mem_singleton.mp h) hc
      · exact absurd h List.not_mem_nil
    · exact ⟨component, hmem, (List.mem_cons.mp h).resolve_left hc⟩
  · intro ⟨component, hmem, h⟩
    exact .inr ⟨component, hmem, List.mem_cons_of_mem _ h⟩

theorem toString_url : (Location.mk .SK_URL url url.server path).toString true
    = url.server ++ path.text := by
  rw [Location.toString, LocationPath.text, List.append_assoc]
  rfl

theorem toString_site {server : Str} : (Location.mk .SK_SITE {} server path).toString true
    = LESS :: (server ++ GREATER :: path.text) := by
  rw [Location.toString, if_pos rfl, if_pos rfl, if_pos rfl, LocationPath.text, List.append_assoc,
    List.cons_append, List.append_assoc]
  rfl

/-- The last character of a URL's text is one of its host or its port. -/
theorem URL.Proper.server_last (h : url.Proper) : url.server.getLast? ≠ some SLASH := by
  rw [URL.server_eq, ← List.cons_append, ← List.append_assoc,
    List.getLast?_append_of_ne_nil _ h.hostText_ne]
  exact fun heq => h.slash_hostText (List.mem_of_getLast? heq)

theorem pathOf_components (str directory : Str) :
    (pathOf str directory).components = strExplode directory := by
  rw [pathOf]
  split
  · next h =>
    rw [h]
    rfl
  · rfl

theorem fromString_url {str : Str} (h : str.head? ≠ some LESS) :
    fromString E str = (splitLocationSpecification E str).map fun split =>
      { serverKind := .SK_URL, url := split.1, server := split.1.server, path := pathOf str split.2 } :=
  if_neg fun hsite => h hsite.2

theorem server_head (hless : url.protocol.head? ≠ some LESS) (t : Str) :
    (url.server ++ t).head? ≠ some LESS := by
  rw [URL.server_append]
  cases hprotocol : url.protocol with
  | nil => exact fun h => absurd (Option.some.inj h) (by decide)
  | cons c protocol =>
    rw [hprotocol] at hless
    exact hless

/-- A URL of another protocol than `file`. -/
theorem roundTrips_url (h : url.Proper) (hpath : path.Proper) :
    RoundTrips E ⟨.SK_URL, url, url.server, path⟩
      ↔ url.username ≠ [] ∨ ∀ c ∈ path.components, AT ∉ c := by
  have hne : url.server ≠ [] := by
    rw [URL.server_eq]
    exact List.append_ne_nil_of_right_ne_nil _ (List.cons_ne_nil _ _)
  have hat : AT ∉ path.text ↔ ∀ c ∈ path.components, AT ∉ c := by
    rw [mem_text (by decide)]
    exact ⟨fun hnot c hc hmem => hnot ⟨c, hc, hmem⟩, fun hall ⟨c, hc, hmem⟩ => hall c hc hmem⟩
  rw [RoundTrips, toString_url, fromString_url (server_head h.less _), ← hat]
  constructor
  · intro hback
    by_contra hnot
    rw [not_or, not_not, not_not] at hnot
    obtain ⟨split, hsplit, hloc⟩ := Option.map_eq_some_iff.mp hback
    have hurl : split.1 = url := congrArg Location.url hloc
    exact split_at h hnot.1 hnot.2 hsplit (hurl ▸ hnot.1)
  · intro hcond
    rw [split_url h hcond, Option.map_some, pathOf_text hpath h.server_last]

/-- A site. -/
theorem roundTrips_site {server : Str} (hpath : path.Proper)
    (hgiven : path.components ≠ [] ∨ path.absolute = true) :
    RoundTrips E ⟨.SK_SITE, {}, server, path⟩ ↔ server ≠ [] ∧ GREATER ∉ server := by
  have htext : path.text ≠ [] := by
    rw [LocationPath.text]
    rcases hgiven with hcomponents | habsolute
    · obtain ⟨c, components, heq⟩ := List.exists_cons_of_ne_nil hcomponents
      rw [heq]
      exact List.append_ne_nil_of_right_ne_nil _ (List.cons_ne_nil _ _)
    · rw [if_pos habsolute]
      exact List.append_ne_nil_of_left_ne_nil (List.cons_ne_nil _ _) _
  have htail : (LESS :: (server ++ GREATER :: path.text)).tail = server ++ GREATER :: path.text := rfl
  have hlong : (LESS :: (server ++ GREATER :: path.text)).length > 2
      ∧ (LESS :: (server ++ GREATER :: path.text)).head? = some LESS := by
    have hpos := List.length_pos_iff.mpr htext
    rw [List.length_cons, List.length_append, List.length_cons]
    exact ⟨by omega, rfl⟩
  have hmem : GREATER ∈ server ++ GREATER :: path.text := List.mem_append_right _ List.mem_cons_self
  rw [RoundTrips, toString_site, fromString, if_pos hlong, htail]
  dsimp only
  constructor
  · intro hback
    split at hback
    · exact nomatch hback
    · next hserver =>
      rw [not_or] at hserver
      have hsame : before GREATER (server ++ GREATER :: path.text) = server :=
        congrArg Location.server (Option.some.inj hback)
      refine ⟨hsame ▸ hserver.2, fun hin => ?_⟩
      have hin' : GREATER ∈ before GREATER (server ++ GREATER :: path.text) := hsame.symm ▸ hin
      exact not_differ (List.mem_takeWhile_imp (p := fun x => decide (x ≠ GREATER)) hin')
  · intro ⟨hne, hnot⟩
    have hlast : (LESS :: (server ++ [GREATER])).getLast? ≠ some SLASH := by
      rw [← List.cons_append, List.getLast?_append_of_ne_nil _ (List.cons_ne_nil _ _)]
      decide
    have hback := pathOf_text hpath hlast
    rw [List.cons_append, List.append_assoc, List.singleton_append] at hback
    rw [before_append hnot, after_append hnot, if_neg (not_or.mpr ⟨not_not.mpr hmem, hne⟩),
      if_neg htext, hback]

/-- Behind a dot, the directory is the current one and what comes there. -/
theorem fileDirectory_dot {components : List Str} (h : ∀ c ∈ components, c ≠ [] ∧ SLASH ∉ c) :
    strExplode (fileDirectory E ([DOT] ++ componentsText components))
      = strExplode E.curDir ++ components := by
  rw [fileDirectory]
  cases components with
  | nil => rw [if_pos (.inr rfl), List.append_nil]
  | cons c components =>
    have hcons : ¬ ([DOT] ++ componentsText (c :: components) = []
        ∨ [DOT] ++ componentsText (c :: components) = [DOT]) :=
      not_or.mpr ⟨List.cons_ne_nil _ _, fun heq => nomatch (List.cons.inj heq).2⟩
    have htake : ([DOT] ++ componentsText (c :: components)).take 2 = [DOT, SLASH] := rfl
    rw [if_neg hcons, if_pos htake]
    exact strExplode_componentsText E.curDir h

/-- A path under `file`. -/
theorem roundTrips_file {protocol : Str} (h : isFile protocol = true) (hpath : path.Proper)
    (habsolute : path.absolute = true) :
    RoundTrips E ⟨.SK_URL, { protocol }, URL.server { protocol }, path⟩ ↔
      match path.components with
      | [] => strExplode E.curDir = []
      | c :: _ => c ≠ [DOT] := by
  obtain ⟨components, absolute⟩ := path
  obtain rfl : absolute = true := habsolute
  have hcolon : COLON ∉ protocol := by
    intro hmem
    have hup : COLON ∈ A ['F', 'I', 'L', 'E'] :=
      (of_decide_eq_true h) ▸ List.mem_map.mpr ⟨COLON, hmem, rfl⟩
    exact absurd hup (by decide)
  have hless : protocol.head? ≠ some LESS := by
    intro hhead
    have hup : LESS ∈ A ['F', 'I', 'L', 'E'] :=
      (of_decide_eq_true h) ▸ List.mem_map.mpr ⟨LESS, List.mem_of_mem_head? hhead, rfl⟩
    exact absurd hup (by decide)
  have hserver : ∀ t, URL.server { protocol } ++ t = protocol ++ COLON :: t := by
    intro t
    rw [URL.server_append]
    rfl
  have hslash : ∀ t, (SLASH :: t).dropWhile (· = SLASH) = t.dropWhile (· = SLASH) := fun t =>
    List.dropWhile_cons_of_pos (decide_eq_true rfl)
  have hsplit : ∀ rest, (componentsText components).dropWhile (· = SLASH) = rest →
      (RoundTrips E ⟨.SK_URL, { protocol }, URL.server { protocol }, ⟨components, true⟩⟩ ↔
        pathOf (URL.server { protocol } ++ LocationPath.text ⟨components, true⟩) (fileDirectory E rest)
          = ⟨components, true⟩) := by
    intro rest hrest
    have hafter : (after COLON (URL.server { protocol } ++ LocationPath.text ⟨components, true⟩)).dropWhile
        (· = SLASH) = rest := by
      rw [hserver, after_append hcolon]
      exact (hslash _).trans hrest
    have hmem : COLON ∈ URL.server { protocol } ++ LocationPath.text ⟨components, true⟩ := by
      rw [hserver]
      exact List.mem_append_right _ List.mem_cons_self
    have hbefore : before COLON (URL.server { protocol } ++ LocationPath.text ⟨components, true⟩)
        = protocol := by
      rw [hserver, before_append hcolon]
    rw [RoundTrips, toString_url, fromString_url (server_head hless _), splitLocationSpecification,
      if_neg (not_not.mpr hmem)]
    dsimp only
    rw [hbefore, hafter, if_pos h, Option.map_some]
    exact ⟨fun hback => congrArg Location.path (Option.some.inj hback), fun hpath => by rw [hpath]⟩
  cases components with
  | nil =>
    rw [hsplit [] rfl, fileDirectory, if_pos (.inl rfl)]
    constructor
    · intro hpath
      rw [← pathOf_components, hpath]
    · intro hempty
      have hcomponents := pathOf_components (URL.server { protocol } ++ LocationPath.text ⟨[], true⟩) E.curDir
      rw [hempty] at hcomponents
      rw [LocationPath.mk.injEq]
      refine ⟨hcomponents, ?_⟩
      rw [pathOf]
      split
      · have hlast : (URL.server { protocol } ++ [SLASH]).getLast? = some SLASH := List.getLast?_concat
        exact decide_eq_true hlast
      · next hne => exact decide_eq_true (E.absolute hne)
  | cons c components =>
    obtain ⟨hcne, hcslash⟩ := hpath c List.mem_cons_self
    have hproper : ∀ c' ∈ components, c' ≠ [] ∧ SLASH ∉ c' :=
      fun c' hc' => hpath c' (List.mem_cons_of_mem _ hc')
    have hhead : (c ++ componentsText components).head? ≠ some SLASH := by
      obtain ⟨x, c', rfl⟩ := List.exists_cons_of_ne_nil hcne
      exact fun heq => hcslash (Option.some.inj heq ▸ List.mem_cons_self)
    rw [hsplit (c ++ componentsText components)
      ((hslash _).trans (dropWhile_slash hhead))]
    by_cases hdot : c = [DOT]
    · constructor
      · intro hpath' _
        have hcomponents := pathOf_components (URL.server { protocol }
          ++ LocationPath.text ⟨c :: components, true⟩) (fileDirectory E (c ++ componentsText components))
        rw [hpath', hdot, fileDirectory_dot hproper] at hcomponents
        have hboth : [[DOT]] ++ components = strExplode E.curDir ++ components := hcomponents
        have hcur : [[DOT]] = strExplode E.curDir := List.append_cancel_right hboth
        exact E.dotless (hcur ▸ List.mem_singleton_self _)
      · exact fun hnot => absurd hdot hnot
    · have hne : ¬ (c ++ componentsText components = [] ∨ c ++ componentsText components = [DOT]) := by
        rw [not_or]
        refine ⟨List.append_ne_nil_of_left_ne_nil hcne _, fun heq => hdot ?_⟩
        obtain ⟨x, c', rfl⟩ := List.exists_cons_of_ne_nil hcne
        obtain ⟨rfl, htail⟩ := List.cons.inj heq
        rw [(List.append_eq_nil_iff.mp htail).1]
      have htake : ¬ (c ++ componentsText components).take 2 = [DOT, SLASH] := by
        intro heq
        match c, hcne, hdot, hcslash with
        | [x], _, hdot, _ =>
          have hx : x = DOT := (List.cons.inj heq).1
          exact hdot (hx ▸ rfl)
        | x :: y :: c', _, _, hcslash =>
          have hy : y = SLASH := (List.cons.inj (List.cons.inj heq).2).1
          exact hcslash (hy ▸ List.mem_cons_of_mem _ List.mem_cons_self)
      have hexplode : strExplode (SLASH :: (c ++ componentsText components)) = c :: components := by
        have hall := strExplode_componentsText [] hpath
        rw [List.nil_append] at hall
        exact hall
      rw [fileDirectory, if_neg hne, if_neg htake, pathOf, if_neg (List.cons_ne_nil _ _), pathFromString,
        hexplode]
      exact ⟨fun _ => hdot, fun _ => rfl⟩

/-- **When a location comes back from its text.** -/
theorem roundTrips_iff {l : Location} (h : Covered l) : RoundTrips E l ↔ Distinguishable E l := by
  cases h with
  | url h hpath =>
    rw [roundTrips_url h hpath, Distinguishable]
    dsimp only
    rw [if_neg (by rw [h.other]; decide)]
  | site hpath hgiven => exact roundTrips_site hpath hgiven
  | file h hpath habsolute =>
    rw [roundTrips_file h hpath habsolute, Distinguishable]
    dsimp only
    rw [if_pos h]

end

/-- We are in `/d`, and there are no sites. -/
def LocationEnv.inDirectory : LocationEnv where
  curDir := A ['/', 'd']
  requireServer := fun _ => some true
  siteDirectory := fun _ => []
  absolute _ := rfl
  dotless := by decide

/-- `h` under `sftp`, with the path `a@b`. -/
def atLocation : Location :=
  let url : URL := { protocol := A ['s', 'f', 't', 'p'], host := A ['h'] }
  ⟨.SK_URL, url, url.server, { components := [A ['a', '@', 'b']] }⟩

/-- The root under `file`. -/
def rootLocation : Location :=
  let url : URL := { protocol := A ['f', 'i', 'l', 'e'] }
  ⟨.SK_URL, url, url.server, { absolute := true }⟩

/-- **What stands before an `@` in a path is taken for a user name, and the root for the directory we
are in.** -/
theorem locations_lost : Covered atLocation ∧ ¬ RoundTrips .inDirectory atLocation
    ∧ (fromString .inDirectory (atLocation.toString true)).map (·.url)
      = some { protocol := A ['s', 'f', 't', 'p'], username := A ['h', '/', 'a'], host := A ['b'] }
    ∧ Covered rootLocation ∧ ¬ RoundTrips .inDirectory rootLocation
    ∧ (fromString .inDirectory (rootLocation.toString true)).map (·.path)
      = some { components := [A ['d']], absolute := true } := by
  refine ⟨.url ⟨by decide, by decide, by decide, by decide, by decide, by decide, rfl⟩ ?_, by decide,
    by decide, .file (by decide) nofun rfl, by decide, by decide⟩
  rw [LocationPath.Proper]
  decide

/-- A site comes back. -/
theorem roundTrips_iff_site : RoundTrips .inDirectory
    ⟨.SK_SITE, {}, A ['s'], { components := [A ['d']], absolute := true }⟩ := by
  refine (roundTrips_iff (.site ?_ (.inr rfl))).mpr ⟨by decide, by decide⟩
  rw [LocationPath.Proper]
  decide

end Far2l.NetRocks
