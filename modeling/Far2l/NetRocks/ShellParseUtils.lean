/-
Far2l.NetRocks.ShellParseUtils — `NetRocks/src/Protocol/ShellParseUtils.cpp`: a line that
`ls` prints.

The time of the day on which the program started, and what `mktime` makes of a
broken-down time, are parameters.
-/
import Far2l.NetRocks.FTPDirectoryEnumerMLSD

namespace Far2l.NetRocks.ShellParseUtils

open Calendar Numerals MLST

/-! ## Fields -/

/-- `" \t"` -/
def separators : Str := [0x20, 0x09]

def isSep (c : Byte) : Bool := separators.contains c

/-- `strchr(separators, c)`, which finds the NUL that ends the separators too. -/
def strchr (c : Byte) : Bool := isSep c || c = 0

/-- `ExtractStringHead` -/
def extractStringHead (line : Str) : Str × Str :=
  (line.takeWhile (!isSep ·), (line.dropWhile (!isSep ·)).dropWhile strchr)

/-- `ExtractStringHead`, and `if (line.empty()) return false` -/
def field (line : Str) : Option (Str × Str) :=
  let r := extractStringHead line
  if r.2.isEmpty then none else some r

/-! ## Modes -/

def S_IFCHR : UInt32 := 0o020000
def S_IFBLK : UInt32 := 0o060000
def S_IFIFO : UInt32 := 0o010000
def S_IFSOCK : UInt32 := 0o140000

/-- `Char2FileType` -/
def char2FileType (c : Byte) : UInt32 :=
  if c = 0x6C then S_IFLNK
  else if c = 0x64 then S_IFDIR
  else if c = 0x63 then S_IFCHR
  else if c = 0x62 then S_IFBLK
  else if c = 0x70 then S_IFIFO
  else if c = 0x73 then S_IFSOCK
  else S_IFREG

/-- `Triplet2FileMode`, of the characters from a place on -/
def triplet2FileMode (str : Str) : UInt32 :=
  (if str[0]? = some 0x72 then 4 else 0) ||| (if str[1]? = some 0x77 then 2 else 0) |||
    (if str[2]? = some 0x78 ∨ str[1]? = some 0x73 ∨ str[1]? = some 0x74 then 1 else 0)

/-- `Str2Mode` -/
def str2Mode (str : Str) : UInt32 :=
  let len := str.length
  (if len ≥ 1 then char2FileType (str.getD 0 0) else 0) |||
    (if len ≥ 4 then triplet2FileMode (str.drop 1) <<< 6 else 0) |||
    (if len ≥ 7 then triplet2FileMode (str.drop 4) <<< 3 else 0) |||
    (if len ≥ 10 then triplet2FileMode (str.drop 7) else 0)

def S_ISLNK (mode : UInt32) : Bool := mode &&& MLST.S_IFMT = S_IFLNK

/-! ## Numbers and times -/

/-- `ClassifyNumberStr(…) == NK_NUMBER_DEC`, of a string that a NUL ends -/
def isDecimal (str : Str) : Bool :=
  let s := str.takeWhile (· ≠ 0)
  !s.isEmpty && s.all fun c => 0x30 ≤ c && c ≤ 0x39

/-- `atoi` -/
def atoi (str : Str) : Int := (strtol str 10).toInt32.toInt

def monthNames : List Str :=
  [bytes "jan", bytes "feb", bytes "mar", bytes "apr", bytes "may", bytes "jun", bytes "jul", bytes "aug",
    bytes "sep", bytes "oct", bytes "nov", bytes "dec"]

/-- The comparisons by `strcasecmp`. -/
def monthOf (str : Str) : Option Nat := monthNames.idxOf? ((str.takeWhile (· ≠ 0)).map lower)

/-- `%d` of `sscanf`: the number and what follows it, or nothing where there is none. -/
def scanInt (str : Str) : Option (Int × Str) :=
  let s := str.dropWhile fun c => IntStrConv.isSpace c.toNat
  let t := if s.head? = some 0x2D ∨ s.head? = some 0x2B then s.tail else s
  let isDigit (c : Byte) : Bool := 0x30 ≤ c && c ≤ 0x39
  if (t.takeWhile isDigit).isEmpty then none else some (atoi s, t.dropWhile isDigit)

/-- `sscanf(str_yt, "%d:%d", &t.tm_hour, &t.tm_min)` -/
def scanTime (str : Str) (t : Tm) : Tm :=
  match scanInt (str.takeWhile (· ≠ 0)) with
  | none => t
  | some (hour, rest) =>
      match rest with
      | 0x3A :: rest =>
          match scanInt rest with
          | some (min, _) => { t with hour := hour, min := min }
          | none => { t with hour := hour }
      | _ => { t with hour := hour }

/-- What the month, the day, and the year or the time make of the time at the start. -/
def timeOf (now : Tm) (month day yt : Str) : Tm :=
  let hasYear := !yt.contains 0x3A
  let t :=
    if hasYear then { now with year := (Int32.ofInt (decToULong yt - 1900)).toInt }
    else scanTime yt now
  let t := match monthOf month with
    | some mon => { t with mon := mon }
    | none => t
  let t := if !hasYear ∧ t.mon > now.mon ∧ t.year ≠ 0 then { t with year := t.year - 1 } else t
  { t with mday := atoi day }

/-! ## Names -/

/-- `" -> "` -/
def arrow : Str := bytes " -> "

/-- `line.resize(line.find(" -> "))`, if there is one -/
def beforeArrow : Str → Str
  | [] => []
  | c :: line => if (c :: line).take 4 = arrow then [] else c :: beforeArrow line

/-- `line.erase(0, line.rfind('/') + 1)`, if there is one and the line is longer than that -/
def afterSlash (line : Str) : Str :=
  if line.length > 1 then (line.reverse.takeWhile (· ≠ 0x2F)).reverse else line

/-! ## Lines -/

/-- What `ParseLineFromLS` returns; its three times are the same. -/
structure LsEntry where
  name : Str
  owner : Str
  group : Str
  time : Timespec
  size : UInt64
  mode : UInt32
  deriving DecidableEq

section

variable (mktime : Tm → Int) (now : Tm)

/-- `ParseLineFromLS`, from the month on -/
def parseFromMonth (strMode strOwner strGroup strSize line : Str) : Option LsEntry := do
  let (strMonth, line) ← field line
  let (strDay, line) ← field line
  let (strYt, line) ← field line
  let mode := str2Mode strMode
  let line := if S_ISLNK mode then beforeArrow line else line
  some {
    name := afterSlash line
    owner := strOwner
    group := strGroup
    time := { sec := mktime (timeOf now strMonth strDay strYt), nsec := 0 }
    size := if strSize.getLast? = some 0x2C then 0 else (strtol strSize 10).toUInt64
    mode := mode }

/-- `ParseLineFromLS`, from the size on: a comma behind it makes it the major number of a device, and the minor
one is skipped -/
def parseFromSize (strMode strOwner strGroup strSize line : Str) : Option LsEntry := do
  let (_, line) ← if strSize.getLast? = some 0x2C then field line else some ([], line)
  parseFromMonth mktime now strMode strOwner strGroup strSize line

/-- `ParseLineFromLS`, from the owner on -/
def parseFromOwner (strMode line : Str) : Option LsEntry := do
  let (strOwner, line) ← field line
  let (strGroup, line) ← field line
  let (strSize, line) ← field line
  if strGroup = bytes "domain" ∧ isDecimal strSize = false then
    let (size, line) ← field line
    parseFromSize mktime now strMode strOwner strSize size line
  else parseFromSize mktime now strMode strOwner strGroup strSize line

/-- `ParseLineFromLS` -/
def parseLineFromLS (line : Str) : Option LsEntry := do
  let (strMode, line) ← field line
  let (_, line) ← if 0x30 ≤ line.getD 0 0 ∧ line.getD 0 0 ≤ 0x39 then field line else some ([], line)
  parseFromOwner mktime now strMode line

end

/-! ## What `ls` prints -/

inductive FileKind where
  | regular
  | directory
  | link (target : Str)
  | character (major minor : Nat)
  | block (major minor : Nat)
  | fifo
  | socket

def FileKind.letter : FileKind → Byte
  | .regular => 0x2D
  | .directory => 0x64
  | .link _ => 0x6C
  | .character _ _ => 0x63
  | .block _ _ => 0x62
  | .fifo => 0x70
  | .socket => 0x73

def FileKind.bits : FileKind → UInt32
  | .regular => S_IFREG
  | .directory => S_IFDIR
  | .link _ => S_IFLNK
  | .character _ _ => S_IFCHR
  | .block _ _ => S_IFBLK
  | .fifo => S_IFIFO
  | .socket => S_IFSOCK

/-- The numbers of a device. -/
def FileKind.device : FileKind → Option (Nat × Nat)
  | .character major minor => some (major, minor)
  | .block major minor => some (major, minor)
  | _ => none

/-- Three permissions, and the special bit that is printed with them: setuid, setgid or sticky. -/
structure Triplet where
  read : Bool
  write : Bool
  execute : Bool
  special : Bool

/-- `rwx`, with the letters for the special bit with and without `x`. -/
def Triplet.text (low up : Byte) (t : Triplet) : Str :=
  [if t.read then 0x72 else 0x2D, if t.write then 0x77 else 0x2D,
    if t.special then (if t.execute then low else up) else if t.execute then 0x78 else 0x2D]

def Triplet.bits (t : Triplet) : UInt32 :=
  (if t.read then 4 else 0) ||| (if t.write then 2 else 0) ||| (if t.execute then 1 else 0)

/-- A field has no separator in it. -/
def Word (s : Str) : Prop := s ≠ [] ∧ ∀ c ∈ s, isSep c = false

/-- What stands between two fields. -/
def Gap (s : Str) : Prop := s ≠ [] ∧ ∀ c ∈ s, isSep c = true

theorem word_of_any {s : Str} (hne : s ≠ []) (h : s.any isSep = false) : Word s :=
  ⟨hne, fun c hc => by simpa using List.any_eq_false.mp h c hc⟩

/-- **A file and how `ls` prints it**, in columns with any gaps between them. -/
structure LsLine where
  kind : FileKind
  user : Triplet
  group : Triplet
  other : Triplet
  nlinks : Nat
  owner : Str
  groupName : Str
  size : Nat
  month : Str
  day : Str
  time : Str
  name : Str
  gap : Nat → Str
  owner_word : Word owner
  group_word : Word groupName
  date_words : ∀ s ∈ [month, day, time], Word s ∧ s.head? ≠ some 0
  name_ne : name ≠ []
  name_plain : 0x2F ∉ name ∧ Inside name
  gaps : ∀ i, Gap (gap i)

namespace LsLine

variable (l : LsLine)

/-- `drwxr-sr-t` -/
def modeText : Str :=
  l.kind.letter :: (l.user.text 0x73 0x53 ++ l.group.text 0x73 0x53 ++ l.other.text 0x74 0x54)

/-- The size, or `major, minor`. -/
def sizeText : Str :=
  match l.kind.device with
  | some (major, minor) => number 10 major ++ 0x2C :: (l.gap 4 ++ number 10 minor)
  | none => number 10 l.size

/-- What is printed behind the name. -/
def tail : Str :=
  match l.kind with
  | .link target => arrow ++ target
  | _ => []

/-- `mode nlinks owner group size month day time name` -/
def text : Str :=
  l.modeText ++ (l.gap 0 ++ (number 10 l.nlinks ++ (l.gap 1 ++ (l.owner ++ (l.gap 2 ++ (l.groupName ++ (l.gap 3 ++
    (l.sizeText ++ (l.gap 5 ++ (l.month ++ (l.gap 6 ++ (l.day ++ (l.gap 7 ++ (l.time ++ 0x20 ::
      (l.name ++ l.tail)))))))))))))))

/-- The type and the nine permissions. -/
def mode : UInt32 :=
  l.kind.bits ||| (l.user.bits <<< 6) ||| (l.group.bits <<< 3) ||| l.other.bits

/-- **The line is read faithfully.** -/
def ReadFaithfully (mktime : Tm → Int) (now : Tm) : Prop :=
  ∃ e, parseLineFromLS mktime now l.text = some e ∧ e.name = l.name ∧ e.owner = l.owner ∧ e.group = l.groupName ∧
    e.size.toNat = (if l.kind.device.isSome then 0 else l.size) ∧ e.mode = l.mode

/-- The name begins with no space, tab or NUL, and no arrow comes before that of the link; or else it has only
such characters, and the target of the link happens to end in a slash and the name. -/
def NameClear : Prop :=
  match l.kind with
  | .link target =>
      ((∀ c ∈ l.name.head?, strchr c = false) ∧ ¬arrow <:+: l.name ++ [0x20]) ∨
        ((∀ c ∈ l.name, strchr c = true) ∧ ∃ u, beforeArrow (bytes "-> " ++ target) = u ++ 0x2F :: l.name)
  | _ => ∀ c ∈ l.name.head?, strchr c = false

/-- What a line must be to be read right. -/
structure Clear : Prop where
  owner : l.owner.head? ≠ some 0
  group : l.groupName.head? ≠ some 0
  domain : l.kind.device.isSome → l.groupName ≠ bytes "domain"
  size : l.kind.device = none → l.size < 2 ^ 63
  execute : ∀ t ∈ [l.user, l.group, l.other], ¬(t.special = true ∧ t.execute = true)
  name : l.NameClear

end LsLine

/-! ## Fields, one by one -/

theorem strchr_of_isSep {c : Byte} (h : isSep c = true) : strchr c = true := by
  rw [strchr, h, Bool.true_or]

/-- A separator is eaten by all that follows it. -/
theorem extractStringHead_word {w g rest : Str} (hw : ∀ c ∈ w, isSep c = false) (hg : Gap g) :
    extractStringHead (w ++ (g ++ rest)) = (w, rest.dropWhile strchr) := by
  obtain ⟨hne, hsep⟩ := hg
  obtain ⟨c, g, rfl⟩ := List.exists_cons_of_ne_nil hne
  have hc : ¬(!isSep c) = true := by
    rw [hsep c List.mem_cons_self]
    decide
  have hw' : ∀ c ∈ w, (!isSep c) = true := fun c hc => by rw [hw c hc]; rfl
  have hg' : ∀ x ∈ c :: g, strchr x = true := fun x hx => strchr_of_isSep (hsep x hx)
  rw [extractStringHead, List.takeWhile_append_of_pos hw', List.dropWhile_append_of_pos hw', List.cons_append,
    List.takeWhile_cons_of_neg (p := fun a => !isSep a) hc, List.dropWhile_cons_of_neg (p := fun a => !isSep a) hc,
    List.append_nil, ← List.cons_append,
    List.dropWhile_append_of_pos hg']

/-- A field that something follows. -/
theorem field_word {w g rest : Str} (hw : ∀ c ∈ w, isSep c = false) (hg : Gap g)
    (hrest : rest.dropWhile strchr ≠ []) : field (w ++ (g ++ rest)) = some (w, rest.dropWhile strchr) := by
  rw [field, extractStringHead_word hw hg]
  exact if_neg (by simpa using hrest)

/-- **A field begins where the line does**, and what is left begins with no separator and no NUL. -/
theorem field_head {line w rest : Str} (h : field line = some (w, rest)) :
    (∀ c ∈ rest.head?, strchr c = false) ∧
      ((∀ c ∈ line.head?, strchr c = false) → ∀ c ∈ w.head?, strchr c = false) := by
  rw [field] at h
  split at h
  · exact absurd h (by simp)
  · obtain ⟨rfl, rfl⟩ := Prod.mk.inj (Option.some.inj h)
    constructor
    · intro c hc
      have hhead := List.head?_dropWhile_not strchr (line.dropWhile (!isSep ·))
      rw [show ((line.dropWhile (!isSep ·)).dropWhile strchr).head? = some c from hc] at hhead
      exact hhead
    · intro hline c hc
      refine hline c ?_
      cases line with
      | nil => exact hc
      | cons d line =>
        rw [List.takeWhile_cons] at hc
        split at hc
        · exact hc
        · exact absurd hc (by simp)

/-- A text that does not begin with what is eaten. -/
theorem dropWhile_of_head {s : Str} (h : ∀ c ∈ s.head?, strchr c = false) : s.dropWhile strchr = s := by
  cases s with
  | nil => rfl
  | cons c s => exact List.dropWhile_cons_of_neg (by rw [h c rfl]; exact Bool.false_ne_true)

/-! ## Permissions -/

theorem or_and_right (a b c : UInt32) : (a ||| b) &&& c = (a &&& c) ||| (b &&& c) := by
  rw [← UInt32.toNat_inj, UInt32.toNat_and, UInt32.toNat_or, UInt32.toNat_or, UInt32.toNat_and, UInt32.toNat_and,
    Nat.and_or_distrib_right]

/-- **The permissions as they are read**: with a special bit, what can be executed is no longer. -/
theorem triplet2FileMode_text {low up : Byte} (h : low = 0x73 ∧ up = 0x53 ∨ low = 0x74 ∧ up = 0x54) (t : Triplet)
    (rest : Str) :
    triplet2FileMode (t.text low up ++ rest) = { t with execute := t.execute && !t.special : Triplet }.bits := by
  obtain ⟨r, w, x, s⟩ := t
  rcases h with ⟨rfl, rfl⟩ | ⟨rfl, rfl⟩ <;> cases r <;> cases w <;> cases x <;> cases s <;> rfl

theorem str2Mode_text (l : LsLine) :
    str2Mode l.modeText = l.kind.bits |||
      ({ l.user with execute := l.user.execute && !l.user.special : Triplet }.bits <<< 6) |||
      ({ l.group with execute := l.group.execute && !l.group.special : Triplet }.bits <<< 3) |||
      { l.other with execute := l.other.execute && !l.other.special : Triplet }.bits := by
  have huser := triplet2FileMode_text (.inl ⟨rfl, rfl⟩) l.user (l.group.text 0x73 0x53 ++ l.other.text 0x74 0x54)
  have hgroup := triplet2FileMode_text (.inl ⟨rfl, rfl⟩) l.group (l.other.text 0x74 0x54)
  have hother := triplet2FileMode_text (.inr ⟨rfl, rfl⟩) l.other []
  rw [List.append_nil] at hother
  have hletter : char2FileType l.kind.letter = l.kind.bits := by
    cases l.kind <;> rfl
  rw [← huser, ← hgroup, ← hother, ← hletter]
  rfl

theorem bits_execute : ∀ r w x s : Bool,
    ((⟨r, w, x, s⟩ : Triplet).bits <<< 6) &&& 0o111 = (if x then 0o100 else 0) ∧
      ((⟨r, w, x, s⟩ : Triplet).bits <<< 3) &&& 0o111 = (if x then 0o10 else 0) ∧
      (⟨r, w, x, s⟩ : Triplet).bits &&& 0o111 = if x then 1 else 0 := by
  decide

theorem kind_execute (k : FileKind) : k.bits &&& 0o111 = 0 := by
  cases k with
  | regular => decide
  | directory => decide
  | link _ => exact (by decide : S_IFLNK &&& 0o111 = 0)
  | character _ _ => exact (by decide : S_IFCHR &&& 0o111 = 0)
  | block _ _ => exact (by decide : S_IFBLK &&& 0o111 = 0)
  | fifo => decide
  | socket => decide

/-- The bits for executing, and no others. -/
theorem mode_execute (k : FileKind) (u g o : Triplet) :
    (k.bits ||| (u.bits <<< 6) ||| (g.bits <<< 3) ||| o.bits) &&& 0o111 =
      (if u.execute then 0o100 else 0) ||| (if g.execute then 0o10 else 0) ||| (if o.execute then 1 else 0) := by
  obtain ⟨ur, uw, ux, us⟩ := u
  obtain ⟨gr, gw, gx, gs⟩ := g
  obtain ⟨or, ow, ox, os⟩ := o
  rw [or_and_right, or_and_right, or_and_right, kind_execute, (bits_execute ur uw ux us).1,
    (bits_execute gr gw gx gs).2.1, (bits_execute or ow ox os).2.2, UInt32.zero_or]

theorem execute_inj : ∀ u g o u' g' o' : Bool,
    (if u then (0o100 : UInt32) else 0) ||| (if g then 0o10 else 0) ||| (if o then 1 else 0) =
      (if u' then 0o100 else 0) ||| (if g' then 0o10 else 0) ||| (if o' then 1 else 0) →
    u = u' ∧ g = g' ∧ o = o' := by
  decide

/-- **The mode is read right if and only if no special bit hides an `x`.** -/
theorem str2Mode_iff (l : LsLine) :
    str2Mode l.modeText = l.mode ↔ ∀ t ∈ [l.user, l.group, l.other], ¬(t.special = true ∧ t.execute = true) := by
  have hkept : ∀ t : Triplet, ¬(t.special = true ∧ t.execute = true) →
      { t with execute := t.execute && !t.special : Triplet } = t := by
    rintro ⟨r, w, x, s⟩ h
    cases x <;> cases s <;> simp_all
  rw [str2Mode_text, LsLine.mode]
  constructor
  · intro h
    have hexecute := congrArg (· &&& 0o111) h
    dsimp only at hexecute
    rw [mode_execute, mode_execute] at hexecute
    obtain ⟨huser, hgroup, hother⟩ := execute_inj _ _ _ _ _ _ hexecute
    have hnot : ∀ t : Triplet, (t.execute && !t.special) = t.execute → ¬(t.special = true ∧ t.execute = true) := by
      rintro ⟨r, w, x, s⟩ h ⟨hs, hx⟩
      dsimp only at h hs hx
      rw [hs, hx] at h
      exact absurd h (by decide)
    intro t ht
    simp only [List.mem_cons, List.not_mem_nil, or_false] at ht
    rcases ht with rfl | rfl | rfl
    · exact hnot _ huser
    · exact hnot _ hgroup
    · exact hnot _ hother
  · intro h
    rw [hkept l.user (h _ (by simp)), hkept l.group (h _ (by simp)), hkept l.other (h _ (by simp))]

/-! ## The owner and the group -/

section

variable (mktime : Tm → Int) (now : Tm)

theorem parseFromMonth_kept {strMode strOwner strGroup strSize line : Str} {e : LsEntry}
    (h : parseFromMonth mktime now strMode strOwner strGroup strSize line = some e) :
    e.owner = strOwner ∧ e.group = strGroup := by
  simp only [parseFromMonth, Option.bind_eq_bind, Option.bind_eq_some_iff, Option.some.injEq] at h
  obtain ⟨-, -, -, -, -, -, rfl⟩ := h
  exact ⟨rfl, rfl⟩

theorem parseFromSize_kept {strMode strOwner strGroup strSize line : Str} {e : LsEntry}
    (h : parseFromSize mktime now strMode strOwner strGroup strSize line = some e) :
    e.owner = strOwner ∧ e.group = strGroup := by
  rw [parseFromSize] at h
  split at h
  · obtain ⟨r, -, h⟩ := Option.bind_eq_some_iff.mp h
    exact parseFromMonth_kept mktime now h
  · exact parseFromMonth_kept mktime now h

/-- **No owner and no group begins with a separator or a NUL**, as these are eaten. -/
theorem parseFromOwner_heads {strMode line : Str} {e : LsEntry} (hline : ∀ c ∈ line.head?, strchr c = false)
    (h : parseFromOwner mktime now strMode line = some e) :
    (∀ c ∈ e.owner.head?, strchr c = false) ∧ ∀ c ∈ e.group.head?, strchr c = false := by
  obtain ⟨⟨strOwner, line1⟩, howner, h⟩ := Option.bind_eq_some_iff.mp h
  obtain ⟨⟨strGroup, line2⟩, hgroup, h⟩ := Option.bind_eq_some_iff.mp h
  obtain ⟨⟨strSize, line3⟩, hsize, h⟩ := Option.bind_eq_some_iff.mp h
  dsimp only at h
  have hhead1 := field_head howner
  have hhead2 := field_head hgroup
  have hhead3 := field_head hsize
  have hgroup' := hhead2.2 hhead1.1
  split at h
  · obtain ⟨r, -, h⟩ := Option.bind_eq_some_iff.mp h
    obtain ⟨ho, hg⟩ := parseFromSize_kept mktime now h
    rw [ho, hg]
    exact ⟨hhead1.2 hline, hhead3.2 hhead2.1⟩
  · obtain ⟨ho, hg⟩ := parseFromSize_kept mktime now h
    rw [ho, hg]
    exact ⟨hhead1.2 hline, hgroup'⟩

theorem parseLineFromLS_heads {line : Str} {e : LsEntry} (h : parseLineFromLS mktime now line = some e) :
    (∀ c ∈ e.owner.head?, strchr c = false) ∧ ∀ c ∈ e.group.head?, strchr c = false := by
  obtain ⟨⟨strMode, line1⟩, hmode, h⟩ := Option.bind_eq_some_iff.mp h
  dsimp only at h
  split at h
  · obtain ⟨⟨links, line2⟩, hlinks, h⟩ := Option.bind_eq_some_iff.mp h
    exact parseFromOwner_heads mktime now (field_head hlinks).1 h
  · exact parseFromOwner_heads mktime now (field_head hmode).1 h

/-! ## The fields of a line -/

namespace LsLine

variable (l : LsLine)

/-- What is left for the name. -/
def nameText : Str := (l.name ++ l.tail).dropWhile strchr

/-- What is returned if all fields are where they should be. -/
def entry : LsEntry where
  name := afterSlash (if S_ISLNK (str2Mode l.modeText) then beforeArrow l.nameText else l.nameText)
  owner := l.owner
  group := l.groupName
  time := { sec := mktime (timeOf now l.month l.day l.time), nsec := 0 }
  size := if l.kind.device.isSome then 0 else (strtol (number 10 l.size) 10).toUInt64
  mode := str2Mode l.modeText

end LsLine

/-- A field that nothing is eaten of. -/
theorem word_clear {w : Str} (hw : Word w) (hhead : w.head? ≠ some 0) (rest : Str) :
    (w ++ rest).dropWhile strchr = w ++ rest ∧ w ++ rest ≠ [] := by
  obtain ⟨hne, hsep⟩ := hw
  obtain ⟨c, w, rfl⟩ := List.exists_cons_of_ne_nil hne
  refine ⟨dropWhile_of_head fun d hd => ?_, by simp⟩
  obtain rfl : c = d := by simpa using hd
  have hnul : c ≠ 0 := fun h => hhead (by rw [h]; rfl)
  rw [strchr, hsep c List.mem_cons_self, Bool.false_or]
  exact decide_eq_false hnul

/-- Digits are a field, and begin with a digit. -/
theorem number_word (n : Nat) :
    Word (number 10 n) ∧ (number 10 n).head? ≠ some 0 ∧ ∀ c ∈ number 10 n, 0x30 ≤ c ∧ c ≤ 0x39 := by
  have hdigit : ∀ c ∈ number 10 n, isSep c = false ∧ c ≠ 0 ∧ 0x30 ≤ c ∧ c ≤ 0x39 := by
    intro c hc
    obtain ⟨d, hd, rfl⟩ := mem_numeral (by decide) hc
    interval_cases d <;> decide
  refine ⟨⟨numeral_ne_nil, fun c hc => (hdigit c hc).1⟩, fun h => ?_, fun c hc => (hdigit c hc).2.2⟩
  exact (hdigit 0 (List.mem_of_mem_head? h)).2.1 rfl

/-- The month, the day, the time and the name. -/
theorem parseFromMonth_text (l : LsLine) (strGroup strSize : Str) :
    parseFromMonth mktime now l.modeText l.owner strGroup strSize
        (l.month ++ (l.gap 6 ++ (l.day ++ (l.gap 7 ++ (l.time ++ ([0x20] ++ (l.name ++ l.tail))))))) =
      if l.nameText = [] then none
      else some { l.entry mktime now with
        group := strGroup
        size := if strSize.getLast? = some 0x2C then 0 else (strtol strSize 10).toUInt64 } := by
  obtain ⟨hmonth, -⟩ := l.date_words l.month (by simp)
  obtain ⟨hday, hday0⟩ := l.date_words l.day (by simp)
  obtain ⟨htime, htime0⟩ := l.date_words l.time (by simp)
  have hday' := word_clear hday hday0 (l.gap 7 ++ (l.time ++ ([0x20] ++ (l.name ++ l.tail))))
  have htime' := word_clear htime htime0 ([0x20] ++ (l.name ++ l.tail))
  have hspace : Gap [0x20] := ⟨by simp, List.all_eq_true.mp rfl⟩
  rw [parseFromMonth, field_word hmonth.2 (l.gaps 6) (by rw [hday'.1]; exact hday'.2), hday'.1]
  simp only [Option.bind_eq_bind, Option.bind_some]
  rw [field_word hday.2 (l.gaps 7) (by rw [htime'.1]; exact htime'.2), htime'.1]
  simp only [Option.bind_some]
  by_cases hname : l.nameText = []
  · have hnone : field (l.time ++ ([0x20] ++ (l.name ++ l.tail))) = none := by
      rw [field, extractStringHead_word htime.2 hspace]
      exact if_pos (List.isEmpty_iff.mpr hname)
    rw [hnone, if_pos hname]
    rfl
  · rw [field_word htime.2 hspace hname, if_neg hname]
    rfl

/-- From the month on. -/
def LsLine.dateText (l : LsLine) : Str :=
  l.month ++ (l.gap 6 ++ (l.day ++ (l.gap 7 ++ (l.time ++ ([0x20] ++ (l.name ++ l.tail))))))

theorem dateText_clear (l : LsLine) : l.dateText.dropWhile strchr = l.dateText ∧ l.dateText ≠ [] := by
  obtain ⟨hmonth, hmonth0⟩ := l.date_words l.month (by simp)
  exact word_clear hmonth hmonth0 _

theorem isDecimal_number (n : Nat) : isDecimal (number 10 n) = true := by
  obtain ⟨⟨hne, -⟩, -, hdigit⟩ := number_word n
  have hkept : (number 10 n).takeWhile (· ≠ 0) = number 10 n := by
    refine List.takeWhile_eq_self_iff.mpr fun c hc => ?_
    have hc0 : c ≠ 0 := fun h => absurd (hdigit c hc).1 (by rw [h]; decide)
    simpa using hc0
  rw [isDecimal, hkept]
  simp only [Bool.and_eq_true, Bool.not_eq_true', List.all_eq_true, decide_eq_true_iff]
  exact ⟨by simpa using hne, hdigit⟩

/-- A comma is no digit. -/
theorem isDecimal_comma (n : Nat) : isDecimal (number 10 n ++ [0x2C]) = false := by
  obtain ⟨-, -, hdigit⟩ := number_word n
  have hkept : (number 10 n ++ [0x2C]).takeWhile (· ≠ 0) = number 10 n ++ [0x2C] := by
    refine List.takeWhile_eq_self_iff.mpr fun c hc => ?_
    have hc0 : c ≠ 0 := by
      rintro rfl
      rcases List.mem_append.mp hc with hc | hc
      · exact absurd (hdigit 0 hc).1 (by decide)
      · exact absurd (List.mem_singleton.mp hc) (by decide)
    simpa using hc0
  rw [isDecimal, hkept, List.all_append]
  simp

theorem getLast_number (n : Nat) : (number 10 n).getLast? ≠ some 0x2C := by
  intro h
  exact absurd ((number_word n).2.2 _ (List.mem_of_getLast? h)).1 (by decide)

/-- The major number of a device, with its comma, is a field. -/
theorem major_word (n : Nat) : Word (number 10 n ++ [0x2C]) ∧ (number 10 n ++ [0x2C]).head? ≠ some 0 := by
  obtain ⟨⟨hne, hsep⟩, hhead, -⟩ := number_word n
  refine ⟨⟨by simp, fun c hc => ?_⟩, ?_⟩
  · rcases List.mem_append.mp hc with hc | hc
    · exact hsep c hc
    · rw [List.mem_singleton.mp hc]
      rfl
  · rw [List.head?_append_of_ne_nil _ hne]
    exact hhead

/-- **The size of a file**, and what follows it. -/
theorem parseFromSize_plain (l : LsLine) (strGroup : Str) (hdevice : l.kind.device = none) :
    parseFromSize mktime now l.modeText l.owner strGroup (number 10 l.size) l.dateText =
      if l.nameText = [] then none else some { l.entry mktime now with group := strGroup } := by
  rw [parseFromSize, if_neg (getLast_number _)]
  refine (parseFromMonth_text mktime now l strGroup _).trans ?_
  rw [if_neg (getLast_number _), LsLine.entry, hdevice]
  rfl

/-- **The numbers of a device**: the second one is skipped. -/
theorem parseFromSize_device (l : LsLine) (strGroup : Str) {major minor : Nat}
    (hdevice : l.kind.device = some (major, minor)) :
    parseFromSize mktime now l.modeText l.owner strGroup (number 10 major ++ [0x2C])
        (number 10 minor ++ (l.gap 5 ++ l.dateText)) =
      if l.nameText = [] then none else some { l.entry mktime now with group := strGroup } := by
  obtain ⟨hdate, hdate'⟩ := dateText_clear l
  have hcomma : (number 10 major ++ [0x2C]).getLast? = some 0x2C := List.getLast?_concat
  rw [parseFromSize, if_pos hcomma, field_word (number_word minor).1.2 (l.gaps 5) (by rw [hdate]; exact hdate'), hdate]
  refine (parseFromMonth_text mktime now l strGroup _).trans ?_
  rw [if_pos hcomma, LsLine.entry, hdevice]
  rfl

/-- The owner, the group and the size. -/
theorem parseFromOwner_text (l : LsLine) (hgroup : l.groupName.head? ≠ some 0) :
    let parsed := parseFromOwner mktime now l.modeText
      (l.owner ++ (l.gap 2 ++ (l.groupName ++ (l.gap 3 ++ (l.sizeText ++ (l.gap 5 ++ l.dateText))))))
    (¬(l.kind.device.isSome = true ∧ l.groupName = bytes "domain") →
        parsed = if l.nameText = [] then none else some (l.entry mktime now)) ∧
      (l.kind.device.isSome = true ∧ l.groupName = bytes "domain" → ∀ e, parsed = some e → e.group ≠ l.groupName) := by
  intro parsed
  obtain ⟨hdate, hdate'⟩ := dateText_clear l
  have hgroup' := word_clear l.group_word hgroup (l.gap 3 ++ (l.sizeText ++ (l.gap 5 ++ l.dateText)))
  cases hdevice : l.kind.device with
  | none =>
    have hsizeText : l.sizeText = number 10 l.size := by rw [LsLine.sizeText, hdevice]
    obtain ⟨hword, hhead, -⟩ := number_word l.size
    have hsize' := word_clear hword hhead (l.gap 5 ++ l.dateText)
    refine ⟨fun _ => ?_, fun h => absurd h.1 (by simp)⟩
    show parseFromOwner mktime now l.modeText _ = _
    rw [parseFromOwner, field_word l.owner_word.2 (l.gaps 2) (by rw [hgroup'.1]; exact hgroup'.2), hgroup'.1]
    simp only [Option.bind_eq_bind, Option.bind_some]
    rw [hsizeText, field_word l.group_word.2 (l.gaps 3) (by rw [hsize'.1]; exact hsize'.2), hsize'.1]
    simp only [Option.bind_some]
    rw [field_word hword.2 (l.gaps 5) (by rw [hdate]; exact hdate'), hdate]
    simp only [Option.bind_some, isDecimal_number, Bool.true_eq_false, and_false, if_false]
    exact parseFromSize_plain mktime now l _ hdevice
  | some device =>
    obtain ⟨major, minor⟩ := device
    have hsizeText : l.sizeText ++ (l.gap 5 ++ l.dateText)
        = (number 10 major ++ [0x2C]) ++ (l.gap 4 ++ (number 10 minor ++ (l.gap 5 ++ l.dateText))) := by
      rw [LsLine.sizeText, hdevice]
      simp
    obtain ⟨hword, hhead⟩ := major_word major
    obtain ⟨hword', hhead', -⟩ := number_word minor
    have hsize' := word_clear hword hhead (l.gap 4 ++ (number 10 minor ++ (l.gap 5 ++ l.dateText)))
    have hminor' := word_clear hword' hhead' (l.gap 5 ++ l.dateText)
    have hparsed : parsed = if l.groupName = bytes "domain" then
          (field (number 10 minor ++ (l.gap 5 ++ l.dateText))).bind fun r =>
            parseFromSize mktime now l.modeText l.owner (number 10 major ++ [0x2C]) r.1 r.2
        else parseFromSize mktime now l.modeText l.owner l.groupName (number 10 major ++ [0x2C])
          (number 10 minor ++ (l.gap 5 ++ l.dateText)) := by
      show parseFromOwner mktime now l.modeText _ = _
      rw [parseFromOwner, field_word l.owner_word.2 (l.gaps 2) (by rw [hgroup'.1]; exact hgroup'.2), hgroup'.1]
      simp only [Option.bind_eq_bind, Option.bind_some]
      rw [hsizeText, field_word l.group_word.2 (l.gaps 3) (by rw [hsize'.1]; exact hsize'.2), hsize'.1]
      simp only [Option.bind_some]
      rw [field_word hword.2 (l.gaps 4) (by rw [hminor'.1]; exact hminor'.2), hminor'.1]
      simp only [Option.bind_some, isDecimal_comma, and_true]
    rw [hparsed]
    constructor
    · intro h
      rw [if_neg fun heq => h ⟨rfl, heq⟩]
      exact parseFromSize_device mktime now l _ hdevice
    · intro h e he
      rw [if_pos h.2] at he
      obtain ⟨r, -, he⟩ := Option.bind_eq_some_iff.mp he
      rw [(parseFromSize_kept mktime now he).2, h.2]
      intro heq
      have hmem : (0x2C : Byte) ∈ bytes "domain" := by
        rw [← heq]
        simp
      exact absurd hmem (by decide)

/-- The mode and the links. -/
theorem parseLineFromLS_text (l : LsLine) (howner : l.owner.head? ≠ some 0) :
    parseLineFromLS mktime now l.text = parseFromOwner mktime now l.modeText
      (l.owner ++ (l.gap 2 ++ (l.groupName ++ (l.gap 3 ++ (l.sizeText ++ (l.gap 5 ++ l.dateText)))))) := by
  have hmode : ∀ c ∈ l.modeText, isSep c = false := by
    have htriplet : ∀ {low up : Byte}, isSep low = false ∧ isSep up = false → ∀ t : Triplet,
        ∀ c ∈ t.text low up, isSep c = false := by
      rintro low up ⟨hlow, hup⟩ ⟨r, w, x, s⟩ c hc
      simp only [Triplet.text, List.mem_cons, List.not_mem_nil, or_false] at hc
      rcases hc with rfl | rfl | rfl
      · cases r <;> rfl
      · cases w <;> rfl
      · cases s <;> cases x <;> first | exact hlow | exact hup | rfl
    intro c hc
    rcases List.mem_cons.mp hc with rfl | hc
    · cases l.kind <;> rfl
    rcases List.mem_append.mp hc with hc | hc
    · rcases List.mem_append.mp hc with hc | hc
      · exact htriplet (by decide) l.user c hc
      · exact htriplet (by decide) l.group c hc
    · exact htriplet (by decide) l.other c hc
  obtain ⟨hlinks, hlinks0, hdigit⟩ := number_word l.nlinks
  have hlinks' := word_clear hlinks hlinks0 (l.gap 1 ++ (l.owner ++ (l.gap 2 ++ (l.groupName ++ (l.gap 3 ++
    (l.sizeText ++ (l.gap 5 ++ l.dateText)))))))
  have howner' := word_clear l.owner_word howner (l.gap 2 ++ (l.groupName ++ (l.gap 3 ++
    (l.sizeText ++ (l.gap 5 ++ l.dateText)))))
  have htext : l.text = l.modeText ++ (l.gap 0 ++ (number 10 l.nlinks ++ (l.gap 1 ++ (l.owner ++ (l.gap 2 ++
      (l.groupName ++ (l.gap 3 ++ (l.sizeText ++ (l.gap 5 ++ l.dateText))))))))) := rfl
  have hfirst : 0x30 ≤ (number 10 l.nlinks ++ (l.gap 1 ++ (l.owner ++ (l.gap 2 ++ (l.groupName ++ (l.gap 3 ++
      (l.sizeText ++ (l.gap 5 ++ l.dateText)))))))).getD 0 0 ∧ (number 10 l.nlinks ++ (l.gap 1 ++ (l.owner ++
      (l.gap 2 ++ (l.groupName ++ (l.gap 3 ++ (l.sizeText ++ (l.gap 5 ++ l.dateText)))))))).getD 0 0 ≤ 0x39 := by
    obtain ⟨c, s, hs⟩ := List.exists_cons_of_ne_nil hlinks.1
    rw [hs]
    exact hdigit c (by rw [hs]; exact List.mem_cons_self)
  rw [htext, parseLineFromLS, field_word hmode (l.gaps 0) (by rw [hlinks'.1]; exact hlinks'.2), hlinks'.1]
  simp only [Option.bind_eq_bind, Option.bind_some]
  rw [if_pos hfirst, field_word hlinks.2 (l.gaps 1) (by rw [howner'.1]; exact howner'.2), howner'.1]
  rfl

end

/-! ## Names -/

theorem afterSlash_of_none {s : Str} (h : 0x2F ∉ s) : afterSlash s = s := by
  have hkept : s.reverse.takeWhile (· ≠ 0x2F) = s.reverse := by
    refine List.takeWhile_eq_self_iff.mpr fun c hc => ?_
    have hc' : c ≠ 0x2F := fun heq => h (by rw [← heq]; exact List.mem_reverse.mp hc)
    simpa using hc'
  rw [afterSlash, hkept, List.reverse_reverse, ite_self]

theorem afterSlash_slash {u b : Str} (hb : 0x2F ∉ b) (hlength : 1 < (u ++ 0x2F :: b).length) :
    afterSlash (u ++ 0x2F :: b) = b := by
  have hkept : ∀ c ∈ b.reverse, (fun c : Byte => decide (c ≠ 0x2F)) c = true := fun c hc => by
    have hc' : c ≠ 0x2F := fun heq => hb (by rw [← heq]; exact List.mem_reverse.mp hc)
    simpa using hc'
  rw [afterSlash, if_pos hlength, List.reverse_append, List.reverse_cons, List.append_assoc,
    List.takeWhile_append_of_pos hkept, List.singleton_append, List.takeWhile_cons_of_neg (by decide), List.append_nil,
    List.reverse_reverse]

/-- **The name of a link ends at the first arrow**, which may be in the name, or begin with its last characters. -/
theorem beforeArrow_append : ∀ (name target : Str), beforeArrow (name ++ (arrow ++ target)) <+: name ∧
    (beforeArrow (name ++ (arrow ++ target)) = name ↔ ¬arrow <:+: name ++ [0x20])
  | [], target => by
    have hnone : beforeArrow (arrow ++ target) = [] := if_pos rfl
    have hshort : ¬arrow <:+: [0x20] := fun h => absurd h.length_le (by decide)
    rw [List.nil_append, hnone]
    exact ⟨List.nil_prefix, iff_of_true rfl hshort⟩
  | c :: name, target => by
    obtain ⟨ih, ih'⟩ := beforeArrow_append name target
    have htake : (c :: (name ++ (arrow ++ target))).take 4 = arrow ↔ arrow <+: c :: name ++ [0x20] := by
      have hbegins : ∀ s : Str, s.take 4 = arrow ↔ arrow <+: s := by
        intro s
        rw [List.prefix_iff_eq_take, eq_comm]
        rfl
      rw [hbegins, show arrow = [0x20, 0x2D, 0x3E, 0x20] from rfl]
      -- only the last character of an arrow is one that an arrow begins with
      rcases name with _ | ⟨d, _ | ⟨e, _ | ⟨f, rest⟩⟩⟩ <;> simp [List.cons_prefix_cons]
    rw [List.cons_append, beforeArrow]
    by_cases hfirst : arrow <+: c :: name ++ [0x20]
    · rw [if_pos (htake.mpr hfirst)]
      exact ⟨List.nil_prefix, iff_of_false (by simp) (not_not_intro hfirst.isInfix)⟩
    · rw [if_neg (mt htake.mp hfirst)]
      refine ⟨(List.prefix_cons_inj c).mpr ih, ?_⟩
      rw [List.cons.injEq, ih', List.cons_append, List.infix_cons_iff, not_or]
      exact ⟨fun h => ⟨hfirst, h.2⟩, fun h => ⟨rfl, h.2⟩⟩

theorem isLink_mode (l : LsLine) : S_ISLNK (str2Mode l.modeText) = true ↔ l.kind.bits = S_IFLNK := by
  have hbits : ∀ r w x s : Bool, ((⟨r, w, x, s⟩ : Triplet).bits <<< 6) &&& MLST.S_IFMT = 0 ∧
      ((⟨r, w, x, s⟩ : Triplet).bits <<< 3) &&& MLST.S_IFMT = 0 ∧ (⟨r, w, x, s⟩ : Triplet).bits &&& MLST.S_IFMT = 0 := by
    decide
  have hkind : l.kind.bits &&& MLST.S_IFMT = l.kind.bits := by
    cases l.kind with
    | regular => decide
    | directory => decide
    | link _ => exact (by decide : S_IFLNK &&& MLST.S_IFMT = S_IFLNK)
    | character _ _ => exact (by decide : S_IFCHR &&& MLST.S_IFMT = S_IFCHR)
    | block _ _ => exact (by decide : S_IFBLK &&& MLST.S_IFMT = S_IFBLK)
    | fifo => decide
    | socket => decide
  rw [S_ISLNK, decide_eq_true_iff, str2Mode_text, or_and_right, or_and_right, or_and_right, hkind,
    (hbits _ _ _ _).1, (hbits _ _ _ _).2.1, (hbits _ _ _ _).2.2, UInt32.or_zero, UInt32.or_zero, UInt32.or_zero]

/-- The name as it is returned. -/
def LsLine.readName (l : LsLine) : Str :=
  afterSlash (if S_ISLNK (str2Mode l.modeText) then beforeArrow l.nameText else l.nameText)

/-- What is eaten of a name makes it shorter. -/
theorem dropWhile_length {s : Str} {c : Byte} (hc : c ∈ s.head?) (heaten : strchr c = true) :
    (s.dropWhile strchr).length < s.length := by
  obtain ⟨s, rfl⟩ : ∃ s', s = c :: s' := by
    cases s with
    | nil => exact absurd hc (by simp)
    | cons d s => exact ⟨s, by rw [show d = c by simpa using hc]⟩
  rw [List.dropWhile_cons_of_pos heaten, List.length_cons]
  exact Nat.lt_succ_of_le (List.dropWhile_sublist strchr).length_le

/-- **When the name is read right**, where it is not a link's. -/
theorem readName_plain (l : LsLine) (htail : l.tail = []) (hlink : S_ISLNK (str2Mode l.modeText) = false) :
    l.nameText ≠ [] ∧ l.readName = l.name ↔ ∀ c ∈ l.name.head?, strchr c = false := by
  have hslash : 0x2F ∉ l.nameText := by
    rw [LsLine.nameText, htail, List.append_nil]
    exact fun hmem => l.name_plain.1 ((List.dropWhile_sublist strchr).mem hmem)
  have hread : l.readName = l.nameText := by
    rw [LsLine.readName, hlink, if_neg Bool.false_ne_true, afterSlash_of_none hslash]
  rw [hread, LsLine.nameText, htail, List.append_nil]
  constructor
  · rintro ⟨-, hname⟩ c hc
    cases heaten : strchr c with
    | false => rfl
    | true =>
      have hlt := dropWhile_length hc heaten
      rw [hname] at hlt
      exact absurd hlt (Nat.lt_irrefl _)
  · intro h
    rw [dropWhile_of_head h]
    exact ⟨l.name_ne, rfl⟩

/-- A link whose name is eaten altogether. -/
theorem readName_eaten (l : LsLine) {target : Str} (htail : l.tail = arrow ++ target)
    (hlink : S_ISLNK (str2Mode l.modeText) = true) (heaten : ∀ c ∈ l.name, strchr c = true) :
    l.readName = l.name ↔ ∃ u, beforeArrow (bytes "-> " ++ target) = u ++ 0x2F :: l.name := by
  have htext : l.nameText = bytes "-> " ++ target := by
    rw [LsLine.nameText, htail, List.dropWhile_append_of_pos heaten]
    rfl
  obtain ⟨rest, hbefore⟩ : ∃ rest, beforeArrow (bytes "-> " ++ target) = 0x2D :: 0x3E :: rest := by
    have hfirst : (bytes "-> " ++ target).take 4 ≠ arrow := fun h =>
      absurd (congrArg List.head? h) (by simp [bytes, arrow])
    have hsecond : ((0x3E : Byte) :: (0x20 :: target)).take 4 ≠ arrow := fun h =>
      absurd (congrArg List.head? h) (by simp [bytes, arrow])
    refine ⟨beforeArrow (0x20 :: target), ?_⟩
    show (if (bytes "-> " ++ target).take 4 = arrow then []
      else _ :: beforeArrow ((0x3E : Byte) :: (0x20 :: target))) = _
    rw [if_neg hfirst, beforeArrow, if_neg hsecond]
    rfl
  rw [LsLine.readName, hlink, if_pos rfl, htext, hbefore]
  constructor
  · intro h
    by_cases hslash : 0x2F ∈ 0x2D :: 0x3E :: rest
    · obtain ⟨u, b, hsplit, hb⟩ := split_last hslash
      rw [hsplit] at h ⊢
      have hlength : 1 < (u ++ 0x2F :: b).length := by
        rw [← hsplit, List.length_cons, List.length_cons]
        omega
      rw [afterSlash_slash hb hlength] at h
      exact ⟨u, by rw [h]⟩
    · rw [afterSlash_of_none hslash] at h
      have hdash := heaten 0x2D (by rw [← h]; exact List.mem_cons_self)
      exact absurd hdash (by decide)
  · rintro ⟨u, hu⟩
    have hlength : 1 < (u ++ 0x2F :: l.name).length := by
      rw [← hu, List.length_cons, List.length_cons]
      omega
    rw [hu, afterSlash_slash l.name_plain.1 hlength]

/-- **A link whose name is not eaten altogether**: nothing of it may be eaten, and no arrow may come too early. -/
theorem readName_link (l : LsLine) {target : Str} (htail : l.tail = arrow ++ target)
    (hlink : S_ISLNK (str2Mode l.modeText) = true) (hkept : ¬∀ c ∈ l.name, strchr c = true) :
    l.readName = l.name ↔ (∀ c ∈ l.name.head?, strchr c = false) ∧ ¬arrow <:+: l.name ++ [0x20] := by
  have htext : l.nameText = l.name.dropWhile strchr ++ (arrow ++ target) := by
    have hne : ¬(l.name.dropWhile strchr).isEmpty = true := fun hnil =>
      hkept (List.dropWhile_eq_nil_iff.mp (List.isEmpty_iff.mp hnil))
    rw [LsLine.nameText, htail, List.dropWhile_append, if_neg hne]
  obtain ⟨hbegins, hwhole⟩ := beforeArrow_append (l.name.dropWhile strchr) target
  have hslash : 0x2F ∉ beforeArrow (l.name.dropWhile strchr ++ (arrow ++ target)) := fun hmem =>
    l.name_plain.1 ((List.dropWhile_sublist strchr).mem (hbegins.mem hmem))
  rw [LsLine.readName, hlink, if_pos rfl, htext, afterSlash_of_none hslash]
  constructor
  · intro h
    have hhead : ∀ c ∈ l.name.head?, strchr c = false := by
      intro c hc
      cases heaten : strchr c with
      | false => rfl
      | true =>
        have hlt := dropWhile_length hc heaten
        have hle := hbegins.length_le
        rw [h] at hle
        omega
    rw [dropWhile_of_head hhead] at h hwhole
    exact ⟨hhead, hwhole.mp h⟩
  · rintro ⟨hhead, harrow⟩
    rw [dropWhile_of_head hhead] at hwhole ⊢
    exact hwhole.mpr harrow

/-- **When the name is read right.** -/
theorem readName_iff (l : LsLine) : l.nameText ≠ [] ∧ l.readName = l.name ↔ l.NameClear := by
  have hlink := isLink_mode l
  have hplain : l.tail = [] → l.kind.bits ≠ S_IFLNK →
      (l.nameText ≠ [] ∧ l.readName = l.name ↔ ∀ c ∈ l.name.head?, strchr c = false) := fun htail hbits =>
    readName_plain l htail (Bool.eq_false_iff.mpr fun h => hbits (hlink.mp h))
  cases hkind : l.kind with
  | link target =>
    have htail : l.tail = arrow ++ target := by rw [LsLine.tail, hkind]
    have hmode : S_ISLNK (str2Mode l.modeText) = true := hlink.mpr (by rw [hkind]; rfl)
    have hne : l.nameText ≠ [] := by
      rw [LsLine.nameText, htail]
      intro hnil
      exact absurd (List.dropWhile_eq_nil_iff.mp hnil 0x2D (by simp [arrow, bytes])) (by decide)
    rw [LsLine.NameClear, hkind]
    dsimp only
    by_cases heaten : ∀ c ∈ l.name, strchr c = true
    · rw [and_iff_right hne, readName_eaten l htail hmode heaten]
      have hnot : ¬∀ c ∈ l.name.head?, strchr c = false := by
        obtain ⟨c, s, hs⟩ := List.exists_cons_of_ne_nil l.name_ne
        intro h
        have hc := h c (by rw [hs]; rfl)
        rw [heaten c (by rw [hs]; exact List.mem_cons_self)] at hc
        exact absurd hc (by decide)
      exact ⟨fun h => .inr ⟨heaten, h⟩, fun h => (h.resolve_left fun h' => hnot h'.1).2⟩
    · rw [and_iff_right hne, readName_link l htail hmode heaten]
      exact ⟨.inl, fun h => h.resolve_right fun h' => heaten h'.1⟩
  | regular => rw [hplain (by rw [LsLine.tail, hkind]) (by rw [hkind]; decide), LsLine.NameClear, hkind]
  | directory => rw [hplain (by rw [LsLine.tail, hkind]) (by rw [hkind]; decide), LsLine.NameClear, hkind]
  | character _ _ =>
    rw [hplain (by rw [LsLine.tail, hkind]) (by rw [hkind]; exact (by decide : S_IFCHR ≠ S_IFLNK)), LsLine.NameClear,
      hkind]
  | block _ _ =>
    rw [hplain (by rw [LsLine.tail, hkind]) (by rw [hkind]; exact (by decide : S_IFBLK ≠ S_IFLNK)), LsLine.NameClear,
      hkind]
  | fifo => rw [hplain (by rw [LsLine.tail, hkind]) (by rw [hkind]; decide), LsLine.NameClear, hkind]
  | socket => rw [hplain (by rw [LsLine.tail, hkind]) (by rw [hkind]; decide), LsLine.NameClear, hkind]

/-! ## Lines -/

section

variable (mktime : Tm → Int) (now : Tm)

/-- **A line of `ls` is read faithfully if and only if** no owner, group or name begins with what is eaten, no group
of a device is `domain`, the size is below 2^63, no special bit hides an `x`, and no arrow comes too early. -/
theorem lsLine_readFaithfully_iff (l : LsLine) : l.ReadFaithfully mktime now ↔ l.Clear := by
  have hnul : ∀ {s : Str}, (∀ c ∈ s.head?, strchr c = false) → s.head? ≠ some 0 := fun h heq =>
    absurd (h 0 heq) (by decide)
  have hsize : ((l.entry mktime now).size.toNat = if l.kind.device.isSome then 0 else l.size) ↔
      (l.kind.device = none → l.size < 2 ^ 63) := by
    rw [LsLine.entry]
    cases hdevice : l.kind.device with
    | none =>
      show (strtol (number 10 l.size) 10).toUInt64.toNat = l.size ↔ _
      rw [strtol_number]
      exact ⟨fun h _ => by omega, fun h => by have := h rfl; omega⟩
    | some device => exact iff_of_true rfl fun h => absurd h (by simp)
  constructor
  · rintro ⟨e, he, hname, howner, hgroup, hsize', hmode⟩
    obtain ⟨ho, hg⟩ := parseLineFromLS_heads mktime now he
    rw [howner] at ho
    rw [hgroup] at hg
    rw [parseLineFromLS_text mktime now l (hnul ho)] at he
    obtain ⟨hplain, hdomain⟩ := parseFromOwner_text mktime now l (hnul hg)
    have hno : ¬(l.kind.device.isSome = true ∧ l.groupName = bytes "domain") := fun h => hdomain h e he hgroup
    rw [hplain hno] at he
    split at he
    · exact absurd he (by simp)
    · next hne =>
      obtain rfl := Option.some.inj he
      exact ⟨hnul ho, hnul hg, fun hdevice hdomain => hno ⟨hdevice, hdomain⟩, hsize.mp hsize',
        (str2Mode_iff l).mp hmode, (readName_iff l).mp ⟨hne, hname⟩⟩
  · intro h
    obtain ⟨hne, hname⟩ := (readName_iff l).mpr h.name
    refine ⟨l.entry mktime now, ?_, hname, rfl, rfl, hsize.mpr h.size, (str2Mode_iff l).mpr h.execute⟩
    rw [parseLineFromLS_text mktime now l h.owner,
      (parseFromOwner_text mktime now l h.group).1 fun hboth => h.domain hboth.1 hboth.2, if_neg hne]

end

/-- `-rwsr-xr-x 1 root root 5 Jan 1 2020 su` -/
def setuid : LsLine where
  kind := .regular
  user := ⟨true, true, true, true⟩
  group := ⟨true, false, true, false⟩
  other := ⟨true, false, true, false⟩
  nlinks := 1
  owner := bytes "root"
  groupName := bytes "root"
  size := 5
  month := bytes "Jan"
  day := bytes "1"
  time := bytes "2020"
  name := bytes "su"
  gap := fun _ => [0x20]
  owner_word := word_of_any (by decide) (by decide)
  group_word := word_of_any (by decide) (by decide)
  date_words := by
    intro s hs
    simp only [List.mem_cons, List.not_mem_nil, or_false] at hs
    rcases hs with rfl | rfl | rfl <;> exact ⟨word_of_any (by decide) (by decide), by decide⟩
  name_ne := by decide
  name_plain := by constructor <;> decide
  gaps := fun _ => ⟨by decide, List.all_eq_true.mp rfl⟩

example : setuid.text = bytes "-rwsr-xr-x 1 root root 5 Jan 1 2020 su" := by decide

/-- The owner of `su` is not said to be allowed to execute it. -/
theorem setuid_hides : ¬∀ (mktime : Tm → Int) (now : Tm) (l : LsLine), l.ReadFaithfully mktime now := by
  intro h
  obtain ⟨e, he, -, -, -, -, hmode⟩ := h (fun _ => 0) {} setuid
  have hread : (parseLineFromLS (fun _ => 0) {} setuid.text).map LsEntry.mode = some 0o100655 := by decide
  rw [he, Option.map_some, Option.some.injEq, hmode] at hread
  exact absurd hread (by decide)

end Far2l.NetRocks.ShellParseUtils
