/-
Far2l.NetRocks.FTPParseMLST — `NetRocks/src/Protocol/FTP/FTPParseMLST.cpp`, and
`ProtocolFTP::SetTimes` of `ProtocolFTP.cpp`.

What `mktime` makes of a broken-down time is up to the local time zone and is a
parameter, as is the time that stands in for an unknown one. Messages are left out.
-/
import Far2l.Lib.Calendar
import Far2l.Utils.IntStrConv

namespace Far2l.NetRocks.MLST

open Calendar Numerals

abbrev Str : Type := List Byte

/-- The bytes of a text. -/
def bytes (s : String) : Str := s.toList.map fun c => UInt8.ofNat c.toNat

/-! ## Characters -/

/-- `CaseIgnoreEngChrMatch` -/
def caseIgnoreEngChrMatch (c1 c2 : Byte) : Bool :=
  if c1 ≠ c2 then
    if 0x41 ≤ c1 ∧ c1 ≤ 0x5A then c1 + 0x20 = c2
    else if 0x61 ≤ c1 ∧ c1 ≤ 0x7A then c1 - 0x20 = c2
    else false
  else true

/-- `CaseIgnoreEngStrMatch` of as many characters as `str2` has -/
def caseIgnoreEngStrMatch : Str → Str → Bool
  | _, [] => true
  | [], _ :: _ => false
  | c1 :: str1, c2 :: str2 => caseIgnoreEngChrMatch c1 c2 && caseIgnoreEngStrMatch str1 str2

/-- `MATCH_SUBSTR` -/
def matchSubstr (str mtch : Str) : Bool := str.length = mtch.length && caseIgnoreEngStrMatch str mtch

/-- `CaseIgnoreEngStrChr` -/
def caseIgnoreEngStrChr (c : Byte) (str : Str) : Bool := str.any fun x => caseIgnoreEngChrMatch c x

/-- `strtol`, on a text that goes on with something that is no digit. -/
def strtol (s : Str) (base : Nat) : Int64 := IntStrConv.strtol base (s.map UInt8.toNat)

/-- `DecToULong` of as many characters -/
def decToULong (s : Str) : Nat := leadingValue (fun c : Byte => IntStrConv.digitOf c.toNat) 10 s % 2 ^ 64

/-! ## Times -/

structure Timespec where
  sec : Int := 0
  nsec : Nat := 0
  deriving DecidableEq, Repr

/-- The fields of `t` that a text is long enough for. -/
def parseTm (str : Str) : Tm :=
  let len := str.length
  { year := if len ≥ 4 then (decToULong (str.take 4) : Int) - 1900 else 0
    mon := if len ≥ 6 then (decToULong ((str.drop 4).take 2) : Int) - 1 else 0
    mday := if len ≥ 8 then decToULong ((str.drop 6).take 2) else 0
    hour := if len ≥ 10 then decToULong ((str.drop 8).take 2) else 0
    min := if len ≥ 12 then decToULong ((str.drop 10).take 2) else 0
    sec := if len ≥ 14 then decToULong ((str.drop 12).take 2) else 0 }

/-- `ParseTime` -/
def parseTime (mktime : Tm → Int) (str : Str) : Timespec :=
  { sec := mktime (parseTm str)
    nsec :=
      if str.length > 15 ∧ str[14]? = some 0x2E then
        let deciLen := min (str.length - 15) 9
        decToULong ((str.drop 15).take deciLen) * 10 ^ (9 - deciLen)
      else 0 }

/-! ## Lines -/

structure FileInformation where
  accessTime : Timespec := {}
  modificationTime : Timespec := {}
  statusChangeTime : Timespec := {}
  size : UInt64 := 0
  mode : UInt32 := 0
  deriving DecidableEq, Repr

def S_IFMT : UInt32 := 0o170000
def S_IFDIR : UInt32 := 0o040000
def S_IFREG : UInt32 := 0o100000
def S_IFLNK : UInt32 := 0o120000

def DEFAULT_ACCESS_MODE_FILE : UInt32 := 0o644
def DEFAULT_ACCESS_MODE_DIRECTORY : UInt32 := 0o755

/-- The variables of `ParseMLsxLine`, and what it writes through pointers. -/
structure Parsed where
  fileInfo : FileInformation := {}
  uid : Option UInt32 := none
  gid : Option UInt32 := none
  lnkto : Option Str := none
  hasMode : Bool := false
  hasType : Bool := false
  hasAnyKnown : Bool := false
  hasModify : Bool := false
  hasCreate : Bool := false
  perm : Option Str := none
  deriving DecidableEq, Repr

section

variable (mktime : Tm → Int)

/-- `file_info.mode|= mode` -/
def Parsed.orMode (p : Parsed) (mode : UInt32) : Parsed :=
  { p with fileInfo := { p.fileInfo with mode := p.fileInfo.mode ||| mode } }

/-- `has_any_known = has_type = true` -/
def Parsed.typed (p : Parsed) (mode : UInt32) : Parsed :=
  { p.orMode mode with hasType := true, hasAnyKnown := true }

/-- A fact with a name: the branches of `if (MATCH_SUBSTR(fact, name_len, …))`. -/
def Parsed.onFact (p : Parsed) (name value : Str) : Parsed :=
  if matchSubstr name (bytes "UNIX.mode") then
    { p.orMode (strtol value (if value.head? = some 0x30 then 8 else 10)).toUInt64.toUInt32 with
      hasAnyKnown := true, hasMode := true }
  else if matchSubstr name (bytes "UNIX.uid") then
    { p with uid := some (strtol value 10).toUInt64.toUInt32, hasAnyKnown := true }
  else if matchSubstr name (bytes "UNIX.gid") then
    { p with gid := some (strtol value 10).toUInt64.toUInt32, hasAnyKnown := true }
  else if matchSubstr name (bytes "create") then
    { p with
      fileInfo := { p.fileInfo with statusChangeTime := parseTime mktime value }
      hasAnyKnown := true, hasCreate := true }
  else if matchSubstr name (bytes "modify") then
    { p with
      fileInfo := { p.fileInfo with modificationTime := parseTime mktime value }
      hasAnyKnown := true, hasModify := true }
  else if matchSubstr name (bytes "type") then
    if matchSubstr value (bytes "file") then p.typed S_IFREG
    else if matchSubstr value (bytes "dir") ∨ matchSubstr value (bytes "cdir") ∨ matchSubstr value (bytes "pdir") then
      p.typed S_IFDIR
    else p
  else if matchSubstr name (bytes "perm") then { p with perm := some value, hasAnyKnown := true }
  else if matchSubstr name (bytes "size") ∨ matchSubstr name (bytes "sizd") then
    { p with fileInfo := { p.fileInfo with size := (strtol value 10).toUInt64 }, hasAnyKnown := true }
  else if matchSubstr name (bytes "type=OS.unix") then
    if value.length ≥ 6 ∧ caseIgnoreEngStrMatch value (bytes "slink:") then
      { p.typed S_IFLNK with lnkto := some (value.drop 6) }
    else p
  else p

/-- The loop, with what has come of a fact and where its last `'='` is; the name is what is left. An `'='` at
the very beginning is none. -/
def parseFacts (p : Parsed) (fact : Str) (eq : Nat) : Str → Parsed × Str
  | [] => (p, fact)
  | ch :: line =>
      if ch = 0x3D then parseFacts p (fact ++ [ch]) fact.length line
      else if ch = 0x3B then
        parseFacts (if eq > 0 then p.onFact mktime (fact.take eq) (fact.drop (eq + 1)) else p) [] 0 line
      else parseFacts p (fact ++ [ch]) eq line

/-- `if (!has_type)` -/
def Parsed.guessType (p : Parsed) : Parsed :=
  if p.hasType then p
  else
    match p.perm with
    | some perm =>
        if caseIgnoreEngStrChr 0x63 perm ∨ caseIgnoreEngStrChr 0x6C perm then p.orMode S_IFDIR else p.orMode S_IFREG
    | none => p.orMode S_IFREG

/-- `if (!has_mode)` -/
def Parsed.guessMode (p : Parsed) : Parsed :=
  if p.hasMode then p
  else
    match p.perm with
    | some perm =>
        let p :=
          if caseIgnoreEngStrChr 0x72 perm ∨ caseIgnoreEngStrChr 0x6C perm ∨ caseIgnoreEngStrChr 0x65 perm then
            let p := p.orMode 0o444
            if p.fileInfo.mode &&& S_IFMT = S_IFDIR then p.orMode 0o111 else p
          else p
        let p :=
          if caseIgnoreEngStrChr 0x77 perm ∨ caseIgnoreEngStrChr 0x61 perm ∨ caseIgnoreEngStrChr 0x63 perm then
            p.orMode 0o220
          else p
        if caseIgnoreEngStrChr 0x78 perm ∨ caseIgnoreEngStrChr 0x65 perm then p.orMode 0o111 else p
    | none =>
        if p.fileInfo.mode &&& S_IFMT = S_IFDIR then p.orMode DEFAULT_ACCESS_MODE_DIRECTORY
        else p.orMode DEFAULT_ACCESS_MODE_FILE

/-- The times that no fact has set. -/
def Parsed.guessTimes (defaultTime : Int) (p : Parsed) : Parsed :=
  let info := p.fileInfo
  let m := info.modificationTime.sec
  let c := info.statusChangeTime.sec
  if p.hasModify then
    { p with fileInfo := { info with
        accessTime := { info.accessTime with sec := m }
        statusChangeTime := { info.statusChangeTime with sec := if p.hasCreate then c else m } } }
  else if p.hasCreate then
    { p with fileInfo := { info with
        accessTime := { info.accessTime with sec := c }
        modificationTime := { info.modificationTime with sec := c } } }
  else
    { p with fileInfo := { info with
        accessTime := { info.accessTime with sec := defaultTime }
        modificationTime := { info.modificationTime with sec := defaultTime }
        statusChangeTime := { info.statusChangeTime with sec := defaultTime } } }

/-- `ParseMLsxLine`: what it finds, and the name; its result is `hasAnyKnown`. -/
def parseMLsxLine (defaultTime : Int) (line : Str) : Parsed × Str :=
  let (p, rest) := parseFacts mktime {} [] 0 (line.dropWhile (· = 0x20))
  let name := if rest.head? = some 0x20 then rest.tail else rest
  ((p.guessType.guessMode).guessTimes defaultTime, name)

end

/-! ## `SetTimes` -/

/-- `%0*u`: at least so many digits. -/
def padded (width n : Nat) : Str := Numerals.padded (fun d => UInt8.ofNat (0x30 + d)) 10 width n

/-- `(unsigned int)`, printed with so many digits at least. -/
def printed (width : Nat) (v : Int) : Str := padded width (v % 2 ^ 32).toNat

/-- The digits that `SetTimes` sends for a time. -/
def mfmtDigits (t : Nat) : Str :=
  let tm := gmtime t
  printed 4 (tm.year + 1900) ++ printed 2 tm.mon ++ printed 2 tm.mday ++ printed 2 tm.hour ++ printed 2 tm.min ++
    printed 2 tm.sec

/-- `YYYYMMDDHHMMSS`: the calendar form of a time. -/
def calendarForm (t : Nat) : Str :=
  let c := civil t
  padded 4 c.year ++ padded 2 c.month ++ padded 2 c.day ++ padded 2 c.hour ++ padded 2 c.minute ++ padded 2 c.second

/-- `modify=` with a value. -/
def modifyFact (value : Str) : Str := bytes "modify" ++ 0x3D :: (value ++ [0x3B])

/-- Whole facts, which a line may begin with. -/
def Whole (facts : Str) : Prop := facts = [] ∨ facts.getLast? = some 0x3B

/-- What a line says about the modification time. -/
def modified (mktime : Tm → Int) (defaultTime : Int) (facts value name : Str) : Timespec :=
  (parseMLsxLine mktime defaultTime (facts ++ (modifyFact value ++ 0x20 :: name))).1.fileInfo.modificationTime

/-- Decimal digits. -/
def Digits (s : Str) : Prop := ∀ c ∈ s, IntStrConv.digitOf c.toNat < 10

/-- The number that digits stand for. -/
def decimalValue (s : Str) : Nat := value (fun c : Byte => IntStrConv.digitOf c.toNat) 10 s

/-- **Modification times go there and back**: the server is sent the calendar form of the time, what is sent is
read as that time, and a fraction of it as that fraction. -/
structure RoundTrips (mktime : Tm → Int) (t : Nat) : Prop where
  sent : mfmtDigits t = calendarForm t
  read : ∀ defaultTime facts name, Whole facts → 0x3B ∉ name →
    modified mktime defaultTime facts (mfmtDigits t) name = ⟨t, 0⟩
  fraction : ∀ defaultTime facts name fraction, Whole facts → 0x3B ∉ name → Digits fraction →
    1 ≤ fraction.length → fraction.length ≤ 9 →
    (modified mktime defaultTime facts (mfmtDigits t ++ 0x2E :: fraction) name).nsec
      = decimalValue fraction * 10 ^ (9 - fraction.length)

/-! ## Digits -/

theorem digitOf_digit {d : Nat} (h : d < 10) : IntStrConv.digitOf (UInt8.ofNat (0x30 + d)).toNat = d := by
  interval_cases d <;> rfl

theorem decimalValue_padded (width n : Nat) : decimalValue (padded width n) = n :=
  value_padded (by decide) fun _ hd => digitOf_digit hd

/-! ## Lines with a modification time -/

section

variable (mktime : Tm → Int) {p : Parsed}

/-- What is behind the last fact is the name. -/
theorem parseFacts_name : ∀ (name fact : Str) (eq : Nat), 0x3B ∉ name →
    parseFacts mktime p fact eq name = (p, fact ++ name)
  | [], fact, _, _ => by rw [parseFacts, List.append_nil]
  | c :: name, fact, eq, h => by
    rw [List.mem_cons, not_or] at h
    rw [parseFacts]
    split
    · rw [parseFacts_name name _ _ h.2, List.append_assoc, List.singleton_append]
    · rw [if_neg (Ne.symm h.1), parseFacts_name name _ _ h.2, List.append_assoc, List.singleton_append]

end

/-! ## The calendar form -/

/-- The fields of a time up to the year 9999 fit their digits. -/
theorem civil_bounds {t : Nat} (h : (civil t).year ≤ 9999) :
    1970 ≤ (civil t).year ∧ (civil t).year < 10 ^ 4 ∧ 1 ≤ (civil t).month ∧ (civil t).month < 10 ^ 2 ∧
      (civil t).day < 10 ^ 2 ∧ (civil t).hour < 10 ^ 2 ∧ (civil t).minute < 10 ^ 2 ∧ (civil t).second < 10 ^ 2 := by
  obtain ⟨hvalid, -⟩ := civil_spec t
  have := hvalid.year
  have := hvalid.month
  have := hvalid.hour
  have := hvalid.minute
  have := hvalid.second
  have hday : (civil t).day ≤ 31 := by
    cases hlength : (monthLengths (civil t).year)[(civil t).month - 1]? with
    | none =>
      have hlast := List.getElem?_eq_none_iff.mp hlength
      have : (monthLengths (civil t).year).length = 12 := rfl
      omega
    | some n =>
      refine Nat.le_trans (hvalid.day.2 n hlength) ?_
      have hmem := List.mem_of_getElem? hlength
      have hall : ∀ k ∈ monthLengths (civil t).year, k ≤ 31 := by
        rw [monthLengths]
        split <;> decide
      exact hall n hmem
  omega

theorem printed_ofNat {width n : Nat} (h : n < 2 ^ 32) : printed width (n : Int) = padded width n := by
  rw [printed, Int.emod_eq_of_lt (by omega) (by omega)]
  rfl

/-- **What the server is sent**: the calendar form, but for the month, which counts from 0. -/
theorem mfmtDigits_eq {t : Nat} (h : (civil t).year ≤ 9999) :
    mfmtDigits t = padded 4 (civil t).year ++ padded 2 ((civil t).month - 1) ++ padded 2 (civil t).day ++
      padded 2 (civil t).hour ++ padded 2 (civil t).minute ++ padded 2 (civil t).second := by
  obtain ⟨hyear, hyear', hmonth, hmonth', hday, hhour, hminute, hsecond⟩ := civil_bounds h
  have hmon : ((civil t).month : Int) - 1 = ((civil t).month - 1 : Nat) := by omega
  show printed 4 ((civil t).year - 1900 + 1900) ++ printed 2 ((civil t).month - 1) ++ printed 2 (civil t).day ++
    printed 2 (civil t).hour ++ printed 2 (civil t).minute ++ printed 2 (civil t).second = _
  rw [Int.sub_add_cancel, hmon, printed_ofNat (by omega), printed_ofNat (by omega), printed_ofNat (by omega),
    printed_ofNat (by omega), printed_ofNat (by omega), printed_ofNat (by omega)]

example : mfmtDigits 951782400 = bytes "20000129000000" := by decide

/-- A month is never the one before it. -/
theorem mfmtDigits_ne {t : Nat} (h : (civil t).year ≤ 9999) : mfmtDigits t ≠ calendarForm t := by
  intro heq
  have hmonth : 1 ≤ (civil t).month := (civil_bounds h).2.2.1
  rw [mfmtDigits_eq h, calendarForm] at heq
  simp only [List.append_cancel_right_eq, List.append_cancel_left_eq] at heq
  have hvalue := congrArg decimalValue heq
  rw [decimalValue_padded, decimalValue_padded] at hvalue
  omega

/-- **No modification time goes there and back**: the month that the server is sent counts from 0. -/
theorem roundTrips_never (mktime : Tm → Int) (t : Nat) (h : (civil t).year ≤ 9999) : ¬RoundTrips mktime t :=
  fun hround => mfmtDigits_ne h hround.sent

theorem roundTrips_never_zero : (civil 0).year ≤ 9999 ∧ ¬RoundTrips (fun _ => 0) 0 :=
  ⟨by decide, roundTrips_never _ 0 (by decide)⟩

/-- The first second of 1970 is sent as the month 0. -/
theorem month_from_zero : ¬∀ (mktime : Tm → Int) (t : Nat), (civil t).year ≤ 9999 → RoundTrips mktime t := by
  intro h
  have hsent : mfmtDigits 0 = calendarForm 0 := (h (fun _ => 0) 0 (by decide)).sent
  exact absurd hsent (by decide)

end Far2l.NetRocks.MLST
