/-
Far2l.File.GetString — reading a file line by line
(`TypedStringReader` of `far/src/filestr.cpp`).

A file is the list of the pieces its reads deliver; a read that delivers nothing
is the end of the file. The reader is generic in its character type, as the
template is; `cr` and `lf` are the two characters `GetString` looks for.
-/

namespace Far2l.FileStr

/-- `EolType` of `filestr.cpp`; `mac2` is the state of the parser behind `\r\r`. -/
inductive EolType where
  | none
  | windows
  | unix
  | mac
  | mac2
  | notepad
deriving DecidableEq, Repr

/-- `GetFileStringContext`, with the unread part of `ReadBuf` for the two counters. -/
structure GetFileStringContext (α : Type) where
  srcFile : List (List α)
  readBuf : List α := []
  bCrCr : Bool := false
deriving DecidableEq, Repr

variable {α : Type} [DecidableEq α] (cr lf : α)

/-- What one character does to the line being read. -/
inductive Step where
  /-- the character belongs to the line -/
  | put (eol : EolType)
  /-- the line has ended in front of the character -/
  | stop
  /-- `\r\r` without `\n`: the second `\r` is a line of its own -/
  | twoMac
deriving DecidableEq, Repr

/-- The cascade over `Eol` in the loop of `GetString`. -/
def step (eol : EolType) (c : α) : Step :=
  match eol with
  | .none => .put (if c = lf then .unix else if c = cr then .mac else .none)
  | .mac => if c = lf then .put .windows else if c = cr then .put .mac2 else .stop
  | .windows | .unix => .stop
  | .mac2 => if c = lf then .put .notepad else .twoMac
  | .notepad => .stop

/-- How the loop of `GetString` leaves the buffer. -/
inductive Pass (α : Type) where
  /-- the buffer is used up -/
  | more (str : List α) (eol : EolType)
  /-- the line is complete; `rest` is still in the buffer -/
  | line (str : List α) (bCrCr : Bool) (rest : List α)

/-- The loop of `GetString` between two reads. -/
def readBuffer (str : List α) (eol : EolType) : List α → Pass α
  | [] => .more str eol
  | c :: rest =>
      match step cr lf eol c with
      | .put eol => readBuffer (str ++ [c]) eol rest
      | .stop => .line str false (c :: rest)
      | .twoMac => .line str.dropLast true (c :: rest)

/-- The loop of `GetString`; `none` is the exit code 0. -/
def readLine (str : List α) (eol : EolType) (readBuf : List α) (srcFile : List (List α)) :
    Option (List α) × GetFileStringContext α :=
  match readBuffer cr lf str eol readBuf with
  | .line str bCrCr rest => (some str, { srcFile := srcFile, readBuf := rest, bCrCr := bCrCr })
  | .more str eol =>
      match srcFile with
      | [] => (if str = [] then none else some str, { srcFile := [] })
      | chunk :: srcFile =>
          if chunk = [] then (if str = [] then none else some str, { srcFile := srcFile })
          else readLine str eol chunk srcFile

/-- `GetString`. -/
def getString (context : GetFileStringContext α) : Option (List α) × GetFileStringContext α :=
  if context.bCrCr then (some [cr], { context with bCrCr := false })
  else readLine cr lf [] .none context.readBuf context.srcFile

/-- `GetFileStringContext::GetFileStringContext`. -/
def openFile (srcFile : List (List α)) : GetFileStringContext α := { srcFile := srcFile }

/-- The lines `while (GetString(&Str, Length))` yields. -/
def readAll : Nat → GetFileStringContext α → List (List α)
  | 0, _ => []
  | fuel + 1, context =>
      match getString cr lf context with
      | (none, _) => []
      | (some str, context) => str :: readAll fuel context

/-- The lines of a file. Each of them holds a character at least, so that there are no more
lines than characters. -/
def fileLines (srcFile : List (List α)) : List (List α) :=
  readAll cr lf (srcFile.flatten.length + 1) (openFile srcFile)

end Far2l.FileStr

/-! # The lines `GetString` delivers, put together, are

the file, however its reads are cut, and a line end never stands inside a line. -/

namespace Far2l.FileStr

variable {α : Type} {cr lf : α}

variable (cr lf) in
/-- The line ends with a line end. -/
def HasEol (line : List α) : Prop := ∃ text c, line = text ++ [c] ∧ (c = cr ∨ c = lf)

variable (cr lf) in
/-- A line end stands at the end of the line or nowhere. -/
def LineShape (line : List α) : Prop := HasEol cr lf line ∨ (cr ∉ line ∧ lf ∉ line)

/-! ## The parser -/

variable (cr lf) in
/-- What has been read of a line in each state of the parser. -/
def Scanned (str : List α) : EolType → Prop
  | .none => cr ∉ str ∧ lf ∉ str
  | .mac => ∃ text, str = text ++ [cr]
  | .mac2 => ∃ text, str = text ++ [cr, cr]
  | .windows | .unix | .notepad => ∃ text, str = text ++ [lf]

theorem Scanned.nil : Scanned cr lf [] .none := ⟨List.not_mem_nil, List.not_mem_nil⟩

theorem Scanned.hasEol {str : List α} {eol : EolType} (h : Scanned cr lf str eol)
    (hne : eol ≠ .none) : HasEol cr lf str := by
  cases eol with
  | none => exact absurd rfl hne
  | mac =>
    obtain ⟨text, rfl⟩ := h
    exact ⟨text, cr, rfl, .inl rfl⟩
  | mac2 =>
    obtain ⟨text, rfl⟩ := h
    exact ⟨text ++ [cr], cr, by simp, .inl rfl⟩
  | windows | unix | notepad =>
    obtain ⟨text, rfl⟩ := h
    exact ⟨text, lf, rfl, .inr rfl⟩

theorem HasEol.ne_nil {line : List α} (h : HasEol cr lf line) : line ≠ [] := by
  obtain ⟨text, c, rfl, -⟩ := h
  simp

theorem Scanned.lineShape {str : List α} {eol : EolType} (h : Scanned cr lf str eol) :
    LineShape cr lf str := by
  by_cases hne : eol = .none
  · subst hne
    exact .inr h
  · exact .inl (h.hasEol hne)

variable [DecidableEq α]

/-- A character that belongs to the line keeps the invariant of the parser. -/
theorem Scanned.put {str : List α} {eol eol' : EolType} {c : α} (h : Scanned cr lf str eol)
    (hstep : step cr lf eol c = .put eol') : Scanned cr lf (str ++ [c]) eol' := by
  cases eol with
  | none =>
    obtain ⟨hcr, hlf⟩ := h
    simp only [step, Step.put.injEq] at hstep
    subst hstep
    by_cases hclf : c = lf
    · rw [if_pos hclf, hclf]
      exact ⟨str, rfl⟩
    · by_cases hccr : c = cr
      · rw [if_neg hclf, if_pos hccr, hccr]
        exact ⟨str, rfl⟩
      · rw [if_neg hclf, if_neg hccr]
        simp only [Scanned, List.mem_append, List.mem_singleton, not_or]
        exact ⟨⟨hcr, fun hc => hccr hc.symm⟩, hlf, fun hc => hclf hc.symm⟩
  | mac =>
    obtain ⟨text, rfl⟩ := h
    simp only [step] at hstep
    by_cases hclf : c = lf
    · rw [if_pos hclf, Step.put.injEq] at hstep
      rw [← hstep, hclf]
      exact ⟨text ++ [cr], rfl⟩
    · by_cases hccr : c = cr
      · rw [if_neg hclf, if_pos hccr, Step.put.injEq] at hstep
        rw [← hstep, hccr]
        exact ⟨text, by simp⟩
      · rw [if_neg hclf, if_neg hccr] at hstep
        exact absurd hstep (by simp)
  | mac2 =>
    simp only [step] at hstep
    by_cases hclf : c = lf
    · rw [if_pos hclf, Step.put.injEq] at hstep
      rw [← hstep, hclf]
      exact ⟨str, rfl⟩
    · rw [if_neg hclf] at hstep
      exact absurd hstep (by simp)
  | windows | unix | notepad => exact absurd hstep (by simp [step])

/-- The line only stops behind a line end. -/
theorem ne_none_of_stop {eol : EolType} {c : α} (h : step cr lf eol c = .stop) : eol ≠ .none := by
  rintro rfl
  simp [step] at h

theorem eq_mac2_of_twoMac {eol : EolType} {c : α} (h : step cr lf eol c = .twoMac) :
    eol = .mac2 := by
  cases eol with
  | mac2 => rfl
  | none | windows | unix | notepad => simp [step] at h
  | mac =>
    simp only [step] at h
    split at h
    · exact absurd h (by simp)
    · split at h <;> exact absurd h (by simp)

/-! ## One line -/

variable (cr) in
/-- The characters `GetString` has not delivered yet. -/
def GetFileStringContext.pending (context : GetFileStringContext α) : List α :=
  (if context.bCrCr then [cr] else []) ++ context.readBuf ++ context.srcFile.flatten

/-- Every read but the one at the end of the file delivers something. -/
def GetFileStringContext.Reads (context : GetFileStringContext α) : Prop :=
  ∀ chunk ∈ context.srcFile, chunk ≠ []

/-- The loop over the buffer loses nothing and keeps the invariant of the parser; it leaves the
loop behind a line end only. -/
theorem readBuffer_spec : ∀ (readBuf str : List α) (eol : EolType), Scanned cr lf str eol →
    match readBuffer cr lf str eol readBuf with
    | .more str' eol' => str' = str ++ readBuf ∧ Scanned cr lf str' eol'
    | .line line bCrCr rest =>
        str ++ readBuf = line ++ ((if bCrCr then [cr] else []) ++ rest) ∧ HasEol cr lf line
  | [], str, eol, h => ⟨(List.append_nil str).symm, h⟩
  | c :: rest, str, eol, h => by
    simp only [readBuffer]
    cases hstep : step cr lf eol c with
    | put eol' =>
      have ih := readBuffer_spec rest (str ++ [c]) eol' (h.put hstep)
      rw [List.append_assoc, List.singleton_append] at ih
      exact ih
    | stop => exact ⟨rfl, h.hasEol (ne_none_of_stop hstep)⟩
    | twoMac =>
      obtain rfl := eq_mac2_of_twoMac hstep
      obtain ⟨text, rfl⟩ := h
      have hdrop : (text ++ [cr, cr]).dropLast = text ++ [cr] := by simp
      refine ⟨?_, text, cr, hdrop, .inl rfl⟩
      simp [hdrop]

variable (cr lf) in
/-- What `GetString` promises: the line and what is pending behind it are what was pending. -/
structure Delivers (before : List α) (line : List α) (context : GetFileStringContext α) :
    Prop where
  split : before = line ++ context.pending cr
  shape : LineShape cr lf line
  ended : context.pending cr ≠ [] → HasEol cr lf line
  ne_nil : line ≠ []

theorem readLine_spec : ∀ (srcFile : List (List α)) (readBuf str : List α) (eol : EolType),
    (∀ chunk ∈ srcFile, chunk ≠ []) → Scanned cr lf str eol →
    match readLine cr lf str eol readBuf srcFile with
    | (none, _) => str ++ (readBuf ++ srcFile.flatten) = []
    | (some line, context) =>
        Delivers cr lf (str ++ (readBuf ++ srcFile.flatten)) line context
          ∧ context.Reads := by
  intro srcFile
  induction srcFile with
  | nil =>
    intro readBuf str eol hreads h
    have hpass := readBuffer_spec readBuf str eol h
    rw [readLine]
    generalize readBuffer cr lf str eol readBuf = pass at hpass
    cases pass with
    | line line bCrCr rest =>
      obtain ⟨hsplit, heol⟩ := hpass
      refine ⟨⟨?_, .inl heol, fun _ => heol, heol.ne_nil⟩, hreads⟩
      simpa [GetFileStringContext.pending] using hsplit
    | more str' eol' =>
      obtain ⟨rfl, hscan⟩ := hpass
      by_cases hnil : str ++ readBuf = []
      · simp only [hnil, if_true]
        simpa using hnil
      · simp only [hnil, if_false]
        refine ⟨⟨?_, hscan.lineShape, ?_, hnil⟩, ?_⟩
        · simp [GetFileStringContext.pending]
        · intro hpending
          simp [GetFileStringContext.pending] at hpending
        · intro chunk hchunk
          exact absurd hchunk List.not_mem_nil
  | cons chunk srcFile ih =>
    intro readBuf str eol hreads h
    have hpass := readBuffer_spec readBuf str eol h
    rw [readLine]
    generalize readBuffer cr lf str eol readBuf = pass at hpass
    cases pass with
    | line line bCrCr rest =>
      obtain ⟨hsplit, heol⟩ := hpass
      refine ⟨⟨?_, .inl heol, fun _ => heol, heol.ne_nil⟩, hreads⟩
      rw [← List.append_assoc, hsplit]
      simp [GetFileStringContext.pending]
    | more str' eol' =>
      obtain ⟨rfl, hscan⟩ := hpass
      have hchunk : chunk ≠ [] := hreads chunk (List.mem_cons_self ..)
      simp only [hchunk, if_false]
      have := ih chunk (str ++ readBuf) eol'
        (fun c hc => hreads c (List.mem_cons_of_mem _ hc)) hscan
      rw [List.append_assoc] at this
      simpa using this

variable (cr lf) in
/-- **`GetString` delivers a non-empty line and keeps the rest, or the file is at its end.** -/
theorem getString_spec (context : GetFileStringContext α) (hreads : context.Reads) :
    match getString cr lf context with
    | (none, _) => context.pending cr = []
    | (some line, context') =>
        Delivers cr lf (context.pending cr) line context' ∧ context'.Reads := by
  obtain ⟨srcFile, readBuf, bCrCr⟩ := context
  cases bCrCr with
  | true =>
    have heol : HasEol cr lf [cr] := ⟨[], cr, rfl, .inl rfl⟩
    refine ⟨⟨?_, .inl heol, fun _ => heol, heol.ne_nil⟩, hreads⟩
    simp [GetFileStringContext.pending]
  | false => exact readLine_spec srcFile readBuf [] .none hreads Scanned.nil

/-! ## All lines -/

variable (cr lf) in
/-- Line ends stand at the end of lines, and every line but the last has one. -/
def WellEnded : List (List α) → Prop
  | [] => True
  | [line] => LineShape cr lf line
  | line :: line' :: rest => HasEol cr lf line ∧ WellEnded (line' :: rest)

variable (cr lf) in
theorem readAll_spec : ∀ (fuel : Nat) (context : GetFileStringContext α), context.Reads →
    (context.pending cr).length < fuel →
    (readAll cr lf fuel context).flatten = context.pending cr
      ∧ WellEnded cr lf (readAll cr lf fuel context)
      ∧ ∀ line ∈ readAll cr lf fuel context, line ≠ []
  | 0, _, _, hfuel => absurd hfuel (Nat.not_lt_zero _)
  | fuel + 1, context, hreads, hfuel => by
    have hget := getString_spec cr lf context hreads
    rw [readAll]
    generalize getString cr lf context = got at hget
    obtain ⟨_ | line, context'⟩ := got
    · exact ⟨hget.symm, trivial, fun line hline => absurd hline List.not_mem_nil⟩
    · obtain ⟨hline, hreads'⟩ := hget
      have hlen : (context'.pending cr).length < fuel := by
        have hsplit := congrArg List.length hline.split
        have hpos := List.length_pos_iff.mpr hline.ne_nil
        rw [List.length_append] at hsplit
        omega
      obtain ⟨hflat, hended, hne⟩ := readAll_spec fuel context' hreads' hlen
      show (line :: readAll cr lf fuel context').flatten = _
        ∧ WellEnded cr lf (line :: readAll cr lf fuel context')
        ∧ ∀ line' ∈ line :: readAll cr lf fuel context', line' ≠ []
      refine ⟨by rw [List.flatten_cons, hflat, hline.split], ?_,
        List.forall_mem_cons.mpr ⟨hline.ne_nil, hne⟩⟩
      generalize readAll cr lf fuel context' = rest at hflat hended hne
      cases rest with
      | nil => exact hline.shape
      | cons line' rest =>
        refine ⟨hline.ended ?_, hended⟩
        rw [← hflat, List.flatten_cons]
        exact List.append_ne_nil_of_left_ne_nil (hne line' (List.mem_cons_self ..)) _

variable (cr lf) in
/-- **The lines of a file are the file**, however it is read. -/
theorem fileLines_spec (srcFile : List (List α)) (hreads : ∀ chunk ∈ srcFile, chunk ≠ []) :
    (fileLines cr lf srcFile).flatten = srcFile.flatten
      ∧ WellEnded cr lf (fileLines cr lf srcFile) := by
  have hpending : (openFile srcFile).pending cr = srcFile.flatten := rfl
  obtain ⟨hflat, hended, -⟩ := readAll_spec cr lf (srcFile.flatten.length + 1)
    (openFile srcFile) hreads (by rw [hpending]; exact Nat.lt_succ_self _)
  exact ⟨hflat.trans hpending, hended⟩

end Far2l.FileStr
