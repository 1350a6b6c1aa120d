/-
Far2l.File.LineSplitTheorems — which lines `GetString` finds (`TypedStringReader` of
`far/src/filestr.cpp`).

The lines are those of a grammar over the whole file, however its reads are cut, but
for one place: two `\r` at the end of the file stay one line, while `\r\r` in front of
anything but `\n` is two line ends. Runs of `\r` are taken two by two, so the place is
reached when an even number of `\r` stands at the end.
-/
import Far2l.File.LoadSave

namespace Far2l.FileStr

variable {α : Type} [DecidableEq α]

/-! ## The grammar -/

/-- A character in front of the first line. -/
def inFront (c : α) : List (List α) → List (List α)
  | [] => [[c]]
  | line :: lines => (c :: line) :: lines

variable (cr lf : α)

/-- The lines of a text. A line goes up to `\r\r\n`, `\r\n`, `\n` or `\r` with it; `\r\r`
in front of another character are two line ends. `two` are the lines of `\r\r` at the
end of the text. -/
def linesWith (two : List (List α)) : List α → List (List α)
  | [] => []
  | [c] => [[c]]
  | [c, d] =>
      if c = cr ∧ d = cr then two
      else if c = cr ∧ d = lf then [[c, d]]
      else if c = cr ∨ c = lf then [[c], [d]]
      else [[c, d]]
  | c :: d :: e :: rest =>
      if c = cr ∧ d = cr then
        if e = lf then [c, d, e] :: linesWith two rest else [c] :: [d] :: linesWith two (e :: rest)
      else if c = cr ∧ d = lf then [c, d] :: linesWith two (e :: rest)
      else if c = cr ∨ c = lf then [c] :: linesWith two (d :: e :: rest)
      else inFront c (linesWith two (d :: e :: rest))

/-- The lines as they are meant: also at the end of the text `\r\r` is two line ends. -/
def grammarLines : List α → List (List α) := linesWith cr lf [[cr], [cr]]

/-- The number of `\r` at the end of a text. -/
def endCr (s : List α) : Nat := (s.reverse.takeWhile (· = cr)).length

variable {cr lf}

section Equations

variable {two : List (List α)}

theorem linesWith_text {c : α} (hcr : c ≠ cr) (hlf : c ≠ lf) (rest : List α) :
    linesWith cr lf two (c :: rest) = inFront c (linesWith cr lf two rest) := by
  have hend : ¬ (c = cr ∨ c = lf) := not_or.mpr ⟨hcr, hlf⟩
  have htwo : ∀ d, ¬ (c = cr ∧ d) := fun d h => hcr h.1
  match rest with
  | [] => rfl
  | [d] => exact (if_neg (htwo _)).trans ((if_neg (htwo _)).trans (if_neg hend))
  | d :: e :: rest => exact (if_neg (htwo _)).trans ((if_neg (htwo _)).trans (if_neg hend))

/-- A line end of one character. -/
theorem linesWith_end {c : α} (hend : c = cr ∨ c = lf) {rest : List α}
    (h : c = cr → rest.head? ≠ some cr ∧ rest.head? ≠ some lf) :
    linesWith cr lf two (c :: rest) = [c] :: linesWith cr lf two rest := by
  match rest with
  | [] => rfl
  | [d] =>
    refine (if_neg fun hcr => ?_).trans ((if_neg fun hlf => ?_).trans (if_pos hend))
    · exact (h hcr.1).1 (congrArg some hcr.2)
    · exact (h hlf.1).2 (congrArg some hlf.2)
  | d :: e :: rest =>
    refine (if_neg fun hcr => ?_).trans ((if_neg fun hlf => ?_).trans (if_pos hend))
    · exact (h hcr.1).1 (congrArg some hcr.2)
    · exact (h hlf.1).2 (congrArg some hlf.2)

theorem linesWith_lf (hne : cr ≠ lf) (rest : List α) :
    linesWith cr lf two (lf :: rest) = [lf] :: linesWith cr lf two rest :=
  linesWith_end (.inr rfl) fun h => absurd h.symm hne

theorem linesWith_crlf (hne : cr ≠ lf) (rest : List α) :
    linesWith cr lf two (cr :: lf :: rest) = [cr, lf] :: linesWith cr lf two rest := by
  have htwo : ¬ (cr = cr ∧ lf = cr) := fun h => hne h.2.symm
  match rest with
  | [] => exact (if_neg htwo).trans (if_pos ⟨rfl, rfl⟩)
  | e :: rest => exact (if_neg htwo).trans (if_pos ⟨rfl, rfl⟩)

theorem linesWith_crcr_end : linesWith cr lf two [cr, cr] = two := if_pos ⟨rfl, rfl⟩

theorem linesWith_crcrlf (rest : List α) :
    linesWith cr lf two (cr :: cr :: lf :: rest) = [cr, cr, lf] :: linesWith cr lf two rest :=
  (if_pos ⟨rfl, rfl⟩).trans (if_pos rfl)

theorem linesWith_crcr {e : α} (he : e ≠ lf) (rest : List α) :
    linesWith cr lf two (cr :: cr :: e :: rest) = [cr] :: [cr] :: linesWith cr lf two (e :: rest) :=
  (if_pos ⟨rfl, rfl⟩).trans (if_neg he)

end Equations

/-! ## One line -/

/-- A text in front of the first line. -/
def inFrontOf (str : List α) (lines : List (List α)) : List (List α) := str.foldr inFront lines

omit [DecidableEq α] in
theorem inFrontOf_snoc (str : List α) (c : α) (lines : List (List α)) :
    inFrontOf (str ++ [c]) lines = inFrontOf str (inFront c lines) := by
  rw [inFrontOf, List.foldr_append]
  rfl

omit [DecidableEq α] in
theorem inFrontOf_cons (str line : List α) (lines : List (List α)) :
    inFrontOf str (line :: lines) = (str ++ line) :: lines := by
  induction str with
  | nil => rfl
  | cons c str ih =>
    rw [inFrontOf, List.foldr_cons]
    exact congrArg (inFront c) ih

omit [DecidableEq α] in
theorem inFrontOf_nil (str : List α) : inFrontOf str [] = if str = [] then [] else [str] := by
  induction str with
  | nil => rfl
  | cons c str ih =>
    rw [inFrontOf, List.foldr_cons]
    refine (congrArg (inFront c) ih).trans ?_
    rw [if_neg (List.cons_ne_nil c str)]
    split
    · next h => rw [h]; rfl
    · rfl

/-- The lines of a pass: the line it leaves, the `\r` that is a line of its own, and the
lines of the rest. -/
def passLines (cr lf : α) (two : List (List α)) : Pass α → List (List α)
  | .more str _ => if str = [] then [] else [str]
  | .line str bCrCr rest => str :: ((if bCrCr then [[cr]] else []) ++ linesWith cr lf two rest)

theorem readBuffer_put {str : List α} {eol eol' : EolType} {c : α} (h : step cr lf eol c = .put eol') (rest : List α) :
    readBuffer cr lf str eol (c :: rest) = readBuffer cr lf (str ++ [c]) eol' rest := by
  rw [readBuffer, h]

theorem readBuffer_stop {str : List α} {eol : EolType} {c : α} (h : step cr lf eol c = .stop) (rest : List α) :
    readBuffer cr lf str eol (c :: rest) = .line str false (c :: rest) := by
  rw [readBuffer, h]

/-- Behind a complete line end the line is over. -/
theorem passLines_complete {eol : EolType} (heol : ∀ c, step cr lf eol c = .stop) {str : List α} (hstr : str ≠ [])
    (two : List (List α)) (rest : List α) :
    passLines cr lf two (readBuffer cr lf str eol rest) = str :: linesWith cr lf two rest := by
  cases rest with
  | nil => exact if_neg hstr
  | cons c rest => rw [readBuffer_stop (heol c)]; rfl

/-- What one line of the file is, and what is left behind it. -/
theorem passLines_readBuffer (hne : cr ≠ lf) : ∀ (s str : List α),
    passLines cr lf [[cr, cr]] (readBuffer cr lf str .none s) = inFrontOf str (linesWith cr lf [[cr, cr]] s)
  | [], str => (inFrontOf_nil str).symm
  | c :: s, str => by
    have hlonger : ∀ l : List α, l ≠ [] → str ++ l ≠ [] := fun l hl => List.append_ne_nil_of_right_ne_nil _ hl
    have hsnoc : ∀ c : α, str ++ [c] ≠ [] := fun c => hlonger [c] (List.cons_ne_nil _ _)
    by_cases hlf : c = lf
    · subst hlf
      have hstep : step cr c .none c = .put .unix := congrArg Step.put (if_pos rfl)
      rw [readBuffer_put hstep, passLines_complete (fun _ => rfl) (hsnoc c), linesWith_lf hne, inFrontOf_cons]
    · by_cases hcr : c = cr
      · subst hcr
        have hstep : step c lf .none c = .put .mac := congrArg Step.put ((if_neg hlf).trans (if_pos rfl))
        rw [readBuffer_put hstep]
        match s with
        | [] =>
          show (if str ++ [c] = [] then [] else [str ++ [c]]) = inFrontOf str [[c]]
          rw [if_neg (hsnoc c), inFrontOf_cons]
        | d :: s =>
          by_cases hdlf : d = lf
          · subst hdlf
            have hstep : step c d .mac d = .put .windows := if_pos rfl
            have hdone := @passLines_complete α _ c d .windows (fun _ => rfl) (str ++ [c, d])
              (hlonger [c, d] (List.cons_ne_nil _ _)) [[c, c]] s
            rw [readBuffer_put hstep, List.append_assoc, linesWith_crlf hne, inFrontOf_cons]
            exact hdone
          · by_cases hdcr : d = c
            · subst hdcr
              have hstep : step d lf .mac d = .put .mac2 := (if_neg hdlf).trans (if_pos rfl)
              rw [readBuffer_put hstep, List.append_assoc, List.singleton_append]
              match s with
              | [] =>
                show (if str ++ [d, d] = [] then [] else [str ++ [d, d]]) = inFrontOf str (linesWith d lf [[d, d]] [d, d])
                rw [if_neg (hlonger [d, d] (List.cons_ne_nil _ _)), linesWith_crcr_end, inFrontOf_cons]
              | e :: s =>
                by_cases helf : e = lf
                · subst helf
                  have hstep : step d e .mac2 e = .put .notepad := if_pos rfl
                  have hdone := @passLines_complete α _ d e .notepad (fun _ => rfl) (str ++ [d, d, e])
                    (hlonger [d, d, e] (List.cons_ne_nil _ _)) [[d, d]] s
                  rw [readBuffer_put hstep, List.append_assoc, linesWith_crcrlf, inFrontOf_cons]
                  exact hdone
                · have hstep : step d lf .mac2 e = .twoMac := if_neg helf
                  have hdrop : (str ++ [d, d]).dropLast = str ++ [d] := by simp
                  rw [readBuffer, hstep, linesWith_crcr helf, inFrontOf_cons, ← hdrop]
                  rfl
            · have hstep : step c lf .mac d = .stop := (if_neg hdlf).trans (if_neg hdcr)
              rw [readBuffer_stop hstep, linesWith_end (.inl rfl), inFrontOf_cons]
              · rfl
              · exact fun _ => ⟨fun h => hdcr (Option.some.inj h), fun h => hdlf (Option.some.inj h)⟩
      · have hstep : step cr lf .none c = .put .none := congrArg Step.put ((if_neg hlf).trans (if_neg hcr))
        rw [readBuffer_put hstep, passLines_readBuffer hne s, linesWith_text hcr hlf, inFrontOf_snoc]

/-! ## All lines, however the reads are cut -/

/-- A pass over a text is a pass over its first part, and over the rest if the line goes on. -/
theorem readBuffer_append (b : List α) : ∀ (a str : List α) (eol : EolType),
    readBuffer cr lf str eol (a ++ b) =
      match readBuffer cr lf str eol a with
      | .more str' eol' => readBuffer cr lf str' eol' b
      | .line line bCrCr rest => .line line bCrCr (rest ++ b)
  | [], str, eol => rfl
  | c :: a, str, eol => by
    rw [List.cons_append, readBuffer, readBuffer]
    cases step cr lf eol c with
    | put eol' => exact readBuffer_append b a (str ++ [c]) eol'
    | stop => rfl
    | twoMac => rfl

/-- The characters that are not delivered yet, but for the `\r` that is a line of its own. -/
def GetFileStringContext.unread (context : GetFileStringContext α) : List α :=
  context.readBuf ++ context.srcFile.flatten

variable (cr lf) in
/-- The lines that are still to come. -/
def GetFileStringContext.lines (context : GetFileStringContext α) : List (List α) :=
  (if context.bCrCr then [[cr]] else []) ++ linesWith cr lf [[cr, cr]] context.unread

variable (cr lf) in
/-- One call of `GetString`, seen from the lines that come: the first of them, or none. -/
def Takes (lines : List (List α)) : Option (List α) × GetFileStringContext α → Prop
  | (none, _) => lines = []
  | (some line, context) => lines = line :: context.lines cr lf

/-- The loop of `GetString` does what a single pass over all the characters does. -/
theorem readLine_takes : ∀ (srcFile : List (List α)) (readBuf str : List α) (eol : EolType),
    (∀ chunk ∈ srcFile, chunk ≠ []) →
      Takes cr lf (passLines cr lf [[cr, cr]] (readBuffer cr lf str eol (readBuf ++ srcFile.flatten)))
        (readLine cr lf str eol readBuf srcFile) := by
  intro srcFile
  induction srcFile with
  | nil =>
    intro readBuf str eol _
    rw [readLine, List.flatten_nil, List.append_nil]
    cases readBuffer cr lf str eol readBuf with
    | line line bCrCr rest =>
      show _ :: _ = line :: GetFileStringContext.lines cr lf _
      rw [GetFileStringContext.lines, GetFileStringContext.unread, List.flatten_nil, List.append_nil]
    | more str' eol' =>
      by_cases hnil : str' = []
      · rw [passLines, if_pos hnil]
        dsimp only
        rw [if_pos hnil]
        rfl
      · rw [passLines, if_neg hnil]
        dsimp only
        rw [if_neg hnil]
        rfl
  | cons chunk srcFile ih =>
    intro readBuf str eol hreads
    obtain ⟨hchunk, hreads⟩ := List.forall_mem_cons.mp hreads
    rw [readLine, readBuffer_append]
    cases readBuffer cr lf str eol readBuf with
    | line line bCrCr rest => rfl
    | more str' eol' =>
      dsimp only
      rw [if_neg hchunk, List.flatten_cons]
      exact ih chunk str' eol' hreads

theorem getString_takes (hne : cr ≠ lf) (context : GetFileStringContext α) (hreads : context.Reads) :
    Takes cr lf (context.lines cr lf) (getString cr lf context) := by
  obtain ⟨srcFile, readBuf, bCrCr⟩ := context
  cases bCrCr with
  | true => rfl
  | false =>
    have h := @readLine_takes α _ cr lf srcFile readBuf [] .none hreads
    rw [passLines_readBuffer hne] at h
    exact h

/-- The lines that are read are the lines that are to come. -/
theorem readAll_lines (hne : cr ≠ lf) : ∀ (fuel : Nat) (context : GetFileStringContext α), context.Reads →
    (context.pending cr).length < fuel → readAll cr lf fuel context = context.lines cr lf
  | 0, _, _, hfuel => absurd hfuel (Nat.not_lt_zero _)
  | fuel + 1, context, hreads, hfuel => by
    have htakes := getString_takes hne context hreads
    have hspec := getString_spec cr lf context hreads
    rw [readAll]
    generalize getString cr lf context = got at htakes hspec
    obtain ⟨_ | line, context'⟩ := got
    · exact htakes.symm
    · obtain ⟨hline, hreads'⟩ := hspec
      have hlen : (context'.pending cr).length < fuel := by
        have hsplit := congrArg List.length hline.split
        have hpos := List.length_pos_iff.mpr hline.ne_nil
        rw [List.length_append] at hsplit
        omega
      have hlines : context.lines cr lf = line :: context'.lines cr lf := htakes
      rw [hlines, ← readAll_lines hne fuel context' hreads' hlen]

/-- **The lines of a file only depend on its characters.** -/
theorem fileLines_eq (hne : cr ≠ lf) (srcFile : List (List α)) (hreads : ∀ chunk ∈ srcFile, chunk ≠ []) :
    fileLines cr lf srcFile = linesWith cr lf [[cr, cr]] srcFile.flatten := by
  have hpending : (openFile srcFile).pending cr = srcFile.flatten := rfl
  exact readAll_lines hne _ (openFile srcFile) hreads (by rw [hpending]; exact Nat.lt_succ_self _)

/-! ## The one place -/

/-- The `\r` at the end, with a character in front. -/
theorem endCr_cons (c : α) (s : List α) :
    endCr cr (c :: s) = if c = cr ∧ endCr cr s = s.length then endCr cr s + 1 else endCr cr s := by
  rw [endCr, endCr, List.reverse_cons, List.takeWhile_append, List.length_reverse]
  by_cases hall : ((s.reverse.takeWhile (· = cr)).length = s.length)
  · rw [if_pos hall]
    by_cases hc : c = cr
    · rw [if_pos ⟨hc, hall⟩, List.takeWhile_cons_of_pos (by rwa [decide_eq_true_iff]), List.length_append, hall,
        List.length_reverse]
      rfl
    · rw [if_neg fun h => hc h.1, List.takeWhile_cons_of_neg (by rwa [decide_eq_true_iff]), List.append_nil, hall,
        List.length_reverse]
  · rw [if_neg hall, if_neg fun h => hall h.2]

theorem endCr_of_ne {c : α} (hc : c ≠ cr) (s : List α) : endCr cr (c :: s) = endCr cr s := by
  rw [endCr_cons, if_neg fun h => hc h.1]

theorem endCr_le (s : List α) : endCr cr s ≤ s.length := by
  have h := (List.takeWhile_prefix (p := fun c => decide (c = cr)) (l := s.reverse)).length_le
  rwa [List.length_reverse] at h

/-- An even number of `\r`, and not none, stands at the end of the text. -/
def EndsInPair (cr : α) (s : List α) : Prop := 0 < endCr cr s ∧ endCr cr s % 2 = 0

/-- Two `\r` in front change nothing, unless they are all. -/
theorem endsInPair_crcr {s : List α} (hs : s ≠ []) : EndsInPair cr (cr :: cr :: s) ↔ EndsInPair cr s := by
  have hlen := List.length_pos_iff.mpr hs
  unfold EndsInPair
  by_cases hall : endCr cr s = s.length
  · have hone : endCr cr (cr :: s) = (cr :: s).length := by
      rw [endCr_cons, if_pos ⟨rfl, hall⟩, hall, List.length_cons]
    rw [endCr_cons, if_pos ⟨rfl, hone⟩, hone, hall, List.length_cons]
    omega
  · have hle : endCr cr s ≤ s.length := endCr_le s
    have hone : endCr cr (cr :: s) = endCr cr s := by
      rw [endCr_cons, if_neg fun h => hall h.2]
    have hfew : ¬ endCr cr s = (cr :: s).length := by
      rw [List.length_cons]
      omega
    rw [endCr_cons, hone, if_neg fun h => hfew h.2]

theorem endsInPair_of_ne {c : α} (hc : c ≠ cr) (s : List α) : EndsInPair cr (c :: s) ↔ EndsInPair cr s := by
  unfold EndsInPair
  rw [endCr_of_ne hc]

omit [DecidableEq α] in
theorem length_inFront (c : α) {lines : List (List α)} (h : lines ≠ []) : (inFront c lines).length = lines.length := by
  obtain ⟨line, rest, rfl⟩ := List.exists_cons_of_ne_nil h
  rfl

omit [DecidableEq α] in
theorem inFront_ne_nil (c : α) (lines : List (List α)) : inFront c lines ≠ [] := by
  cases lines with
  | nil => exact List.cons_ne_nil _ _
  | cons line lines => exact List.cons_ne_nil _ _

theorem linesWith_ne_nil {two : List (List α)} (htwo : two ≠ []) : ∀ {s : List α}, s ≠ [] → linesWith cr lf two s ≠ []
  | [], h => absurd rfl h
  | [c], _ => List.cons_ne_nil _ _
  | [c, d], _ => by
    rw [linesWith]
    split
    · exact htwo
    · split
      · exact List.cons_ne_nil _ _
      · split
        · exact List.cons_ne_nil _ _
        · exact List.cons_ne_nil _ _
  | c :: d :: e :: rest, _ => by
    rw [linesWith]
    split
    · split
      · exact List.cons_ne_nil _ _
      · exact List.cons_ne_nil _ _
    · split
      · exact List.cons_ne_nil _ _
      · split
        · exact List.cons_ne_nil _ _
        · exact inFront_ne_nil _ _

variable (cr lf) in
/-- How the two ways to split a text compare: one more line where two `\r` are left at the
end, the same lines elsewhere. -/
def OneMore (s : List α) : Prop :=
  (EndsInPair cr s → (grammarLines cr lf s).length = (linesWith cr lf [[cr, cr]] s).length + 1) ∧
    (¬ EndsInPair cr s → grammarLines cr lf s = linesWith cr lf [[cr, cr]] s)

/-- Lines in front change nothing in the comparison. -/
theorem OneMore.front {s rest : List α} (front : List (List α)) (h : OneMore cr lf rest)
    (hends : EndsInPair cr s ↔ EndsInPair cr rest)
    (hlines : ∀ two, linesWith cr lf two s = front ++ linesWith cr lf two rest) : OneMore cr lf s := by
  refine ⟨fun hpair => ?_, fun hpair => ?_⟩
  · have hlen := h.1 (hends.mp hpair)
    rw [grammarLines] at hlen
    rw [grammarLines, hlines, hlines, List.length_append, List.length_append, hlen, Nat.add_assoc]
  · have heq := h.2 (mt hends.mpr hpair)
    rw [grammarLines] at heq
    rw [grammarLines, hlines, hlines, heq]

theorem not_endsInPair_single (c : α) : ¬ EndsInPair cr [c] := by
  rintro ⟨hpos, heven⟩
  have hle : endCr cr [c] ≤ [c].length := endCr_le [c]
  rw [List.length_singleton] at hle
  omega

theorem endsInPair_two : EndsInPair cr [cr, cr] := by
  have hnone : endCr cr ([] : List α) = 0 := rfl
  have hone : endCr cr [cr] = 1 := by rw [endCr_cons, hnone]; exact if_pos ⟨rfl, rfl⟩
  have htwo : endCr cr [cr, cr] = 2 := by rw [endCr_cons, hone]; exact if_pos ⟨rfl, rfl⟩
  unfold EndsInPair
  rw [htwo]
  decide

/-- A single `\r` in front of another character changes nothing. -/
theorem endsInPair_cr {d : α} (hd : d ≠ cr) (rest : List α) :
    EndsInPair cr (cr :: d :: rest) ↔ EndsInPair cr (d :: rest) := by
  have hle : endCr cr rest ≤ rest.length := endCr_le rest
  have hfew : ¬ endCr cr (d :: rest) = (d :: rest).length := by
    rw [endCr_of_ne hd, List.length_cons]
    omega
  unfold EndsInPair
  rw [endCr_cons cr, if_neg fun h => hfew h.2]

theorem oneMore (hne : cr ≠ lf) : ∀ s : List α, OneMore cr lf s
  | [] => ⟨fun h => absurd h.1 (Nat.lt_irrefl 0), fun _ => rfl⟩
  | [c] => ⟨fun h => absurd h (not_endsInPair_single c), fun _ => rfl⟩
  | c :: d :: rest => by
    have ihtail := oneMore hne (d :: rest)
    by_cases hlf : c = lf
    · rw [hlf]
      exact ihtail.front [[lf]] (endsInPair_of_ne hne.symm _) fun two => linesWith_lf hne _
    · by_cases hcr : c = cr
      · rw [hcr]
        by_cases hdcr : d = cr
        · rw [hdcr]
          match rest with
          | [] =>
            refine ⟨fun _ => ?_, fun h => absurd endsInPair_two h⟩
            rw [grammarLines, linesWith_crcr_end, linesWith_crcr_end]
            rfl
          | e :: rest =>
            have hends : EndsInPair cr (cr :: cr :: e :: rest) ↔ EndsInPair cr (e :: rest) :=
              endsInPair_crcr (List.cons_ne_nil e rest)
            by_cases helf : e = lf
            · have ih := oneMore hne rest
              rw [helf] at hends ⊢
              exact ih.front [[cr, cr, lf]] (hends.trans (endsInPair_of_ne hne.symm rest)) fun two => linesWith_crcrlf rest
            · exact (oneMore hne (e :: rest)).front [[cr], [cr]] hends fun two => linesWith_crcr helf rest
        · have hends := endsInPair_cr hdcr rest
          by_cases hdlf : d = lf
          · have ih := oneMore hne rest
            rw [hdlf] at hends ⊢
            exact ih.front [[cr, lf]] (hends.trans (endsInPair_of_ne hne.symm rest)) fun two => linesWith_crlf hne rest
          · refine ihtail.front [[cr]] hends fun two => linesWith_end (.inl rfl) fun _ => ?_
            exact ⟨fun h => hdcr (Option.some.inj h), fun h => hdlf (Option.some.inj h)⟩
      · have hends := endsInPair_of_ne hcr (d :: rest)
        have htail : d :: rest ≠ [] := List.cons_ne_nil _ _
        refine ⟨fun hpair => ?_, fun hpair => ?_⟩
        · have hlen := ihtail.1 (hends.mp hpair)
          rw [grammarLines] at hlen
          rw [grammarLines, linesWith_text hcr hlf, linesWith_text hcr hlf,
            length_inFront c (linesWith_ne_nil (List.cons_ne_nil _ _) htail),
            length_inFront c (linesWith_ne_nil (List.cons_ne_nil _ _) htail), hlen]
        · have heq := ihtail.2 (mt hends.mpr hpair)
          rw [grammarLines] at heq
          rw [grammarLines, linesWith_text hcr hlf, linesWith_text hcr hlf, heq]

/-! ## The 8-bit reader -/

open Far2l.File (crByte lfByte)

/-- What the lines of a file are meant to be. -/
structure SplitRight (srcFile : List (List Byte)) : Prop where
  concat : (fileLines crByte lfByte srcFile).flatten = srcFile.flatten
  lines : fileLines crByte lfByte srcFile = grammarLines crByte lfByte srcFile.flatten

/-- **However a file is read, the lines put together are the file, and they are the lines
of the grammar exactly when the number of `\r` at its end is zero or odd.** -/
theorem splitRight_iff (srcFile : List (List Byte)) (hreads : ∀ chunk ∈ srcFile, chunk ≠ []) :
    SplitRight srcFile ↔ ¬ EndsInPair crByte srcFile.flatten := by
  have hne : crByte ≠ lfByte := by decide
  have hcode := fileLines_eq hne srcFile hreads
  have hmore := oneMore hne srcFile.flatten
  constructor
  · intro h hpair
    have hlen := hmore.1 hpair
    rw [← hcode, h.lines] at hlen
    omega
  · intro hpair
    exact ⟨(fileLines_spec crByte lfByte srcFile hreads).1, hcode.trans (hmore.2 hpair).symm⟩

/-- `a\r\r\n` in two reads, and `b`. -/
theorem splitRight_notepad :
    SplitRight [[0x61, crByte, crByte], [lfByte, 0x62]] ↔
      ¬ EndsInPair crByte [[0x61, crByte, crByte], [lfByte, 0x62]].flatten :=
  splitRight_iff [[0x61, crByte, crByte], [lfByte, 0x62]] (by decide)

/-- Two `\r` at the end of the file are one line. -/
theorem two_cr_at_end :
    fileLines crByte lfByte [[0x61, crByte, crByte]] = [[0x61, crByte, crByte]] ∧
      grammarLines crByte lfByte [0x61, crByte, crByte] = [[0x61, crByte], [crByte]] ∧
      ¬ ∀ srcFile : List (List Byte), (∀ chunk ∈ srcFile, chunk ≠ []) → SplitRight srcFile := by
  refine ⟨by decide, by decide, fun h => ?_⟩
  exact absurd (h [[0x61, crByte, crByte]] (by decide)).lines (by decide)

end Far2l.FileStr
