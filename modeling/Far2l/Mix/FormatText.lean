/-
Far2l.Mix.FormatText — `FarFormatText` of `far/src/mix/strmix.cpp`: a text is broken
into lines of a width.

The width is at least 1; it is `w + 1` here. The break is not empty; it is `b :: bs`.
A result is `none` where the function reads behind the NUL of its text, or writes
behind what it has allocated. That memory cannot be had is not modelled.
-/
import Far2l.Utils.Chars
import Far2l.Lib.While
import Mathlib.Data.List.TakeWhile

namespace Far2l

namespace FormatText

/-! ## Looking for a space -/

/-- `text[k]`, the NUL included. -/
def read (text : WStr) (k : Nat) : Option WChar := if k = text.length then some 0 else text[k]?

/-- `while (l >= 0)`: the last space from `text[i]` to `text[i+l]`, for `l + 1`. -/
def backwards (text : WStr) (i : Nat) : Nat → Option (Option Nat)
  | 0 => some none
  | l + 1 =>
      match read text (i + l) with
      | none => none
      | some c => if c = SPACE then some (some l) else backwards text i l

/-- `while (l <= pgr)`: the first place from `text[i+l]` on that passes the test, among so many. -/
def forwards (text : WStr) (i : Nat) (test : Nat → WChar → Bool) : (places : Nat) → (l : Nat) → Option (Option Nat)
  | 0, _ => some none
  | places + 1, l =>
      match read text (i + l) with
      | none => none
      | some c => if test l c then some (some l) else forwards text i test places (l + 1)

/-- What `while (text[i] != L'\0')` reads. -/
def readable (text : WStr) (i : Nat) : Bool := i ≤ text.length

/-! ## A break of one character -/

/-- `i` and `newtext`. -/
structure Replacing where
  i : Nat
  newtext : WStr

/-- How far the line goes: up to the break, or to the last character. -/
def scanLine (b : WChar) (text : WStr) : Nat :=
  let n := (text.takeWhile (· ≠ b)).length
  if n = text.length then n - 1 else n

/-- A turn of the loop. -/
def replaceTurn (w : Nat) (b : WChar) (s : Replacing) : Option Replacing :=
  let pgr := scanLine b (s.newtext.drop s.i)
  if w + 1 ≤ pgr then
    match backwards s.newtext s.i (w + 2) with
    | none => none
    | some (some l) => some ⟨s.i + l + 1, s.newtext.set (s.i + l) b⟩
    | some none =>
        match forwards s.newtext s.i (fun _ c => c = SPACE) (pgr - w) (w + 1) with
        | none => none
        | some (some l) => some ⟨s.i + l + 1, s.newtext.set (s.i + l) b⟩
        | some none => some ⟨s.i + (pgr + 1) + 1, s.newtext⟩
  else some ⟨s.i + pgr + 1, s.newtext⟩

/-- `while (newtext[i] != L'\0')`, and a turn. -/
def replaceMore (text : WStr) (s : Replacing) : Bool := s.i < text.length

def replaceStep (w : Nat) (b : WChar) (text : WStr) (s : Replacing) : Option Replacing :=
  (replaceTurn w b s).bind fun s' => if readable text s'.i then some s' else none

/-- The branch for a single-character break. -/
def replaceBreaks (w : Nat) (b : WChar) (text : WStr) : Option WStr :=
  (whileLoop (replaceMore text) (replaceStep w b text) (text.length + 1) ⟨0, text⟩).map Replacing.newtext

/-! ## A break of several characters -/

section

variable (strCmpN : WStr → WStr → Nat → Int) (w : Nat) (b : WChar) (bs : WStr) (docut : Bool) (text : WStr)

/-- `text[i+l] == breakchar[0]` and `StrCmpN`: a break begins here. -/
def isBreak (text : WStr) : Bool :=
  text.head? = some b ∧ (bs = [] ∨ strCmpN text (b :: bs) (bs.length + 1) = 0)

/-- How far the line goes: up to a break, or to the NUL. -/
def scanBreak : WStr → Nat
  | [] => 0
  | c :: text => if isBreak strCmpN b bs (c :: text) then 0 else scanBreak text + 1

/-- `i`, `last`, `l` and `newtext`. -/
structure Breaking where
  i : Nat
  last : Nat
  l : Nat
  newtext : WStr

/-- What is appended fits into `newtext`. -/
def put (newtext : WStr) : Option WStr :=
  if newtext.length < text.length * ((b :: bs).length + 1) + 1 then some newtext else none

/-- `wcsncat(newtext, text+last, n)`, `wcscat(newtext, breakchar)`, `last = i + l + 1` and `i += l+1`. -/
def breakLine (s : Breaking) (l n : Nat) : Option Breaking :=
  (put b bs text (s.newtext ++ (text.drop s.last).take n ++ b :: bs)).map fun newtext =>
    ⟨s.i + l + 1, s.i + l + 1, l, newtext⟩

/-- A turn of the loop. -/
def breakTurn (s : Breaking) : Option Breaking :=
  let pgr := scanBreak strCmpN b bs (text.drop s.i)
  if w + 1 ≤ pgr then
    match backwards text s.i (w + 2) with
    | none => none
    | some (some l) => breakLine b bs text s l (s.i + l - s.last)
    | some none =>
        match forwards text s.i (fun l c => c = SPACE ∨ (docut = true ∧ s.i < l + s.last)) (pgr + 1 - w) w with
        | none => none
        | some (some l) => breakLine b bs text s l (s.i + l - s.last + if docut then 1 else 0)
        | some none => some ⟨s.i + (pgr + 1) + 1, s.last, pgr + 1, s.newtext⟩
  else some ⟨s.i + if pgr = 0 then 1 else pgr, s.last, pgr, s.newtext⟩

/-- `if (i+l > last) wcscat(newtext, text+last)`. -/
def appendRest (s : Breaking) : Option WStr :=
  if s.last < s.i + s.l then put b bs text (s.newtext ++ text.drop s.last) else some s.newtext

/-- `while (text[i] != L'\0')`, and a turn. -/
def breakMore (s : Breaking) : Bool := s.i < text.length

def breakStep (s : Breaking) : Option Breaking :=
  (breakTurn strCmpN w b bs docut text s).bind fun s' => if readable text s'.i then some s' else none

/-- The branch for the other breaks. -/
def insertBreaks : Option WStr :=
  (whileLoop (breakMore text) (breakStep strCmpN w b bs docut text) (text.length + 1) ⟨0, 0, 0, []⟩).bind
    (appendRest b bs text)

/-- The text has no character of the break, and is not longer than the width. -/
def Short : Prop := (∀ c ∈ text, c ∉ b :: bs) ∧ text.length ≤ w + 1

instance : Decidable (Short w b bs text) :=
  have : Decidable (∀ c ∈ text, c ∉ b :: bs) := List.decidableBAll _ _
  inferInstanceAs (Decidable (_ ∧ _))

/-- `FarFormatText`. -/
def farFormatText : Option WStr :=
  if text = [] then some []
  else if Short w b bs text then some text
  else if bs = [] ∧ docut = false then replaceBreaks w b text
  else insertBreaks strCmpN w b bs docut text

end

end FormatText

end Far2l

/-! # When `FarFormatText` stays in its text, and what it

makes of it.

What lies in front of `i` has been wrapped: some of its spaces are breaks now. A turn
that finds no space in a line that is too long puts `i` two places behind the end of
the line; at the end of the text that is behind the NUL. Without `FFTM_BREAKLONGWORD`
nothing else goes wrong. With it a line is cut in time when little of the text has been
left in front of `i`. -/

namespace Far2l

namespace FormatText

/-! ## What the result is to be -/

/-- Some spaces of a text have become breaks; where words are cut, breaks have been put in, too. -/
inductive Wrapped (brk : WStr) (docut : Bool) : WStr → WStr → Prop where
  | nil : Wrapped brk docut [] []
  | keep {text result : WStr} (c : WChar) (h : Wrapped brk docut text result) :
      Wrapped brk docut (text ++ [c]) (result ++ [c])
  | replace {text result : WStr} (h : Wrapped brk docut text result) :
      Wrapped brk docut (text ++ [SPACE]) (result ++ brk)
  | insert {text result : WStr} (hcut : docut = true) (h : Wrapped brk docut text result) :
      Wrapped brk docut text (result ++ brk)

/-- Lines of a width, each with a break behind it. -/
def Closed (brk : WStr) (width : Nat) (text : WStr) : Prop :=
  ∃ lines : List WStr, (∀ line ∈ lines, line.length ≤ width) ∧ text = (lines.map (· ++ brk)).flatten

/-- Lines of a width, with breaks between them. -/
def InLines (brk : WStr) (width : Nat) (text : WStr) : Prop :=
  ∃ closed line, Closed brk width closed ∧ line.length ≤ width ∧ text = closed ++ line

/-- **The text is wrapped**: nothing has been read or written outside, some spaces are breaks now, and where words are
cut no line is too long. -/
def Right (w : Nat) (b : WChar) (bs : WStr) (docut : Bool) (text : WStr) (outcome : Option WStr) : Prop :=
  ∃ result, outcome = some result ∧ Wrapped (b :: bs) docut text result
    ∧ (docut = true → InLines (b :: bs) (w + 1) result)

section

variable {brk : WStr} {docut : Bool} {width : Nat}

theorem Wrapped.append {text result : WStr} (h : Wrapped brk docut text result) (rest : WStr) :
    Wrapped brk docut (text ++ rest) (result ++ rest) := by
  induction rest generalizing text result with
  | nil => rwa [List.append_nil, List.append_nil]
  | cons c rest ih =>
    have hnext := ih (h.keep c)
    rwa [List.append_assoc, List.append_assoc] at hnext

theorem Wrapped.refl (text : WStr) : Wrapped brk docut text text := Wrapped.nil.append text

theorem Closed.nil : Closed brk width [] := ⟨[], nofun, rfl⟩

theorem Closed.append {c c' : WStr} (h : Closed brk width c) (h' : Closed brk width c') :
    Closed brk width (c ++ c') := by
  obtain ⟨lines, hlines, rfl⟩ := h
  obtain ⟨lines', hlines', rfl⟩ := h'
  refine ⟨lines ++ lines', fun line hline => ?_, by rw [List.map_append, List.flatten_append]⟩
  exact (List.mem_append.mp hline).elim (hlines line) (hlines' line)

theorem Closed.line {line : WStr} (h : line.length ≤ width) : Closed brk width (line ++ brk) :=
  ⟨[line], fun _ hmem => List.mem_singleton.mp hmem ▸ h, by simp⟩

end

/-! ## Looking for a space -/

variable {w : Nat} {b : WChar} {text : WStr} {i : Nat}

theorem read_some (text : WStr) {k : Nat} (h : k ≤ text.length) : ∃ c, read text k = some c ∧ (c = SPACE ↔ text[k]? = some SPACE) := by
  rw [read]
  rcases Nat.lt_or_eq_of_le h with hlt | rfl
  · rw [if_neg (Nat.ne_of_lt hlt), List.getElem?_eq_getElem hlt]
    exact ⟨_, rfl, Option.some_inj.symm⟩
  · rw [if_pos rfl, List.getElem?_eq_none (Nat.le_refl _)]
    exact ⟨0, rfl, iff_of_false (by decide) nofun⟩

/-- The last space is found, or there is none. -/
theorem backwards_spec (text : WStr) {i n : Nat} (h : i + n ≤ text.length + 1) :
    (∃ l < n, backwards text i n = some (some l) ∧ text[i + l]? = some SPACE)
      ∨ backwards text i n = some none ∧ ∀ l < n, text[i + l]? ≠ some SPACE := by
  induction n with
  | zero => exact .inr ⟨rfl, nofun⟩
  | succ n ih =>
    obtain ⟨c, hread, hspace⟩ := read_some text (k := i + n) (by omega)
    rw [backwards, hread]
    dsimp only
    by_cases hc : c = SPACE
    · rw [if_pos hc]
      exact .inl ⟨n, Nat.lt_succ_self n, rfl, hspace.mp hc⟩
    · rw [if_neg hc]
      rcases ih (by omega) with ⟨l, hl, heq, hat⟩ | ⟨heq, hnone⟩
      · exact .inl ⟨l, by omega, heq, hat⟩
      · refine .inr ⟨heq, fun l hl => ?_⟩
        rcases Nat.lt_succ_iff_lt_or_eq.mp hl with hlt | rfl
        · exact hnone l hlt
        · exact mt hspace.mpr hc

/-- The first place that passes the test is found, or there is none. -/
theorem forwards_spec (text : WStr) {i : Nat} (test : Nat → WChar → Bool) (places : Nat) {l : Nat} (h : i + l + places ≤ text.length + 1) :
    (∃ k c, l ≤ k ∧ k < l + places ∧ forwards text i test places l = some (some k) ∧ read text (i + k) = some c
        ∧ test k c = true)
      ∨ forwards text i test places l = some none
        ∧ ∀ k, l ≤ k → k < l + places → ∀ c, read text (i + k) = some c → test k c = false := by
  induction places generalizing l with
  | zero => exact .inr ⟨rfl, fun k hlo hhi => absurd hhi (by omega)⟩
  | succ places ih =>
    obtain ⟨c, hread, -⟩ := read_some text (k := i + l) (by omega)
    rw [forwards, hread]
    dsimp only
    cases htest : test l c with
    | true =>
      rw [if_pos rfl]
      exact .inl ⟨l, c, Nat.le_refl l, by omega, rfl, hread, htest⟩
    | false =>
      rw [if_neg Bool.false_ne_true]
      rcases ih (l := l + 1) (by omega) with ⟨k, c', hlo, hhi, heq, hat, hok⟩ | ⟨heq, hnone⟩
      · exact .inl ⟨k, c', by omega, by omega, heq, hat, hok⟩
      · refine .inr ⟨heq, fun k hlo hhi c' hat => ?_⟩
        rcases Nat.lt_or_eq_of_le hlo with hlt | rfl
        · exact hnone k hlt (by omega) c' hat
        · cases hread.symm.trans hat
          exact htest

/-- A line is too long and has no space. -/
def Stuck (w : Nat) (text : WStr) (i pgr : Nat) : Prop := w + 1 ≤ pgr ∧ ∀ l ≤ pgr, text[i + l]? ≠ some SPACE

/-! ## A break of one character -/

theorem scanLine_lt {s : WStr} (h : s ≠ []) : scanLine b s < s.length := by
  have hpos := List.length_pos_iff.mpr h
  have hle := (List.takeWhile_prefix (fun d => decide (d ≠ b)) (l := s)).length_le
  rw [scanLine]
  split <;> omega

/-- What a turn keeps: behind `i` nothing has been changed, in front of it spaces have been replaced. -/
def ReplaceInv (b : WChar) (text : WStr) (s : Replacing) : Prop :=
  s.i ≤ text.length ∧ ∃ result, result.length = s.i ∧ s.newtext = result ++ text.drop s.i
    ∧ Wrapped [b] false (text.take s.i) result

variable (w b text) in
/-- In a turn the end of the text is overrun. -/
def ReplaceOverruns (s : Replacing) : Prop :=
  Stuck w s.newtext s.i (scanLine b (s.newtext.drop s.i))
    ∧ text.length < s.i + (scanLine b (s.newtext.drop s.i) + 1) + 1

/-- `i` goes on over places that are left as they are. -/
theorem ReplaceInv.skip {s : Replacing} (h : ReplaceInv b text s) {n : Nat} (hn : s.i + n ≤ text.length) :
    ReplaceInv b text ⟨s.i + n, s.newtext⟩ := by
  obtain ⟨-, result, hlen, hnew, hwrapped⟩ := h
  refine ⟨hn, result ++ (text.drop s.i).take n, ?_, ?_, ?_⟩
  · rw [List.length_append, hlen, List.length_take, List.length_drop]
    show s.i + min n (text.length - s.i) = s.i + n
    omega
  · show s.newtext = result ++ (text.drop s.i).take n ++ text.drop (s.i + n)
    rw [hnew, List.append_assoc, ← List.drop_drop, List.take_append_drop]
  · show Wrapped [b] false (text.take (s.i + n)) _
    rw [List.take_add]
    exact hwrapped.append _

/-- `i` goes on behind a space that becomes a break. -/
theorem ReplaceInv.replace {s : Replacing} (h : ReplaceInv b text s) {l : Nat} (hspace : text[s.i + l]? = some SPACE) :
    ReplaceInv b text ⟨s.i + l + 1, s.newtext.set (s.i + l) b⟩ := by
  obtain ⟨hlt, hat⟩ := List.getElem?_eq_some_iff.mp hspace
  obtain ⟨-, result, hlen, hnew, hwrapped⟩ := h.skip (n := l) (by omega)
  change result.length = s.i + l at hlen
  change s.newtext = result ++ text.drop (s.i + l) at hnew
  refine ⟨hlt, result ++ [b], by rw [List.length_append, hlen]; rfl, ?_, ?_⟩
  · show s.newtext.set (s.i + l) b = result ++ [b] ++ text.drop (s.i + l + 1)
    rw [hnew, List.set_append_right _ _ (by omega), hlen, Nat.sub_self, List.drop_eq_getElem_cons hlt,
      List.set_cons_zero, List.append_assoc]
    rfl
  · show Wrapped [b] false (text.take (s.i + l + 1)) _
    rw [List.take_add_one, hspace]
    exact hwrapped.replace

theorem ReplaceInv.getElem? {s : Replacing} (h : ReplaceInv b text s) (l : Nat) :
    s.newtext[s.i + l]? = text[s.i + l]? := by
  obtain ⟨-, result, hlen, hnew, -⟩ := h
  rw [hnew, List.getElem?_append_right (by omega), List.getElem?_drop]
  congr 1
  omega

theorem ReplaceInv.length {s : Replacing} (h : ReplaceInv b text s) : s.newtext.length = text.length := by
  obtain ⟨hle, result, hlen, hnew, -⟩ := h
  rw [hnew, List.length_append, List.length_drop]
  omega

theorem readable_some {s : Replacing} (h : ReplaceInv b text s) :
    (if readable text s.i then some s else none) = some s :=
  if_pos (decide_eq_true h.1)

/-- **A turn** fails just where the end of the text is overrun; otherwise it goes on. -/
theorem replaceStep_spec {s : Replacing} (h : ReplaceInv b text s) (hmore : s.i < text.length) :
    (ReplaceOverruns w b text s ∧ replaceStep w b text s = none)
      ∨ ¬ReplaceOverruns w b text s ∧ ∃ s', replaceStep w b text s = some s' ∧ ReplaceInv b text s' ∧ s.i < s'.i := by
  have hlen := h.length
  have hscan : scanLine b (s.newtext.drop s.i) < text.length - s.i := by
    have hne : s.newtext.drop s.i ≠ [] := by
      rw [Ne, List.drop_eq_nil_iff]
      omega
    have hlt := scanLine_lt (b := b) hne
    rwa [List.length_drop, hlen] at hlt
  rw [ReplaceOverruns, replaceStep, replaceTurn]
  generalize scanLine b (s.newtext.drop s.i) = pgr at hscan ⊢
  by_cases hlong : w + 1 ≤ pgr
  · rw [if_pos hlong]
    have hspace : ∀ l, s.newtext[s.i + l]? = some SPACE → l ≤ pgr →
        ¬(Stuck w s.newtext s.i pgr ∧ text.length < s.i + (pgr + 1) + 1)
          ∧ ∃ s', (if readable text (s.i + l + 1) then some (Replacing.mk (s.i + l + 1) (s.newtext.set (s.i + l) b))
            else none) = some s' ∧ ReplaceInv b text s' ∧ s.i < s'.i := by
      intro l hl hle
      have hinv := h.replace (h.getElem? l ▸ hl)
      exact ⟨fun hstuck => hstuck.1.2 l hle hl, _, readable_some hinv, hinv, by dsimp only; omega⟩
    rcases backwards_spec s.newtext (i := s.i) (n := w + 2) (by omega) with ⟨l, hl, heq, hat⟩ | ⟨heq, hback⟩
    · rw [heq]
      exact .inr (hspace l hat (by omega))
    · rw [heq]
      dsimp only
      rcases forwards_spec s.newtext (i := s.i) (fun _ c => decide (c = SPACE)) (pgr - w) (l := w + 1)
        (by omega) with ⟨k, c, hlo, hhi, heq', hread, htest⟩ | ⟨heq', hnone⟩
      · rw [heq']
        refine .inr (hspace k ?_ (by omega))
        obtain ⟨c', hread', hiff⟩ := read_some s.newtext (k := s.i + k) (by omega)
        cases hread.symm.trans hread'
        exact hiff.mp (of_decide_eq_true htest)
      · rw [heq']
        have hstuck : Stuck w s.newtext s.i pgr := by
          refine ⟨hlong, fun l hl => ?_⟩
          by_cases hlt : l < w + 2
          · exact hback l hlt
          · obtain ⟨c, hread, hiff⟩ := read_some s.newtext (k := s.i + l) (by omega)
            exact fun hat => of_decide_eq_false (hnone l (by omega) (by omega) c hread) (hiff.mpr hat)
        by_cases hover : text.length < s.i + (pgr + 1) + 1
        · exact .inl ⟨⟨hstuck, hover⟩, if_neg fun hle => Nat.not_le.mpr hover (of_decide_eq_true hle)⟩
        · have hinv := h.skip (n := pgr + 1 + 1) (by omega)
          exact .inr ⟨fun hstuck => hover hstuck.2, _, readable_some hinv, hinv, Nat.lt_add_of_pos_right (Nat.succ_pos _)⟩
  · rw [if_neg hlong]
    have hinv := h.skip (n := pgr + 1) (by omega)
    exact .inr ⟨fun hstuck => hlong hstuck.1.1, _, readable_some hinv, hinv, Nat.lt_add_of_pos_right (Nat.succ_pos _)⟩

variable (w b text) in
/-- No turn overruns the end of the text. -/
def NeverReplaceOverruns : Prop :=
  ∀ s, Comes (replaceMore text) (replaceStep w b text) ⟨0, text⟩ s → replaceMore text s = true →
    ¬ReplaceOverruns w b text s

/-- **With a break of one character** the text is wrapped just when no turn overruns its end. -/
theorem replaceBreaks_iff : Right w b [] false text (replaceBreaks w b text) ↔ NeverReplaceOverruns w b text := by
  have hstart : ReplaceInv b text ⟨0, text⟩ := ⟨Nat.zero_le _, [], rfl, rfl, .nil⟩
  have hkeep : ∀ s s', ReplaceInv b text s → replaceMore text s = true → replaceStep w b text s = some s' →
      ReplaceInv b text s' ∧ text.length - s'.i < text.length - s.i := by
    intro s s' hs hmore hstep
    have hlt : s.i < text.length := of_decide_eq_true hmore
    rcases replaceStep_spec (w := w) hs hlt with ⟨-, hnone⟩ | ⟨-, s'', hsome, hinv, hless⟩
    · cases hnone.symm.trans hstep
    · cases hsome.symm.trans hstep
      have hle := hinv.1
      exact ⟨hinv, by omega⟩
  have hinv : ∀ s, Comes (replaceMore text) (replaceStep w b text) ⟨0, text⟩ s → ReplaceInv b text s := fun s hs =>
    hs.keeps hstart fun s s' hs hmore hstep => (hkeep s s' hs hmore hstep).1
  constructor
  · rintro ⟨result, hresult, -⟩ s hs hmore hover
    rcases replaceStep_spec (w := w) (hinv s hs) (of_decide_eq_true hmore) with ⟨-, hnone⟩ | ⟨hnot, -⟩
    · rw [replaceBreaks, whileLoop_fails hs hmore hnone] at hresult
      cases hresult
    · exact hnot hover
  · intro hnever
    obtain ⟨s, hs⟩ := whileLoop_isSome (n := text.length + 1) hstart hkeep (by dsimp only; omega) fun t ht hmore => by
      rcases replaceStep_spec (w := w) (hinv t ht) (of_decide_eq_true hmore) with ⟨hover, -⟩ | ⟨-, s', hsome, -⟩
      · exact absurd hover (hnever t ht hmore)
      · rw [hsome]
        exact Option.some_ne_none s'
    obtain ⟨hcomes, hend⟩ := whileLoop_some hs
    obtain ⟨hle, result, hlen, hnew, hwrapped⟩ := hinv s hcomes
    have hend : text.length ≤ s.i := Nat.not_lt.mp (of_decide_eq_false hend)
    refine ⟨s.newtext, by rw [replaceBreaks, hs]; rfl, ?_, fun h => by cases h⟩
    rw [hnew, List.drop_of_length_le hend, List.append_nil]
    rwa [List.take_of_length_le hend] at hwrapped

end FormatText

end Far2l
