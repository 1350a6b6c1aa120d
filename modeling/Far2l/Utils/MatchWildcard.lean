/-
Far2l.Utils.MatchWildcard — `utils/include/MatchWildcard.hpp`: a text against a
pattern with `'*'` and `'?'`.

A pointer into a string is what is behind it, up to the NUL. The template is for
any character type and any comparison; the loop is run with a number of turns,
and an `assert` that fails is an outcome of its own.
-/
import Far2l.Utils.Chars
import Mathlib.Data.List.TakeWhile
import Far2l.Lib.Division

namespace Far2l

/-! ## Characters -/

/-- `CHAR_T`: the characters of ASCII can be converted to it. -/
class CharType (α : Type) where
  code : α → Nat
  ofCode : Nat → α
  code_injective : ∀ {c d : α}, code c = code d → c = d
  code_ofCode : ∀ {n : Nat}, n < 128 → code (ofCode n) = n

instance : CharType Byte where
  code := UInt8.toNat
  ofCode := UInt8.ofNat
  code_injective := UInt8.toNat_inj.mp
  code_ofCode h := by
    rw [UInt8.toNat_ofNat']
    omega

instance : CharType WChar where
  code := UInt32.toNat
  ofCode := UInt32.ofNat
  code_injective := UInt32.toNat_inj.mp
  code_ofCode h := by
    rw [UInt32.toNat_ofNat']
    omega

namespace Wildcard

open CharType

variable {α : Type} [CharType α] [DecidableEq α]

/-- `(CHAR_T)'\0'`. -/
def nul : α := ofCode 0

/-- `(CHAR_T)'*'`. -/
def star : α := ofCode 0x2A

/-- `(CHAR_T)'?'`. -/
def question : α := ofCode 0x3F

/-- A string with a NUL behind it. -/
structure CStr (α : Type) [CharType α] where
  chars : List α
  nonNul : ∀ c ∈ chars, c ≠ nul

/-- What a pointer points to. -/
def deref (p : List α) : α := p.headD nul

/-- `CharComparePlain`. -/
def charComparePlain (left right : α) : Bool := left = right

/-- `EngLower`. -/
def engLower (c : α) : α :=
  if 0x41 ≤ code c ∧ code c ≤ 0x5A then ofCode (code c + 0x61 - 0x41) else c

/-- `CharCompareICE`. -/
def charCompareICE (left right : α) : Bool := engLower left = engLower right

/-! ## `MatchWildcardT` -/

/-- How a call ends, or that it is still running. -/
inductive Verdict where
  | returned (matched : Bool)
  | asserts
  | runs
  deriving DecidableEq, Repr

/-- Where the second loop is: `mp` and `cp`, once they have been set. -/
structure Matching (α : Type) where
  str : List α
  wild : List α
  saved : Option (List α × List α)

variable (compare : α → α → Bool)

/-- The first loop, up to the first `'*'`; `none` where it returns `false`. -/
def leading : (str wild : List α) → Option (Matching α)
  | [], wild => some ⟨[], wild, none⟩
  | s :: str, wild =>
      if deref wild = star then some ⟨s :: str, wild, none⟩
      else if !compare (deref wild) s ∧ deref wild ≠ question then none
      else leading str wild.tail

/-- `while (*wild == '*') wild++; return !*wild`. -/
def trailing (wild : List α) : Bool := (wild.dropWhile (· = star)).isEmpty

/-- A turn of the second loop, or what follows it. -/
def Matching.turn (M : Matching α) : Verdict ⊕ Matching α :=
  match M.str with
  | [] => .inl (.returned (trailing M.wild))
  | s :: str =>
      if deref M.wild = star then
        if M.wild.tail = [] then .inl (.returned true)
        else .inr ⟨s :: str, M.wild.tail, some (M.wild.tail, str)⟩
      else if compare (deref M.wild) s ∨ deref M.wild = question then
        .inr ⟨str, M.wild.tail, M.saved⟩
      else
        match M.saved with
        | none => .inl .asserts
        | some (mp, cp) => .inr ⟨cp, mp, some (mp, cp.tail)⟩

/-- The second loop. -/
def Matching.run : (turns : Nat) → Matching α → Verdict
  | 0, _ => .runs
  | turns + 1, M =>
      match M.turn compare with
      | .inl verdict => verdict
      | .inr M => M.run turns

/-- `MatchWildcardT`. -/
def matchWildcardT (turns : Nat) (str wild : List α) : Verdict :=
  match leading compare str wild with
  | none => .returned false
  | some M => M.run compare turns

/-- `MatchWildcard`. -/
def matchWildcard (turns : Nat) (str wild : List α) : Verdict :=
  matchWildcardT charComparePlain turns str wild

/-- `MatchWildcardICE`. -/
def matchWildcardICE (turns : Nat) (str wild : List α) : Verdict :=
  matchWildcardT charCompareICE turns str wild

end Wildcard

end Far2l

/-! # `MatchWildcard` and `MatchWildcardICE` find

out whether the text can be divided among the characters of the pattern.

Only the last `'*'` is remembered. `Sound` says where the saved pointers are: the
characters between `mp` and `wild` are no `'*'` and have taken what is between
the beginning of the attempt and `str`, and `cp` is one character behind that
beginning. An attempt at an earlier `'*'` is then no better than the one that is
remembered (`Divided.later`). A turn makes `mp`, `cp` or `str` shorter, in this
order. -/

namespace Far2l

namespace Wildcard

open CharType

variable {α : Type} [CharType α]

/-! ## What a pattern stands for -/

/-- What a character of a pattern stands for: `'*'` for any run of characters, `'?'` for any
character, and another one for those that are the same. -/
def Fits (same : α → α → Prop) (item : α) (piece : List α) : Prop :=
  item = star ∨ ∃ c, piece = [c] ∧ (item = question ∨ same item c)

/-- The pattern stands for the text. -/
def StandsFor (same : α → α → Prop) (pattern text : List α) : Prop :=
  Divided (Fits same) pattern text

/-- The character is a capital letter of ASCII. -/
def IsCapital (c : α) : Prop := 0x41 ≤ code c ∧ code c ≤ 0x5A

/-- The characters are the same up to the case of a letter of ASCII. -/
def SameLetter (c d : α) : Prop :=
  c = d ∨ IsCapital c ∧ code d = code c + 32 ∨ IsCapital d ∧ code c = code d + 32

theorem code_star : code (star : α) = 0x2A := code_ofCode (by decide)

theorem code_question : code (question : α) = 0x3F := code_ofCode (by decide)

theorem code_nul : code (nul : α) = 0 := code_ofCode (by decide)

theorem nul_ne_star : (nul : α) ≠ star := by
  intro h
  have hcode := congrArg code h
  rw [code_nul, code_star] at hcode
  exact absurd hcode (by decide)

theorem nul_ne_question : (nul : α) ≠ question := by
  intro h
  have hcode := congrArg code h
  rw [code_nul, code_question] at hcode
  exact absurd hcode (by decide)

theorem code_engLower (c : α) :
    code (engLower c) = if 0x41 ≤ code c ∧ code c ≤ 0x5A then code c + 32 else code c := by
  rw [engLower]
  split
  · rw [code_ofCode (by omega)]
    omega
  · rfl

section

variable {same : α → α → Prop} {item c : α} {pattern text : List α}

theorem fits_star (piece : List α) : Fits same star piece := .inl rfl

theorem single_of_ne (h : item ≠ star) : Single (Fits same) item := by
  rintro piece (hstar | ⟨c, rfl, -⟩)
  · exact absurd hstar h
  · rfl

theorem fits_singleton (h : item ≠ star) :
    Fits same item [c] ↔ item = question ∨ same item c := by
  constructor
  · rintro (hstar | ⟨d, hd, hfits⟩)
    · exact absurd hstar h
    · rw [(List.singleton_inj.mp hd)]
      exact hfits
  · exact fun hfits => .inr ⟨c, rfl, hfits⟩

/-- Only runs stand for the empty text. -/
theorem standsFor_nil : StandsFor same pattern [] ↔ ∀ item ∈ pattern, item = star := by
  induction pattern with
  | nil => exact ⟨fun _ => nofun, fun _ => divided_nil.mpr rfl⟩
  | cons item pattern ih =>
    by_cases hitem : item = star
    · subst hitem
      rw [StandsFor, divided_run fits_star, List.forall_mem_cons, ← ih]
      constructor
      · rintro ⟨rest, hrest, hdivided⟩
        exact ⟨rfl, List.suffix_nil.mp hrest ▸ hdivided⟩
      · exact fun h => ⟨[], List.suffix_refl _, h.2⟩
    · constructor
      · exact fun h => absurd h (single_of_ne hitem).divided_nil
      · exact fun h => absurd (h item List.mem_cons_self) hitem

end

variable [DecidableEq α]

theorem trailing_iff {wild : List α} : trailing wild = true ↔ ∀ item ∈ wild, item = star := by
  rw [trailing, List.isEmpty_iff, List.dropWhile_eq_nil_iff]
  simp only [decide_eq_true_eq]

/-- `CharCompareICE` passes over the case of letters. -/
theorem charCompareICE_iff {c d : α} : charCompareICE c d = true ↔ SameLetter c d := by
  have hcodes : engLower c = engLower d ↔ code (engLower c) = code (engLower d) :=
    ⟨congrArg code, code_injective⟩
  have hsame : c = d ↔ code c = code d := ⟨congrArg code, code_injective⟩
  rw [charCompareICE, decide_eq_true_iff, hcodes, code_engLower, code_engLower, SameLetter, hsame,
    IsCapital, IsCapital]
  split <;> split <;> omega

theorem charComparePlain_iff {c d : α} : charComparePlain c d = true ↔ c = d :=
  decide_eq_true_iff

/-! ## A turn -/

/-- What the loop is looking for: the rest of the pattern stands for the rest of the text, or the
pattern behind the last `'*'` for a later end of the text. -/
def Sought (same : α → α → Prop) (M : Matching α) : Prop :=
  StandsFor same M.wild M.str
    ∨ ∃ mp cp, M.saved = some (mp, cp) ∧ ∃ rest, rest <:+ cp ∧ StandsFor same mp rest

/-- The pointers that are saved belong to the attempt that is under way. -/
structure Saved (M : Matching α) (mp cp : List α) : Prop where
  attempt : ∃ front taken, mp = front ++ M.wild ∧ (∀ item ∈ front, item ≠ star)
    ∧ taken.length = front.length ∧ cp = (taken ++ M.str).tail ∧ ∀ c ∈ taken, c ≠ nul
  nonNul : ∀ item ∈ mp, item ≠ nul

/-- Where the pointers are in front of every turn. -/
structure Sound (M : Matching α) : Prop where
  str : ∀ c ∈ M.str, c ≠ nul
  wild : ∀ item ∈ M.wild, item ≠ nul
  first : M.saved = none → M.str = [] ∨ ∃ wild, M.wild = star :: wild
  saved : ∀ mp cp, M.saved = some (mp, cp) → Saved M mp cp

/-- What gets shorter. -/
def rank (M : Matching α) : Nat × Nat × Nat :=
  match M.saved with
  | none => (M.wild.length + 1, 0, M.str.length)
  | some (mp, cp) => (mp.length, cp.length, M.str.length)

/-- What a turn has to give. -/
def TurnOk (same : α → α → Prop) (M : Matching α) : Verdict ⊕ Matching α → Prop
  | .inl (.returned b) => b = true ↔ Sought same M
  | .inl _ => False
  | .inr M' => Sound M' ∧ (Sought same M' ↔ Sought same M)
      ∧ Prod.Lex (· < ·) (Prod.Lex (· < ·) (· < ·)) (rank M') (rank M)

variable {same : α → α → Prop} {M : Matching α}

/-- At the end of the text no later attempt is left. -/
theorem sought_nil (hM : Sound M) (hstr : M.str = []) :
    Sought same M ↔ ∀ item ∈ M.wild, item = star := by
  have hnil : StandsFor same M.wild [] ↔ ∀ item ∈ M.wild, item = star := standsFor_nil
  rw [← hnil, Sought, hstr]
  refine ⟨?_, .inl⟩
  rintro (h | ⟨mp, cp, hsaved, rest, hrest, h⟩)
  · exact h
  · obtain ⟨front, taken, rfl, hfront, hlen, rfl, -⟩ := (hM.saved mp cp hsaved).attempt
    obtain ⟨first, last, hfirst, hlast, rfl⟩ := Divided.append h
    have hfirst := hfirst.length fun item hitem => single_of_ne (hfront item hitem)
    have hle := hrest.length_le
    rw [hstr, List.append_nil, List.length_tail, List.length_append] at hle
    rw [StandsFor]
    rw [List.eq_nil_of_length_eq_zero (by omega : last.length = 0)] at hlast
    exact hlast

/-- At a `'*'` the earlier ones are forgotten. -/
theorem turn_star (hM : Sound M) {s : α} {str wild : List α} (hstr : M.str = s :: str)
    (hwild : M.wild = star :: wild) :
    Sound ⟨s :: str, wild, some (wild, str)⟩
      ∧ (Sought same ⟨s :: str, wild, some (wild, str)⟩ ↔ Sought same M)
      ∧ Prod.Lex (· < ·) (Prod.Lex (· < ·) (· < ·)) (rank ⟨s :: str, wild, some (wild, str)⟩)
        (rank M) := by
  have hnonNul : ∀ item ∈ wild, item ≠ nul := fun item hitem =>
    hM.wild item (hwild ▸ List.mem_cons_of_mem _ hitem)
  refine ⟨⟨hstr ▸ hM.str, hnonNul, nofun, ?_⟩, ?_, ?_⟩
  · rintro mp cp hsaved
    obtain ⟨rfl, rfl⟩ := Prod.mk.inj (Option.some.inj hsaved)
    exact ⟨⟨[], [], rfl, nofun, rfl, rfl, nofun⟩, hnonNul⟩
  · have hnew : Sought same ⟨s :: str, wild, some (wild, str)⟩ ↔ StandsFor same (star :: wild) (s :: str) := by
      rw [StandsFor, divided_run fits_star]
      constructor
      · rintro (h | ⟨mp, cp, hsaved, rest, hrest, h⟩)
        · exact ⟨_, List.suffix_refl _, h⟩
        · obtain ⟨rfl, rfl⟩ := Prod.mk.inj (Option.some.inj hsaved)
          exact ⟨rest, hrest.trans (List.suffix_cons _ _), h⟩
      · rintro ⟨rest, hrest, h⟩
        rcases List.suffix_cons_iff.mp hrest with rfl | hrest
        · exact .inl h
        · exact .inr ⟨wild, str, rfl, rest, hrest, h⟩
    rw [hnew, Sought, hstr, hwild]
    refine ⟨.inl, ?_⟩
    rintro (h | ⟨mp, cp, hsaved, rest, hrest, h⟩)
    · exact h
    · obtain ⟨front, taken, hmp, hfront, hlen, hcp, -⟩ := (hM.saved mp cp hsaved).attempt
      rw [hwild] at hmp
      rw [hstr] at hcp
      subst hmp hcp
      exact Divided.later fits_star (fun item hitem => single_of_ne (hfront item hitem)) hlen
        (hrest.trans (List.tail_suffix _)) h
  · have hlt : wild.length < M.wild.length := by
      rw [hwild, List.length_cons]
      exact Nat.lt_succ_self _
    rw [rank, rank]
    cases hsaved : M.saved with
    | none => exact .left _ _ (by omega)
    | some saved =>
      obtain ⟨mp, cp⟩ := saved
      obtain ⟨front, -, hmp, -⟩ := (hM.saved mp cp hsaved).attempt
      refine .left _ _ ?_
      rw [hmp, List.length_append]
      omega

/-- A character of the pattern takes one of the text. -/
theorem turn_one (hM : Sound M) {item s : α} {str wild : List α} (hstr : M.str = s :: str)
    (hwild : M.wild = item :: wild) (hitem : item ≠ star) (hfits : item = question ∨ same item s) :
    Sound ⟨str, wild, M.saved⟩ ∧ (Sought same ⟨str, wild, M.saved⟩ ↔ Sought same M)
      ∧ Prod.Lex (· < ·) (Prod.Lex (· < ·) (· < ·)) (rank ⟨str, wild, M.saved⟩) (rank M) := by
  have hnone : M.saved ≠ none := by
    intro hnone
    rcases hM.first hnone with hnil | ⟨w, hstar⟩
    · exact absurd (hstr.symm.trans hnil) (List.cons_ne_nil _ _)
    · exact hitem (List.cons.inj (hwild.symm.trans hstar)).1
  refine ⟨⟨?_, ?_, fun h => absurd h hnone, ?_⟩, ?_, ?_⟩
  · exact fun c hc => hM.str c (hstr ▸ List.mem_cons_of_mem _ hc)
  · exact fun c hc => hM.wild c (hwild ▸ List.mem_cons_of_mem _ hc)
  · intro mp cp hsaved
    obtain ⟨⟨front, taken, hmp, hfront, hlen, hcp, htaken⟩, hnonNul⟩ := hM.saved mp cp hsaved
    refine ⟨⟨front ++ [item], taken ++ [s], ?_, ?_, ?_, ?_, ?_⟩, hnonNul⟩
    · rw [hmp, hwild, List.append_assoc, List.singleton_append]
    · intro c hc
      rcases List.mem_append.mp hc with hc | hc
      · exact hfront c hc
      · exact List.mem_singleton.mp hc ▸ hitem
    · rw [List.length_append, List.length_append, hlen, List.length_singleton, List.length_singleton]
    · rw [hcp, hstr, List.append_assoc, List.singleton_append]
    · intro c hc
      rcases List.mem_append.mp hc with hc | hc
      · exact htaken c hc
      · exact List.mem_singleton.mp hc ▸ hM.str s (hstr ▸ List.mem_cons_self)
  · have hrest : StandsFor same wild str ↔ StandsFor same (item :: wild) (s :: str) := by
      rw [StandsFor, StandsFor, (single_of_ne hitem).divided_cons, fits_singleton hitem]
      exact ⟨fun h => ⟨hfits, h⟩, fun h => h.2⟩
    rw [Sought, Sought, hstr, hwild, hrest]
  · rw [rank, rank]
    cases hsaved : M.saved with
    | none => exact absurd hsaved hnone
    | some saved => exact .right _ (.right _ (by rw [hstr]; exact Nat.lt_succ_self _))

/-- Where a character does not fit, the next attempt begins one character later. -/
theorem turn_back (hM : Sound M) {s : α} {str mp cp : List α} (hstr : M.str = s :: str)
    (hsaved : M.saved = some (mp, cp))
    (hfails : ¬StandsFor same M.wild M.str) :
    Sound ⟨cp, mp, some (mp, cp.tail)⟩
      ∧ (Sought same ⟨cp, mp, some (mp, cp.tail)⟩ ↔ Sought same M)
      ∧ Prod.Lex (· < ·) (Prod.Lex (· < ·) (· < ·)) (rank ⟨cp, mp, some (mp, cp.tail)⟩) (rank M) := by
  obtain ⟨⟨front, taken, hmp, hfront, hlen, hcp, htaken⟩, hnonNul⟩ := hM.saved mp cp hsaved
  have hcpNonNul : ∀ c ∈ cp, c ≠ nul := by
    intro c hc
    rw [hcp] at hc
    rcases List.mem_append.mp (List.mem_of_mem_tail hc) with hc | hc
    · exact htaken c hc
    · exact hM.str c hc
  refine ⟨⟨hcpNonNul, hnonNul, nofun, ?_⟩, ?_, ?_⟩
  · intro mp' cp' hsaved'
    obtain ⟨rfl, rfl⟩ := Prod.mk.inj (Option.some.inj hsaved')
    exact ⟨⟨[], [], rfl, nofun, rfl, rfl, nofun⟩, hnonNul⟩
  · rw [Sought, Sought]
    constructor
    · rintro (h | ⟨mp', cp', hsaved', rest, hrest, h⟩)
      · exact .inr ⟨mp, cp, hsaved, cp, List.suffix_refl _, h⟩
      · obtain ⟨rfl, rfl⟩ := Prod.mk.inj (Option.some.inj hsaved')
        exact .inr ⟨mp, cp, hsaved, rest, hrest.trans (List.tail_suffix _), h⟩
    · rintro (h | ⟨mp', cp', hsaved', rest, hrest, h⟩)
      · exact absurd h hfails
      · obtain ⟨rfl, rfl⟩ := Prod.mk.inj (Option.some.inj (hsaved.symm.trans hsaved'))
        cases hcons : cp with
        | nil =>
          rw [hcons] at hrest
          exact .inl (List.suffix_nil.mp hrest ▸ h)
        | cons c cp =>
          rw [hcons] at hrest
          rcases List.suffix_cons_iff.mp hrest with rfl | hrest
          · exact .inl h
          · exact .inr ⟨mp, cp, rfl, rest, hrest, h⟩
  · rw [rank, rank, hsaved]
    cases cp with
    | nil => exact .right _ (.right _ (by rw [hstr]; exact Nat.succ_pos _))
    | cons c cp => exact .right _ (.left _ _ (Nat.lt_succ_self _))

variable {compare : α → α → Bool}

/-- What the loop needs of `CHAR_COMPARE`: it tells what is the same, and the NUL behind a pattern
from the characters of a text. -/
structure Compares (compare : α → α → Bool) (same : α → α → Prop) : Prop where
  same : ∀ {c d : α}, compare c d = true ↔ same c d
  nul : ∀ {d : α}, d ≠ nul → compare nul d = false

theorem turn_spec (hcompare : Compares compare same) (hM : Sound M) :
    TurnOk same M (M.turn compare) := by
  rw [Matching.turn]
  cases hstr : M.str with
  | nil => exact trailing_iff.trans (sought_nil hM hstr).symm
  | cons s str =>
    dsimp only
    by_cases hstar : deref M.wild = star
    · rw [if_pos hstar]
      cases hwild : M.wild with
      | nil => exact absurd (hwild ▸ hstar) nul_ne_star
      | cons item wild =>
        obtain rfl : item = star := by rwa [hwild] at hstar
        rw [List.tail_cons]
        split
        · next hnil =>
          have hfits : StandsFor same M.wild M.str := by
            rw [hwild, hnil]
            exact (divided_run fits_star).mpr ⟨[], List.nil_suffix, divided_nil.mpr rfl⟩
          exact ⟨fun _ => .inl hfits, fun _ => rfl⟩
        · exact turn_star hM hstr hwild
    · rw [if_neg hstar]
      have hs : s ≠ nul := hM.str s (hstr ▸ List.mem_cons_self)
      split
      · next hfits =>
        cases hwild : M.wild with
        | nil =>
          rw [hwild] at hfits
          rcases hfits with hsame | hquestion
          · rw [deref, List.headD_nil, hcompare.nul hs] at hsame
            exact absurd hsame Bool.false_ne_true
          · exact absurd hquestion nul_ne_question
        | cons item wild =>
          rw [hwild] at hstar hfits
          exact turn_one hM hstr hwild hstar (hfits.symm.imp_right hcompare.same.mp)
      · next hfails =>
        have hfails : ¬StandsFor same M.wild M.str := by
          intro h
          rw [hstr] at h
          cases hwild : M.wild with
          | nil =>
            rw [hwild] at h
            exact absurd (divided_nil.mp h) (List.cons_ne_nil _ _)
          | cons item wild =>
            rw [hwild] at h hstar hfails
            have hone := ((single_of_ne hstar).divided_cons.mp h).1
            exact hfails (((fits_singleton hstar).mp hone).symm.imp_left hcompare.same.mpr)
        cases hsaved : M.saved with
        | none =>
          rcases hM.first hsaved with hnil | ⟨wild, hwild⟩
          · exact absurd (hstr.symm.trans hnil) (List.cons_ne_nil _ _)
          · exact absurd (by rw [hwild]; rfl) hstar
        | some saved => exact turn_back hM hstr hsaved hfails

/-! ## The loops -/

/-- **The second loop ends**, without the assertion, and tells whether there is what it looks for. -/
theorem run_spec (hcompare : Compares compare same) (M : Matching α) (hM : Sound M) :
    ∃ turns b, (∀ n, turns ≤ n → M.run compare n = .returned b)
      ∧ (∀ n, n < turns → M.run compare n = .runs) ∧ (b = true ↔ Sought same M) := by
  have hturn := turn_spec hcompare hM
  cases hnext : M.turn compare with
  | inl verdict =>
    rw [hnext] at hturn
    cases verdict with
    | returned b =>
      refine ⟨1, b, fun n hn => ?_, fun n hn => ?_, hturn⟩
      · obtain ⟨n, rfl⟩ := Nat.exists_eq_add_of_le' hn
        rw [Matching.run, hnext]
      · obtain rfl : n = 0 := by omega
        rfl
    | asserts => exact hturn.elim
    | runs => exact hturn.elim
  | inr M' =>
    rw [hnext] at hturn
    have hless : Prod.Lex (· < ·) (Prod.Lex (· < ·) (· < ·)) (rank M') (rank M) := hturn.2.2
    obtain ⟨turns, b, hends, hruns, hb⟩ := run_spec hcompare M' hturn.1
    refine ⟨turns + 1, b, fun n hn => ?_, fun n hn => ?_, hb.trans hturn.2.1⟩
    · obtain ⟨n, rfl⟩ := Nat.exists_eq_add_of_le' (Nat.le_trans (Nat.succ_pos turns) hn)
      rw [Matching.run, hnext]
      exact hends n (Nat.le_of_succ_le_succ hn)
    · cases n with
      | zero => rfl
      | succ n =>
        rw [Matching.run, hnext]
        exact hruns n (Nat.lt_of_succ_lt_succ hn)
termination_by rank M
decreasing_by exact hless

/-- What the first loop leaves. -/
theorem leading_spec (hcompare : Compares compare same) {str : List α} (hstr : ∀ c ∈ str, c ≠ nul)
    {wild : List α} (hwild : ∀ item ∈ wild, item ≠ nul) :
    match leading compare str wild with
    | none => ¬StandsFor same wild str
    | some M => Sound M ∧ (Sought same M ↔ StandsFor same wild str) := by
  have hdone : ∀ str wild : List α, (∀ c ∈ str, c ≠ nul) → (∀ item ∈ wild, item ≠ nul) →
      (str = [] ∨ ∃ rest, wild = star :: rest) →
      Sound ⟨str, wild, none⟩ ∧ (Sought same ⟨str, wild, none⟩ ↔ StandsFor same wild str) := by
    refine fun str wild hstr hwild hfirst => ⟨⟨hstr, hwild, fun _ => hfirst, nofun⟩, ?_, .inl⟩
    rintro (h | ⟨mp, cp, hsaved, -⟩)
    · exact h
    · exact absurd hsaved (by simp)
  induction str generalizing wild with
  | nil => exact hdone [] wild hstr hwild (.inl rfl)
  | cons s str ih =>
    have hs := hstr s List.mem_cons_self
    have hrest : ∀ c ∈ str, c ≠ nul := fun c hc => hstr c (List.mem_cons_of_mem _ hc)
    rw [leading]
    cases wild with
    | nil =>
      have hstar : deref ([] : List α) ≠ star := nul_ne_star
      have hquestion : deref ([] : List α) ≠ question := nul_ne_question
      have hne : ¬compare (deref []) s = true := by
        rw [deref, List.headD_nil, hcompare.nul hs]
        exact Bool.false_ne_true
      rw [if_neg hstar, if_pos ⟨by simpa using hne, hquestion⟩]
      exact fun h => absurd (divided_nil.mp h) (List.cons_ne_nil _ _)
    | cons item wild =>
      have hderef : deref (item :: wild) = item := rfl
      rw [hderef, List.tail_cons]
      by_cases hstar : item = star
      · rw [if_pos hstar]
        exact hdone _ _ hstr hwild (.inr ⟨wild, by rw [hstar]⟩)
      · rw [if_neg hstar]
        have hcons : StandsFor same (item :: wild) (s :: str)
            ↔ (item = question ∨ same item s) ∧ StandsFor same wild str := by
          rw [StandsFor, StandsFor, (single_of_ne hstar).divided_cons, fits_singleton hstar]
        by_cases hfails : (!compare item s) = true ∧ item ≠ question
        · rw [if_pos hfails, hcons]
          rintro ⟨hquestion | hsame, -⟩
          · exact hfails.2 hquestion
          · rw [hcompare.same.mpr hsame] at hfails
            exact absurd hfails.1 (by decide)
        · have hfits : item = question ∨ same item s := by
            by_cases hquestion : item = question
            · exact .inl hquestion
            · refine .inr (hcompare.same.mp ?_)
              by_contra hne
              exact hfails ⟨by simpa using hne, hquestion⟩
          have ih := ih hrest fun item hitem => hwild item (List.mem_cons_of_mem _ hitem)
          rw [if_neg hfails, hcons]
          simp only [hfits, true_and]
          exact ih

/-- **The matcher is exact** for every comparison. -/
theorem matchWildcardT_exact (hcompare : Compares compare same) (str wild : CStr α) :
    ∃ turns b, (∀ n, turns ≤ n → matchWildcardT compare n str.chars wild.chars = .returned b)
      ∧ (∀ n, matchWildcardT compare n str.chars wild.chars ≠ .asserts)
      ∧ (b = true ↔ StandsFor same wild.chars str.chars) := by
  have hleading := leading_spec hcompare str.nonNul wild.nonNul
  cases hfirst : leading compare str.chars wild.chars with
  | none =>
    rw [hfirst] at hleading
    have hfalse : ∀ n, matchWildcardT compare n str.chars wild.chars = .returned false := by
      intro n
      rw [matchWildcardT, hfirst]
    refine ⟨0, false, fun n _ => hfalse n, fun n => ?_, ?_⟩
    · rw [hfalse n]
      exact Verdict.noConfusion
    · exact ⟨fun h => absurd h (by decide), fun h => absurd h hleading⟩
  | some M =>
    rw [hfirst] at hleading
    have hrun : ∀ n, matchWildcardT compare n str.chars wild.chars = M.run compare n := by
      intro n
      rw [matchWildcardT, hfirst]
    obtain ⟨turns, b, hends, hruns, hb⟩ := run_spec hcompare M hleading.1
    refine ⟨turns, b, fun n hn => (hrun n).trans (hends n hn), fun n => ?_, hb.trans hleading.2⟩
    rw [hrun n]
    rcases Nat.lt_or_ge n turns with hn | hn
    · rw [hruns n hn]
      exact Verdict.noConfusion
    · rw [hends n hn]
      exact Verdict.noConfusion

theorem compares_plain : Compares (charComparePlain : α → α → Bool) (· = ·) where
  same := charComparePlain_iff
  nul hd := decide_eq_false fun h => hd h.symm

theorem compares_ice : Compares (charCompareICE : α → α → Bool) SameLetter where
  same := charCompareICE_iff
  nul {d} hd := by
    rw [Bool.eq_false_iff, Ne, charCompareICE_iff]
    rintro (h | ⟨hcapital, -⟩ | ⟨hcapital, hcode⟩)
    · exact hd h.symm
    · rw [IsCapital, code_nul] at hcapital
      omega
    · rw [code_nul] at hcode
      omega

/-- **`MatchWildcard` is exact, and `MatchWildcardICE` up to the case of letters**: the loops end, the
assertion never fails, and the answer tells whether the pattern stands for the text. -/
theorem matchWildcard_exact (str wild : CStr α) :
    (∃ turns b, (∀ n, turns ≤ n → matchWildcard n str.chars wild.chars = .returned b)
      ∧ (∀ n, matchWildcard n str.chars wild.chars ≠ .asserts)
      ∧ (b = true ↔ StandsFor (· = ·) wild.chars str.chars))
    ∧ ∃ turns b, (∀ n, turns ≤ n → matchWildcardICE n str.chars wild.chars = .returned b)
      ∧ (∀ n, matchWildcardICE n str.chars wild.chars ≠ .asserts)
      ∧ (b = true ↔ StandsFor SameLetter wild.chars str.chars) :=
  ⟨matchWildcardT_exact compares_plain str wild, matchWildcardT_exact compares_ice str wild⟩

end Wildcard

end Far2l
