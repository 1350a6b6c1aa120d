/-
Far2l.Mix.SearchStringTheorems — what a plain search finds, and when it stays in the
text.

The loop over the pattern gives whether the pattern is at an index, wherever it may
look at that index; whole words want the character in front of it, which index 0 does
not have. The loop over the source gives the first index in its direction. So the search
is exact where it comes only to indices at which it may look.
-/
import Mathlib.Data.List.Forall2
import Far2l.Mix.SearchString

namespace Far2l

namespace SearchString

variable {U : CaseTable} {q : Sought} {source : WStr}

/-! ## Characters -/

theorem upper_ne {ch : WChar} (h : ch ≠ 0) : upper U ch ≠ 0 := by
  rw [upper]
  split
  · split
    · next hletter =>
      intro hzero
      have hnat := congrArg UInt32.toNat hzero
      rw [UInt32.toNat_sub] at hnat
      change (2 ^ 32 - 0x20 + ch.toNat) % 2 ^ 32 = 0 at hnat
      omega
    · exact h
  · exact U.charUpper_ne ch h

/-- The NUL behind the source is no character of the pattern. -/
theorem same_nul {p : WChar} (h : p ≠ 0) : same U q 0 p = false := by
  have hzero : upper U 0 = 0 := rfl
  rw [same]
  split
  · exact decide_eq_false fun heq => h heq.symm
  · exact decide_eq_false fun heq => upper_ne h (heq.symm.trans hzero)

theorem charAt_nat {i : Nat} (h : i < source.length) : charAt source i = some (source[i]) := by
  rw [charAt, if_pos (Int.natCast_nonneg i), Int.toNat_natCast, List.getElem?_append_left h,
    List.getElem?_eq_getElem h]

theorem charAt_length : charAt source source.length = some 0 := by
  rw [charAt, if_pos (Int.natCast_nonneg _), Int.toNat_natCast, List.getElem?_concat_length]

/-! ## The pattern at an index -/

variable (U q source) in
/-- **The pattern occurs at an index**: its characters stand there, and where whole words are wanted the
neighbours on both sides are blanks, dividers or ends of the string. -/
structure OccursAt (i : Nat) : Prop where
  text : ∃ hit behind, source.drop i = hit ++ behind ∧ hit.Forall₂ (fun ch p => same U q ch p = true) q.str
  left : q.wholeWords = true → ∀ ch, 0 < i → source[i - 1]? = some ch → isBoundary q ch = true
  right : q.wholeWords = true → ∀ ch, source[i + q.str.length]? = some ch → isBoundary q ch = true

variable (U q) in
/-- A text begins with the pattern. -/
def beginsWith : (str text : WStr) → Bool
  | [], _ => true
  | _ :: _, [] => false
  | p :: str, ch :: text => same U q ch p && beginsWith str text

theorem beginsWith_iff (str text : WStr) :
    beginsWith U q str text = true ↔
      ∃ hit behind, text = hit ++ behind ∧ hit.Forall₂ (fun ch p => same U q ch p = true) str := by
  induction str generalizing text with
  | nil => exact ⟨fun _ => ⟨[], text, rfl, .nil⟩, fun _ => by cases text <;> rfl⟩
  | cons p str ih =>
    cases text with
    | nil =>
      refine ⟨nofun, fun ⟨hit, behind, heq, hhit⟩ => ?_⟩
      rw [(List.append_eq_nil_iff.mp heq.symm).1] at hhit
      cases hhit
    | cons ch text =>
      rw [beginsWith, Bool.and_eq_true, ih]
      constructor
      · rintro ⟨hsame, hit, behind, rfl, hhit⟩
        exact ⟨ch :: hit, behind, rfl, .cons hsame hhit⟩
      · rintro ⟨hit, behind, heq, hhit⟩
        cases hhit with
        | cons hsame hhit =>
          obtain ⟨rfl, rfl⟩ := List.cons.inj heq
          exact ⟨hsame, _, behind, rfl, hhit⟩

/-- The loop over the pattern, where the ends of the word are right. -/
theorem charLoop_true {i : Nat} (hword : (if q.wholeWords then wholeWordAt q source i else some true) = some true)
    {str : WStr} (hnul : 0 ∉ str) {J : Nat} (hJ : i + J ≤ source.length) :
    charLoop U q source i J str = some (beginsWith U q str (source.drop (i + J))) := by
  induction str generalizing J with
  | nil => rw [charLoop, beginsWith]
  | cons p str ih =>
    obtain ⟨hp, hnul⟩ := not_or.mp (mt List.mem_cons.mpr hnul)
    rw [charLoop, hword]
    dsimp only
    rcases Nat.lt_or_eq_of_le hJ with hlt | heq
    · rw [← Int.natCast_add, charAt_nat hlt, List.drop_eq_getElem_cons hlt, beginsWith]
      dsimp only
      cases same U q source[i + J] p
      · rfl
      · rw [if_pos rfl, ih hnul (by omega), Bool.true_and]
        rfl
    · rw [← Int.natCast_add, heq, charAt_length, List.drop_length, beginsWith]
      dsimp only
      rw [same_nul fun h => hp h.symm]
      rfl

/-- What is said of the two ends of the word, where it may be looked at them. -/
theorem wholeWordAt_some {i : Nat} (hi : 1 ≤ i) (hlt : i < source.length)
    (hint : (i : Int) + q.str.length < 2 ^ 31) :
    ∃ w, wholeWordAt q source i = some w ∧ (w = true ↔
      (∀ ch, 0 < i → source[i - 1]? = some ch → isBoundary q ch = true)
        ∧ ∀ ch, source[i + q.str.length]? = some ch → isBoundary q ch = true) := by
  have hleft : charAt source ((i : Int) - 1) = some source[i - 1] := by
    rw [← charAt_nat (by omega)]
    congr 1
    omega
  have hleft' : (∀ ch, 0 < i → source[i - 1]? = some ch → isBoundary q ch = true)
      ↔ isBoundary q source[i - 1] = true := by
    rw [List.getElem?_eq_getElem (by omega)]
    exact ⟨fun h => h _ hi rfl, fun h ch _ heq => Option.some.inj heq ▸ h⟩
  rw [wholeWordAt, hleft, Option.bind_some, int, if_pos ⟨by omega, hint⟩, Option.bind_some, hleft']
  dsimp only
  rw [if_pos (show (0 : Int) < i by omega)]
  by_cases hbehind : i + q.str.length < source.length
  · rw [if_pos (by omega), ← Int.natCast_add, charAt_nat hbehind]
    refine ⟨_, rfl, ?_⟩
    rw [Bool.and_eq_true, List.getElem?_eq_getElem hbehind]
    exact and_congr_right fun _ => ⟨fun h ch heq => Option.some.inj heq ▸ h, fun h => h _ rfl⟩
  · rw [if_neg (by omega)]
    refine ⟨_, rfl, ?_⟩
    rw [List.getElem?_eq_none (by omega)]
    exact ⟨fun h => ⟨h, nofun⟩, And.left⟩

variable (q) in
/-- The search may look at an index: whole words want a character in front of it. -/
def MayLook (I : Int) : Prop := 0 ≤ I ∧ (q.wholeWords = true → 1 ≤ I ∧ I + q.str.length < 2 ^ 31)

/-- **The loop over the pattern** says whether the pattern is at the index. -/
theorem charLoop_spec {i : Nat} (hne : q.str ≠ []) (hlt : i < source.length) (hlook : MayLook q i) :
    ∃ b, charLoop U q source i 0 q.str = some b ∧ (b = true ↔ OccursAt U q source i) := by
  obtain ⟨w, hw, hwiff⟩ : ∃ w, (if q.wholeWords then wholeWordAt q source i else some true) = some w
      ∧ (w = true ↔ (q.wholeWords = true →
        (∀ ch, 0 < i → source[i - 1]? = some ch → isBoundary q ch = true)
          ∧ ∀ ch, source[i + q.str.length]? = some ch → isBoundary q ch = true)) := by
    by_cases hwords : q.wholeWords = true
    · obtain ⟨hpos, hint⟩ := hlook.2 hwords
      obtain ⟨w, hw, hiff⟩ := wholeWordAt_some (by omega) hlt hint
      exact ⟨w, by rw [if_pos hwords, hw], hiff.trans ⟨fun h _ => h, fun h => h hwords⟩⟩
    · exact ⟨true, if_neg hwords, iff_of_true rfl fun h => absurd h hwords⟩
  have hoccurs : OccursAt U q source i ↔ beginsWith U q q.str (source.drop i) = true ∧ w = true := by
    rw [beginsWith_iff, hwiff]
    exact ⟨fun h => ⟨h.text, fun hwords => ⟨h.left hwords, h.right hwords⟩⟩,
      fun h => ⟨h.1, fun hwords => (h.2 hwords).1, fun hwords => (h.2 hwords).2⟩⟩
  cases w with
  | true =>
    refine ⟨_, charLoop_true hw q.noNul (J := 0) (by omega), ?_⟩
    rw [hoccurs, Nat.add_zero, and_iff_left rfl]
  | false =>
    refine ⟨false, ?_, iff_of_false Bool.false_ne_true fun h => by cases (hoccurs.mp h).2⟩
    cases hstr : q.str with
    | nil => exact absurd hstr hne
    | cons p str => rw [charLoop, hw]

/-- Elsewhere the loop reads outside the source. -/
theorem charLoop_none {I : Int} (hne : q.str ≠ []) (hlook : ¬MayLook q I) :
    charLoop U q source I 0 q.str = none := by
  have hout : ∀ i : Int, i < 0 → charAt source i = none := fun i hi => if_neg (by omega)
  cases hstr : q.str with
  | nil => exact absurd hstr hne
  | cons p str =>
    rw [charLoop]
    by_cases hwords : q.wholeWords = true
    · rw [if_pos hwords]
      have hnone : wholeWordAt q source I = none := by
        rw [wholeWordAt]
        by_cases hpos : 1 ≤ I
        · have hint : int (I + q.str.length) = none :=
            if_neg fun h => hlook ⟨by omega, fun _ => ⟨hpos, h.2⟩⟩
          rw [hint]
          cases charAt source (I - 1) <;> rfl
        · rw [hout _ (by omega)]
          rfl
      rw [hnone]
    · rw [if_neg hwords]
      have hneg : I < 0 := by
        refine Int.not_le.mp fun hle => hlook ⟨hle, fun h => absurd h hwords⟩
      dsimp only
      rw [Int.natCast_zero, Int.add_zero, hout _ hneg]

/-! ## The loop over the source -/

variable (U q source) in
/-- The pattern occurs at an index of the source. -/
def Occurs (I : Int) : Prop := 0 ≤ I ∧ OccursAt U q source I.toNat

variable (source) in
/-- The indices that lie ahead of an index, itself included. -/
def Ahead (reverse : Bool) (I K : Int) : Prop :=
  if reverse then 0 ≤ K ∧ K ≤ I else I ≤ K ∧ K < source.length

/-- An index comes before another one. -/
def Earlier (reverse : Bool) (K K' : Int) : Prop := if reverse then K' < K else K < K'

variable (U q source) in
/-- The search from `I` comes to `K`: nothing is found before. -/
def ComesTo (reverse : Bool) (I K : Int) : Prop :=
  Ahead source reverse I K ∧ ∀ K', Ahead source reverse I K' → Earlier reverse K' K → ¬Occurs U q source K'

variable (U q source) in
/-- The first index from `I` on at which the pattern occurs. -/
def First (reverse : Bool) (I K : Int) : Prop := ComesTo U q source reverse I K ∧ Occurs U q source K

/-- What the loop gives: it goes wrong somewhere, it finds the first index, or there is none. -/
def LoopSpec (U : CaseTable) (q : Sought) (source : WStr) (reverse : Bool) (I : Int) : Option (Option Int) → Prop
  | none => ∃ K, ComesTo U q source reverse I K ∧ ¬MayLook q K
  | some (some K) => First U q source reverse I K ∧ ∀ K', ComesTo U q source reverse I K' → MayLook q K'
  | some none => ∀ K, Ahead source reverse I K → MayLook q K ∧ ¬Occurs U q source K

/-- The index itself lies ahead, and so does what lies ahead of the next one. -/
theorem ahead_next {reverse : Bool} {I : Int}
    (hin : (reverse = true ∧ 0 ≤ I) ∨ (reverse = false ∧ I < source.length)) (K : Int) :
    Ahead source reverse I K ↔ K = I ∨ Ahead source reverse (if reverse then I - 1 else I + 1) K := by
  rcases hin with ⟨rfl, h⟩ | ⟨rfl, h⟩
  · simp only [Ahead, if_pos]
    omega
  · simp only [Ahead, Bool.false_eq_true, if_false]
    omega

theorem earlier_next {reverse : Bool} {I K : Int}
    (h : Ahead source reverse (if reverse then I - 1 else I + 1) K) : Earlier reverse I K := by
  cases reverse
  · simp only [Ahead, Earlier, Bool.false_eq_true, if_false] at h ⊢
    omega
  · simp only [Ahead, Earlier, if_pos] at h ⊢
    omega

theorem not_earlier {reverse : Bool} {I K : Int} (h : Ahead source reverse I K) : ¬Earlier reverse K I := by
  cases reverse
  · simp only [Ahead, Earlier, Bool.false_eq_true, if_false] at h ⊢
    omega
  · simp only [Ahead, Earlier, if_pos] at h ⊢
    omega

theorem not_ahead {reverse : Bool} {I : Int}
    (hout : ¬((reverse = true ∧ 0 ≤ I) ∨ (reverse = false ∧ I < source.length))) (K : Int) :
    ¬Ahead source reverse I K := by
  cases reverse
  · simp only [Ahead, Bool.false_eq_true, if_false]
    simp at hout
    omega
  · simp only [Ahead, if_pos]
    simp at hout
    omega

theorem ahead_self {reverse : Bool} {I : Int}
    (hin : (reverse = true ∧ 0 ≤ I) ∨ (reverse = false ∧ I < source.length)) : Ahead source reverse I I :=
  (ahead_next hin I).mpr (.inl rfl)

theorem comesTo_self {reverse : Bool} {I : Int}
    (hin : (reverse = true ∧ 0 ≤ I) ∨ (reverse = false ∧ I < source.length)) :
    ComesTo U q source reverse I I :=
  ⟨ahead_self hin, fun _ hK hbefore => absurd hbefore (not_earlier hK)⟩

/-- Where the pattern does not occur, the search goes on. -/
theorem comesTo_next {reverse : Bool} {I K : Int}
    (hin : (reverse = true ∧ 0 ≤ I) ∨ (reverse = false ∧ I < source.length)) (hnot : ¬Occurs U q source I) :
    ComesTo U q source reverse I K
      ↔ K = I ∨ ComesTo U q source reverse (if reverse then I - 1 else I + 1) K := by
  constructor
  · rintro ⟨hahead, hbefore⟩
    exact ((ahead_next hin K).mp hahead).imp_right fun h =>
      ⟨h, fun K' hK' => hbefore K' ((ahead_next hin K').mpr (.inr hK'))⟩
  · rintro (rfl | ⟨hahead, hbefore⟩)
    · exact comesTo_self hin
    · refine ⟨(ahead_next hin K).mpr (.inr hahead), fun K' hK' hearlier => ?_⟩
      rcases (ahead_next hin K').mp hK' with rfl | hK'
      · exact hnot
      · exact hbefore K' hK' hearlier

/-- A turn that finds nothing. -/
theorem loopSpec_next {reverse : Bool} {I : Int}
    (hin : (reverse = true ∧ 0 ≤ I) ∨ (reverse = false ∧ I < source.length)) (hlook : MayLook q I)
    (hnot : ¬Occurs U q source I) {r : Option (Option Int)}
    (h : LoopSpec U q source reverse (if reverse then I - 1 else I + 1) r) : LoopSpec U q source reverse I r := by
  match r, h with
  | none, ⟨K, hcomes, hK⟩ => exact ⟨K, (comesTo_next hin hnot).mpr (.inr hcomes), hK⟩
  | some (some K), ⟨⟨hcomes, hoccurs⟩, hall⟩ =>
    refine ⟨⟨(comesTo_next hin hnot).mpr (.inr hcomes), hoccurs⟩, fun K' hK' => ?_⟩
    rcases (comesTo_next hin hnot).mp hK' with rfl | hK'
    · exact hlook
    · exact hall K' hK'
  | some none, h =>
    intro K hK
    rcases (ahead_next hin K).mp hK with rfl | hK
    · exact ⟨hlook, hnot⟩
    · exact h K hK

/-- **The loop over the source**, when it may turn often enough. -/
theorem searchLoop_spec (hne : q.str ≠ []) (reverse : Bool) {n : Nat} {I : Int}
    (hturns : turns source reverse I ≤ n) (hlast : reverse = true → I < source.length) :
    LoopSpec U q source reverse I (searchLoop U q source reverse n I) := by
  induction n generalizing I with
  | zero =>
    refine fun K hK => absurd hK (not_ahead ?_ K)
    rintro (⟨rfl, hI⟩ | ⟨rfl, hI⟩)
    · rw [turns, if_pos rfl] at hturns
      omega
    · rw [turns, if_neg Bool.false_ne_true] at hturns
      omega
  | succ n ih =>
    rw [searchLoop]
    by_cases hin : (reverse = true ∧ 0 ≤ I) ∨ (reverse = false ∧ I < source.length)
    · rw [if_pos hin]
      have hlt : I < source.length := hin.elim (fun h => hlast h.1) And.right
      by_cases hlook : MayLook q I
      · obtain ⟨i, rfl⟩ := Int.eq_ofNat_of_zero_le hlook.1
        obtain ⟨b, hb, hiff⟩ := charLoop_spec (U := U) hne (Int.ofNat_lt.mp hlt) hlook
        rw [hb]
        cases b with
        | true => exact ⟨⟨comesTo_self hin, hlook.1, hiff.mp rfl⟩, fun K hK => by
            by_cases heq : K = i
            · exact heq ▸ hlook
            · have hahead := ((ahead_next hin K).mp hK.1).resolve_left heq
              exact absurd ⟨hlook.1, hiff.mp rfl⟩ (hK.2 _ (ahead_self hin) (earlier_next hahead))⟩
        | false =>
          refine loopSpec_next hin hlook (fun h => by cases hiff.mpr h.2) (ih ?_ fun hrev => ?_)
          · cases reverse
            · simp only [turns, Bool.false_eq_true, if_false] at hturns ⊢
              omega
            · simp only [turns, if_pos] at hturns ⊢
              omega
          · rw [if_pos hrev]
            omega
      · rw [charLoop_none hne hlook]
        exact ⟨I, comesTo_self hin, hlook⟩
    · rw [if_neg hin]
      exact fun K hK => absurd hK (not_ahead hin K)

/-! ## `SearchString` -/

/-- What the search is to find: the first index in its direction at which the pattern occurs. A search to the
left begins in front of the position. -/
structure IsFirst (U : CaseTable) (q : Sought) (source : WStr) (position : Int) (reverse : Bool) (I : Int) : Prop where
  occurs : Occurs U q source I
  inRange : if reverse then I ≤ position - 1 else position ≤ I
  first : ∀ K, (if reverse then K ≤ position - 1 else position ≤ K) → Occurs U q source K → ¬Earlier reverse K I

/-- **The search is exact**: it stays in the source, it returns the first index, and it returns nothing only
where there is none. -/
def Exact (U : CaseTable) (q : Sought) (source : WStr) (position : Int) (reverse : Bool)
    (outcome : Option (Option Found)) : Prop :=
  ∃ found, outcome = some found
    ∧ (∀ I, (∃ f, found = some f ∧ f.curPos = I ∧ f.searchLength = q.str.length)
        ↔ IsFirst U q source position reverse I)
    ∧ (found = none ↔ ∀ I, ¬IsFirst U q source position reverse I)

variable (source) in
/-- Where the loop over the source begins. -/
def startIndex (position : Int) (reverse : Bool) : Int :=
  if reverse then min (position - 1) (source.length - 1) else position

variable (U q source) in
/-- The search comes only to indices at which it may look, and `Position--` does not overflow. -/
def StaysInside (position : Int) (reverse : Bool) : Prop :=
  (reverse = true → -2 ^ 31 ≤ position - 1 ∧ position - 1 < 2 ^ 31)
    ∧ ∀ K, ComesTo U q source reverse (startIndex source position reverse) K → MayLook q K

theorem occurs_lt (hne : q.str ≠ []) {I : Int} (h : Occurs U q source I) : I < source.length := by
  obtain ⟨hit, behind, hdrop, hhit⟩ := h.2.text
  have hlen := congrArg List.length hdrop
  have hpos := List.length_pos_of_ne_nil hne
  have hnonneg := h.1
  rw [List.length_drop, List.length_append, hhit.length_eq] at hlen
  omega

/-- The indices at which the pattern occurs lie ahead of where the loop begins. -/
theorem ahead_start (hne : q.str ≠ []) {position : Int} {reverse : Bool} {K : Int} (h : Occurs U q source K) :
    (if reverse then K ≤ position - 1 else position ≤ K)
      ↔ Ahead source reverse (startIndex source position reverse) K := by
  have hlt := occurs_lt hne h
  have hnonneg := h.1
  cases reverse
  · simp only [Ahead, startIndex, Bool.false_eq_true, if_false]
    omega
  · simp only [Ahead, startIndex, if_pos]
    omega

theorem isFirst_iff (hne : q.str ≠ []) {position : Int} {reverse : Bool} {I : Int} :
    IsFirst U q source position reverse I ↔ First U q source reverse (startIndex source position reverse) I := by
  constructor
  · rintro ⟨hoccurs, hrange, hfirst⟩
    exact ⟨⟨(ahead_start hne hoccurs).mp hrange, fun K hK hearlier hK' =>
      hfirst K ((ahead_start hne hK').mpr hK) hK' hearlier⟩, hoccurs⟩
  · rintro ⟨⟨hahead, hbefore⟩, hoccurs⟩
    exact ⟨hoccurs, (ahead_start hne hoccurs).mpr hahead, fun K hK hK' hearlier =>
      hbefore K ((ahead_start hne hK').mp hK) hearlier hK'⟩

/-- There is one first index at most. -/
theorem first_unique {reverse : Bool} {I K K' : Int} (h : First U q source reverse I K)
    (h' : First U q source reverse I K') : K = K' := by
  have hne : ¬Earlier reverse K K' ∧ ¬Earlier reverse K' K :=
    ⟨fun hearlier => h'.1.2 K h.1.1 hearlier h.2, fun hearlier => h.1.2 K' h'.1.1 hearlier h'.2⟩
  cases reverse
  · simp only [Earlier, Bool.false_eq_true, if_false] at hne
    omega
  · simp only [Earlier, if_pos] at hne
    omega

/-- From what the loop gives: the search is exact just where it comes only to indices at which it may look. -/
theorem exact_loop (position : Int) (hne : q.str ≠ []) {reverse : Bool} (replaceStr : WStr) {r : Option (Option Int)}
    (h : LoopSpec U q source reverse (startIndex source position reverse) r) :
    Exact U q source position reverse (r.map fun found => found.map fun I => ⟨I, q.str.length, replaceStr⟩)
      ↔ ∀ K, ComesTo U q source reverse (startIndex source position reverse) K → MayLook q K := by
  match r, h with
  | none, ⟨K, hcomes, hK⟩ => exact iff_of_false (fun ⟨_, h, _⟩ => nomatch h) fun hall => hK (hall K hcomes)
  | some (some K), ⟨hfirst, hall⟩ =>
    refine iff_of_true ⟨_, rfl, fun I => ?_, iff_of_false nofun fun hnone => hnone K ((isFirst_iff hne).mpr hfirst)⟩ hall
    rw [isFirst_iff hne]
    constructor
    · rintro ⟨f, hf, rfl, -⟩
      cases hf
      exact hfirst
    · exact fun h => ⟨_, rfl, first_unique hfirst h, rfl⟩
  | some none, h =>
    have hnone : ∀ I, ¬IsFirst U q source position reverse I := fun I hI =>
      (h I ((isFirst_iff hne).mp hI).1.1).2 hI.occurs
    exact iff_of_true ⟨none, rfl, fun I => iff_of_false (fun ⟨_, hf, _⟩ => nomatch hf) (hnone I),
      iff_of_true rfl hnone⟩ fun K hK => (h K hK.1).1

/-- Where the loop would not begin there is nothing ahead. -/
theorem loopSpec_nothing {reverse : Bool} {I : Int}
    (hout : ¬((reverse = true ∧ 0 ≤ I) ∨ (reverse = false ∧ I < source.length))) :
    LoopSpec U q source reverse I (some none) :=
  fun K hK => absurd hK (not_ahead hout K)

/-- **A plain search is exact** exactly when it comes only to indices at which it may look: not to index 0 when
whole words are wanted. -/
theorem searchString_exact_iff (compile : WStr → Bool → Option RegExp) (extent : Extent) (replaceStr : WStr)
    (hne : q.str ≠ []) (position : Int) (reverse : Bool) :
    Exact U q source position reverse (searchString U q source compile extent replaceStr position reverse false)
      ↔ StaysInside U q source position reverse := by
  have hfrom : ∀ start : Int, start = startIndex source position reverse → (reverse = true → 0 ≤ start) →
      (Exact U q source position reverse (searchFrom U q source compile extent replaceStr start reverse false)
        ↔ ∀ K, ComesTo U q source reverse (startIndex source position reverse) K → MayLook q K) := by
    intro start hstart hpos
    rw [searchFrom]
    by_cases hlt : start < source.length
    · rw [if_pos ⟨.inl hlt, hne⟩, if_neg Bool.false_ne_true, if_neg (by omega)]
      exact exact_loop _ hne replaceStr (hstart ▸ searchLoop_spec hne reverse (Nat.le_refl _) fun _ => hlt)
    · have hout : ¬((reverse = true ∧ 0 ≤ start) ∨ (reverse = false ∧ start < source.length)) := by
        rintro (⟨rfl, h⟩ | ⟨-, h⟩)
        · rw [startIndex, if_pos rfl] at hstart
          omega
        · exact hlt h
      have hnothing := exact_loop position hne replaceStr (hstart ▸ loopSpec_nothing (U := U) (q := q) hout)
      by_cases hzero : start = 0 ∧ source.length = 0
      · rw [if_pos ⟨.inr hzero, hne⟩, if_neg Bool.false_ne_true, if_pos (by omega)]
        exact hnothing
      · rw [if_neg fun h => h.1.elim hlt hzero]
        exact hnothing
  cases reverse with
  | false =>
    refine (hfrom position rfl fun h => by cases h).trans ?_
    rw [StaysInside, and_iff_right fun h => by cases h]
  | true =>
    rw [searchString, if_pos rfl, StaysInside, int]
    by_cases hint : -2 ^ 31 ≤ position - 1 ∧ position - 1 < 2 ^ 31
    · rw [if_pos hint, Option.bind_some, and_iff_right fun _ => hint]
      dsimp only
      have hstart : (if position - 1 ≥ source.length then (source.length : Int) - 1 else position - 1)
          = startIndex source position true := by
        rw [startIndex, if_pos rfl]
        split <;> omega
      rw [hstart]
      by_cases hneg : startIndex source position true < 0
      · rw [if_pos hneg]
        exact exact_loop _ hne replaceStr (loopSpec_nothing (by simp; omega))
      · rw [if_neg hneg]
        exact hfrom _ rfl fun _ => Int.not_lt.mp hneg
    · rw [if_neg hint]
      exact iff_of_false (by rintro ⟨_, h, _⟩; cases h) fun h => hint (h.1 rfl)

/-- A word of one letter. -/
def wordA : Sought where
  str := L ['a']
  noNul := by decide
  case := true
  wholeWords := true
  wordDiv := []

/-- A table for texts of ASCII. -/
def asciiCase : CaseTable := ⟨id, fun _ h => h⟩

theorem searchString_exact_iff_word :
    Exact asciiCase wordA (L ['b', ' ', 'a']) 1 false
        (searchString asciiCase wordA (L ['b', ' ', 'a']) (fun _ _ => none) .elements [] 1 false false)
      ↔ StaysInside asciiCase wordA (L ['b', ' ', 'a']) 1 false :=
  searchString_exact_iff _ _ _ (by decide) 1 false

/-- For a whole word at the beginning, the character in front of the source is read. -/
theorem searchString_inexact :
    IsFirst asciiCase wordA (L ['a']) 0 false 0
      ∧ searchString asciiCase wordA (L ['a']) (fun _ _ => none) .elements [] 0 false false = none
      ∧ ¬Exact asciiCase wordA (L ['a']) 0 false
        (searchString asciiCase wordA (L ['a']) (fun _ _ => none) .elements [] 0 false false) := by
  have hoccurs : OccursAt asciiCase wordA (L ['a']) 0 :=
    { text := ⟨L ['a'], [], rfl, .cons rfl .nil⟩
      left := fun _ _ h => absurd h (Nat.lt_irrefl 0)
      right := fun _ _ h => nomatch h }
  have hfirst : IsFirst asciiCase wordA (L ['a']) 0 false 0 :=
    { occurs := ⟨Int.le_refl 0, hoccurs⟩
      inRange := Int.le_refl 0
      first := fun K hK _ hearlier => absurd hK (Int.not_le.mpr hearlier) }
  exact ⟨hfirst, rfl, fun ⟨_, h, _⟩ => nomatch h⟩

end SearchString

end Far2l
