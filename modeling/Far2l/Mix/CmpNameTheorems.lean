/-
Far2l.Mix.CmpNameTheorems — what names a mask matches.

A mask is read as a pattern of `Lib.Glob` (`items`). In a set, a hyphen makes a range
of what stands on its two sides; directly behind a `[` and at the end it is itself.
-/
import Far2l.Lib.Glob
import Far2l.Mix.ProcessName
import Mathlib.Data.List.TakeWhile

namespace Far2l.ProcessName

open Glob

/-! ## The meaning of a mask -/

/-- The ranges of a set behind the character `prev`. -/
def ranges (prev : WChar) : WStr → List (WChar × WChar)
  | [] => []
  | [c] => [(c, c)]
  | c :: stop :: body =>
      if c = HYPHEN ∧ prev ≠ LBRACKET then (prev, stop) :: ranges stop body else (c, c) :: ranges c (stop :: body)

/-- The set behind a `[`. -/
def setBody (pattern : WStr) : WStr := pattern.takeWhile (· ≠ RBRACKET)

/-- What is left behind the set. -/
def setRest (pattern : WStr) : WStr := (pattern.dropWhile (· ≠ RBRACKET)).tail

/-- The characters that a set lists. -/
def Listed (fold : WChar → WChar) (body : WStr) (x : WChar) : Prop :=
  ∃ r ∈ ranges LBRACKET body, fold r.1 ≤ fold x ∧ fold x ≤ fold r.2

/-- What the character `c` of a mask, with `pattern` behind it, stands for. -/
def kindOf (fold : WChar → WChar) (c : WChar) (pattern : WStr) (x : WChar) : Prop :=
  if c = QUESTION then True
  else if c = LBRACKET ∧ RBRACKET ∈ pattern then
    if pattern.tail.head? = some RBRACKET then fold x = fold (pattern.headD 0) else Listed fold (setBody pattern) x
  else fold x = fold c

/-- What is left of the mask behind it. -/
def restOf (c : WChar) (pattern : WStr) : WStr :=
  if c = LBRACKET ∧ RBRACKET ∈ pattern then
    if pattern.tail.head? = some RBRACKET then pattern.drop 2 else setRest pattern
  else pattern

theorem restOf_suffix (c : WChar) (pattern : WStr) : restOf c pattern <:+ pattern := by
  rw [restOf]
  split
  · split
    · exact List.drop_suffix _ _
    · exact (List.tail_suffix _).trans (List.dropWhile_suffix _)
  · exact List.suffix_refl _

/-- The mask as a pattern; characters that `fold` makes equal are the same. -/
def items (fold : WChar → WChar) (pattern : WStr) : List (Item WChar) :=
  match pattern with
  | [] => []
  | c :: pattern =>
      if c = STAR then .any :: items fold pattern
      else .one (kindOf fold c pattern) :: items fold (restOf c pattern)
termination_by pattern.length
decreasing_by
  · exact Nat.lt_succ_self _
  · exact Nat.lt_succ_of_le (restOf_suffix c pattern).length_le

/-! ## The set -/

section Set

variable {C : Comparison}

theorem wcharLe_antisymm {a b : WChar} (h : wcharLe a b) (h' : wcharLe b a) : a = b := by
  rw [wcharLe, decide_eq_true_iff] at h h'
  have heq := congrArg Int32.toUInt32 (Int32.le_antisymm h h')
  rwa [UInt32.toUInt32_toInt32, UInt32.toUInt32_toInt32] at heq

theorem wcharLe_refl (a : WChar) : wcharLe a a := by
  rw [wcharLe, decide_eq_true_iff]
  exact Int32.le_refl _

/-- Is the character inside one of the ranges? -/
def hit (C : Comparison) (stringc : WChar) (r : WChar × WChar) : Bool :=
  wcharLe stringc (C.upper r.2) && wcharLe (C.upper r.1) stringc

theorem hit_single (stringc c : WChar) : hit C stringc (c, c) = decide (stringc = C.upper c) := by
  rw [Bool.eq_iff_iff, hit, Bool.and_eq_true, decide_eq_true_iff]
  constructor
  · rintro ⟨h, h'⟩
    exact wcharLe_antisymm h h'
  · rintro rfl
    exact ⟨wcharLe_refl _, wcharLe_refl _⟩

theorem setBody_cons {c : WChar} (h : c ≠ RBRACKET) (pattern : WStr) : setBody (c :: pattern) = c :: setBody pattern :=
  List.takeWhile_cons_of_pos (by simpa using h)

theorem setRest_cons {c : WChar} (h : c ≠ RBRACKET) (pattern : WStr) : setRest (c :: pattern) = setRest pattern := by
  rw [setRest, List.dropWhile_cons_of_pos (by simpa using h), setRest]

/-- Once a range has matched, the rest of the set is passed over. -/
theorem setLoop_found (stringc : WChar) : ∀ (pattern : WStr) (prev : WChar), RBRACKET ∈ pattern →
    setLoop C stringc true prev pattern = some (some (setRest pattern))
  | [], _, h => absurd h List.not_mem_nil
  | c :: pattern, prev, h => by
    unfold setLoop
    by_cases hc : c = RBRACKET
    · rw [if_pos hc, hc]
      rfl
    · rw [if_neg hc, if_pos rfl, setRest_cons hc]
      exact setLoop_found stringc pattern c (List.mem_of_ne_of_mem (Ne.symm hc) h)

/-- **The scan of a set** ends at the closing bracket, and finds the ranges it lists. -/
theorem setLoop_eq (stringc : WChar) : ∀ (pattern : WStr) (found : Bool) (prev : WChar), RBRACKET ∈ pattern →
    setLoop C stringc found prev pattern =
      some (if found || (ranges prev (setBody pattern)).any (hit C stringc) then some (setRest pattern) else none)
  | pattern, true, prev, h => by
    rw [setLoop_found stringc pattern prev h]
    rfl
  | [], false, _, h => absurd h List.not_mem_nil
  | c :: pattern, false, prev, h => by
    unfold setLoop
    by_cases hc : c = RBRACKET
    · rw [if_pos hc, hc]
      rfl
    have hmem := List.mem_of_ne_of_mem (Ne.symm hc) h
    rw [if_neg hc, setBody_cons hc, setRest_cons hc, if_neg (by simp), Bool.false_or]
    obtain _ | ⟨stop, pattern⟩ := pattern
    · exact absurd hmem List.not_mem_nil
    · by_cases hstop : stop = RBRACKET
      · -- the last character of the set is itself
        have hbody : setBody (stop :: pattern) = [] := List.takeWhile_cons_of_neg (by simpa using hstop)
        rw [if_neg (by simp [hstop]), setLoop_eq stringc _ _ c hmem, hbody, ranges, ranges, List.any_nil, Bool.or_false,
          List.any_cons, List.any_nil, Bool.or_false, hit_single]
      · rw [setBody_cons hstop, ranges]
        by_cases hrange : c = HYPHEN ∧ prev ≠ LBRACKET
        · rw [if_pos ⟨hrange.1, hrange.2, by simpa using hstop⟩, if_pos hrange]
          dsimp only
          rw [setLoop_eq stringc pattern _ stop (List.mem_of_ne_of_mem (Ne.symm hstop) hmem), setRest_cons hstop,
            List.any_cons]
          rfl
        · rw [if_neg fun hand => hrange ⟨hand.1, hand.2.1⟩, if_neg hrange, setLoop_eq stringc _ _ c hmem, List.any_cons,
            hit_single, setBody_cons hstop]

theorem setLoop_open (stringc : WChar) {pattern : WStr} (h : RBRACKET ∈ pattern) :
    setLoop C stringc false LBRACKET pattern =
      some (if (ranges LBRACKET (setBody pattern)).any (hit C stringc) then some (setRest pattern) else none) := by
  rw [setLoop_eq stringc pattern false LBRACKET h, Bool.false_or]

/-- A property of the characters of a set is one of its ranges. -/
theorem ranges_forall {P : WChar → Prop} : ∀ {w : WStr} {prev : WChar}, P prev → (∀ c ∈ w, P c) →
    ∀ r ∈ ranges prev w, P r.1 ∧ P r.2
  | [], _, _, _, r, hr => absurd hr List.not_mem_nil
  | [c], _, _, hbody, r, hr => by
    obtain rfl := List.mem_singleton.mp hr
    exact ⟨hbody c List.mem_cons_self, hbody c List.mem_cons_self⟩
  | c :: stop :: body, prev, hprev, hbody, r, hr => by
    have hc := hbody c List.mem_cons_self
    have hstop := hbody stop (by simp)
    rw [ranges] at hr
    split at hr
    · rcases List.mem_cons.mp hr with rfl | hr
      · exact ⟨hprev, hstop⟩
      · exact ranges_forall hstop (fun x hx => hbody x (by simp [hx])) r hr
    · rcases List.mem_cons.mp hr with rfl | hr
      · exact ⟨hc, hc⟩
      · exact ranges_forall hc (fun x hx => hbody x (List.mem_cons_of_mem _ hx)) r hr

end Set

/-! ## One turn of the loop -/

section Turn

variable {C : Comparison}

/-- Does the character match? -/
def accepts (C : Comparison) (c : WChar) (pattern : WStr) (x : WChar) : Bool :=
  if c = QUESTION then x ≠ 0
  else if c = LBRACKET then
    if RBRACKET ∉ pattern then c = x
    else if pattern.tail.head? = some RBRACKET then pattern.headD 0 = x
    else (ranges LBRACKET (setBody pattern)).any (hit C (C.upper x))
  else C.upper c = x ∨ C.lower c = x

theorem ite_not_decide {α : Type} (P : Prop) [Decidable P] (a b : α) :
    (if ¬ P then a else b) = if decide P = true then b else a := by
  by_cases h : P
  · rw [if_neg (not_not.mpr h), if_pos (decide_eq_true h)]
  · rw [if_pos h, if_neg (by simpa using h)]

/-- What is no `*` asks for a character, and then goes on behind it. -/
theorem cmpNameBody_turn {c : WChar} (hstar : c ≠ STAR) (pattern str : WStr) :
    cmpNameBody C (c :: pattern) str =
      if accepts C c pattern (str.headD 0) then nextTurn (cmpNameBody C (restOf c pattern)) str else some false := by
  by_cases hquestion : c = QUESTION
  · have hrest : restOf c pattern = pattern :=
      if_neg fun h => absurd (hquestion.symm.trans h.1) (by decide)
    rw [cmpNameBody, if_pos hquestion, accepts, if_pos hquestion, hrest]
    by_cases hend : str.headD 0 = 0
    · rw [if_pos hend, if_neg (by simpa using hend)]
    · rw [if_neg hend, if_pos (by simpa using hend)]
  by_cases hbracket : c = LBRACKET
  · rw [cmpNameBody, if_neg hquestion, if_neg hstar, if_pos hbracket, accepts, if_neg hquestion, if_pos hbracket]
    by_cases hclosed : RBRACKET ∈ pattern
    · rw [if_neg (not_not.mpr hclosed), if_neg (not_not.mpr hclosed)]
      by_cases hone : pattern.tail.head? = some RBRACKET
      · have hrest : restOf c pattern = pattern.drop 2 := by
          rw [restOf, if_pos ⟨hbracket, hclosed⟩, if_pos hone]
        rw [if_pos hone, if_pos hone, hrest]
        exact ite_not_decide _ _ _
      · have hrest : restOf c pattern = setRest pattern := by
          rw [restOf, if_pos ⟨hbracket, hclosed⟩, if_neg hone]
        have hset := setLoop_open (C := C) (C.upper (str.headD 0)) hclosed
        rw [if_neg hone, if_neg hone, hrest]
        split
        · rename_i heq
          rw [hset] at heq
          cases heq
        · rename_i heq
          rw [hset] at heq
          split at heq
          · cases heq
          · rename_i hany
            rw [if_neg hany]
        · rename_i heq
          rw [hset] at heq
          split at heq
          · rename_i hany
            cases heq
            rw [if_pos hany]
          · cases heq
    · have hrest : restOf c pattern = pattern := if_neg fun h => hclosed h.2
      rw [if_pos hclosed, if_pos hclosed, hrest]
      exact ite_not_decide _ _ _
  · have hrest : restOf c pattern = pattern := if_neg fun h => hbracket h.1
    rw [cmpNameBody, if_neg hquestion, if_neg hstar, if_neg hbracket, accepts, if_neg hquestion, if_neg hbracket, hrest]
    by_cases heq : C.upper c = str.headD 0 ∨ C.lower c = str.headD 0
    · rw [if_neg fun h => heq.elim h.1 h.2, if_pos (decide_eq_true heq)]
    · rw [if_pos (not_or.mp heq), if_neg (by simpa using heq)]

variable {body : WStr → Option Bool} (hbody : ∀ t, (body t).isSome)
include hbody

theorem isSome_anyTail : ∀ str, (anyTail body str).isSome
  | [] => hbody []
  | c :: str => by
    rw [anyTail]
    obtain ⟨b, hb⟩ := Option.isSome_iff_exists.mp (hbody (c :: str))
    rw [hb]
    cases b with
    | true => rfl
    | false => exact isSome_anyTail str

/-- Behind a `*` the rest of the mask may begin anywhere. -/
theorem anyTail_iff : ∀ str, anyTail body str = some true ↔ ∃ t, t <:+ str ∧ body t = some true
  | [] => by
    rw [anyTail]
    exact ⟨fun h => ⟨[], List.suffix_refl _, h⟩, fun ⟨t, ht, h⟩ => List.suffix_nil.mp ht ▸ h⟩
  | c :: str => by
    have ih := anyTail_iff str
    rw [anyTail]
    obtain ⟨b, hb⟩ := Option.isSome_iff_exists.mp (hbody (c :: str))
    rw [hb]
    cases b with
    | true => exact iff_of_true rfl ⟨_, List.suffix_refl _, hb⟩
    | false =>
      refine ih.trans ⟨fun ⟨t, ht, h⟩ => ⟨t, ht.trans (List.suffix_cons c str), h⟩, fun ⟨t, ht, h⟩ => ?_⟩
      rcases List.suffix_cons_iff.mp ht with rfl | ht
      · exact absurd (hb.symm.trans h) (by simp)
      · exact ⟨t, ht, h⟩

end Turn

/-! ## Nothing behind a NUL is read -/

/-- A character: no NUL, and no negative `wchar_t`. -/
def IsCharacter (c : WChar) : Prop := c ≠ 0 ∧ c < 0x80000000

theorem wcharLe_iff {a b : WChar} (ha : a < 0x80000000) (hb : b < 0x80000000) : wcharLe a b ↔ a ≤ b := by
  rw [UInt32.lt_iff_toNat_lt] at ha hb
  have ha' : 2 * a.toBitVec.toNat < 2 ^ 32 := by
    change a.toBitVec.toNat < 2147483648 at ha
    omega
  have hb' : 2 * b.toBitVec.toNat < 2 ^ 32 := by
    change b.toBitVec.toNat < 2147483648 at hb
    omega
  rw [wcharLe, decide_eq_true_iff, Int32.le_iff_toInt_le, UInt32.le_iff_toNat_le]
  show a.toBitVec.toInt ≤ b.toBitVec.toInt ↔ a.toBitVec.toNat ≤ b.toBitVec.toNat
  rw [BitVec.toInt_eq_toNat_cond, BitVec.toInt_eq_toNat_cond, if_pos ha', if_pos hb', Int.ofNat_le]

/-- The two mappings take characters to characters, and the NUL stays what it is. -/
structure Proper (C : Comparison) : Prop where
  upper_zero : C.upper 0 = 0
  upper : ∀ c, IsCharacter c → IsCharacter (C.upper c)
  lower : ∀ c, IsCharacter c → C.lower c ≠ 0

section

variable {C : Comparison} (hC : Proper C)
include hC

theorem not_accepts_nul {c : WChar} {pattern : WStr} (hc : IsCharacter c) (hp : ∀ x ∈ pattern, IsCharacter x) :
    accepts C c pattern 0 = false := by
  rw [accepts]
  split
  · simp
  split
  · split
    · simpa using hc.1
    split
    · rename_i hone
      cases pattern with
      | nil => cases hone
      | cons x pattern => simpa using (hp x List.mem_cons_self).1
    · rename_i hbracket _ _
      have hset : ∀ r ∈ ranges LBRACKET (setBody pattern), IsCharacter r.1 ∧ IsCharacter r.2 :=
        ranges_forall (hbracket ▸ hc) fun x hx => hp x ((List.takeWhile_sublist _).subset hx)
      rw [List.any_eq_false, hC.upper_zero]
      intro r hr hhit
      rw [hit, Bool.and_eq_true] at hhit
      have hpos := hC.upper r.1 (hset r hr).1
      have hle := (wcharLe_iff hpos.2 (by decide)).mp hhit.2
      exact hpos.1 (UInt32.le_zero_iff.mp hle)
  · simpa using ⟨(hC.upper c hc).1, hC.lower c hc⟩

/-- **No character behind a NUL is read**, whatever the mask and the name are. -/
theorem isSome_cmpNameBody : ∀ {n : Nat} {pattern : WStr}, pattern.length ≤ n → (∀ c ∈ pattern, IsCharacter c) →
    ∀ str, (cmpNameBody C pattern str).isSome
  | _, [], _, _, str => by simp [cmpNameBody]
  | n + 1, c :: pattern, hn, hp, str => by
    have hlen : pattern.length ≤ n := Nat.le_of_succ_le_succ hn
    have hrest := fun x hx => hp x (List.mem_cons_of_mem c hx)
    by_cases hstar : c = STAR
    · subst hstar
      rw [cmpNameBody, if_neg (by decide), if_pos rfl]
      split
      · rfl
      split
      · rfl
      · exact isSome_anyTail (isSome_cmpNameBody hlen hrest) str
    · have hsuffix := restOf_suffix c pattern
      rw [cmpNameBody_turn hstar]
      cases str with
      | nil => simp [not_accepts_nul hC (hp c List.mem_cons_self) hrest]
      | cons x str =>
        split
        · exact isSome_cmpNameBody (Nat.le_trans hsuffix.length_le hlen) (fun y hy => hrest y (hsuffix.subset hy)) str
        · rfl

end

/-! ## A mask matches as its pattern does -/

/-- On the characters `ok`, all three ways to compare are equality up to `fold`. -/
structure Compares (C : Comparison) (fold : WChar → WChar) (ok : WChar → Prop) : Prop where
  character : ∀ c, ok c → IsCharacter c
  bracket : ∀ x, ok x → fold x = fold LBRACKET → x = LBRACKET
  literal : ∀ p x, ok p → ok x → ((C.upper p = x ∨ C.lower p = x) ↔ fold x = fold p)
  order : ∀ a b, ok a → ok b → (C.upper a ≤ C.upper b ↔ fold a ≤ fold b)
  same : ∀ a b, (∀ c ∈ a, ok c) → (∀ c ∈ b, ok c) → a.length = b.length →
    (C.same a b ↔ List.Forall₂ (fun p x => fold x = fold p) a b)

/-- No set is of one letter that has another case. -/
def Caseless (fold : WChar → WChar) (ok : WChar → Prop) (pattern : WStr) : Prop :=
  ∀ x, [LBRACKET, x, RBRACKET] <:+: pattern → ∀ y, ok y → fold y = fold x → y = x

section

variable {C : Comparison} {fold : WChar → WChar} {ok : WChar → Prop} (hC : Proper C) (h : Compares C fold ok)
include hC h

theorem hit_iff {x : WChar} {r : WChar × WChar} (hx : ok x) (hr : ok r.1 ∧ ok r.2) :
    hit C (C.upper x) r ↔ fold r.1 ≤ fold x ∧ fold x ≤ fold r.2 := by
  have hupper : ∀ c, ok c → C.upper c < 0x80000000 := fun c hc => (hC.upper c (h.character c hc)).2
  rw [hit, Bool.and_eq_true, wcharLe_iff (hupper x hx) (hupper _ hr.2), wcharLe_iff (hupper _ hr.1) (hupper x hx),
    h.order _ _ hx hr.2, h.order _ _ hr.1 hx]
  exact and_comm

theorem accepts_iff {c x : WChar} {pattern : WStr} (hc : ok c) (hp : ∀ y ∈ pattern, ok y) (hx : ok x)
    (hone : Caseless fold ok (c :: pattern)) : accepts C c pattern x ↔ kindOf fold c pattern x := by
  rw [accepts, kindOf]
  by_cases hquestion : c = QUESTION
  · rw [if_pos hquestion, if_pos hquestion]
    simpa using (h.character x hx).1
  rw [if_neg hquestion, if_neg hquestion]
  by_cases hbracket : c = LBRACKET
  · subst hbracket
    rw [if_pos rfl]
    by_cases hclosed : RBRACKET ∈ pattern
    · have hset : LBRACKET = LBRACKET ∧ RBRACKET ∈ pattern := ⟨rfl, hclosed⟩
      rw [if_neg (not_not.mpr hclosed), if_pos hset]
      by_cases hletter : pattern.tail.head? = some RBRACKET
      · rw [if_pos hletter, if_pos hletter, decide_eq_true_iff]
        obtain ⟨y, rest, rfl⟩ : ∃ y rest, pattern = y :: RBRACKET :: rest := by
          match pattern, hletter with
          | y :: z :: rest, hletter => exact ⟨y, rest, by rw [Option.some.inj hletter]⟩
        have hinfix : [LBRACKET, y, RBRACKET] <:+: LBRACKET :: y :: RBRACKET :: rest := ⟨[], rest, rfl⟩
        exact ⟨fun heq => congrArg fold heq.symm, fun heq => (hone y hinfix x hx heq).symm⟩
      · rw [if_neg hletter, if_neg hletter, List.any_eq_true, Listed]
        have hbody := ranges_forall (P := ok) (w := setBody pattern) hc
          fun z hz => hp z ((List.takeWhile_sublist _).subset hz)
        exact exists_congr fun r => and_congr_right fun hr => hit_iff hC h hx (hbody r hr)
    · rw [if_pos hclosed, if_neg fun hand => hclosed hand.2, decide_eq_true_iff]
      exact ⟨fun heq => congrArg fold heq.symm, fun heq => (h.bracket x hx heq).symm⟩
  · rw [if_neg hbracket, if_neg fun hand => hbracket hand.1, decide_eq_true_iff]
    exact h.literal c x hc hx

omit hC h in
/-- Without wildcards the items are the characters. -/
theorem items_plain : ∀ {pattern : WStr}, STAR ∉ pattern → QUESTION ∉ pattern → LBRACKET ∉ pattern →
    items fold pattern = (pattern.map fun c x => fold x = fold c).map .one
  | [], _, _, _ => by rw [items]; rfl
  | c :: pattern, hstar, hquestion, hbracket => by
    rw [List.mem_cons, not_or] at hstar hquestion hbracket
    have hkind : kindOf fold c pattern = fun x => fold x = fold c := by
      funext x
      rw [kindOf, if_neg (Ne.symm hquestion.1), if_neg fun hand => hbracket.1 hand.1.symm]
    have hrest : restOf c pattern = pattern := if_neg fun hand => hbracket.1 hand.1.symm
    rw [items, if_neg (Ne.symm hstar.1), hkind, hrest, items_plain hstar.2 hquestion.2 hbracket.2]
    rfl

omit hC in
/-- **The suffix comparison** gives the answer of the pattern. -/
theorem endsLike_iff {pattern str : WStr} (hp : ∀ c ∈ pattern, ok c) (hs : ∀ x ∈ str, ok x)
    (hplain : STAR ∉ pattern ∧ QUESTION ∉ pattern ∧ LBRACKET ∉ pattern) :
    endsLike C pattern str ↔ Matches (.any :: items fold pattern) str := by
  rw [items_plain hplain.1 hplain.2.1 hplain.2.2, matches_suffix_iff, endsLike, Bool.and_eq_true, decide_eq_true_iff,
    List.length_map]
  refine and_congr_right fun hle => ?_
  have hlen : (str.drop (str.length - pattern.length)).length = pattern.length := by
    rw [List.length_drop]
    omega
  rw [h.same pattern _ hp (fun x hx => hs x (List.mem_of_mem_drop hx)) hlen.symm, List.forall₂_map_left_iff]

/-- **`CmpName` matches as a pattern**, where the three ways to compare agree on the characters. -/
theorem cmpNameBody_iff : ∀ {n : Nat} {pattern : WStr}, pattern.length ≤ n → (∀ c ∈ pattern, ok c) →
    Caseless fold ok pattern → ∀ str : WStr, (∀ x ∈ str, ok x) →
      (cmpNameBody C pattern str = some true ↔ Matches (items fold pattern) str)
  | _, [], _, _, _, str, hs => by
    rw [cmpNameBody, items, matches_nil]
    cases str with
    | nil => simp
    | cons x str => simpa using (h.character x (hs x List.mem_cons_self)).1
  | n + 1, c :: pattern, hn, hp, hone, str, hs => by
    have hlen : pattern.length ≤ n := Nat.le_of_succ_le_succ hn
    have hrest := fun x hx => hp x (List.mem_cons_of_mem c hx)
    have hsuffix : Caseless fold ok pattern := fun x hx => hone x (hx.trans (List.suffix_cons c pattern).isInfix)
    rw [items]
    by_cases hstar : c = STAR
    · subst hstar
      rw [if_pos rfl, cmpNameBody, if_neg (by decide), if_pos rfl]
      by_cases hend : pattern = []
      · rw [if_pos hend, hend, items]
        exact iff_of_true rfl (matches_any_last str)
      rw [if_neg hend]
      by_cases hplain : STAR ∉ pattern ∧ QUESTION ∉ pattern ∧ LBRACKET ∉ pattern
      · rw [if_pos hplain, Option.some_inj]
        exact endsLike_iff h hrest hs hplain
      · have hsome := fun t =>
          isSome_cmpNameBody hC hlen (fun x hx => h.character x (hrest x hx)) t
        rw [if_neg hplain, anyTail_iff hsome]
        refine exists_congr fun t => and_congr_right fun ht => ?_
        exact cmpNameBody_iff hlen hrest hsuffix t fun x hx => hs x (ht.subset hx)
    · have hinner := restOf_suffix c pattern
      rw [if_neg hstar, cmpNameBody_turn hstar]
      cases str with
      | nil =>
        have hnul := not_accepts_nul hC (h.character c (hp c List.mem_cons_self)) fun x hx =>
          h.character x (hrest x hx)
        simp [hnul]
      | cons x str =>
        have hx := hs x List.mem_cons_self
        have haccepts := accepts_iff hC h (hp c List.mem_cons_self) hrest hx hone
        rw [List.headD_cons, matches_one_cons]
        by_cases hkind : accepts C c pattern x
        · rw [if_pos hkind]
          have hgo := cmpNameBody_iff (Nat.le_trans hinner.length_le hlen) (fun y hy => hrest y (hinner.subset hy))
            (fun y hy => hsuffix y (hy.trans hinner.isInfix)) str fun y hy => hs y (List.mem_cons_of_mem x hy)
          exact hgo.trans ⟨fun hm => ⟨haccepts.mp hkind, hm⟩, fun hm => hm.2⟩
        · rw [if_neg hkind]
          exact iff_of_false (by simp) fun hm => hkind (haccepts.mpr hm.1)

end

/-! ## The two cases -/

theorem proper_asIs : Proper .asIs := ⟨rfl, fun _ h => h, fun _ h => h.1⟩

theorem compares_asIs : Compares .asIs id IsCharacter where
  character _ h := h
  bracket _ _ h := h
  literal p x _ _ := (or_self_iff (a := p = x)).trans eq_comm
  order _ _ _ _ := Iff.rfl
  same a b _ _ _ := by
    have hsymm : (fun p x : WChar => id x = id p) = Eq := funext fun p => funext fun x => propext eq_comm
    rw [hsymm, List.forall₂_eq_eq_eq]
    exact decide_eq_true_iff

/-- ASCII case folding -/
def asciiFold (c : WChar) : WChar := if 0x61 ≤ c ∧ c ≤ 0x7A then c - 0x20 else c

def Printable (c : WChar) : Prop := 0x20 ≤ c ∧ c ≤ 0x7E

theorem ascii_iff (c : WChar) : c &&& 0x7F = c ↔ c.toNat < 128 := by
  rw [← UInt32.toNat_inj, UInt32.toNat_and]
  have hmask : c.toNat &&& (0x7F : UInt32).toNat = c.toNat % 128 := Nat.and_two_pow_sub_one_eq_mod c.toNat 7
  rw [hmask]
  omega

theorem toNat_asciiFold (c : WChar) :
    (asciiFold c).toNat = if 97 ≤ c.toNat ∧ c.toNat ≤ 122 then c.toNat - 32 else c.toNat := by
  have hiff : (0x61 ≤ c ∧ c ≤ 0x7A) ↔ (97 ≤ c.toNat ∧ c.toNat ≤ 122) :=
    and_congr UInt32.le_iff_toNat_le UInt32.le_iff_toNat_le
  rw [asciiFold]
  by_cases hletter : 97 ≤ c.toNat ∧ c.toNat ≤ 122
  · rw [if_pos (hiff.mpr hletter), if_pos hletter]
    refine UInt32.toNat_sub_of_le _ _ (UInt32.le_iff_toNat_le.mpr ?_)
    show 32 ≤ c.toNat
    omega
  · rw [if_neg fun h => hletter (hiff.mp h), if_neg hletter]

theorem toNat_lower (charLower : WChar → WChar) {c : WChar} (h : c.toNat < 128) :
    (lower charLower c).toNat = if 65 ≤ c.toNat ∧ c.toNat ≤ 90 then c.toNat + 32 else c.toNat := by
  have hiff : (0x41 ≤ c ∧ c ≤ 0x5A) ↔ (65 ≤ c.toNat ∧ c.toNat ≤ 90) :=
    and_congr UInt32.le_iff_toNat_le UInt32.le_iff_toNat_le
  rw [lower, if_pos ((ascii_iff c).mpr h)]
  by_cases hletter : 65 ≤ c.toNat ∧ c.toNat ≤ 90
  · rw [if_pos (hiff.mpr hletter), if_pos hletter, UInt32.toNat_add]
    show (c.toNat + 32) % 2 ^ 32 = _
    omega
  · rw [if_neg fun h => hletter (hiff.mp h), if_neg hletter]

theorem upper_ascii (charUpper : WChar → WChar) {c : WChar} (h : c.toNat < 128) : upper charUpper c = asciiFold c :=
  if_pos ((ascii_iff c).mpr h)

/-- `CharUpperBuff` and `CharLowerBuff` make a character of a character. -/
def CaseMap (charCase : WChar → WChar) : Prop := ∀ c, IsCharacter c → IsCharacter (charCase c)

theorem isCharacter_iff (c : WChar) : IsCharacter c ↔ 0 < c.toNat ∧ c.toNat < 2147483648 := by
  rw [IsCharacter, UInt32.lt_iff_toNat_lt, Ne, ← UInt32.toNat_inj, Nat.pos_iff_ne_zero]
  exact Iff.rfl

theorem proper_ignoringCase (T : WinPort.CollationTables) {charUpper charLower : WChar → WChar}
    (hupper : CaseMap charUpper) (hlower : CaseMap charLower) : Proper (.ignoringCase T charUpper charLower) where
  upper_zero := rfl
  upper c hc := by
    show IsCharacter (upper charUpper c)
    by_cases hascii : c.toNat < 128
    · rw [upper_ascii charUpper hascii]
      rw [isCharacter_iff] at hc ⊢
      rw [toNat_asciiFold]
      split <;> omega
    · rw [upper, if_neg fun h => hascii ((ascii_iff c).mp h)]
      exact hupper c hc
  lower c hc := by
    show lower charLower c ≠ 0
    by_cases hascii : c.toNat < 128
    · rw [isCharacter_iff] at hc
      rw [Ne, ← UInt32.toNat_inj, toNat_lower charLower hascii]
      show ¬ _ = 0
      split <;> omega
    · rw [lower, if_neg fun h => hascii ((ascii_iff c).mp h)]
      exact (hlower c hc).1

/-- The weights of the printable characters of ASCII: one for each, and the same for both cases of a
letter only. -/
structure Collates (T : WinPort.CollationTables) : Prop where
  decompose : ∀ c, Printable c → T.decompose c = [c]
  weight_ne : ∀ c, Printable c → T.evalWeight c ≠ 0
  weight_iff : ∀ a b, Printable a → Printable b → (T.evalWeight a = T.evalWeight b ↔ asciiFold b = asciiFold a)

section

variable {T : WinPort.CollationTables} (hT : Collates T)
include hT

theorem weights_printable : ∀ {s : WStr}, (∀ c ∈ s, Printable c) → T.weights s = s.map T.evalWeight
  | [], _ => rfl
  | c :: s, hs => by
    have ih := weights_printable fun x hx => hs x (List.mem_cons_of_mem c hx)
    rw [WinPort.CollationTables.weights] at ih ⊢
    rw [List.flatMap_cons, ih, hT.decompose c (hs c List.mem_cons_self)]
    rfl

theorem strCmpNI_iff {a b : WStr} (ha : ∀ c ∈ a, Printable c) (hb : ∀ c ∈ b, Printable c) (hlen : a.length = b.length) :
    T.strCmpNI a b a.length = 0 ↔ List.Forall₂ (fun p x => asciiFold x = asciiFold p) a b := by
  rw [WinPort.CollationTables.strCmpNI, List.take_length, hlen, List.take_length,
    WinPort.CollationTables.compareWeights_eq_zero, weights_printable hT ha, weights_printable hT hb,
    WinPort.CollationTables.significant_eq_self, WinPort.CollationTables.significant_eq_self]
  · rw [← List.forall₂_eq_eq_eq, List.forall₂_map_left_iff, List.forall₂_map_right_iff]
    clear hlen
    induction a generalizing b with
    | nil => simp
    | cons p a ih =>
      cases b with
      | nil => simp
      | cons x b =>
        rw [List.forall₂_cons, List.forall₂_cons,
          hT.weight_iff p x (ha p List.mem_cons_self) (hb x List.mem_cons_self),
          ih (fun c hc => ha c (List.mem_cons_of_mem p hc)) fun c hc => hb c (List.mem_cons_of_mem x hc)]
  · intro w hw
    obtain ⟨c, hc, rfl⟩ := List.mem_map.mp hw
    exact hT.weight_ne c (hb c hc)
  · intro w hw
    obtain ⟨c, hc, rfl⟩ := List.mem_map.mp hw
    exact hT.weight_ne c (ha c hc)

theorem compares_ignoringCase (charUpper charLower : WChar → WChar) :
    Compares (.ignoringCase T charUpper charLower) asciiFold Printable := by
  have hnat : ∀ c, Printable c → 32 ≤ c.toNat ∧ c.toNat ≤ 126 := fun c hc =>
    ⟨UInt32.le_iff_toNat_le.mp hc.1, UInt32.le_iff_toNat_le.mp hc.2⟩
  have hupper : ∀ c, Printable c → upper charUpper c = asciiFold c := fun c hc =>
    upper_ascii charUpper (by have := hnat c hc; omega)
  refine ⟨fun c hc => ?_, fun x hx heq => ?_, fun p x hp hx => ?_, fun a b ha hb => ?_, fun a b ha hb hlen => ?_⟩
  · have := hnat c hc
    rw [isCharacter_iff]
    omega
  · have := hnat x hx
    rw [← UInt32.toNat_inj, toNat_asciiFold, toNat_asciiFold] at heq
    rw [← UInt32.toNat_inj]
    change _ = 91 at heq
    show x.toNat = 91
    split at heq <;> omega
  · have hp' := hnat p hp
    have hx' := hnat x hx
    show upper charUpper p = x ∨ lower charLower p = x ↔ _
    rw [hupper p hp, ← UInt32.toNat_inj, ← UInt32.toNat_inj, ← UInt32.toNat_inj, toNat_asciiFold, toNat_asciiFold,
      toNat_lower charLower (by omega)]
    split <;> split <;> split <;> omega
  · show upper charUpper a ≤ upper charUpper b ↔ _
    rw [hupper a ha, hupper b hb]
  · exact decide_eq_true_iff.trans (strCmpNI_iff hT ha hb hlen)

end

/-! ## `CmpName` -/

/-- Tables that know ASCII: control characters have one weight. -/
def sampleTables : WinPort.CollationTables where
  entry c := if c < 0x20 then 0 else asciiFold c <<< 16
  charType _ := 0
  decompose c := [c]
  tolower := id

theorem collates_sampleTables : Collates sampleTables := by
  have hall : ∀ n : Fin 95, let c := UInt32.ofNat (n.val + 32)
      sampleTables.evalWeight c &&& 0x7F = asciiFold c ∧
        sampleTables.evalWeight c = sampleTables.evalWeight (asciiFold c) ∧ sampleTables.evalWeight c ≠ 0 := by decide
  have hone : ∀ c, Printable c → sampleTables.evalWeight c &&& 0x7F = asciiFold c ∧
      sampleTables.evalWeight c = sampleTables.evalWeight (asciiFold c) ∧ sampleTables.evalWeight c ≠ 0 := by
    intro c hc
    have hlow : 32 ≤ c.toNat := UInt32.le_iff_toNat_le.mp hc.1
    have hhigh : c.toNat ≤ 126 := UInt32.le_iff_toNat_le.mp hc.2
    have h := hall ⟨c.toNat - 32, by omega⟩
    have heq : UInt32.ofNat (c.toNat - 32 + 32) = c := by
      rw [Nat.sub_add_cancel hlow, UInt32.ofNat_toNat]
    rwa [heq] at h
  refine ⟨fun _ _ => rfl, fun c hc => (hone c hc).2.2, fun a b ha hb => ⟨fun h => ?_, fun h => ?_⟩⟩
  · rw [← (hone a ha).1, ← (hone b hb).1, h]
  · rw [(hone a ha).2.1, (hone b hb).2.1, h]

end Far2l.ProcessName
