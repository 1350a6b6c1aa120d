/-
Far2l.Utils.Base64 — `utils/src/base64.cpp`, and the values of
`utils/src/StackSerializer.cpp` whose buffer travels as such a text.

The decoder counts the characters it has read with an `int`.
-/
import Far2l.Utils.StackSerializer
import Mathlib.Data.List.TakeWhile

namespace Far2l.Base64

/-! ## The text -/

def base64_chars : List Byte :=
  (List.range 26).map (fun i => UInt8.ofNat (0x41 + i)) ++ (List.range 26).map (fun i => UInt8.ofNat (0x61 + i)) ++
    (List.range 10).map (fun i => UInt8.ofNat (0x30 + i)) ++ [0x2B, 0x2F]

def is_base64 (c : Byte) : Bool :=
  (0x30 ≤ c ∧ c ≤ 0x39) ∨ (0x41 ≤ c ∧ c ≤ 0x5A) ∨ (0x61 ≤ c ∧ c ≤ 0x7A) ∨ c = 0x2B ∨ c = 0x2F

/-- `base64_chars[i]` -/
def charOf (i : Byte) : Byte := base64_chars.getD i.toNat 0

/-- `base64_chars.find`, as an `unsigned char` -/
def find (c : Byte) : Byte := if c ∈ base64_chars then UInt8.ofNat (base64_chars.idxOf c) else 0xFF

/-- `char_array_4` of three bytes. -/
def char_array_4 (a b c : Byte) : List Byte :=
  [(a &&& 0xFC) >>> 2, ((a &&& 0x03) <<< 4) + ((b &&& 0xF0) >>> 4), ((b &&& 0x0F) <<< 2) + ((c &&& 0xC0) >>> 6),
    c &&& 0x3F]

/-- `char_array_3` of four indices. -/
def char_array_3 (i j k l : Byte) : List Byte :=
  [(i <<< 2) + ((j &&& 0x30) >>> 4), ((j &&& 0x0F) <<< 4) + ((k &&& 0x3C) >>> 2), ((k &&& 0x03) <<< 6) + l]

/-- `base64_encode` -/
def base64_encode : List Byte → List Byte
  | a :: b :: c :: buf => (char_array_4 a b c).map charOf ++ base64_encode buf
  | [a, b] => ((char_array_4 a b 0).take 3).map charOf ++ [0x3D]
  | [a] => ((char_array_4 a 0 0).take 2).map charOf ++ [0x3D, 0x3D]
  | [] => []

/-- The bytes of four characters, or of the last ones. -/
def decoded (chars : List Byte) : List Byte :=
  let at_ (i : Nat) := find (chars.getD i 0)
  (char_array_3 (at_ 0) (at_ 1) (at_ 2) (at_ 3)).take (chars.length - 1)

/-- `in_++` -/
def next (in_ : Int) : Int := if in_ = 0x7FFFFFFF then -0x80000000 else in_ + 1

/-- The loop of `base64_decode`; nothing is known of a character outside the string. -/
def decodeLoop (encoded_string : List Byte) : Nat → Int → List Byte → Option (List Byte)
  | 0, _, chars => some (decoded chars)
  | in_len + 1, in_, chars =>
      match if in_ < 0 then none else encoded_string[in_.toNat]? with
      | none => none
      | some c =>
          if c ≠ 0x3D ∧ is_base64 c then
            if chars.length = 3 then
              (decodeLoop encoded_string in_len (next in_) []).map (decoded (chars ++ [c]) ++ ·)
            else decodeLoop encoded_string in_len (next in_) (chars ++ [c])
          else some (decoded chars)

/-- `base64_decode` -/
def base64_decode (encoded_string : List Byte) : Option (List Byte) :=
  decodeLoop encoded_string encoded_string.length 0 []

/-- `ToBase64` -/
def toBase64 (S : StackSerializer) : List Byte := if S.data ≠ [] then base64_encode S.data else []

/-- `FromBase64` -/
def fromBase64 (str : List Byte) : Option StackSerializer :=
  (if str.length ≠ 0 then base64_decode str else some []).map StackSerializer.mk

/-! ## A group of characters -/

theorem charOf_index : ∀ i : Fin 64, find (charOf (UInt8.ofNat i)) = UInt8.ofNat i ∧
    is_base64 (charOf (UInt8.ofNat i)) = true ∧ charOf (UInt8.ofNat i) ≠ 0x3D := by decide

/-- A character that stands for an index. -/
theorem charOf_spec {i : Byte} (h : i.toNat < 64) :
    find (charOf i) = i ∧ is_base64 (charOf i) = true ∧ charOf i ≠ 0x3D := by
  have := charOf_index ⟨i.toNat, h⟩
  simpa only [UInt8.ofNat_toNat] using this

set_option maxRecDepth 8000 in
theorem toNat_parts : ∀ n : Fin 256, let x : Byte := UInt8.ofFin n
    ((x &&& 0xFC) >>> 2).toNat = x.toNat / 4 ∧ ((x &&& 0x03) <<< 4).toNat = x.toNat % 4 * 16 ∧
      ((x &&& 0xF0) >>> 4).toNat = x.toNat / 16 ∧ ((x &&& 0x0F) <<< 2).toNat = x.toNat % 16 * 4 ∧
      ((x &&& 0xC0) >>> 6).toNat = x.toNat / 64 ∧ (x &&& 0x3F).toNat = x.toNat % 64 := by decide

set_option maxRecDepth 8000 in
theorem toNat_joined : ∀ n : Fin 256, let x : Byte := UInt8.ofFin n
    (x <<< 2).toNat = x.toNat * 4 % 256 ∧ ((x &&& 0x30) >>> 4).toNat = x.toNat / 16 % 4 ∧
      ((x &&& 0x0F) <<< 4).toNat = x.toNat % 16 * 16 ∧ ((x &&& 0x3C) >>> 2).toNat = x.toNat / 4 % 16 ∧
      ((x &&& 0x03) <<< 6).toNat = x.toNat % 4 * 64 := by decide

/-- **Three bytes are four indices** below 64, and these are the three bytes. -/
theorem char_array_3_4 (a b c : Byte) : ∃ i j k l, char_array_4 a b c = [i, j, k, l] ∧
    (i.toNat < 64 ∧ j.toNat < 64 ∧ k.toNat < 64 ∧ l.toNat < 64) ∧ char_array_3 i j k l = [a, b, c] := by
  have ha := toNat_parts a.toFin
  have hb := toNat_parts b.toFin
  have hc := toNat_parts c.toFin
  refine ⟨_, _, _, _, rfl, ?_, ?_⟩
  · have := a.toNat_lt
    have := b.toNat_lt
    have := c.toNat_lt
    simp only [UInt8.ofFin_toFin] at ha hb hc
    rw [UInt8.toNat_add, UInt8.toNat_add]
    omega
  · generalize hi : (a &&& 0xFC) >>> 2 = i
    generalize hj : ((a &&& 0x03) <<< 4) + ((b &&& 0xF0) >>> 4) = j
    generalize hk : ((b &&& 0x0F) <<< 2) + ((c &&& 0xC0) >>> 6) = k
    generalize hl : c &&& 0x3F = l
    have hi' := toNat_joined i.toFin
    have hj' := toNat_joined j.toFin
    have hk' := toNat_joined k.toFin
    have ei := congrArg UInt8.toNat hi
    have ej := congrArg UInt8.toNat hj
    have ek := congrArg UInt8.toNat hk
    have el := congrArg UInt8.toNat hl
    rw [UInt8.toNat_add] at ej ek
    simp only [UInt8.ofFin_toFin] at ha hb hc hi' hj' hk'
    have := a.toNat_lt
    have := b.toNat_lt
    have := c.toNat_lt
    have h0 : (i <<< 2) + ((j &&& 0x30) >>> 4) = a := by
      rw [← UInt8.toNat_inj, UInt8.toNat_add]
      omega
    have h1 : ((j &&& 0x0F) <<< 4) + ((k &&& 0x3C) >>> 2) = b := by
      rw [← UInt8.toNat_inj, UInt8.toNat_add]
      omega
    have h2 : ((k &&& 0x03) <<< 6) + l = c := by
      rw [← UInt8.toNat_inj, UInt8.toNat_add]
      omega
    rw [char_array_3, h0, h1, h2]

/-! ## The loop of the decoder -/

section

variable {done rest chars : List Byte} {i : Byte} {n : Nat}

theorem next_length (h : done.length + 1 < 2 ^ 31) (c : Byte) : next done.length = ((done ++ [c]).length : Nat) := by
  rw [next, if_neg (by omega), List.length_append]
  rfl

/-- A character that is read. -/
theorem decodeLoop_char (hi : i.toNat < 64) (h : done.length + 1 < 2 ^ 31) (hchars : chars.length ≠ 3) :
    decodeLoop (done ++ charOf i :: rest) (n + 1) done.length chars =
      decodeLoop ((done ++ [charOf i]) ++ rest) n ((done ++ [charOf i]).length : Nat) (chars ++ [charOf i]) := by
  obtain ⟨-, hbase, heq⟩ := charOf_spec hi
  rw [decodeLoop, if_neg (by omega), Int.toNat_natCast, List.getElem?_append_right (Nat.le_refl _), Nat.sub_self]
  dsimp only [List.getElem?_cons_zero]
  rw [if_pos ⟨heq, hbase⟩, if_neg hchars, next_length h (charOf i), List.append_assoc]
  rfl

/-- The fourth one. -/
theorem decodeLoop_fourth (hi : i.toNat < 64) (h : done.length + 1 < 2 ^ 31) (hchars : chars.length = 3) :
    decodeLoop (done ++ charOf i :: rest) (n + 1) done.length chars =
      (decodeLoop ((done ++ [charOf i]) ++ rest) n ((done ++ [charOf i]).length : Nat) []).map
        (decoded (chars ++ [charOf i]) ++ ·) := by
  obtain ⟨-, hbase, heq⟩ := charOf_spec hi
  rw [decodeLoop, if_neg (by omega), Int.toNat_natCast, List.getElem?_append_right (Nat.le_refl _), Nat.sub_self]
  dsimp only [List.getElem?_cons_zero]
  rw [if_pos ⟨heq, hbase⟩, if_pos hchars, next_length h (charOf i), List.append_assoc]
  rfl

/-- What fills up the last group ends the loop. -/
theorem decodeLoop_pad : decodeLoop (done ++ 0x3D :: rest) (n + 1) done.length chars = some (decoded chars) := by
  rw [decodeLoop, if_neg (by omega), Int.toNat_natCast, List.getElem?_append_right (Nat.le_refl _), Nat.sub_self]
  exact if_neg fun h => h.1 rfl

end

theorem decoded_two {i j : Byte} (hi : i.toNat < 64) (hj : j.toNat < 64) (k l : Byte) :
    decoded [charOf i, charOf j] = (char_array_3 i j k l).take 1 := by
  have hdecoded : decoded [charOf i, charOf j] =
      (char_array_3 (find (charOf i)) (find (charOf j)) (find 0) (find 0)).take 1 := rfl
  rw [hdecoded, (charOf_spec hi).1, (charOf_spec hj).1]
  rfl

theorem decoded_three {i j k : Byte} (hi : i.toNat < 64) (hj : j.toNat < 64) (hk : k.toNat < 64) (l : Byte) :
    decoded [charOf i, charOf j, charOf k] = (char_array_3 i j k l).take 2 := by
  have hdecoded : decoded [charOf i, charOf j, charOf k] =
      (char_array_3 (find (charOf i)) (find (charOf j)) (find (charOf k)) (find 0)).take 2 := rfl
  rw [hdecoded, (charOf_spec hi).1, (charOf_spec hj).1, (charOf_spec hk).1]
  rfl

theorem decoded_four {i j k l : Byte} (hi : i.toNat < 64) (hj : j.toNat < 64) (hk : k.toNat < 64) (hl : l.toNat < 64) :
    decoded [charOf i, charOf j, charOf k, charOf l] = char_array_3 i j k l := by
  have hdecoded : decoded [charOf i, charOf j, charOf k, charOf l] =
      char_array_3 (find (charOf i)) (find (charOf j)) (find (charOf k)) (find (charOf l)) := rfl
  rw [hdecoded, (charOf_spec hi).1, (charOf_spec hj).1, (charOf_spec hk).1, (charOf_spec hl).1]

/-- **The decoder, from the end of what it has read**, gives back what has been encoded behind it. -/
theorem decodeLoop_encode : ∀ (bs done : List Byte), (done ++ base64_encode bs).length < 2 ^ 31 →
    decodeLoop (done ++ base64_encode bs) (base64_encode bs).length done.length [] = some bs
  | [], done, _ => by
    rw [base64_encode]
    rfl
  | [a], done, h => by
    obtain ⟨i, j, k, l, hfour, ⟨hi, hj, -, -⟩, hthree⟩ := char_array_3_4 a 0 0
    rw [base64_encode, hfour] at h ⊢
    simp only [List.take_succ_cons, List.take_zero, List.map_cons, List.map_nil, List.cons_append, List.nil_append,
      List.length_append, List.length_cons, List.length_nil] at h ⊢
    rw [decodeLoop_char hi (by omega) (by simp), decodeLoop_char hj (by simp; omega) (by simp), decodeLoop_pad]
    exact congrArg some ((decoded_two hi hj k l).trans (by rw [hthree]; rfl))
  | [a, b], done, h => by
    obtain ⟨i, j, k, l, hfour, ⟨hi, hj, hk, -⟩, hthree⟩ := char_array_3_4 a b 0
    rw [base64_encode, hfour] at h ⊢
    simp only [List.take_succ_cons, List.take_zero, List.map_cons, List.map_nil, List.cons_append, List.nil_append,
      List.length_append, List.length_cons, List.length_nil] at h ⊢
    rw [decodeLoop_char hi (by omega) (by simp), decodeLoop_char hj (by simp; omega) (by simp),
      decodeLoop_char hk (by simp; omega) (by simp), decodeLoop_pad]
    exact congrArg some ((decoded_three hi hj hk l).trans (by rw [hthree]; rfl))
  | a :: b :: c :: buf, done, h => by
    obtain ⟨i, j, k, l, hfour, ⟨hi, hj, hk, hl⟩, hthree⟩ := char_array_3_4 a b c
    rw [base64_encode, hfour] at h ⊢
    simp only [List.map_cons, List.map_nil, List.cons_append, List.nil_append, List.length_append,
      List.length_cons] at h ⊢
    rw [decodeLoop_char hi (by omega) (by simp), decodeLoop_char hj (by simp; omega) (by simp),
      decodeLoop_char hk (by simp; omega) (by simp), decodeLoop_fourth hl (by simp; omega) rfl,
      decodeLoop_encode buf _ (by simp; omega)]
    have hfour' := (decoded_four hi hj hk hl).trans hthree
    exact congrArg (fun bs => some (bs ++ buf)) hfour'

theorem length_base64_encode : ∀ bs : List Byte, (base64_encode bs).length = (bs.length + 2) / 3 * 4
  | [] => rfl
  | [_] => by simp [base64_encode, char_array_4]
  | [_, _] => by simp [base64_encode, char_array_4]
  | a :: b :: c :: buf => by
    rw [base64_encode, List.length_append, length_base64_encode buf]
    simp only [char_array_4, List.map_cons, List.map_nil, List.length_cons, List.length_nil]
    omega

/-- **What is sent as text arrives.** -/
theorem fromBase64_toBase64 {S : StackSerializer} (h : (S.data.length + 2) / 3 * 4 < 2 ^ 31) :
    fromBase64 (toBase64 S) = some S := by
  rw [toBase64]
  split
  · next hne =>
    have hpos := List.length_pos_iff.mpr hne
    have hlength := length_base64_encode S.data
    have hdecode : base64_decode (base64_encode S.data) = some S.data :=
      decodeLoop_encode S.data [] (by rw [List.nil_append, hlength]; exact h)
    rw [fromBase64, if_pos (by omega), hdecode]
    rfl
  · next hempty =>
    have hempty' : S = ⟨[]⟩ := congrArg StackSerializer.mk (Decidable.not_not.mp hempty)
    rw [hempty']
    rfl

/-! ## Values -/

/-- What is pushed: a number of so many bytes, or a string, by either `PushStr`. -/
inductive Value
  | num (size : Nat) (p : Fin (256 ^ size))
  | str (s : List Byte)
  | chars (s : List Byte)

namespace Value

/-- A `const char *` has no zero character within. -/
def Valid : Value → Prop
  | chars s => 0 ∉ s
  | _ => True

/-- A string is shorter than 2^32. -/
def Short : Value → Prop
  | num _ _ => True
  | str s => s.length < 2 ^ 32
  | chars s => s.length < 2 ^ 32

/-- How many bytes are pushed. -/
def size : Value → Nat
  | num size _ => size
  | str s => s.length + 4
  | chars s => s.length + 4

/-- `PushNum`, and both `PushStr`: a `std::string` that is too long throws, and of a `const char *` the length is 32
bits wide. -/
def push (S : StackSerializer) : Value → Option StackSerializer
  | num size p => some (S.pushNum size p)
  | str s =>
      let str_sz := s.length % 2 ^ 32
      if str_sz ≠ s.length then none
      else some ((if str_sz ≠ 0 then S.push s else S).pushNum 4 str_sz)
  | chars s =>
      let str_sz := (s.takeWhile (· ≠ 0)).length % 2 ^ 32
      some ((if str_sz ≠ 0 then S.push (s.take str_sz) else S).pushNum 4 str_sz)

/-- What the matching operation pops. -/
def popLike (S : StackSerializer) : Value → Option (Value × StackSerializer)
  | num size _ =>
      (S.popNum size).map fun r => (num size ⟨r.1 % 256 ^ size, Nat.mod_lt _ (Nat.pow_pos (by decide))⟩, r.2)
  | str _ => S.popStr.map fun r => (str r.1, r.2)
  | chars _ => S.popStr.map fun r => (chars r.1, r.2)

end Value

/-- Pushes values, one after the other. -/
def pushAll : List Value → StackSerializer → Option StackSerializer
  | [], S => some S
  | v :: vs, S => (v.push S).bind (pushAll vs)

/-- Pops values with the operations that match these, the first one first. -/
def popAll : List Value → StackSerializer → Option (List Value × StackSerializer)
  | [], S => some ([], S)
  | v :: vs, S => (v.popLike S).bind fun r => (popAll vs r.2).map fun rs => (r.1 :: rs.1, rs.2)

/-- Pushed, sent as text and popped in reverse order: the values are there, and nothing else. -/
def Restored (vs : List Value) : Prop :=
  ∃ S, pushAll vs {} = some S ∧ (fromBase64 (toBase64 S)).bind (popAll vs.reverse) = some (vs.reverse, {})

namespace Value

variable {v : Value}

/-- A string and its length. -/
theorem popStr_push {s : List Byte} (h : s.length < 2 ^ 32) (S : StackSerializer) :
    ((if s.length ≠ 0 then S.push s else S).pushNum 4 s.length).data.length = S.data.length + (s.length + 4) ∧
      ((if s.length ≠ 0 then S.push s else S).pushNum 4 s.length).popStr = some (s, S) := by
  have hsame : (if s.length ≠ 0 then S.push s else S) = S.push s := by
    split
    · rfl
    · next hempty =>
      rw [List.length_eq_zero_iff.mp (Decidable.not_not.mp hempty), StackSerializer.push, List.append_nil]
  rw [hsame]
  constructor
  · rw [StackSerializer.pushNum, StackSerializer.push, StackSerializer.push, List.length_append, List.length_append,
      length_numBytes, Nat.add_assoc]
  · rw [StackSerializer.popStr, StackSerializer.popNum_pushNum _ (show s.length < 256 ^ 4 from h), Option.bind_some]
    exact S.pop_push s

/-- **One value** is popped by the operation that matches. -/
theorem popLike_push (hvalid : v.Valid) (hshort : v.Short) (S : StackSerializer) :
    ∃ S', v.push S = some S' ∧ S'.data.length = S.data.length + v.size ∧ v.popLike S' = some (v, S) := by
  cases v with
  | num size p =>
    refine ⟨_, rfl, ?_, ?_⟩
    · rw [StackSerializer.pushNum, StackSerializer.push, List.length_append, length_numBytes]
      rfl
    · rw [popLike, StackSerializer.popNum_pushNum _ p.isLt, Option.map_some]
      simp only [Nat.mod_eq_of_lt p.isLt]
  | str s =>
    have hmod : s.length % 2 ^ 32 = s.length := Nat.mod_eq_of_lt hshort
    obtain ⟨hlength, hpop⟩ := popStr_push hshort S
    refine ⟨_, ?_, hlength, ?_⟩
    · rw [push, hmod]
      exact if_neg (not_not_intro rfl)
    · rw [popLike, hpop]
      rfl
  | chars s =>
    have hall : s.takeWhile (· ≠ 0) = s := List.takeWhile_eq_self_iff.mpr fun c hc => decide_eq_true fun h0 => by
      rw [h0] at hc
      exact hvalid hc
    have hmod : s.length % 2 ^ 32 = s.length := Nat.mod_eq_of_lt hshort
    obtain ⟨hlength, hpop⟩ := popStr_push hshort S
    refine ⟨_, ?_, hlength, ?_⟩
    · rw [push, hall, hmod, List.take_length]
    · rw [popLike, hpop]
      rfl

end Value

/-- **All values**, in reverse order. -/
theorem popAll_pushAll : ∀ {vs : List Value} (S : StackSerializer), (∀ v ∈ vs, v.Valid ∧ v.Short) →
    ∃ S', pushAll vs S = some S' ∧ S'.data.length = S.data.length + (vs.map Value.size).sum ∧
      ∀ ws, popAll (vs.reverse ++ ws) S' = (popAll ws S).map fun rs => (vs.reverse ++ rs.1, rs.2)
  | [], S, _ => ⟨S, rfl, rfl, fun ws => (congrFun Option.map_id (popAll ws S)).symm⟩
  | v :: vs, S, h => by
    obtain ⟨hv, hvs⟩ := List.forall_mem_cons.mp h
    obtain ⟨S₁, hpush, hlength₁, hpop⟩ := Value.popLike_push hv.1 hv.2 S
    obtain ⟨S₂, hpushAll, hlength₂, hpopAll⟩ := popAll_pushAll S₁ hvs
    refine ⟨S₂, by rw [pushAll, hpush]; exact hpushAll, ?_, fun ws => ?_⟩
    · rw [hlength₂, hlength₁, List.map_cons, List.sum_cons, Nat.add_assoc]
    rw [List.reverse_cons, List.append_assoc, hpopAll, List.singleton_append, popAll, hpop, Option.bind_some,
      Option.map_map]
    refine congrArg (Option.map · (popAll ws S)) (funext fun rs => ?_)
    show (vs.reverse ++ v :: rs.1, rs.2) = (vs.reverse ++ [v] ++ rs.1, rs.2)
    rw [List.append_assoc, List.singleton_append]

/-- **Values come back** from the text, where no string is too long and the text is shorter than 2^31. -/
theorem restored {vs : List Value} (hvalid : ∀ v ∈ vs, v.Valid) (hshort : ∀ v ∈ vs, v.Short)
    (htext : ((vs.map Value.size).sum + 2) / 3 * 4 < 2 ^ 31) : Restored vs := by
  obtain ⟨S, hpush, hlength, hpop⟩ := popAll_pushAll {} fun v hv => ⟨hvalid v hv, hshort v hv⟩
  have hall := hpop []
  rw [List.append_nil] at hall
  refine ⟨S, hpush, ?_⟩
  rw [fromBase64_toBase64 (by rw [hlength, List.length_nil, Nat.zero_add]; exact htext), Option.bind_some, hall]
  exact congrArg (fun vs => some (vs, ({} : StackSerializer))) (List.append_nil _)

theorem restored_mixture : Restored [.num 2 ⟨0xFFFF, by decide⟩, .str [0x00, 0x61], .chars [0x62]] :=
  restored (by simp [Value.Valid]) (by simp [Value.Short]) (by decide)

/-- A string of 2^32 bytes is too long. -/
theorem not_every_value_restored : ¬∀ vs : List Value, (∀ v ∈ vs, v.Valid) → Restored vs := by
  intro h
  obtain ⟨S, hpush, -⟩ := h [.str (List.replicate (2 ^ 32) 0)] fun v hv => by
    rw [List.mem_singleton.mp hv]
    trivial
  rw [pushAll, Value.push, List.length_replicate, if_pos (by decide)] at hpush
  exact absurd hpush (by simp)

end Far2l.Base64
