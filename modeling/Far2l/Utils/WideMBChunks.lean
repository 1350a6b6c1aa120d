/-
Far2l.Utils.WideMBChunks — decoding a stream in chunks.

`MB2Wide_HonorIncomplete` is fed the bytes it has not used, followed by the next
chunk. `decode` is `MB2Wide` without the bookkeeping for incomplete sequences; a
step of it is final when no bytes that follow can change it. The only steps that
are not are those at a sequence that is cut short, and behind these the decoder
finds nothing but continuation bytes, each of them unreadable, up to the end.
-/
import Far2l.Utils.WideMBTheorems

namespace Far2l

/-! ## Reading in front of more bytes -/

namespace Utf8

/-- Behind the first byte, `f` reads `n` continuation bytes and nothing else. -/
structure ReadsTails (n : Nat) (f : Byte → List Byte → Option (Nat × List Byte)) : Prop where
  append : ∀ ch0 src ext, n ≤ src.length →
    f ch0 (src ++ ext) = (f ch0 src).map fun r => (r.1, r.2 ++ ext)
  tails : ∀ ch0 src, f ch0 src ≠ none → n ≤ src.length ∧ ∀ b ∈ src.take n, isTail b = true

theorem read2_tails : ReadsTails 1 read2 where
  append
    | _, ch1 :: src, ext, _ => by
      simp only [List.cons_append, read2]
      split <;> rfl
  tails
    | _, ch1 :: src, h => by
      simp only [read2, ne_eq, ite_eq_right_iff, reduceCtorEq, imp_false, Decidable.not_not] at h
      simp [h]

theorem read3_tails : ReadsTails 2 read3 where
  append
    | _, ch1 :: ch2 :: src, ext, _ => by
      simp only [List.cons_append, read3]
      split <;> rfl
  tails
    | _, ch1 :: ch2 :: src, h => by
      simp only [read3, ne_eq, ite_eq_right_iff, reduceCtorEq, imp_false, Decidable.not_not] at h
      simp [h]

theorem read4_tails : ReadsTails 3 read4 where
  append
    | _, ch1 :: ch2 :: ch3 :: src, ext, _ => by
      simp only [List.cons_append, read4]
      split <;> rfl
  tails
    | _, ch1 :: ch2 :: ch3 :: src, h => by
      simp only [read4, ne_eq, ite_eq_right_iff, reduceCtorEq, imp_false, Decidable.not_not] at h
      simp [h]

theorem read5_tails : ReadsTails 4 read5 where
  append
    | _, ch1 :: ch2 :: ch3 :: ch4 :: src, ext, _ => by
      simp only [List.cons_append, read5]
      split <;> rfl
  tails
    | _, ch1 :: ch2 :: ch3 :: ch4 :: src, h => by
      simp only [read5, ne_eq, ite_eq_right_iff, reduceCtorEq, imp_false, Decidable.not_not] at h
      simp [h]

theorem read6_tails : ReadsTails 5 read6 where
  append
    | _, ch1 :: ch2 :: ch3 :: ch4 :: ch5 :: src, ext, _ => by
      simp only [List.cons_append, read6]
      split <;> rfl
  tails
    | _, ch1 :: ch2 :: ch3 :: ch4 :: ch5 :: src, h => by
      simp only [read6, ne_eq, ite_eq_right_iff, reduceCtorEq, imp_false, Decidable.not_not] at h
      simp [h]

/-- The first byte alone says how a sequence is read. -/
theorem read_cases (ch0 : Byte) :
    (∀ rest, read (ch0 :: rest) = some (ch0.toNat, rest)) ∨ (∀ rest, read (ch0 :: rest) = none)
    ∨ ∃ n f, n ≤ 5 ∧ ReadsTails n f ∧ ∀ rest, read (ch0 :: rest) = f ch0 rest := by
  simp only [read]
  by_cases h80 : ch0 < 0x80
  · exact .inl fun rest => if_pos h80
  by_cases hC2 : ch0 < 0xC2
  · exact .inr (.inl fun rest => by rw [if_neg h80, if_pos hC2])
  by_cases hE0 : ch0 < 0xE0
  · exact .inr (.inr ⟨1, read2, by omega, read2_tails, fun rest => by
      rw [if_neg h80, if_neg hC2, if_pos hE0]⟩)
  by_cases hF0 : ch0 < 0xF0
  · exact .inr (.inr ⟨2, read3, by omega, read3_tails, fun rest => by
      rw [if_neg h80, if_neg hC2, if_neg hE0, if_pos hF0]⟩)
  by_cases hF8 : ch0 < 0xF8
  · exact .inr (.inr ⟨3, read4, by omega, read4_tails, fun rest => by
      rw [if_neg h80, if_neg hC2, if_neg hE0, if_neg hF0, if_pos hF8]⟩)
  by_cases hFC : ch0 < 0xFC
  · exact .inr (.inr ⟨4, read5, by omega, read5_tails, fun rest => by
      rw [if_neg h80, if_neg hC2, if_neg hE0, if_neg hF0, if_neg hF8, if_pos hFC]⟩)
  by_cases hFE : ch0 < 0xFE
  · exact .inr (.inr ⟨5, read6, by omega, read6_tails, fun rest => by
      rw [if_neg h80, if_neg hC2, if_neg hE0, if_neg hF0, if_neg hF8, if_neg hFC, if_pos hFE]⟩)
  · exact .inr (.inl fun rest => by
      rw [if_neg h80, if_neg hC2, if_neg hE0, if_neg hF0, if_neg hF8, if_neg hFC, if_neg hFE])

/-- A sequence that can be read is read alike in front of more bytes. -/
theorem read_append {src rest : List Byte} {cp : Nat} (h : read src = some (cp, rest))
    (ext : List Byte) : read (src ++ ext) = some (cp, rest ++ ext) := by
  cases src with
  | nil => simp [read] at h
  | cons ch0 src =>
    rw [List.cons_append]
    rcases read_cases ch0 with hread | hread | ⟨n, f, -, hf, hread⟩
    · rw [hread, Option.some.injEq, Prod.mk.injEq] at h
      rw [hread, h.1, h.2]
    · rw [hread] at h
      simp at h
    · rw [hread] at h ⊢
      have hlen := (hf.tails ch0 src (by rw [h]; simp)).1
      rw [hf.append ch0 src ext hlen, h, Option.map_some]

/-- Only a sequence of at most five bytes that is cut short can become readable, and all its bytes
but the first are continuation bytes. -/
theorem read_none_append {ch0 : Byte} {src ext : List Byte} (h : read (ch0 :: src) = none)
    (hext : read (ch0 :: src ++ ext) ≠ none) :
    src.length < 5 ∧ ∀ b ∈ src, isTail b = true := by
  rw [List.cons_append] at hext
  rcases read_cases ch0 with hread | hread | ⟨n, f, hn, hf, hread⟩
  · simp [hread] at h
  · exact absurd (hread _) hext
  · rw [hread] at h hext
    obtain ⟨-, htails⟩ := hf.tails ch0 _ hext
    have hlt : src.length < n := by
      refine Nat.lt_of_not_le fun hle => hext ?_
      rw [hf.append ch0 src ext hle, h, Option.map_none]
    refine ⟨Nat.lt_of_lt_of_le hlt hn, fun b hb => htails b ?_⟩
    rw [List.take_append]
    exact List.mem_append_left _ (by rwa [List.take_of_length_le (Nat.le_of_lt hlt)])

/-- A continuation byte begins no sequence. -/
theorem read_tail {b : Byte} (hb : isTail b = true) (rest : List Byte) :
    read (b :: rest) = none := by
  have h := (isTail_iff b).mp hb
  have h1 : ¬ b < 0x80 := by
    rw [UInt8.lt_iff_toNat_lt]
    exact Nat.not_lt.mpr h.1
  have h2 : b < 0xC2 := by
    rw [UInt8.lt_iff_toNat_lt]
    exact Nat.lt_of_lt_of_le h.2 (by decide)
  rw [read, if_neg h1, if_pos h2]

end Utf8

namespace WideMB

/-! ## Decoding as such -/

/-- `MB2Wide`, step by step. -/
def decode (src : List Byte) : WStr :=
  match _h : Utf8.read src with
  | some (cp, rest) => escapedPushBack [] (UInt32.ofNat cp) ++ decode rest
  | none =>
      match src with
      | [] => []
      | uc :: rest => escapedByte uc ++ decode rest
termination_by src.length
decreasing_by
  · exact Utf8.read_length _h
  · simp

theorem decode_some {src rest : List Byte} {cp : Nat} (h : Utf8.read src = some (cp, rest)) :
    decode src = escapedPushBack [] (UInt32.ofNat cp) ++ decode rest := by
  rw [decode]
  split
  · next hr =>
    rw [h, Option.some.injEq, Prod.mk.injEq] at hr
    rw [hr.1, hr.2]
  · next hr => simp [h] at hr

theorem decode_none {uc : Byte} {rest : List Byte} (h : Utf8.read (uc :: rest) = none) :
    decode (uc :: rest) = escapedByte uc ++ decode rest := by
  rw [decode]
  split
  · next hr => simp [h] at hr
  · rfl

theorem decode_nil : decode [] = [] := by
  rw [decode]
  rfl

/-- What `UtfConvert` has converted does not depend on what follows. -/
theorem utfConvertMB_decode (dst : WStr) (src : List Byte) :
    ∃ ws, (utfConvertMB dst src).1 = dst ++ ws
      ∧ ∀ ext, decode (src ++ ext) = ws ++ decode ((utfConvertMB dst src).2 ++ ext) := by
  fun_induction utfConvertMB dst src with
  | case1 dst src cp rest h ih =>
    obtain ⟨ws, hws, hdec⟩ := ih
    refine ⟨escapedPushBack [] (UInt32.ofNat cp) ++ ws, ?_, fun ext => ?_⟩
    · rw [hws, escapedPushBack_eq, List.append_assoc]
    · rw [decode_some (Utf8.read_append h ext), hdec, List.append_assoc]
  | case2 dst src h => exact ⟨[], (List.append_nil _).symm, fun _ => rfl⟩

/-- The first byte it leaves cannot be read. -/
theorem utfConvertMB_read {dst dst1 : WStr} {src rest : List Byte}
    (h : utfConvertMB dst src = (dst1, rest)) : Utf8.read rest = none := by
  fun_induction utfConvertMB dst src with
  | case1 dst src cp rest' hr ih => exact ih h
  | case2 dst src hr =>
    rw [← (Prod.mk.inj h).2]
    exact hr

/-! ## Incomplete sequences -/

/-- `dst` is what has been decoded of `W` up to `src`, in front of any bytes. -/
def Final (W : List Byte) (dst0 dst : WStr) (src : List Byte) : Prop :=
  ∃ ws, dst = dst0 ++ ws ∧ ∀ ext, decode (W ++ ext) = ws ++ decode (src ++ ext)

/-- A sequence has been cut short, and only continuation bytes are left of it. -/
def CutShort (src : List Byte) : Prop := src ≠ [] ∧ ∀ b ∈ src, Utf8.isTail b = true

/-- `dst_incomplete_tail_pos` and `src_incomplete_tail` are places up to which decoding is
final. -/
def TailOk (W : List Byte) (dst0 dst : WStr) : Option (Nat × Nat) → Prop
  | none => True
  | some (dstPos, srcPos) =>
      dstPos ≤ dst.length ∧ W.length < srcPos + 6 ∧ Final W dst0 (dst.take dstPos) (W.drop srcPos)

variable {W : List Byte} {dst0 dst dst1 : WStr} {src rest : List Byte} {uc : Byte}
  {tail : Option (Nat × Nat)}

theorem Final.convert (h : Final W dst0 dst src) (hconv : utfConvertMB dst src = (dst1, rest)) :
    Final W dst0 dst1 rest := by
  obtain ⟨ws, rfl, hdec⟩ := h
  obtain ⟨ws', hws', hdec'⟩ := utfConvertMB_decode (dst0 ++ ws) src
  rw [hconv] at hws' hdec'
  refine ⟨ws ++ ws', by rw [← List.append_assoc]; exact hws', fun ext => ?_⟩
  rw [hdec, hdec', List.append_assoc]

/-- Nothing is converted of continuation bytes. -/
theorem CutShort.convert (h : CutShort src) (dst : WStr) : utfConvertMB dst src = (dst, src) := by
  obtain ⟨hne, htails⟩ := h
  cases src with
  | nil => exact absurd rfl hne
  | cons b src => exact utfConvertMB_none (Utf8.read_tail (htails b List.mem_cons_self) src)

/-- The step over an unreadable byte is final, or the byte begins a sequence that is cut short. -/
theorem Final.escape (h : Final W dst0 dst (uc :: rest)) (hread : Utf8.read (uc :: rest) = none)
    (hne : rest ≠ []) :
    Final W dst0 (dst ++ escapedByte uc) rest ∨ (CutShort rest ∧ rest.length < 5) := by
  by_cases hext : ∀ ext, Utf8.read (uc :: rest ++ ext) = none
  · obtain ⟨ws, rfl, hdec⟩ := h
    refine .inl ⟨ws ++ escapedByte uc, List.append_assoc _ _ _, fun ext => ?_⟩
    rw [hdec, List.cons_append, decode_none (by simpa using hext ext), List.append_assoc]
  · obtain ⟨ext, hext⟩ := Classical.not_forall.mp hext
    obtain ⟨hlen, htails⟩ := Utf8.read_none_append hread hext
    exact .inr ⟨⟨hne, htails⟩, hlen⟩

theorem TailOk.append (h : TailOk W dst0 dst tail) (ws : WStr) : TailOk W dst0 (dst ++ ws) tail := by
  cases tail with
  | none => exact trivial
  | some t =>
    obtain ⟨hpos, hlen, hfinal⟩ := h
    refine ⟨?_, hlen, ?_⟩
    · rw [List.length_append]
      omega
    · rwa [List.take_append_of_le_length hpos]

/-- The first unreadable byte near the end is remembered. -/
theorem TailOk.incompleteTail (h : TailOk W dst0 dst tail) (hsuf : src <:+ W)
    (hfinal : tail = none → Final W dst0 dst src) :
    TailOk W dst0 dst (incompleteTail tail dst (W.length - src.length) src.length) := by
  rw [WideMB.incompleteTail]
  split
  · next hnew =>
    have hle := hsuf.length_le
    have hlt : src.length < 6 := hnew.2
    refine ⟨Nat.le_refl _, by omega, ?_⟩
    rw [List.take_length, ← List.suffix_iff_eq_drop.mp hsuf]
    exact hfinal hnew.1
  · exact h

theorem incompleteTail_ne_none {n m : Nat} (h : tail ≠ none ∨ m < 6) :
    incompleteTail tail dst n m ≠ none := by
  rw [incompleteTail]
  split
  · simp
  · next hnew =>
    intro hnone
    exact hnew ⟨hnone, h.resolve_left fun hne => hne hnone⟩

/-- A round of the loop that stops at an unreadable byte. -/
structure Stopped (W : List Byte) (dst0 dst : WStr) (tail : Option (Nat × Nat)) (src : List Byte) :
    Prop where
  suffix : src <:+ W
  state : Final W dst0 dst src ∨ (CutShort src ∧ tail ≠ none)
  tail : TailOk W dst0 dst tail

theorem Stopped.convert (h : Stopped W dst0 dst tail src)
    (hconv : utfConvertMB dst src = (dst1, rest)) : Stopped W dst0 dst1 tail rest where
  suffix := by
    obtain ⟨ps, -, hsrc⟩ := utfConvertMB_pieces dst src
    rw [hconv] at hsrc
    exact (show rest <:+ src from ⟨_, hsrc⟩).trans h.suffix
  state := by
    rcases h.state with hfinal | hcut
    · exact .inl (hfinal.convert hconv)
    · rw [hcut.1.convert, Prod.mk.injEq] at hconv
      rw [← hconv.2]
      exact .inr hcut
  tail := by
    obtain ⟨ws, hws, -⟩ := utfConvertMB_decode dst src
    rw [hconv] at hws
    rw [show dst1 = dst ++ ws from hws]
    exact h.tail.append ws

theorem Stopped.remember (h : Stopped W dst0 dst tail src) :
    TailOk W dst0 dst (incompleteTail tail dst (W.length - src.length) src.length) :=
  h.tail.incompleteTail h.suffix fun hnone => h.state.resolve_right fun hcut => hcut.2 hnone

/-- The next round starts behind the byte. -/
theorem Stopped.escape (h : Stopped W dst0 dst tail (uc :: rest))
    (hread : Utf8.read (uc :: rest) = none) (hne : rest ≠ []) :
    Stopped W dst0 (dst ++ escapedByte uc)
      (incompleteTail tail dst (W.length - (uc :: rest).length) (uc :: rest).length) rest where
  suffix := (List.suffix_cons uc rest).trans h.suffix
  state := by
    rcases h.state with hfinal | ⟨hcut, hset⟩
    · refine (hfinal.escape hread hne).imp_right fun hcut => ⟨hcut.1, incompleteTail_ne_none ?_⟩
      exact .inr (Nat.succ_lt_succ hcut.2)
    · refine .inr ⟨⟨hne, fun b hb => hcut.2 b (List.mem_cons_of_mem _ hb)⟩, ?_⟩
      exact incompleteTail_ne_none (.inl hset)
  tail := h.remember.append _

/-- What the loop has decoded is final up to where it says. -/
theorem mb2WideLoop_final (hstop : Stopped W dst0 dst tail src) :
    ∃ n, (mb2WideLoop W.length tail dst src).ret = some n
      ∧ W.length < (mb2WideLoop W.length tail dst src).srcLen + 6
      ∧ Final W dst0 ((mb2WideLoop W.length tail dst src).dst.take n)
          (W.drop (mb2WideLoop W.length tail dst src).srcLen) := by
  fun_induction mb2WideLoop W.length tail dst src with
  | case1 tail dst src dst1 h =>
    refine ⟨dst1.length, rfl, Nat.lt_add_of_pos_right (by decide), ?_⟩
    rw [List.take_length, List.drop_length]
    exact (hstop.convert h).state.resolve_right fun hcut => hcut.1.1 rfl
  | case2 tail dst src dst1 uc rest h remain tail1 dst2 hend dstPos srcPos htail1 =>
    have hok := (hstop.convert h).remember.append (escapedByte uc)
    obtain ⟨-, hlen, hfinal⟩ : TailOk W dst0 dst2 (some (dstPos, srcPos)) := htail1 ▸ hok
    exact ⟨dstPos, rfl, hlen, hfinal⟩
  | case3 tail dst src dst1 uc rest h remain tail1 dst2 hend htail1 =>
    -- the last byte is near enough to the end
    exact absurd htail1 (incompleteTail_ne_none (.inr (Nat.lt_of_le_of_lt hend (by decide))))
  | case4 tail dst src dst1 uc rest h remain tail1 dst2 hend ih =>
    refine ih ((hstop.convert h).escape (utfConvertMB_read h) fun hrest => hend ?_)
    rw [show remain = rest.length + 1 from rfl, hrest]
    exact Nat.le_refl 1

/-! ## Chunks -/

theorem utfConvertMB_decode_nil {dst dst1 : WStr} {src rest : List Byte}
    (h : utfConvertMB dst src = (dst1, rest)) : dst ++ decode src = dst1 ++ decode rest := by
  obtain ⟨ws, hws, hdec⟩ := utfConvertMB_decode dst src
  have hdec := hdec []
  rw [h, List.append_nil, List.append_nil] at hdec
  rw [h] at hws
  rw [hdec, ← List.append_assoc, ← hws]

theorem mb2WideLoop_decode (len : Nat) (tail : Option (Nat × Nat)) (dst : WStr)
    (src : List Byte) : (mb2WideLoop len tail dst src).dst = dst ++ decode src := by
  fun_induction mb2WideLoop len tail dst src with
  | case1 tail dst src dst1 h =>
    rw [utfConvertMB_decode_nil h, decode_nil, List.append_nil]
  | case2 tail dst src dst1 uc rest h remain tail1 dst2 hend dstPos srcPos htail1 =>
    obtain rfl : rest = [] := List.length_eq_zero_iff.mp (by omega)
    rw [utfConvertMB_decode_nil h, decode_none (utfConvertMB_read h), decode_nil, List.append_nil]
  | case3 tail dst src dst1 uc rest h remain tail1 dst2 hend htail1 =>
    obtain rfl : rest = [] := List.length_eq_zero_iff.mp (by omega)
    rw [utfConvertMB_decode_nil h, decode_none (utfConvertMB_read h), decode_nil, List.append_nil]
  | case4 tail dst src dst1 uc rest h remain tail1 dst2 hend ih =>
    rw [ih, utfConvertMB_decode_nil h, decode_none (utfConvertMB_read h), ← List.append_assoc]

/-- `MB2Wide` decodes step by step. -/
theorem mb2Wide_eq_decode (src : List Byte) : mb2Wide src = decode src := by
  by_cases hsrc : src = []
  · subst hsrc
    rw [decode_nil]
    rfl
  · simp only [mb2Wide, mb2WideInternal, if_neg hsrc]
    exact mb2WideLoop_decode _ _ _ _

/-- **`MB2Wide_HonorIncomplete`** appends what it has decoded finally, and leaves at most five
bytes. -/
theorem mb2WideHonorIncomplete_final (src : List Byte) (dst : WStr) :
    src.length < (mb2WideHonorIncomplete src dst true).2 + 6
      ∧ Final src dst (mb2WideHonorIncomplete src dst true).1
          (src.drop (mb2WideHonorIncomplete src dst true).2) := by
  rw [mb2WideHonorIncomplete, mb2WideInternal]
  by_cases hsrc : src = []
  · subst hsrc
    exact ⟨Nat.zero_lt_succ _, [], (List.append_nil _).symm, fun _ => rfl⟩
  · rw [if_pos rfl, if_neg hsrc]
    obtain ⟨n, hret, hlen, hfinal⟩ := @mb2WideLoop_final src dst dst src none
      ⟨List.suffix_refl _, .inl ⟨[], (List.append_nil _).symm, fun _ => rfl⟩, trivial⟩
    simp only [hret]
    exact ⟨hlen, hfinal⟩

/-- A chunk is read: `st` is the text so far and the bytes not used yet. -/
def feedChunk (st : WStr × List Byte) (chunk : List Byte) : WStr × List Byte :=
  let src := st.2 ++ chunk
  let (dst, used) := mb2WideHonorIncomplete src st.1 true
  (dst, src.drop used)

/-- The chunks are read one after the other. -/
def feedChunks (chunks : List (List Byte)) : WStr × List Byte := chunks.foldl feedChunk ([], [])

theorem foldl_feedChunk : ∀ (chunks : List (List Byte)) (st : WStr × List Byte) (seen : List Byte),
    st.2.length ≤ 5 → Final seen [] st.1 st.2 →
    (chunks.foldl feedChunk st).2.length ≤ 5
      ∧ Final (seen ++ chunks.flatten) [] (chunks.foldl feedChunk st).1
          (chunks.foldl feedChunk st).2
  | [], st, seen, hlen, hst => by
    rw [List.flatten_nil, List.append_nil]
    exact ⟨hlen, hst⟩
  | chunk :: chunks, st, seen, _, hst => by
    obtain ⟨hlen, ws', hws', hdec'⟩ := mb2WideHonorIncomplete_final (st.2 ++ chunk) st.1
    obtain ⟨ws, hws, hdec⟩ := hst
    rw [List.flatten_cons, ← List.append_assoc]
    refine foldl_feedChunk chunks (feedChunk st chunk) (seen ++ chunk) ?_ ⟨ws ++ ws', ?_, ?_⟩
    · simp only [feedChunk, List.length_drop]
      omega
    · rw [← List.append_assoc, ← hws]
      exact hws'
    · intro ext
      rw [List.append_assoc seen, hdec, ← List.append_assoc st.2, hdec', List.append_assoc]
      rfl

/-- **Decoding in chunks loses and duplicates nothing**: however the stream is cut, the text and
the decoded rest, at most five bytes, are the stream decoded as a whole. -/
theorem feedChunks_mb2Wide (chunks : List (List Byte)) :
    (feedChunks chunks).2.length ≤ 5
      ∧ (feedChunks chunks).1 ++ mb2Wide (feedChunks chunks).2 = mb2Wide chunks.flatten := by
  obtain ⟨hlen, ws, hws, hdec⟩ := foldl_feedChunk chunks ([], []) [] (Nat.zero_le _)
    ⟨[], rfl, fun _ => rfl⟩
  refine ⟨hlen, ?_⟩
  have := hdec []
  rw [List.append_nil, List.append_nil, List.nil_append] at this
  rw [mb2Wide_eq_decode, mb2Wide_eq_decode, this, feedChunks, hws, List.nil_append]

end WideMB

end Far2l
