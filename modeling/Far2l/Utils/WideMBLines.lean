/-
Far2l.Utils.WideMBLines — texts made of lines, and their conversion.

A byte below 0x20 is a character of its own wherever it stands, so that a text
and its bytes fall into the same lines. A text that is the conversion of some bytes
is the conversion of its own bytes.
-/
import Far2l.Utils.WideMBChunks

namespace Far2l.WideMB

/-! ## A control character between two texts -/

theorem isTail_of_lt {c : Byte} (hc : c.toNat < 0x80) : Utf8.isTail c = false := by
  rw [← Bool.not_eq_true, Utf8.isTail_iff]
  omega

/-- What cannot be read cannot be read in front of a control character. -/
theorem read_none_before {b c : Byte} {src rest : List Byte} (hc : c.toNat < 0x80)
    (h : Utf8.read (b :: src) = none) : Utf8.read (b :: src ++ c :: rest) = none := by
  refine Classical.byContradiction fun hne => ?_
  rcases Utf8.read_cases b with hread | hread | ⟨n, f, -, hf, hread⟩
  · rw [hread] at h
    exact Option.some_ne_none _ h
  · exact hne (hread _)
  · rw [List.cons_append, hread] at hne
    rw [hread] at h
    obtain ⟨-, htails⟩ := hf.tails b _ hne
    have hlt : src.length < n := by
      refine Nat.lt_of_not_le fun hle => hne ?_
      rw [hf.append b src _ hle, h, Option.map_none]
    have hmem : c ∈ (src ++ c :: rest).take n := by
      rw [List.take_append, List.mem_append]
      right
      rw [show n - src.length = (n - src.length - 1) + 1 from by omega, List.take_succ_cons]
      exact List.mem_cons_self
    have htail := htails c hmem
    rw [isTail_of_lt hc] at htail
    exact Bool.false_ne_true htail

/-- The character a control character is converted to. -/
theorem decode_cons {c : Byte} (hc : c.toNat < 0x80) (rest : List Byte) :
    decode (c :: rest) = UInt32.ofNat c.toNat :: decode rest := by
  have hread : Utf8.read (c :: rest) = some (c.toNat, rest) := by
    rw [Utf8.read, if_pos]
    rw [UInt8.lt_iff_toNat_lt]
    exact hc
  have hesc : UInt32.ofNat c.toNat ≠ WCHAR_ESCAPING := by
    intro heq
    have hto := congrArg UInt32.toNat heq
    rw [toNat_ofNat_of_valid (by omega), show WCHAR_ESCAPING.toNat = 0xE5CA from rfl] at hto
    omega
  rw [decode_some hread, escapedPushBack, if_neg hesc]
  rfl

/-- **Conversion goes through a text that a control character divides part by part.** -/
theorem decode_append {c : Byte} (hc : c.toNat < 0x80) (src rest : List Byte) :
    decode (src ++ c :: rest) = decode src ++ UInt32.ofNat c.toNat :: decode rest := by
  fun_induction decode src with
  | case1 src cp rest' h ih =>
    rw [decode_some (Utf8.read_append h _), ih, List.append_assoc]
  | case2 h => rw [List.nil_append, List.nil_append, decode_cons hc]
  | case3 uc src h ih =>
    have hread : Utf8.read (uc :: src ++ c :: rest) = none := read_none_before hc h
    rw [List.cons_append] at hread ⊢
    rw [decode_none hread, ih, List.append_assoc]

theorem mb2Wide_append {c : Byte} (hc : c.toNat < 0x80) (src rest : List Byte) :
    mb2Wide (src ++ c :: rest) = mb2Wide src ++ UInt32.ofNat c.toNat :: mb2Wide rest := by
  rw [mb2Wide_eq_decode, mb2Wide_eq_decode, mb2Wide_eq_decode, decode_append hc]

theorem mb2Wide_nil : mb2Wide [] = [] := by
  rw [mb2Wide_eq_decode, decode_nil]

/-- A text of ASCII characters. -/
theorem mb2Wide_ascii : ∀ {src : List Byte}, (∀ b ∈ src, b.toNat < 0x80) →
    mb2Wide src = src.map fun b => UInt32.ofNat b.toNat
  | [], _ => mb2Wide_nil
  | b :: src, h => by
    obtain ⟨hb, hsrc⟩ := List.forall_mem_cons.mp h
    have ih := mb2Wide_ascii hsrc
    rw [mb2Wide_eq_decode] at ih ⊢
    rw [decode_cons hb, ih, List.map_cons]

/-! ## Texts that survive -/

/-- The text is the same after a conversion to bytes and back. -/
def Survives (s : WStr) : Prop := mb2Wide (wide2MB s) = s

instance (s : WStr) : Decidable (Survives s) := inferInstanceAs (Decidable (mb2Wide (wide2MB s) = s))

/-- Whatever bytes are converted to survives. -/
theorem survives_mb2Wide (src : List Byte) : Survives (mb2Wide src) := by
  rw [Survives, wide2MB_valid _ (validChar_mb2Wide src), unescape_mb2Wide]

theorem survives_iff {s : WStr} : Survives s ↔ ∃ src, s = mb2Wide src := by
  constructor
  · exact fun h => ⟨wide2MB s, h.symm⟩
  · rintro ⟨src, rfl⟩
    exact survives_mb2Wide src

theorem survives_nil : Survives [] := survives_iff.mpr ⟨[], mb2Wide_nil.symm⟩

/-- A text of ASCII characters survives. -/
theorem survives_ascii {s : WStr} (h : ∀ c ∈ s, c.toNat < 0x80) : Survives s := by
  refine survives_iff.mpr ⟨s.map fun c => UInt8.ofNat c.toNat, ?_⟩
  have hbyte : ∀ c ∈ s, (UInt8.ofNat c.toNat).toNat = c.toNat := by
    intro c hc
    rw [UInt8.toNat_ofNat']
    exact Nat.mod_eq_of_lt (Nat.lt_trans (h c hc) (by decide))
  have hascii : ∀ b ∈ s.map (fun c => UInt8.ofNat c.toNat), b.toNat < 0x80 := by
    intro b hb
    obtain ⟨c, hc, rfl⟩ := List.mem_map.mp hb
    rw [hbyte c hc]
    exact h c hc
  have hsame : s.map (fun c => UInt32.ofNat (UInt8.ofNat c.toNat).toNat) = s.map id :=
    List.map_congr_left fun c hc => by rw [hbyte c hc, UInt32.ofNat_toNat, id]
  rw [mb2Wide_ascii hascii, List.map_map]
  exact (hsame.trans (List.map_id s)).symm

/-! ## Lines -/

/-- Lines with a character between each two of them. -/
def joinLines {α : Type} (c : α) : List (List α) → List α
  | [] => []
  | [l] => l
  | l :: l' :: ls => l ++ c :: joinLines c (l' :: ls)

theorem joinLines_cons {α : Type} {c : α} {l : List α} {ls : List (List α)} (h : ls ≠ []) :
    joinLines c (l :: ls) = l ++ c :: joinLines c ls := by
  cases ls with
  | nil => exact absurd rfl h
  | cons l' ls => rfl

/-- A character of a text of lines is in a line, or between two of them. -/
theorem mem_joinLines {α : Type} {c d : α} : ∀ {ls : List (List α)}, d ∈ joinLines c ls →
    d = c ∨ ∃ l ∈ ls, d ∈ l
  | [], h => absurd h List.not_mem_nil
  | [l], h => .inr ⟨l, List.mem_singleton_self l, h⟩
  | l :: l' :: ls, h => by
    rw [joinLines, List.mem_append, List.mem_cons] at h
    rcases h with h | h | h
    · exact .inr ⟨l, List.mem_cons_self, h⟩
    · exact .inl h
    · rcases mem_joinLines h with h | ⟨l'', hl, hd⟩
      · exact .inl h
      · exact .inr ⟨l'', List.mem_cons_of_mem _ hl, hd⟩

/-- Lines are converted one by one. -/
theorem mb2Wide_joinLines {c : Byte} (hc : c.toNat < 0x80) : ∀ srcs : List (List Byte),
    mb2Wide (joinLines c srcs) = joinLines (UInt32.ofNat c.toNat) (srcs.map mb2Wide)
  | [] => mb2Wide_nil
  | [_] => rfl
  | src :: src' :: srcs => by
    have ih := mb2Wide_joinLines hc (src' :: srcs)
    rw [joinLines, mb2Wide_append hc, ih]
    rfl

/-- Lines that survive make a text that survives. -/
theorem survives_joinLines {lines : List WStr} (h : ∀ l ∈ lines, Survives l) :
    Survives (joinLines LF lines) := by
  have hlines : (lines.map wide2MB).map mb2Wide = lines.map id := by
    rw [List.map_map]
    exact List.map_congr_left fun l hl => h l hl
  rw [List.map_id] at hlines
  have hjoin := @mb2Wide_joinLines 0x0A (by decide) (lines.map wide2MB)
  rw [hlines] at hjoin
  exact survives_iff.mpr ⟨_, hjoin.symm⟩

/-- The lines of a text that survives survive. -/
theorem Survives.takeWhile {s : WStr} (h : Survives s) {c : Byte} (hc : c.toNat < 0x20) :
    Survives (s.takeWhile (· ≠ UInt32.ofNat c.toNat))
      ∧ Survives ((s.dropWhile (· ≠ UInt32.ofNat c.toNat)).drop 1) := by
  obtain ⟨src, rfl⟩ := survives_iff.mp h
  have hne : ∀ part : List Byte, (∀ b ∈ part, b ≠ c) →
      ∀ wc ∈ mb2Wide part, decide (wc ≠ UInt32.ofNat c.toNat) = true := by
    intro part hpart wc hwc
    refine decide_eq_true fun heq => ?_
    have hto : wc.toNat = c.toNat := by
      rw [heq, toNat_ofNat_of_valid (by omega)]
    have hmem := mem_of_mem_mb2Wide hwc (by omega)
    rw [hto, UInt8.ofNat_toNat] at hmem
    exact hpart c hmem rfl
  have htake : ∀ b ∈ src.takeWhile (fun b => decide (b ≠ c)), b ≠ c := fun b hb => by
    have hall := @List.all_takeWhile _ (fun b => decide (b ≠ c)) src
    exact of_decide_eq_true (List.all_eq_true.mp hall b hb)
  have hsplit := @List.takeWhile_append_dropWhile _ (fun b => decide (b ≠ c)) src
  cases hdrop : src.dropWhile (fun b => decide (b ≠ c)) with
  | nil =>
    rw [hdrop, List.append_nil] at hsplit
    rw [hsplit] at htake
    have hall := hne src htake
    have htake' : (mb2Wide src ++ []).takeWhile (fun wc => decide (wc ≠ UInt32.ofNat c.toNat))
        = mb2Wide src ++ [] := List.takeWhile_append_of_pos hall
    have hdrop' : (mb2Wide src ++ []).dropWhile (fun wc => decide (wc ≠ UInt32.ofNat c.toNat))
        = [] := List.dropWhile_append_of_pos hall
    rw [List.append_nil] at htake' hdrop'
    rw [htake', hdrop']
    exact ⟨survives_mb2Wide src, survives_iff.mpr ⟨[], mb2Wide_nil.symm⟩⟩
  | cons b rest =>
    have hb : b = c := by
      have hhead := List.head?_dropWhile_not (fun b => decide (b ≠ c)) src
      rw [hdrop] at hhead
      simpa using hhead
    subst hb
    rw [hdrop] at hsplit
    have hall := hne _ htake
    rw [← hsplit, mb2Wide_append (by omega), List.takeWhile_append_of_pos hall,
      List.dropWhile_append_of_pos hall, List.takeWhile_cons_of_neg (by simp),
      List.dropWhile_cons_of_neg (by simp), List.append_nil]
    exact ⟨survives_mb2Wide _, survives_mb2Wide rest⟩

end Far2l.WideMB
