/-
Far2l.VT.VTAnsi — `VTAnsi::Write` of `far/src/vt/vtansi.cpp`: bytes become
characters, and the characters go to the automaton.

What cannot be decoded close to the end of the bytes is held back for the next
call. `nNumberOfBytesToWrite` is a `DWORD`, which the number of characters is
cut to.
-/
import Far2l.VT.Parser
import Far2l.Utils.WideMBChunks

namespace Far2l

namespace VT

open WideMB (MAX_MB_CHARS_PER_WCHAR)

/-- `UtfConvert` into `_ws`, with `fail_on_illformed`: what has been pushed, and the source from the
first sequence that could not be read. -/
def utfConvert (ws : WStr) (src : List Byte) : WStr × List Byte :=
  match _h : Utf8.read src with
  | some (cp, rest) => utfConvert (ws ++ [UInt32.ofNat cp]) rest
  | none => (ws, src)
termination_by src.length
decreasing_by exact Utf8.read_length _h

theorem utfConvert_some {ws : WStr} {src rest : List Byte} {cp : Nat}
    (h : Utf8.read src = some (cp, rest)) :
    utfConvert ws src = utfConvert (ws ++ [UInt32.ofNat cp]) rest := by
  rw [utfConvert]
  split
  · next hr =>
    rw [h, Option.some.injEq, Prod.mk.injEq] at hr
    obtain ⟨rfl, rfl⟩ := hr
    rfl
  · next hr =>
    rw [h] at hr
    exact absurd hr (by simp)

theorem utfConvert_none {ws : WStr} {src : List Byte} (h : Utf8.read src = none) :
    utfConvert ws src = (ws, src) := by
  rw [utfConvert]
  split
  · next hr =>
    rw [h] at hr
    exact absurd hr (by simp)
  · rfl

/-- The conversion stops where nothing can be read, and never goes back. -/
theorem utfConvert_stops (ws : WStr) (src : List Byte) :
    Utf8.read (utfConvert ws src).2 = none ∧ (utfConvert ws src).2.length ≤ src.length := by
  fun_induction utfConvert ws src with
  | case1 ws src cp rest h ih =>
    exact ⟨ih.1, Nat.le_trans ih.2 (Nat.le_of_lt (Utf8.read_length h))⟩
  | case2 ws src h => exact ⟨h, Nat.le_refl _⟩

/-- A byte that cannot be decoded. -/
def badByte (b : Byte) : WChar := 0xEE00 + b.toUInt32

/-- The loop of `Write`: the characters, and the bytes that are held back. -/
def convertLoop (ws : WStr) (str : List Byte) : WStr × List Byte :=
  match _h : utfConvert ws str with
  | (pushed, []) => (pushed, [])
  | (pushed, b :: rest) =>
      if rest.length + 1 < MAX_MB_CHARS_PER_WCHAR then (pushed, b :: rest)
      else convertLoop (pushed ++ [badByte b]) rest
termination_by str.length
decreasing_by
  have hle := (utfConvert_stops ws str).2
  rw [_h, List.length_cons] at hle
  exact Nat.lt_of_succ_le hle

/-- Bytes that are held back: they are few, and nothing can be read from them. -/
structure Held (tail : List Byte) : Prop where
  length : tail.length < MAX_MB_CHARS_PER_WCHAR
  unread : Utf8.read tail = none

theorem convertLoop_stop {ws pushed : WStr} {str rest : List Byte}
    (h : utfConvert ws str = (pushed, rest)) (hlength : rest.length < MAX_MB_CHARS_PER_WCHAR) :
    convertLoop ws str = (pushed, rest) := by
  rw [convertLoop]
  split
  · next heq =>
    rw [h] at heq
    exact heq.symm
  · next heq =>
    rw [h] at heq
    cases heq
    exact if_pos hlength

theorem convertLoop_bad {ws pushed : WStr} {str rest : List Byte} {b : Byte}
    (h : utfConvert ws str = (pushed, b :: rest))
    (hlength : ¬rest.length + 1 < MAX_MB_CHARS_PER_WCHAR) :
    convertLoop ws str = convertLoop (pushed ++ [badByte b]) rest := by
  rw [convertLoop]
  split
  · next heq =>
    rw [h] at heq
    cases heq
  · next heq =>
    rw [h] at heq
    cases heq
    exact if_neg hlength

theorem convertLoop_held (ws : WStr) (str : List Byte) : Held (convertLoop ws str).2 := by
  induction hn : str.length using Nat.strongRecOn generalizing ws str with
  | _ n ih =>
    cases h : utfConvert ws str with
    | mk pushed rest =>
      have hstops := utfConvert_stops ws str
      rw [h] at hstops
      by_cases hlength : rest.length < MAX_MB_CHARS_PER_WCHAR
      · rw [convertLoop_stop h hlength]
        exact ⟨hlength, hstops.1⟩
      · cases rest with
        | nil => exact absurd (Nat.zero_lt_succ 5) hlength
        | cons b rest =>
          rw [convertLoop_bad h hlength]
          exact ih rest.length (hn ▸ hstops.2) _ rest rfl

/-- The members of `VTAnsi`: the automaton, and `_incomplete.tail`. -/
structure VTAnsi where
  ctx : Parser := {}
  tail : List Byte := []
  held : Held tail := by exact ⟨by decide, rfl⟩

namespace VTAnsi

/-- `Write`: what it leaves, the characters that `ParseAndPrintString` gets, and what that asks
for. -/
def write (v : VTAnsi) (str : List Byte) : VTAnsi × WStr × List Action :=
  let converted := convertLoop [] (v.tail ++ str)
  -- the number of characters is passed as a `DWORD`
  let ws := converted.1.take (converted.1.length % 2 ^ 32)
  let parsed := v.ctx.parseAndPrintString ws
  (⟨parsed.1, converted.2, convertLoop_held _ _⟩, ws, parsed.2)

/-- Some calls of `Write`, one after the other: what they leave, and the characters they have passed
on. -/
def writes (v : VTAnsi) : List (List Byte) → VTAnsi × WStr
  | [] => (v, [])
  | str :: strs =>
      let written := v.write str
      let rest := written.1.writes strs
      (rest.1, written.2.1 ++ rest.2)

end VTAnsi

end VT

end Far2l

/-! # When the output does not depend on how it is cut.

`pieces` takes bytes apart: what can be decoded, single bytes that cannot, and the
end that is held back. A piece stays what it is when more bytes follow, so that the
pieces of the whole are those of its parts, each with what the part before held
back. What a call passes on are its pieces, up to the number that fits a `DWORD`. -/

namespace Far2l

namespace VT

open WideMB (MAX_MB_CHARS_PER_WCHAR)

/-! ## Pieces -/

/-- A character of the text, or a byte that is none. -/
inductive Piece where
  | char (cp : Nat)
  | bad (b : Byte)

/-- The character that is passed on for a piece. -/
def Piece.wide : Piece → WChar
  | .char cp => UInt32.ofNat cp
  | .bad b => badByte b

/-- **The pieces of some bytes**, and what is held back. -/
def pieces (src : List Byte) : List Piece × List Byte :=
  match _h : Utf8.read src with
  | some (cp, rest) => (.char cp :: (pieces rest).1, (pieces rest).2)
  | none =>
      match src with
      | [] => ([], [])
      | b :: rest =>
          if rest.length + 1 < MAX_MB_CHARS_PER_WCHAR then ([], b :: rest)
          else (.bad b :: (pieces rest).1, (pieces rest).2)
termination_by src.length
decreasing_by
  · exact Utf8.read_length _h
  · simp

theorem pieces_read {src rest : List Byte} {cp : Nat} (h : Utf8.read src = some (cp, rest)) :
    pieces src = (.char cp :: (pieces rest).1, (pieces rest).2) := by
  rw [pieces]
  split
  · next hr =>
    rw [h, Option.some.injEq, Prod.mk.injEq] at hr
    obtain ⟨rfl, rfl⟩ := hr
    rfl
  · next hr =>
    rw [h] at hr
    exact absurd hr (by simp)

theorem pieces_held {src : List Byte} (h : Held src) : pieces src = ([], src) := by
  rw [pieces]
  split
  · next hr =>
    rw [h.unread] at hr
    exact absurd hr (by simp)
  · split
    · rfl
    · exact if_pos h.length

theorem pieces_bad {b : Byte} {rest : List Byte} (h : Utf8.read (b :: rest) = none)
    (hlength : ¬rest.length + 1 < MAX_MB_CHARS_PER_WCHAR) :
    pieces (b :: rest) = (.bad b :: (pieces rest).1, (pieces rest).2) := by
  rw [pieces]
  split
  · next hr =>
    rw [h] at hr
    exact absurd hr (by simp)
  · exact if_neg hlength

/-- An induction over the pieces of some bytes. -/
theorem pieces_induction {motive : List Byte → Prop}
    (char : ∀ src cp rest, Utf8.read src = some (cp, rest) → motive rest → motive src)
    (held : ∀ src, Held src → motive src)
    (bad : ∀ b rest, Utf8.read (b :: rest) = none → ¬rest.length + 1 < MAX_MB_CHARS_PER_WCHAR →
      motive rest → motive (b :: rest)) (src : List Byte) : motive src := by
  induction h : src.length using Nat.strongRecOn generalizing src with
  | _ n ih =>
    cases hread : Utf8.read src with
    | some r => exact char src r.1 r.2 hread (ih _ (h ▸ Utf8.read_length hread) r.2 rfl)
    | none =>
      by_cases hlength : src.length < MAX_MB_CHARS_PER_WCHAR
      · exact held src ⟨hlength, hread⟩
      · cases src with
        | nil => exact absurd (Nat.zero_lt_succ 5) hlength
        | cons b rest => exact bad b rest hread hlength (ih _ (h ▸ Nat.lt_succ_self _) rest rfl)

/-- **Pieces stay what they are** when more bytes follow. -/
theorem pieces_append (src ext : List Byte) :
    pieces (src ++ ext) = ((pieces src).1 ++ (pieces ((pieces src).2 ++ ext)).1,
      (pieces ((pieces src).2 ++ ext)).2) := by
  induction src using pieces_induction with
  | char src cp rest hread ih =>
    rw [pieces_read (Utf8.read_append hread ext), ih, pieces_read hread]
    rfl
  | held src h => rw [pieces_held h, List.nil_append]
  | bad b rest hread hlength ih =>
    have hread' : Utf8.read (b :: (rest ++ ext)) = none := by
      refine Classical.byContradiction fun hne => ?_
      have hshort : rest.length < 5 := (Utf8.read_none_append hread hne).1
      exact hlength (Nat.succ_lt_succ hshort)
    have hlength' : ¬(rest ++ ext).length + 1 < MAX_MB_CHARS_PER_WCHAR := by
      rw [List.length_append]
      omega
    rw [List.cons_append, pieces_bad hread' hlength', ih, pieces_bad hread hlength]
    rfl

/-- The loop of `Write` goes through the pieces. -/
theorem convertLoop_eq (ws : WStr) (src : List Byte) :
    convertLoop ws src = (ws ++ (pieces src).1.map Piece.wide, (pieces src).2) := by
  induction src using pieces_induction generalizing ws with
  | char src cp rest hread ih =>
    have hsame : convertLoop ws src = convertLoop (ws ++ [UInt32.ofNat cp]) rest := by
      rw [convertLoop.eq_def, convertLoop.eq_def (ws ++ [UInt32.ofNat cp]), utfConvert_some hread]
    rw [hsame, ih, pieces_read hread, List.map_cons, List.append_assoc]
    rfl
  | held src h =>
    rw [convertLoop_stop (utfConvert_none h.unread) h.length, pieces_held h, List.map_nil,
      List.append_nil]
  | bad b rest hread hlength ih =>
    rw [convertLoop_bad (utfConvert_none hread) hlength, ih, pieces_bad hread hlength,
      List.map_cons, List.append_assoc]
    rfl

/-! ## The automaton -/

/-- **The automaton goes on where it has stopped.** -/
theorem Parser.parseLoop_append : ∀ (s s' : WStr) (p : Parser),
    p.parseLoop (s ++ s') = (((p.parseLoop s).1.parseLoop s').1,
      (p.parseLoop s).2 ++ ((p.parseLoop s).1.parseLoop s').2)
  | [], _, _ => rfl
  | c :: s, s', p => by
    rw [List.cons_append, parseLoop, parseLoop]
    dsimp only
    rw [parseLoop_append s s', List.append_assoc]

/-! ## Calls -/

namespace VTAnsi

variable {v : VTAnsi}

/-- What a call passes on. -/
theorem write_eq (v : VTAnsi) (str : List Byte) :
    (v.write str).2.1 = ((pieces (v.tail ++ str)).1.map Piece.wide).take
        ((pieces (v.tail ++ str)).1.length % 2 ^ 32)
      ∧ (v.write str).1.tail = (pieces (v.tail ++ str)).2
      ∧ (v.write str).1.ctx = (v.ctx.parseLoop (v.write str).2.1).1 := by
  rw [write]
  dsimp only
  rw [convertLoop_eq]
  dsimp only
  rw [List.nil_append, List.length_map]
  exact ⟨rfl, rfl, rfl⟩

/-- The bytes that some calls get, with those held back before. -/
def bytes (v : VTAnsi) (strs : List (List Byte)) : List Byte := v.tail ++ strs.flatten

/-- **Some calls**: what they hold back at the end is what the whole holds back, and the automaton
has read what they have passed on. -/
theorem writes_eq : ∀ (strs : List (List Byte)) (v : VTAnsi),
    (v.writes strs).1.tail = (pieces (v.bytes strs)).2
      ∧ (v.writes strs).1.ctx = (v.ctx.parseLoop (v.writes strs).2).1
  | [], v => by
    rw [writes, bytes, List.flatten_nil, List.append_nil, pieces_held v.held]
    exact ⟨rfl, rfl⟩
  | str :: strs, v => by
    obtain ⟨-, htail, hctx⟩ := v.write_eq str
    obtain ⟨htail', hctx'⟩ := writes_eq strs (v.write str).1
    rw [writes]
    dsimp only
    rw [htail', hctx', hctx, Parser.parseLoop_append, bytes, bytes, htail, List.flatten_cons,
      ← List.append_assoc, pieces_append (v.tail ++ str)]
    exact ⟨rfl, rfl⟩

/-- What they pass on, if every call passes on as many characters as there are pieces. -/
theorem writes_wide : ∀ (strs : List (List Byte)) (v : VTAnsi),
    (pieces (v.bytes strs)).1.length < 2 ^ 32 →
    (v.writes strs).2 = (pieces (v.bytes strs)).1.map Piece.wide
  | [], v, _ => by
    rw [writes, bytes, List.flatten_nil, List.append_nil, pieces_held v.held]
    rfl
  | str :: strs, v, h => by
    obtain ⟨hwide, htail, -⟩ := v.write_eq str
    have hpieces := pieces_append (v.tail ++ str) strs.flatten
    have hbytes : v.bytes (str :: strs) = v.tail ++ str ++ strs.flatten := by
      rw [bytes, List.flatten_cons, List.append_assoc]
    rw [hbytes, hpieces] at h
    dsimp only at h
    rw [List.length_append] at h
    have hrest := writes_wide strs (v.write str).1
      (by rw [bytes, htail]; exact Nat.lt_of_le_of_lt (Nat.le_add_left _ _) h)
    rw [writes]
    dsimp only
    rw [hrest, hwide, hbytes, hpieces, bytes, htail,
      Nat.mod_eq_of_lt (Nat.lt_of_le_of_lt (Nat.le_add_right _ _) h),
      List.take_of_length_le (Nat.le_of_eq (List.length_map _)), List.map_append]

/-- **The output is that of a single call**: the same characters are passed on, each byte has been
passed on once or is held back, the same bytes are held back, and the automaton is in the same
state. -/
structure Uncut (v : VTAnsi) (strs : List (List Byte)) : Prop where
  wide : (v.writes strs).2 = (v.write strs.flatten).2.1
  once : (v.writes strs).2 = (pieces (v.bytes strs)).1.map Piece.wide
  tail : (v.writes strs).1.tail = (v.write strs.flatten).1.tail
  ctx : (v.writes strs).1.ctx = (v.write strs.flatten).1.ctx

/-- A single call passes on no more than a `DWORD` counts. -/
theorem Uncut.length {strs : List (List Byte)} (h : Uncut v strs) :
    (pieces (v.bytes strs)).1.length < 2 ^ 32 := by
  have hlength := congrArg List.length (h.once.symm.trans (h.wide.trans (v.write_eq strs.flatten).1))
  rw [List.length_take, List.length_map, List.length_map] at hlength
  have hmod := Nat.mod_lt (pieces (v.bytes strs)).1.length (show 0 < 2 ^ 32 by decide)
  have hsame : (pieces (v.bytes strs)).1.length = min ((pieces (v.bytes strs)).1.length % 2 ^ 32)
      (pieces (v.bytes strs)).1.length := hlength
  omega

/-- A letter is a piece. -/
theorem pieces_letters : ∀ n, (pieces (List.replicate n (ch 'A'))).1.length = n
  | 0 => by
    rw [List.replicate_zero, pieces_held ⟨by decide, rfl⟩]
    rfl
  | n + 1 => by
    have hread : Utf8.read (ch 'A' :: List.replicate n (ch 'A'))
        = some (0x41, List.replicate n (ch 'A')) := rfl
    rw [List.replicate_succ, pieces_read hread, List.length_cons, pieces_letters n]

theorem not_uncut_letters {n : Nat} (h : 2 ^ 32 ≤ n + 1) :
    ¬Uncut {} [[ch 'A'], List.replicate n (ch 'A')] := by
  intro huncut
  have hlt := huncut.length
  have hbytes : bytes {} [[ch 'A'], List.replicate n (ch 'A')] = List.replicate (n + 1) (ch 'A') := by
    rw [bytes, List.flatten_cons, List.flatten_cons, List.flatten_nil, List.append_nil,
      List.nil_append, List.replicate_succ]
    rfl
  rw [hbytes, pieces_letters] at hlt
  omega

end VTAnsi

end VT

end Far2l
