/-
Far2l.Editor.VBlockShift — a vertical block moved by one column:
what `Editor::VBlockShift` of `far/src/editor.cpp` does to one line.

A read or a write outside `CurStr` or `TmpStr` makes the run fail. The undo records are
left out.
-/
import Far2l.Editor.VerticalBlock
import Mathlib.Logic.Function.Basic
import Mathlib.Tactic.SplitIfs
import Far2l.Editor.TabTheorems

namespace Far2l

namespace VBlock

variable (conf : EditConf)

/-! ## Access by index -/

/-- `Str[I]` -/
def at? (s : WStr) (i : Int) : Option WChar := if 0 ≤ i then s[i.toNat]? else none

/-- `Str[I] = c` -/
def put? (s : WStr) (i : Int) (c : WChar) : Option WStr :=
  if 0 ≤ i ∧ i < s.length then some (s.set i.toNat c) else none

/-- `for (I = i; I < i + n; I++) TmpStr[I - 1] = TmpStr[I];` -/
def moveDown : Nat → Nat → WStr → Option WStr
  | 0, _, tmp => some tmp
  | n + 1, i, tmp => do
      let c ← at? tmp i
      let tmp ← put? tmp ((i : Int) - 1) c
      moveDown n (i + 1) tmp

/-- `for (I = i + n - 1; I >= i; I--) TmpStr[I + 1] = TmpStr[I];` -/
def moveUp : Nat → Nat → WStr → Option WStr
  | 0, _, tmp => some tmp
  | n + 1, i, tmp => do
      let c ← at? tmp (i + n : Nat)
      let tmp ← put? tmp (i + n + 1 : Nat) c
      moveUp n i tmp

/-! ## One line -/

/-- The characters of the block one place down, the one in front of it behind it. -/
def shiftDown (x size : Nat) (tmp : WStr) : Option WStr := do
  let ch ← at? tmp ((x : Int) - 1)
  let tmp ← moveDown size x tmp
  put? tmp ((x : Int) + size - 1) ch

/-- The characters of the block one place up, the one behind it in front of it. -/
def shiftUp (x size : Nat) (tmp : WStr) : Option WStr := do
  let ch ← at? tmp (x + size : Nat)
  let tmp ← moveUp size x tmp
  put? tmp x ch

/-- `StrLen` -/
def strLen (left : Bool) (x size : Nat) (s : WStr) : Nat := max s.length (x + size + if left then 0 else 1)

/-- `TmpStr`, of which `StrLen` characters are filled, and the characters moved in it. -/
def shiftText (left : Bool) (x size : Nat) (s : WStr) : Option WStr :=
  let tmp := s ++ List.replicate (strLen left x size s - s.length) SPACE
  if left then shiftDown x size tmp else shiftUp x size tmp

/-- Whether the character that makes room is a tab. -/
def displacesTab (left : Bool) (s : WStr) (x size : Nat) : Option Bool :=
  if left then (at? s ((x : Int) - 1)).map (· == TAB)
  else if x + size < s.length then (at? s (x + size : Nat)).map (· == TAB)
  else some false

/-- The text without the spaces at its end. -/
def trimmed (s : WStr) : WStr := (s.reverse.dropWhile (· == SPACE)).reverse

/-- What becomes of a line: the line that is moved (after `ExpandTabs`, if that is called),
the text that is put together from it, and the line afterwards. -/
structure Shifted where
  base : Edit
  text : WStr
  edit : Edit
  deriving DecidableEq, Repr

/-- The body of the loop of `VBlockShift`. -/
def shiftLine (b : Block) (left : Bool) (e : Edit) : Option Shifted :=
  if b.realX conf e > e.length then some ⟨e, e.str, e⟩
  else do
    let expand ← displacesTab left e.str (b.realX conf e) (b.realSizeX conf e)
    let base := if expand then e.expandTabs conf else e
    let tmp ← shiftText left (b.realX conf base) (b.realSizeX conf base) base.str
    some ⟨base, trimmed tmp, base.setBinaryString conf (trimmed tmp ++ base.getEOL)⟩

end VBlock

end Far2l

/-! # Moving a vertical block by one column stays inside

the line and only permutes its characters.

Texts are compared as if spaces went on behind them. The one thing that goes wrong is a
block that is moved to the left in a line that begins with a tab, while the block begins
inside that tab: then the block begins at the first position, and there is nothing in
front of it. -/

namespace Far2l

namespace VBlock

/-! ## Where characters come from -/

/-- The position that a character comes from: the block has `size` characters from `x` on,
and the character in front of it (or behind it) goes to its other side. -/
def sourceOf (left : Bool) (x size k : Nat) : Nat :=
  if left then if x ≤ k + 1 ∧ k + 1 < x + size then k + 1 else if k + 1 = x + size then x - 1 else k
  else if x < k ∧ k ≤ x + size then k - 1 else if k = x then x + size else k

/-! ## The loops -/

theorem at?_nat (s : WStr) (i : Nat) : at? s i = s[i]? := if_pos (Int.natCast_nonneg i)

theorem put?_nat {s : WStr} {i : Nat} (h : i < s.length) (c : WChar) : put? s i c = some (s.set i c) :=
  if_pos ⟨Int.natCast_nonneg i, Int.ofNat_lt.mpr h⟩

theorem moveDown_spec : ∀ (n i : Nat) (tmp : WStr), 1 ≤ i → i + n ≤ tmp.length →
    ∃ tmp', moveDown n i tmp = some tmp' ∧ tmp'.length = tmp.length ∧
      ∀ k, tmp'[k]? = if i ≤ k + 1 ∧ k + 1 < i + n then tmp[k + 1]? else tmp[k]?
  | 0, i, tmp, _, _ => ⟨tmp, rfl, rfl, fun k => by rw [if_neg (by omega)]⟩
  | n + 1, i, tmp, hi, hlen => by
    have hpred : (i : Int) - 1 = (i - 1 : Nat) := by omega
    obtain ⟨c, hc⟩ : ∃ c, tmp[i]? = some c := ⟨_, List.getElem?_eq_getElem (by omega)⟩
    obtain ⟨tmp', hrun, hlen', hget⟩ := moveDown_spec n (i + 1) (tmp.set (i - 1) c) (by omega)
      (by rw [List.length_set]; omega)
    refine ⟨tmp', ?_, by rw [hlen', List.length_set], fun k => ?_⟩
    · rw [moveDown, at?_nat, hc, hpred]
      show (put? tmp (i - 1 : Nat) c).bind _ = _
      rw [put?_nat (by omega)]
      exact hrun
    · rw [hget, List.getElem?_set, List.getElem?_set]
      by_cases hk : k + 1 = i
      · rw [if_neg (by omega), if_pos (by omega), if_pos (by omega), if_pos (by omega), hk, hc]
      · by_cases hin : i + 1 ≤ k + 1 ∧ k + 1 < i + 1 + n
        · rw [if_pos hin, if_neg (by omega), if_pos (by omega)]
        · rw [if_neg hin, if_neg (by omega), if_neg (by omega)]

theorem moveUp_spec : ∀ (n i : Nat) (tmp : WStr), i + n < tmp.length →
    ∃ tmp', moveUp n i tmp = some tmp' ∧ tmp'.length = tmp.length ∧
      ∀ k, tmp'[k]? = if i < k ∧ k ≤ i + n then tmp[k - 1]? else tmp[k]?
  | 0, i, tmp, _ => ⟨tmp, rfl, rfl, fun k => by rw [if_neg (by omega)]⟩
  | n + 1, i, tmp, hlen => by
    obtain ⟨c, hc⟩ : ∃ c, tmp[i + n]? = some c := ⟨_, List.getElem?_eq_getElem (by omega)⟩
    obtain ⟨tmp', hrun, hlen', hget⟩ := moveUp_spec n i (tmp.set (i + n + 1) c) (by rw [List.length_set]; omega)
    refine ⟨tmp', ?_, by rw [hlen', List.length_set], fun k => ?_⟩
    · rw [moveUp, at?_nat, hc]
      show (put? tmp (i + n + 1 : Nat) c).bind _ = _
      rw [put?_nat (by omega)]
      exact hrun
    · rw [hget, List.getElem?_set, List.getElem?_set]
      by_cases hk : k = i + n + 1
      · rw [if_neg (by omega), if_pos hk.symm, if_pos (by omega), if_pos (by omega), hk, Nat.add_sub_cancel, hc]
      · by_cases hin : i < k ∧ k ≤ i + n
        · rw [if_pos hin, if_neg (by omega), if_pos (by omega)]
        · rw [if_neg hin, if_neg (by omega), if_neg (by omega)]

/-- The block one place down. -/
theorem shiftDown_spec {x size : Nat} {tmp : WStr} (hx : 1 ≤ x) (hlen : x + size ≤ tmp.length) :
    ∃ tmp', shiftDown x size tmp = some tmp' ∧ tmp'.length = tmp.length ∧
      ∀ k, tmp'[k]? = tmp[sourceOf true x size k]? := by
  have hpred : (x : Int) - 1 = (x - 1 : Nat) := by omega
  have hlast : (x : Int) + size - 1 = (x + size - 1 : Nat) := by omega
  obtain ⟨ch, hch⟩ : ∃ ch, tmp[x - 1]? = some ch := ⟨_, List.getElem?_eq_getElem (by omega)⟩
  obtain ⟨tmp', hrun, hlen', hget⟩ := moveDown_spec size x tmp hx hlen
  refine ⟨tmp'.set (x + size - 1) ch, ?_, by rw [List.length_set, hlen'], fun k => ?_⟩
  · rw [shiftDown, hpred, at?_nat, hch, hrun, hlast]
    exact put?_nat (by omega) ch
  · show _ = tmp[if x ≤ k + 1 ∧ k + 1 < x + size then k + 1 else if k + 1 = x + size then x - 1 else k]?
    rw [List.getElem?_set, hget]
    by_cases hk : k + 1 = x + size
    · rw [if_pos (by omega), if_pos (by omega), if_neg (by omega), if_pos hk, hch]
    · rw [if_neg (by omega), if_neg hk]
      split
      · rfl
      · rfl

/-- The block one place up. -/
theorem shiftUp_spec {x size : Nat} {tmp : WStr} (hlen : x + size < tmp.length) :
    ∃ tmp', shiftUp x size tmp = some tmp' ∧ tmp'.length = tmp.length ∧
      ∀ k, tmp'[k]? = tmp[sourceOf false x size k]? := by
  obtain ⟨ch, hch⟩ : ∃ ch, tmp[x + size]? = some ch := ⟨_, List.getElem?_eq_getElem hlen⟩
  obtain ⟨tmp', hrun, hlen', hget⟩ := moveUp_spec size x tmp hlen
  refine ⟨tmp'.set x ch, ?_, by rw [List.length_set, hlen'], fun k => ?_⟩
  · rw [shiftUp, at?_nat, hch, hrun]
    exact put?_nat (by omega) ch
  · show _ = tmp[if x < k ∧ k ≤ x + size then k - 1 else if k = x then x + size else k]?
    rw [List.getElem?_set, hget]
    by_cases hk : x = k
    · rw [if_pos hk, if_pos (by omega), if_neg (by omega), if_pos hk.symm, hch]
    · rw [if_neg hk, if_neg (Ne.symm hk)]
      split
      · rfl
      · rfl

/-! ## Spaces behind a text -/

theorem getD_padded (s : WStr) (n k : Nat) : (s ++ List.replicate n SPACE).getD k SPACE = s.getD k SPACE := by
  rw [List.getD_eq_getElem?_getD, List.getD_eq_getElem?_getD, List.getElem?_append]
  split
  · rfl
  · next h =>
    rw [List.getElem?_eq_none (Nat.le_of_not_lt h), List.getElem?_replicate]
    split
    · rfl
    · rfl

/-- The spaces at the end do not count. -/
theorem getD_trimmed (s : WStr) (k : Nat) : (trimmed s).getD k SPACE = s.getD k SPACE := by
  have hall : (s.reverse.takeWhile (· == SPACE)).all (· == SPACE) = true := List.all_takeWhile
  have hspaces : s.reverse.takeWhile (· == SPACE) =
      List.replicate (s.reverse.takeWhile (· == SPACE)).length SPACE :=
    List.eq_replicate_iff.mpr ⟨rfl, fun c hc => beq_iff_eq.mp (List.all_eq_true.mp hall c hc)⟩
  have hsplit : trimmed s ++ List.replicate (s.reverse.takeWhile (· == SPACE)).length SPACE = s := by
    rw [trimmed, ← List.reverse_replicate, ← hspaces, ← List.reverse_append, List.takeWhile_append_dropWhile,
      List.reverse_reverse]
  rw [← getD_padded (trimmed s) (s.reverse.takeWhile (· == SPACE)).length k, hsplit]

theorem length_trimmed_le (s : WStr) : (trimmed s).length ≤ s.length := by
  have h := (List.dropWhile_suffix (l := s.reverse) fun c => c == SPACE).length_le
  rwa [List.length_reverse, ← List.length_reverse] at h

/-! ## One line -/

open Edit

variable {conf : EditConf}

/-- A block begins at the first position of a line only inside a tab. -/
theorem realX_eq_zero_iff {b : Block} (hb : 1 ≤ b.blockX) (e : Edit) :
    b.realX conf e = 0 ↔ b.blockX < conf.tabSize ∧ ∃ c, e.str.head? = some c ∧ isKeptTab conf c = true := by
  rw [realX_eq]
  cases e.str with
  | nil =>
    rw [realFrom_nil]
    refine iff_of_false (by omega) ?_
    rintro ⟨-, c, hc, -⟩
    exact Option.some_ne_none c hc.symm
  | cons c s =>
    have hfree : ¬ (false = true ∧ conf.xxxfix c = true) := fun h => Bool.false_ne_true h.1
    cases hkept : isKeptTab conf c with
    | true =>
      rw [realFrom_tab hfree hkept s hb, Nat.zero_mod, Nat.sub_zero, Nat.zero_add]
      split
      · next h => exact iff_of_true rfl ⟨h, c, rfl, hkept⟩
      · next h => exact iff_of_false (Nat.succ_ne_zero _) fun hc => h hc.1
    | false =>
      rw [realFrom_char hfree hkept s hb]
      refine iff_of_false (Nat.succ_ne_zero _) ?_
      rintro ⟨-, c', hc', hkept'⟩
      rw [← Option.some.inj hc', hkept] at hkept'
      exact Bool.false_ne_true hkept'

/-- In an expanded line there is a character in front of the block. -/
theorem realX_expandTabs_pos {b : Block} (hb : 1 ≤ b.blockX) (e : Edit) : 1 ≤ b.realX conf (e.expandTabs conf) := by
  refine Nat.one_le_iff_ne_zero.mpr fun hzero => ?_
  obtain ⟨-, c, hc, hkept⟩ := (realX_eq_zero_iff hb _).mp hzero
  have hfree : TAB ∉ (e.expandTabs conf).str := by
    have hstr := congrArg Prod.fst (content_expandTabs conf e)
    have hstr' : (e.expandTabs conf).str = expandedText conf [] e.str := hstr
    rw [hstr']
    exact not_mem_expandedText conf e.str [] List.not_mem_nil
  rw [(isKeptTab_iff.mp hkept).1] at hc
  exact hfree (List.mem_of_mem_head? hc)

/-- The character that makes room. -/
def displaced (left : Bool) (s : WStr) (x size : Nat) : Option WChar := if left then s[x - 1]? else s[x + size]?

/-- What is done right to a line: its tabs are expanded when a tab makes room, the characters
come from where they should, and the line is set to the text, for which there is room in
`TmpStr` with the line end. -/
structure Moved (conf : EditConf) (b : Block) (left : Bool) (e : Edit) (r : Shifted) : Prop where
  base : r.base = if displaced left e.str (b.realX conf e) (b.realSizeX conf e) = some TAB then e.expandTabs conf else e
  text : ∀ k, r.text.getD k SPACE =
    r.base.str.getD (sourceOf left (b.realX conf r.base) (b.realSizeX conf r.base) k) SPACE
  edit : (r.text = r.base.str ∧ r.edit = r.base) ∨ r.edit = r.base.setBinaryString conf (r.text ++ r.base.getEOL)
  room : (r.text ++ r.base.getEOL).length ≤ strLen left (b.realX conf r.base) (b.realSizeX conf r.base) r.base.str + 3

theorem length_text_le {text : WStr} {e : Edit} {n : Nat} (h : text.length ≤ n) : (text ++ e.getEOL).length ≤ n + 3 := by
  have heol : e.getEOL.length ≤ 3 := by
    rw [getEOL]
    cases e.endType <;> decide
  rw [List.length_append]
  omega

/-- Behind the text the displaced character is a space. -/
theorem displaced_behind {left : Bool} {s : WStr} {x size : Nat} (h : s.length < x) : displaced left s x size ≠ some TAB := by
  cases left with
  | true =>
    have hnone : s[x - 1]? = none := List.getElem?_eq_none (by omega)
    exact fun h => absurd (hnone.symm.trans h) (by simp)
  | false =>
    have hnone : s[x + size]? = none := List.getElem?_eq_none (by omega)
    exact fun h => absurd (hnone.symm.trans h) (by simp)

/-- A block behind the text moves spaces only. -/
theorem getD_sourceOf_behind (left : Bool) {s : WStr} {x : Nat} (h : s.length < x) (size k : Nat) :
    s.getD k SPACE = s.getD (sourceOf left x size k) SPACE := by
  have hspace : ∀ i, s.length ≤ i → s.getD i SPACE = SPACE := fun i hi => by
    rw [List.getD_eq_getElem?_getD, List.getElem?_eq_none hi]
    rfl
  cases left with
  | true =>
    have hsource : sourceOf true x size k =
      if x ≤ k + 1 ∧ k + 1 < x + size then k + 1 else if k + 1 = x + size then x - 1 else k := rfl
    rw [hsource]
    split
    · rw [hspace k (by omega), hspace (k + 1) (by omega)]
    · split
      · rw [hspace k (by omega), hspace (x - 1) (by omega)]
      · rfl
  | false =>
    have hsource : sourceOf false x size k =
      if x < k ∧ k ≤ x + size then k - 1 else if k = x then x + size else k := rfl
    rw [hsource]
    split
    · rw [hspace k (by omega), hspace (k - 1) (by omega)]
    · split
      · rw [hspace k (by omega), hspace (x + size) (by omega)]
      · rfl

/-- Whether tabs are expanded, when there is a character in front of the block. -/
theorem displacesTab_eq {left : Bool} {s : WStr} {x size : Nat} (hx : x ≤ s.length) (hleft : left = true → 1 ≤ x) :
    displacesTab left s x size = some (decide (displaced left s x size = some TAB)) := by
  have hat : ∀ (i : Nat) (c : WChar), s[i]? = some c → (c == TAB) = decide (s[i]? = some TAB) := fun i c hc => by
    rw [hc, Bool.eq_iff_iff, beq_iff_eq, decide_eq_true_iff, Option.some_inj]
  cases left with
  | true =>
    have hpred : (x : Int) - 1 = (x - 1 : Nat) := by
      have := hleft rfl
      omega
    obtain ⟨c, hc⟩ : ∃ c, s[x - 1]? = some c := ⟨_, List.getElem?_eq_getElem (by have := hleft rfl; omega)⟩
    show (at? s ((x : Int) - 1)).map (· == TAB) = some (decide (s[x - 1]? = some TAB))
    rw [hpred, at?_nat, ← hat _ c hc, hc]
    rfl
  | false =>
    show (if x + size < s.length then (at? s (x + size : Nat)).map (· == TAB) else some false) =
      some (decide (s[x + size]? = some TAB))
    split
    · next hlt =>
      obtain ⟨c, hc⟩ : ∃ c, s[x + size]? = some c := ⟨_, List.getElem?_eq_getElem hlt⟩
      rw [at?_nat, ← hat _ c hc, hc]
      rfl
    · next hge =>
      rw [List.getElem?_eq_none (Nat.le_of_not_lt hge)]
      rfl

/-- The text put together, when there is a character in front of the block. -/
theorem shiftText_spec (left : Bool) (x size : Nat) (s : WStr) (hleft : left = true → 1 ≤ x) :
    ∃ tmp, shiftText left x size s = some tmp ∧ tmp.length = strLen left x size s ∧
      ∀ k, (trimmed tmp).getD k SPACE = s.getD (sourceOf left x size k) SPACE := by
  obtain ⟨n, hn⟩ : ∃ n, n = strLen left x size s - s.length := ⟨_, rfl⟩
  have hlen : (s ++ List.replicate n SPACE).length = strLen left x size s := by
    rw [List.length_append, List.length_replicate, hn, strLen]
    omega
  have hget : ∀ tmp : WStr, (∀ k, tmp[k]? = (s ++ List.replicate n SPACE)[sourceOf left x size k]?) →
      ∀ k, (trimmed tmp).getD k SPACE = s.getD (sourceOf left x size k) SPACE := fun tmp h k => by
    rw [getD_trimmed, ← getD_padded s n (sourceOf left x size k), List.getD_eq_getElem?_getD, h,
      List.getD_eq_getElem?_getD]
  rw [shiftText, ← hn]
  cases left with
  | true =>
    obtain ⟨tmp, hrun, hlen', htmp⟩ := @shiftDown_spec x size (s ++ List.replicate n SPACE) (hleft rfl) (by
      rw [hlen, strLen]
      omega)
    exact ⟨tmp, hrun, hlen'.trans hlen, hget tmp htmp⟩
  | false =>
    obtain ⟨tmp, hrun, hlen', htmp⟩ := @shiftUp_spec x size (s ++ List.replicate n SPACE) (by
      rw [hlen, strLen, if_neg Bool.false_ne_true]
      omega)
    exact ⟨tmp, hrun, hlen'.trans hlen, hget tmp htmp⟩

/-- **A vertical block is moved inside the line, and only permutes its characters, unless
it is moved to the left and begins inside the tab that the line begins with.** -/
theorem shiftLine_iff (b : Block) (left : Bool) (e : Edit) (hb : left = true → 1 ≤ b.blockX) :
    (∃ r, shiftLine conf b left e = some r ∧ Moved conf b left e r) ↔
      ¬ (left = true ∧ b.blockX < conf.tabSize ∧ ∃ c, e.str.head? = some c ∧ isKeptTab conf c = true) := by
  by_cases hskip : b.realX conf e > e.length
  · refine iff_of_true ⟨⟨e, e.str, e⟩, if_pos hskip, ?_, ?_, .inl ⟨rfl, rfl⟩, ?_⟩ ?_
    · rw [if_neg (displaced_behind hskip)]
    · exact fun k => getD_sourceOf_behind left hskip _ k
    · exact length_text_le (Nat.le_max_left _ _)
    · rintro ⟨hleft, hzero⟩
      rw [← realX_eq_zero_iff (hb hleft) e] at hzero
      omega
  · have hx : b.realX conf e ≤ e.str.length := Nat.le_of_not_lt hskip
    by_cases hzero : left = true ∧ b.realX conf e = 0
    · -- what is in front of the line is read
      obtain ⟨hleft, hzero⟩ := hzero
      refine iff_of_false ?_ (not_not.mpr ⟨hleft, (realX_eq_zero_iff (hb hleft) e).mp hzero⟩)
      rintro ⟨r, hrun, -⟩
      rw [shiftLine, if_neg hskip, hzero, hleft] at hrun
      exact absurd hrun (by simp [displacesTab, at?])
    · have hleft : left = true → 1 ≤ b.realX conf e := fun h =>
        Nat.one_le_iff_ne_zero.mpr fun h0 => hzero ⟨h, h0⟩
      refine iff_of_true ?_ fun h => hzero ⟨h.1, (realX_eq_zero_iff (hb h.1) e).mpr h.2⟩
      obtain ⟨base, hbase⟩ : ∃ base : Edit, base =
          if displaced left e.str (b.realX conf e) (b.realSizeX conf e) = some TAB then e.expandTabs conf else e := ⟨_, rfl⟩
      have hleft' : left = true → 1 ≤ b.realX conf base := fun h => by
        rw [hbase]
        split
        · exact realX_expandTabs_pos (hb h) e
        · exact hleft h
      obtain ⟨tmp, hrun, hlen, htext⟩ := shiftText_spec left (b.realX conf base) (b.realSizeX conf base) base.str hleft'
      refine ⟨⟨base, trimmed tmp, base.setBinaryString conf (trimmed tmp ++ base.getEOL)⟩, ?_, hbase, htext, .inr rfl,
        length_text_le (hlen ▸ length_trimmed_le tmp)⟩
      rw [shiftLine, if_neg hskip, displacesTab_eq hx hleft]
      have hif : (if decide (displaced left e.str (b.realX conf e) (b.realSizeX conf e) = some TAB) = true
          then e.expandTabs conf else e) = base := by
        rw [hbase]
        simp only [decide_eq_true_eq]
      dsimp only [Option.bind_eq_bind, Option.bind_some]
      rw [hif, hrun]
      rfl

/-- The block of one column behind the tab of tab, `a`, `b` is moved to the left. -/
theorem shiftLine_behind_tab :
    (∃ r, shiftLine accents ⟨8, 1, 1⟩ true { str := [TAB, 0x61, 0x62] } = some r ∧
        Moved accents ⟨8, 1, 1⟩ true { str := [TAB, 0x61, 0x62] } r) ↔
      ¬ (true = true ∧ 8 < accents.tabSize ∧
        ∃ c, ([TAB, 0x61, 0x62] : WStr).head? = some c ∧ isKeptTab accents c = true) :=
  shiftLine_iff ⟨8, 1, 1⟩ true { str := [TAB, 0x61, 0x62] } (by decide)

/-- Inside the tab that the line begins with, the character in front of the line is read. -/
theorem shiftLine_inside_tab :
    shiftLine accents ⟨3, 1, 1⟩ true { str := [TAB, 0x61, 0x62] } = none ∧
      ¬ ∀ (conf : EditConf) (b : Block) (left : Bool) (e : Edit), (left = true → 1 ≤ b.blockX) →
        ∃ r, shiftLine conf b left e = some r ∧ Moved conf b left e r := by
  have hnone : shiftLine accents ⟨3, 1, 1⟩ true { str := [TAB, 0x61, 0x62] } = none := by decide
  refine ⟨hnone, fun h => ?_⟩
  obtain ⟨r, hrun, -⟩ := h accents ⟨3, 1, 1⟩ true { str := [TAB, 0x61, 0x62] } (by decide)
  exact absurd (hnone.symm.trans hrun) (by simp)

end VBlock

end Far2l
