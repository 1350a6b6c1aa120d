/-
Far2l.Editor.BlockText — when `DeleteBlock` deletes exactly the text of a stream
block.

It does when the block lies in one line or begins at the beginning of a line. A
block that begins inside one line and ends in another one leaves the line end of
the first, not of the last line, and when it ends in the last line of the file
that line is emptied, not removed.
-/
import Far2l.Editor.DeleteBlockExact

namespace Far2l

/-- The text that is saved: that of every line, followed by its line end. -/
def savedText (D : List DocLine) : WStr := D.flatMap fun l => l.1 ++ l.2.chars

theorem savedText_append (D D' : List DocLine) :
    savedText (D ++ D') = savedText D ++ savedText D' := List.flatMap_append

/-- A stream block from column `i` of line `a` to column `j` of line `b`, as the selection of
each line keeps it: `SelEnd` is -1 on all lines but the last, which need not be marked when `j`
is 0. -/
structure StreamBlock (L : List Mark) (a i b j : Nat) : Prop where
  le : a ≤ b
  first : ∃ l, L[a]? = some (l, (i : Int), if a = b then (j : Int) else -1) ∧ i ≤ l.1.length
  middle : ∀ k, a < k → k < b → ∃ x, L[k]? = some (x, 0, -1)
  last : ∃ m, L[b]? = some m ∧ j ≤ m.1.1.length ∧ (a < b → Editor.EndsAt m (j : Int))
  behind : ∀ m, L[b + 1]? = some m → m.2.1 = -1

/-- The text in front of the block, followed by the text behind it. -/
def textAround (D : List DocLine) (a i b j : Nat) (l z : DocLine) : WStr :=
  savedText (D.take a) ++ l.1.take i ++ (z.1.drop j ++ z.2.chars ++ savedText (D.drop (b + 1)))

/-- When `DeleteBlock` deletes the block from line `l` to the line of `z` and nothing else. The
block begins at the beginning of a line and ends at that of an unmarked one; or no tab that is
left is expanded, and the block lies in one line, or begins at the beginning of a line, or does not
reach the last line of the file and goes from one line end to an equal one. There, in a block of
more than two lines, characters of line ends inside the first line may become part of its line
end. -/
def DeletesExactly (conf : EditConf) (len a i b j : Nat) (l : DocLine) (z : Mark) : Prop :=
  (i = 0 ∧ z.2.1 = -1)
  ∨ ((conf.tabExpandMode = .allTabs → TAB ∉ l.1.take i ++ z.1.1.drop j)
    ∧ (a = b ∨ i = 0 ∨ (b + 1 < len ∧ l.2 = z.1.2 ∧
        (b = a + 1 ∨
          (Edit.eolEaten (l.1.take i) l.2 ≠ l.1.take i
            ∧ z.1.1.drop j ++ Edit.eolEaten (l.1.take i) l.2
              = Edit.eolEaten (l.1.take i) l.2 ++ z.1.1.drop j)))))

namespace Editor

variable {E : Editor} {ps : List Ptr} {L : List Mark}

/-! ## The line that is left -/

theorem resetLine_saved (conf : EditConf) (l : DocLine) {text : WStr}
    (htab : conf.tabExpandMode = .allTabs → TAB ∉ text) :
    (resetLine conf l text).1 ++ (resetLine conf l text).2.chars = text ++ l.2.chars := by
  refine (Edit.saved_setContent conf _ (fun hall hmem => ?_) fun hnil => ?_).2.2
  · rcases List.mem_append.mp hmem with hmem | hmem
    · exact htab hall hmem
    · exact Edit.not_mem_chars _ hmem
  · exact Edit.chars_injective (List.append_eq_nil_iff.mp hnil).2

/-- What is saved of the last line of a block that is reached by itself. -/
theorem lastLine_saved {conf : EditConf} {z : Mark} {t : Nat} (hend : EndsAt z (t : Int))
    (htab : conf.tabExpandMode = .allTabs → TAB ∉ z.1.1.drop t) :
    (lastLine conf z t).1 ++ (lastLine conf z t).2.chars = z.1.1.drop t ++ z.1.2.chars := by
  rw [lastLine]
  split
  · next hunmarked =>
    rcases hend with hend | ⟨-, ht⟩
    · rw [hend] at hunmarked
      simp at hunmarked
    · obtain rfl : t = 0 := by omega
      rfl
  · exact resetLine_saved _ _ htab

/-- A line that is put together has no tabs where tabs are expanded, unless it has run empty. -/
theorem not_mem_joinsTo {conf : EditConf} (hall : conf.tabExpandMode = .allTabs) (z : Mark)
    (t : Nat) : ∀ (d : Nat) (l : DocLine) (s : Nat),
    TAB ∉ (joinsTo conf z t d l s).1 ∨ joinsTo conf z t d l s = lastLine conf z t
  | 0, _, _ => .inl (Edit.not_mem_setContent conf hall _ _)
  | d + 1, l, s => by
    rw [joinsTo]
    split
    · exact .inr rfl
    · exact not_mem_joinsTo hall z t d _ _

/-- A line that has been set to a text is not changed by setting it again. -/
theorem resetLine_stable {conf : EditConf} {l : DocLine} {text : WStr} (hne : text ≠ [])
    (htab : conf.tabExpandMode = .allTabs → TAB ∉ text) :
    resetLine conf (resetLine conf l text) (resetLine conf l text).1 = resetLine conf l text := by
  have hsaved := resetLine_saved conf l htab
  have hne' : text ++ l.2.chars ≠ [] := List.append_ne_nil_of_left_ne_nil hne _
  have htab' : conf.tabExpandMode = .allTabs → TAB ∉ text ++ l.2.chars := by
    intro hall hmem
    rcases List.mem_append.mp hmem with hmem | hmem
    · exact htab hall hmem
    · exact Edit.not_mem_chars _ hmem
  obtain ⟨h1, h2, -⟩ := Edit.saved_setContent conf l.2 htab' fun h => absurd h hne'
  obtain ⟨h1', h2', -⟩ := Edit.saved_setContent conf (resetLine conf l text).2 htab'
    fun h => absurd h hne'
  show Edit.setContent conf _ (_ ++ _) = _
  rw [hsaved]
  exact Prod.ext (h1'.trans h1.symm) (h2'.trans h2.symm)

/-- Once the first line is set, the other joins leave it as it is. -/
theorem joinsTo_stable {conf : EditConf} (z : Mark) (t : Nat) {l : DocLine}
    (hl : resetLine conf l l.1 = l) (hne : l.1 ≠ []) :
    ∀ d : Nat, joinsTo conf z t d l l.1.length = resetLine conf l (l.1 ++ z.1.1.drop t)
  | 0 => by rw [joinsTo, List.take_length]
  | d + 1 => by
    rw [joinsTo, List.take_length]
    simp only [hl, hne, if_false]
    exact joinsTo_stable z t hl hne d

/-- What a block in more than two lines leaves of its first and its last line. -/
theorem joinsTo_saved {conf : EditConf} {l : DocLine} {z : Mark} {i j : Nat} (hi : 0 < i)
    (hil : i ≤ l.1.length) (hend : EndsAt z (j : Int))
    (htab : conf.tabExpandMode = .allTabs → TAB ∉ l.1.take i ++ z.1.1.drop j) (d : Nat) :
    (joinsTo conf z j (d + 1) l i).1 ++ (joinsTo conf z j (d + 1) l i).2.chars
        = l.1.take i ++ z.1.1.drop j ++ z.1.2.chars
      ↔ l.2 = z.1.2 ∧ Edit.eolEaten (l.1.take i) l.2 ≠ l.1.take i
        ∧ z.1.1.drop j ++ Edit.eolEaten (l.1.take i) l.2
          = Edit.eolEaten (l.1.take i) l.2 ++ z.1.1.drop j := by
  have hleft : l.1.take i ≠ [] := by
    rw [← List.length_pos_iff, List.length_take]
    omega
  rw [joinsTo]
  generalize l.1.take i = left at hleft htab ⊢
  have htabl : conf.tabExpandMode = .allTabs → TAB ∉ left :=
    fun hall hmem => htab hall (List.mem_append_left _ hmem)
  have hsaved := resetLine_saved conf l htabl
  have hstable := resetLine_stable (l := l) hleft htabl
  obtain ⟨hsplit, hchars⟩ := Edit.splitEol_eaten left l.2
  obtain ⟨h1, h2, -⟩ := Edit.saved_setContent conf l.2 (s := left ++ l.2.chars)
    (fun hall hmem => by
      rcases List.mem_append.mp hmem with hmem | hmem
      · exact htabl hall hmem
      · exact Edit.not_mem_chars _ hmem)
    (fun h => absurd h (List.append_ne_nil_of_left_ne_nil hleft _))
  change (resetLine conf l left).1 = _ at h1
  change (resetLine conf l left).2 = _ at h2
  rw [← h1] at hsplit
  rw [← h2] at hchars
  generalize resetLine conf l left = l1 at hsaved hstable hsplit hchars ⊢
  generalize Edit.eolEaten left l.2 = eaten at hsplit hchars ⊢
  by_cases hnil : l1.1 = []
  · -- the whole first line has become line end, and has gone
    have heaten : eaten = left := by rw [hsplit, hnil, List.nil_append]
    simp only [hnil, if_true, heaten, ne_eq, not_true_eq_false, false_and, and_false, iff_false]
    rw [lastLine_saved hend fun hall hmem => htab hall (List.mem_append_right _ hmem)]
    intro heq
    have hlen := congrArg List.length heq
    have hpos := List.length_pos_iff.mpr hleft
    rw [List.length_append, List.length_append, List.length_append] at hlen
    omega
  · have hne : eaten ≠ left := by
      intro heq
      rw [heq] at hsplit
      have hlen := congrArg List.length hsplit
      rw [List.length_append] at hlen
      exact hnil (List.length_eq_zero_iff.mp (by omega))
    have htab1 : conf.tabExpandMode = .allTabs → TAB ∉ l1.1 ++ z.1.1.drop j := by
      intro hall hmem
      refine htab hall ?_
      rw [hsplit]
      rcases List.mem_append.mp hmem with hmem | hmem
      · exact List.mem_append_left _ (List.mem_append_left _ hmem)
      · exact List.mem_append_right _ hmem
    simp only [hnil, if_false]
    rw [joinsTo_stable z j hstable hnil d, resetLine_saved _ _ htab1, hchars]
    generalize z.1.1.drop j = right
    rw [hsplit]
    simp only [List.append_assoc, List.append_cancel_left_eq]
    constructor
    · intro heq
      rw [← List.append_assoc, ← List.append_assoc] at heq
      have hlen : (right ++ eaten).length = (eaten ++ right).length := by
        rw [List.length_append, List.length_append, Nat.add_comm]
      obtain ⟨hcomm, heol⟩ := List.append_inj heq hlen
      refine ⟨Edit.chars_injective heol, ?_, hcomm⟩
      rw [← hsplit]
      exact hne
    · rintro ⟨heol, -, hcomm⟩
      rw [← List.append_assoc, hcomm, heol, List.append_assoc]

/-! ## `DeleteBlock` -/

/-- What `DeleteBlock` leaves of a stream block is one line. -/
inductive Leaves (conf : EditConf) (L : List Mark) (a i b j : Nat) (l : DocLine) (z : Mark) :
    DocLine → List Mark → Prop where
  | inLine (h : a = b) :
      Leaves conf L a i b j l z (resetLine conf l (l.1.take i ++ l.1.drop j)) (L.drop (b + 1))
  | wholeLines (h : a < b) (hi : i = 0) :
      Leaves conf L a i b j l z (lastLine conf z j) (L.drop (b + 1))
  | joined (h : a < b) (hi : 0 < i) (rest : List Mark)
      (hrest : JoinRest conf L (b + 1) z j (joinsTo conf z j (b - a - 1) l i) rest) :
      Leaves conf L a i b j l z (joinsTo conf z j (b - a - 1) l i) rest

/-- When a cached line with number `n` is kept in step by `DeleteBlock`. -/
def BlockSafe (conf : EditConf) (len a i b : Nat) (l : DocLine) (n : Nat) : Prop :=
  a = b ∨ (i = 0 ∧ WholesSafe (b - a) a a n)
  ∨ (0 < i ∧ JoinsSafe
      (joinRemovals (b - a - 1) (b + 1 = len) (runsEmpty conf (b - a - 1) l i)) a a
      (runsEmpty conf (b - a - 1) l i = false) n)

/-- The loop of `DeleteBlock` on a stream block. -/
theorem deleteBlockLoop_outcome {a i b j : Nat} {l z : Mark} (h : Shows E ps L)
    (hb : StreamBlock L a i b j) (hl : L[a]? = some l) (hz : L[b]? = some z) {fuel : Nat}
    (hfuel : L.length + 2 ≤ fuel) (n : Int) :
    ∃ ps' m rest, Shows (deleteBlockLoop fuel E ps[a]? n) ps' (L.take a ++ m :: rest)
      ∧ Leaves E.conf L a i b j l.1 z m.1 rest
      ∧ (n = a → ∀ safe, E.Cached ps safe →
          (∀ k, safe k → BlockSafe E.conf L.length a i b l.1 k) →
          (deleteBlockLoop fuel E ps[a]? n).CacheOk ps') := by
  obtain ⟨l', hl', hil⟩ := hb.first
  obtain ⟨z', hz', hjz, hend⟩ := hb.last
  obtain rfl := Option.some.inj (hl'.symm.trans hl)
  obtain rfl := Option.some.inj (hz'.symm.trans hz)
  have hlen := (List.getElem?_eq_some_iff.mp hz').1
  have hle := hb.le
  obtain hab | hab := Nat.lt_or_eq_of_le hle
  · rw [if_neg (by omega)] at hl'
    by_cases hi : i = 0
    · -- whole lines, and the beginning of the last one
      subst hi
      obtain ⟨E1, ps1, hrun, h1, hkept, hcache1⟩ := loop_wholes (b - a) h (c := a)
        (fun k hk => by
          cases k with
          | zero => exact ⟨l', hl'⟩
          | succ k => exact hb.middle (a + (k + 1)) (by omega) (by omega)) (by omega) n
      rw [show a + (b - a) = b by omega] at h1
      have htake : (L.take a).length = a := by
        rw [List.length_take]
        omega
      have hz1 : (L.take a ++ L.drop b)[a]? = some z' := by
        rw [List.getElem?_append_right (by omega), htake, Nat.sub_self, List.getElem?_drop]
        exact hz'
      have hdrop : (L.take a ++ L.drop b).drop (a + 1) = L.drop (b + 1) := by
        rw [List.drop_append, List.drop_of_length_le (by omega), htake, List.nil_append,
          List.drop_drop]
        congr 1
        omega
      obtain ⟨E2, m, hstay, h2, hm, hcache2⟩ := loop_end h1 hz1 (hend hab) hjz (fun m hm => by
        refine hb.behind m ?_
        rw [← hm, ← Nat.add_zero (b + 1), ← List.getElem?_drop, ← hdrop, List.getElem?_drop,
          Nat.add_zero]) (n + (b - a : Nat))
      obtain ⟨f, rfl⟩ : ∃ f, fuel = f + 2 + (b - a) := ⟨fuel - 2 - (b - a), by omega⟩
      rw [hrun, hstay]
      rw [hdrop, take_append_cons (by omega)] at h2
      rw [hkept.conf] at hm
      refine ⟨ps1, m, _, h2, by rw [hm]; exact .wholeLines hab rfl, fun hn safe hc hsafe => ?_⟩
      refine (hcache2 _ (hcache1 (by omega) safe hc fun k hk => ?_)).ok
      rcases hsafe k hk with heq | ⟨-, hw⟩ | ⟨h0, -⟩
      · exact absurd heq (by omega)
      · rw [hn]
        exact hw
      · exact absurd h0 (Nat.lt_irrefl 0)
    · obtain ⟨E1, ps1, m, rest, hrun, h1, hm, hrest, hcache⟩ := loop_joins (b - a - 1) h hl'
        (by omega) hil (fun k hk => hb.middle (a + 1 + k) (by omega) (by omega))
        (by rw [show a + 1 + (b - a - 1) = b by omega]; exact hz') (hend hab) hjz
        (fun m hm => hb.behind m (by rwa [show a + 2 + (b - a - 1) = b + 1 by omega] at hm)) n
      rw [show a + 2 + (b - a - 1) = b + 1 by omega] at hrest hcache
      obtain ⟨f, rfl⟩ : ∃ f, fuel = f + (b - a - 1 + 3) := ⟨fuel - (b - a - 1 + 3), by omega⟩
      rw [hrun]
      refine ⟨ps1, m, rest, h1, by rw [hm]; exact .joined hab (by omega) rest hrest,
        fun hn safe hc hsafe => hcache (by omega) safe hc fun k hk => ?_⟩
      rcases hsafe k hk with heq | ⟨h0, -⟩ | ⟨-, hj⟩
      · exact absurd heq (by omega)
      · exact absurd h0 hi
      · rw [hn]
        exact hj
  · subst hab
    rw [if_pos rfl] at hl'
    obtain rfl := Option.some.inj (hl'.symm.trans hz')
    obtain ⟨E1, hstay, h1, hcache⟩ := loop_last h hl' hil hjz hb.behind n
    obtain ⟨f, rfl⟩ : ∃ f, fuel = f + 2 := ⟨fuel - 2, by omega⟩
    rw [hstay]
    exact ⟨ps, _, _, h1, .inLine rfl, fun _ safe hc _ => (hcache safe hc).ok⟩

/-- `DeleteBlock` on a stream block leaves one line of it. -/
theorem deleteBlock_outcome {a i b j : Nat} {l z : Mark} (h : Shows E ps L)
    (hstart : E.blockStart = ps[a]?) (hb : StreamBlock L a i b j) (hl : L[a]? = some l)
    (hz : L[b]? = some z) :
    ∃ ps' m rest, Shows E.deleteBlock ps' (L.take a ++ m :: rest)
      ∧ Leaves E.conf L a i b j l.1 z m.1 rest
      ∧ (E.blockStartLine = a → ∀ safe, E.Cached ps safe →
          (∀ k, safe k → BlockSafe E.conf L.length a i b l.1 k) → E.deleteBlock.CacheOk ps') := by
  have h0 : Shows E.addUndoBegin ps L := ⟨h.placed, h.lock, h.vBlock, h.marks⟩
  have hfuel : L.length + 2 ≤ 2 * E.fresh + 2 := by
    obtain ⟨cur, scr, hplaced⟩ := h.placed
    have := hplaced.toThreaded.length_le_fresh
    have := h.length
    omega
  obtain ⟨ps', m, rest, h1, hleaves, hcache⟩ := deleteBlockLoop_outcome h0 hb hl hz hfuel
    E.blockStartLine
  have hrun : E.deleteBlock = { (deleteBlockLoop (2 * E.fresh + 2) E.addUndoBegin ps[a]?
      E.blockStartLine).addUndoEnd with blockStart := none } := by
    rw [deleteBlock, h.lock, h.vBlock, ← hstart]
    rfl
  rw [hrun]
  exact ⟨ps', m, rest, ⟨h1.placed, h1.lock, h1.vBlock, h1.marks⟩, hleaves, hcache⟩

/-! ## The text that is left -/

/-- A line holds a text and its line end exactly where no tab of the text is expanded. -/
theorem resetLine_saved_iff {conf : EditConf} {l : DocLine} {text : WStr} :
    (resetLine conf l text).1 ++ (resetLine conf l text).2.chars = text ++ l.2.chars
      ↔ (conf.tabExpandMode = .allTabs → TAB ∉ text) := by
  constructor
  · intro heq hall hmem
    have hmem' : TAB ∈ (resetLine conf l text).1 ++ (resetLine conf l text).2.chars := by
      rw [heq]
      exact List.mem_append_left _ hmem
    rcases List.mem_append.mp hmem' with hmem' | hmem'
    · exact Edit.not_mem_setContent conf hall _ _ hmem'
    · exact Edit.not_mem_chars _ hmem'
  · exact resetLine_saved _ _

/-- Where the lines behind the block are as they were, the block is gone exactly when the line
that is left holds what stands around it. -/
theorem around_iff {a b : Nat} {D rest : List DocLine} {m l z : DocLine} {i j : Nat} (hab : a ≤ b)
    (hb : b < D.length) (hrest : rest = D.drop (b + 1)) :
    (savedText (D.take a ++ m :: rest) = textAround D a i b j l z
        ∧ (D.take a ++ m :: rest).length + (b - a) = D.length)
      ↔ m.1 ++ m.2.chars = l.1.take i ++ z.1.drop j ++ z.2.chars := by
  have hlen : (D.take a ++ m :: rest).length + (b - a) = D.length := by
    rw [hrest, List.length_append, List.length_take, List.length_cons, List.length_drop]
    omega
  have hcons : savedText (m :: rest) = m.1 ++ m.2.chars ++ savedText rest := by
    rw [savedText, List.flatMap_cons]
    rfl
  rw [and_iff_left hlen, textAround, savedText_append, hcons, hrest]
  rw [List.append_assoc (savedText (D.take a)), List.append_cancel_left_eq, ← List.append_assoc,
    ← List.append_assoc, List.append_cancel_right_eq]

/-- The lines behind the block are as they were, or the emptied last line is there. -/
theorem JoinRest.drop_or_last {conf : EditConf} {n t : Nat} {z : Mark} {l' : DocLine}
    {rest : List Mark} (h : JoinRest conf L n z t l' rest) (hn : n ≤ L.length) :
    (n = L.length ∧ rest = [(([], z.1.2), -1, 0)])
    ∨ (n ≤ L.length ∧ rest = L.drop n ∧ (n = L.length → l' = lastLine conf z t)) := by
  obtain hlt | heq := Nat.lt_or_eq_of_le hn
  · exact .inr ⟨hn, h.1 hlt, fun heq => absurd heq (by omega)⟩
  · rcases h.2 heq with hrest | ⟨hrest, hl⟩
    · exact .inl ⟨heq, hrest⟩
    · exact .inr ⟨hn, by rw [hrest, List.drop_of_length_le (by omega)], fun _ => hl⟩

/-- A text in front of the block is not there when the line has run empty. -/
theorem lastLine_ne {conf : EditConf} {l : DocLine} {z : Mark} {i j : Nat} (hi : 0 < i)
    (hil : i ≤ l.1.length) (hend : EndsAt z (j : Int)) :
    (lastLine conf z j).1 ++ (lastLine conf z j).2.chars
      ≠ l.1.take i ++ z.1.1.drop j ++ z.1.2.chars := by
  intro heq
  have hsaved : (lastLine conf z j).1 ++ (lastLine conf z j).2.chars
      = z.1.1.drop j ++ z.1.2.chars := by
    refine lastLine_saved hend fun hall hmem => ?_
    rw [lastLine] at heq
    split at heq
    · next hunmarked =>
      rcases hend with hend | ⟨-, hj⟩
      · rw [hend] at hunmarked
        simp at hunmarked
      · obtain rfl : j = 0 := by omega
        have hlen := congrArg List.length heq
        simp only [List.length_append, List.length_take, List.drop_zero] at hlen
        omega
    · have hmem' : TAB ∈ (resetLine conf z.1 (z.1.1.drop j)).1
          ++ (resetLine conf z.1 (z.1.1.drop j)).2.chars := by
        rw [heq]
        exact List.mem_append_left _ (List.mem_append_right _ hmem)
      rcases List.mem_append.mp hmem' with hmem' | hmem'
      · exact Edit.not_mem_setContent conf hall _ _ hmem'
      · exact Edit.not_mem_chars _ hmem'
  rw [hsaved, List.append_assoc] at heq
  have hlen := congrArg List.length heq
  rw [@List.length_append _ (l.1.take i), List.length_take] at hlen
  omega

/-- What a block that begins inside a line leaves, with no line in between, and with some. -/
theorem joinsTo_saved_iff {conf : EditConf} {l : DocLine} {z : Mark} {a b i j : Nat} (hab : a < b)
    (hi : 0 < i) (hil : i ≤ l.1.length) (hend : EndsAt z (j : Int)) :
    (joinsTo conf z j (b - a - 1) l i).1 ++ (joinsTo conf z j (b - a - 1) l i).2.chars
        = l.1.take i ++ z.1.1.drop j ++ z.1.2.chars
      ↔ (conf.tabExpandMode = .allTabs → TAB ∉ l.1.take i ++ z.1.1.drop j) ∧ l.2 = z.1.2 ∧
        (b = a + 1 ∨
          (Edit.eolEaten (l.1.take i) l.2 ≠ l.1.take i
            ∧ z.1.1.drop j ++ Edit.eolEaten (l.1.take i) l.2
              = Edit.eolEaten (l.1.take i) l.2 ++ z.1.1.drop j)) := by
  by_cases htab : conf.tabExpandMode = .allTabs → TAB ∉ l.1.take i ++ z.1.1.drop j
  · rw [and_iff_right htab]
    cases hd : b - a - 1 with
    | zero =>
      rw [joinsTo, resetLine_saved _ _ htab, List.append_cancel_left_eq]
      constructor
      · exact fun heol => ⟨Edit.chars_injective heol, .inl (by omega)⟩
      · rintro ⟨heol, -⟩
        rw [heol]
    | succ d =>
      have hne : b ≠ a + 1 := by omega
      rw [joinsTo_saved hi hil hend htab d]
      simp only [hne, false_or]
  · rw [iff_false_right (fun hcond => htab hcond.1)]
    intro heq
    refine htab fun hall hmem => ?_
    rcases not_mem_joinsTo hall z j (b - a - 1) l i with hno | hlast
    · have hmem' := heq ▸ List.mem_append_left z.1.2.chars hmem
      rcases List.mem_append.mp hmem' with hmem' | hmem'
      · exact hno hmem'
      · exact Edit.not_mem_chars _ hmem'
    · rw [hlast] at heq
      exact lastLine_ne hi hil hend heq

/-- What is saved of the line a block from the beginning of a line leaves. -/
theorem lastLine_saved_iff {conf : EditConf} {z : Mark} {j : Nat} (hend : EndsAt z (j : Int)) :
    (lastLine conf z j).1 ++ (lastLine conf z j).2.chars = z.1.1.drop j ++ z.1.2.chars
      ↔ z.2.1 = -1 ∨ (conf.tabExpandMode = .allTabs → TAB ∉ z.1.1.drop j) := by
  rw [lastLine]
  split
  · next hunmarked =>
    rw [iff_true_right (.inl hunmarked)]
    rcases hend with hend | ⟨-, hj⟩
    · rw [hend] at hunmarked
      simp at hunmarked
    · obtain rfl : j = 0 := by omega
      rfl
  · next hmarked => rw [resetLine_saved_iff, or_iff_right hmarked]

/-- **When `DeleteBlock` deletes a stream block and nothing else**: the saved text is what stood
around the block, and the document has lost `b - a` lines. -/
theorem deleteBlock_exact {a i b j : Nat} {l z : Mark} (h : Shows E ps L)
    (hstart : E.blockStart = ps[a]?) (hb : StreamBlock L a i b j) (hl : L[a]? = some l)
    (hz : L[b]? = some z) :
    (savedText E.deleteBlock.document = textAround E.document a i b j l.1 z.1
        ∧ E.deleteBlock.document.length + (b - a) = E.document.length)
      ↔ DeletesExactly E.conf E.document.length a i b j l.1 z := by
  obtain ⟨ps', m, rest, hout, hleaves, -⟩ := deleteBlock_outcome h hstart hb hl hz
  rw [h.document, hout.document, List.map_append, List.map_cons, List.map_take]
  have hle := hb.le
  have hlast : b < (L.map Prod.fst).length := by
    rw [List.length_map]
    exact (List.getElem?_eq_some_iff.mp hz).1
  obtain ⟨l', hl', hil⟩ := hb.first
  obtain ⟨z', hz', hjz, hend⟩ := hb.last
  obtain rfl := Option.some.inj (hl'.symm.trans hl)
  obtain rfl := Option.some.inj (hz'.symm.trans hz)
  generalize m.1 = m at hleaves ⊢
  rw [DeletesExactly]
  cases hleaves with
  | inLine hab =>
    subst hab
    obtain rfl := Option.some.inj (hl'.symm.trans hz')
    have hmarked : ¬ (i = 0 ∧ (i : Int) = -1) := by omega
    rw [around_iff hle hlast List.map_drop, resetLine_saved_iff, or_iff_right hmarked,
      and_iff_left (Or.inl rfl)]
  | wholeLines hab hi =>
    subst hi
    rw [around_iff hle hlast List.map_drop, List.take_zero, List.nil_append,
      lastLine_saved_iff (hend hab), and_iff_right rfl, and_iff_left (Or.inr (Or.inl rfl))]
  | joined hab hi rest hrest =>
    rw [or_iff_right (by omega : ¬ (i = 0 ∧ z'.2.1 = -1)), ← or_assoc,
      or_iff_right (by omega : ¬ (a = b ∨ i = 0))]
    have hlen : b + 1 ≤ L.length := by
      rwa [List.length_map] at hlast
    rcases hrest.drop_or_last hlen with ⟨hlen', hrest'⟩ | ⟨hlen', hrest', hm⟩
    · -- the last line of the file stays where it is, emptied
      rw [iff_false_right (fun hcond => by
        have hlt := hcond.2.1
        rw [List.length_map] at hlt
        omega)]
      rintro ⟨-, hcount⟩
      rw [hrest', List.length_append, List.length_take, List.map_singleton, List.length_cons,
        List.length_singleton, List.length_map] at hcount
      omega
    · rw [hrest', around_iff hle hlast List.map_drop, List.length_map]
      by_cases hlt : b + 1 < L.length
      · rw [and_iff_right hlt]
        exact joinsTo_saved_iff hab hi hil (hend hab)
      · rw [iff_false_right (fun hcond => hlt hcond.2.1), hm (by omega)]
        exact lastLine_ne hi hil (hend hab)

/-! ## A block that ends in the last line -/

/-- The lines `ab` and `cd`, without a line end behind the second. -/
def twoLines : Editor :=
  ((empty {} (fun _ => false) fun _ => false).appendString (some [0x61, 0x62, LF])).appendString
    (some [0x63, 0x64])

theorem twoLines_wf : twoLines.Wf [0, 1] 0 0 := by
  have hfirst : (((empty {} (fun _ => false) fun _ => false).appendString
      (some [0x61, 0x62, LF])).toLineList).Wf [0] 0 0 :=
    (LineList.insertString_first (S := (empty {} _ _).toLineList) (fun _ => rfl) rfl rfl rfl _
      (-1)).1
  exact (LineList.insertString_append hfirst _ (-1)).1

/-- The two lines, with the block from column `i` of the first to column 1 of the second. -/
def twoLinesBlock (i : Nat) : Editor :=
  { (twoLines.modifyLine (some 0) fun e => { e with selStart := i, selEnd := -1 }).modifyLine
      (some 1) fun e => { e with selStart := 0, selEnd := 1 } with
    blockStart := some 0, blockStartLine := 0 }

/-- What the lines of `twoLinesBlock` hold. -/
def twoLinesMarks (i : Nat) : List Mark :=
  [(([0x61, 0x62], .lf), i, -1), (([0x63, 0x64], .none), 0, 1)]

theorem twoLinesBlock_shows (i : Nat) : Shows (twoLinesBlock i) [0, 1] (twoLinesMarks i) where
  placed := by
    refine ⟨0, 0, ?_⟩
    show ((twoLines.modify (some 0) fun e => { e with selStart := i, selEnd := -1 }).modify
      (some 1) fun e => { e with selStart := 0, selEnd := 1 }).Placed [0, 1] 0 0
    exact ((twoLines_wf.modify _ _).modify _ _).toPlaced
  lock := rfl
  vBlock := rfl
  marks := rfl

theorem twoLinesMarks_block {i : Nat} (hi : i ≤ 2) : StreamBlock (twoLinesMarks i) 0 i 1 1 where
  le := by decide
  first := ⟨_, rfl, hi⟩
  middle k h0 h1 := absurd h1 (by omega)
  last := ⟨_, rfl, by decide, fun _ => .inl rfl⟩
  behind _ h := by cases h

/-- The block from column 0 is deleted, with the line end in it. -/
theorem deleteBlock_exact_twoLines :
    (savedText (twoLinesBlock 0).deleteBlock.document
        = textAround (twoLinesBlock 0).document 0 0 1 1 ([0x61, 0x62], .lf) ([0x63, 0x64], .none)
      ∧ (twoLinesBlock 0).deleteBlock.document.length + (1 - 0)
        = (twoLinesBlock 0).document.length)
    ↔ DeletesExactly (twoLinesBlock 0).conf 2 0 0 1 1 ([0x61, 0x62], .lf)
        (([0x63, 0x64], .none), 0, 1) :=
  deleteBlock_exact (twoLinesBlock_shows 0) rfl (twoLinesMarks_block (by decide)) rfl rfl

/-- The block from column 1 leaves the line end of the first line, and an empty line behind it. -/
theorem deleteBlock_not_exact :
    Shows (twoLinesBlock 1) [0, 1] (twoLinesMarks 1)
    ∧ StreamBlock (twoLinesMarks 1) 0 1 1 1
    ∧ (twoLinesBlock 1).blockStart = [0, 1][0]?
    ∧ textAround (twoLinesBlock 1).document 0 1 1 1 ([0x61, 0x62], .lf) ([0x63, 0x64], .none)
      = [0x61, 0x64]
    ∧ savedText (twoLinesBlock 1).deleteBlock.document = [0x61, 0x64, LF]
    ∧ (twoLinesBlock 1).document.length = 2
    ∧ (twoLinesBlock 1).deleteBlock.document.length = 2 :=
  ⟨twoLinesBlock_shows 1, twoLinesMarks_block (by decide), rfl, rfl, rfl, rfl, rfl⟩

end Editor

end Far2l
