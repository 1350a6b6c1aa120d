/-
Far2l.Mix.ConvertWildcardsTheorems — names that `ConvertWildcards` generates.

Nothing is written that is neither a character of the mask nor one of the source.
`*` copies the source; in `*.*` the first star stops at the last dot of the source,
and the second one copies what is behind it.
-/
import Far2l.Mix.ProcessName

namespace Far2l.ProcessName

/-! ## Pointers -/

theorem wcsrchr_none {c : WChar} {s : WStr} (h : wcsrchr c s = none) : c ∉ s := by
  induction s with
  | nil => exact List.not_mem_nil
  | cons x s ih =>
    rw [wcsrchr] at h
    cases hs : wcsrchr c s with
    | some t =>
      rw [hs] at h
      exact nomatch h
    | none =>
      rw [hs] at h
      dsimp only at h
      split at h
      · exact nomatch h
      · next hne =>
        rw [List.mem_cons, not_or]
        exact ⟨fun heq => hne heq.symm, ih hs⟩

/-- The last `c` of a string, and what is in front of and behind it. -/
theorem wcsrchr_some {c : WChar} {s t : WStr} (h : wcsrchr c s = some t) :
    ∃ front behind, s = front ++ c :: behind ∧ t = c :: behind ∧ c ∉ behind := by
  induction s generalizing t with
  | nil => exact nomatch h
  | cons x s ih =>
    rw [wcsrchr] at h
    cases hs : wcsrchr c s with
    | some u =>
      rw [hs] at h
      obtain ⟨front, behind, hfront, hbehind, hnot⟩ := ih hs
      cases h
      exact ⟨x :: front, behind, congrArg (x :: ·) hfront, hbehind, hnot⟩
    | none =>
      rw [hs] at h
      dsimp only at h
      split at h
      · next heq =>
        cases h
        exact ⟨[], s, by rw [heq]; rfl, by rw [heq], wcsrchr_none hs⟩
      · exact nomatch h

theorem wcsrchr_eq_none {c : WChar} {s : WStr} (h : c ∉ s) : wcsrchr c s = none := by
  cases hs : wcsrchr c s with
  | none => rfl
  | some t =>
    obtain ⟨front, behind, hfront, -, -⟩ := wcsrchr_some hs
    exact absurd (by rw [hfront]; simp) h

theorem pointToName_of_not_mem {path : WStr} (h : SLASH ∉ path) : pointToName path = path := by
  rw [pointToName, wcsrchr_eq_none h]

theorem length_pointToName (path : WStr) : (pointToName path).length ≤ path.length := by
  rw [pointToName]
  cases hslash : wcsrchr SLASH path with
  | none => exact Nat.le_refl _
  | some t =>
    obtain ⟨front, behind, hfront, rfl, -⟩ := wcsrchr_some hslash
    rw [hfront]
    simp
    omega

/-! ## How much is written -/

theorem length_starLoop (dot : Option WStr) (wild src : WStr) :
    (starLoop dot wild src).1.length + (starLoop dot wild src).2.length = src.length := by
  induction src with
  | nil => rfl
  | cons x src ih =>
    rw [starLoop]
    split
    · exact Nat.zero_add _
    · dsimp only
      rw [List.length_cons, List.length_cons]
      omega

theorem length_skipPart (src : WStr) : (skipPart src).length ≤ src.length := by
  induction src with
  | nil => exact Nat.le_refl _
  | cons x src ih =>
    rw [skipPart]
    split
    · exact Nat.le_succ _
    · exact Nat.le_succ_of_le ih

theorem length_skipChar (src : WStr) : (skipChar src).length ≤ src.length := by
  cases src with
  | nil => exact Nat.le_refl _
  | cons x src =>
    rw [skipChar]
    split
    · exact Nat.le_refl _
    · exact Nat.le_succ _

/-- **A character of the mask or of the source is used up by every one that is written.** -/
theorem length_wildLoop (dot : Option WStr) (wild src : WStr) :
    (wildLoop dot wild src).length ≤ wild.length + src.length := by
  induction wild generalizing src with
  | nil => exact Nat.zero_le _
  | cons c wild ih =>
    rw [wildLoop, List.length_cons]
    split
    · have := ih src.tail
      rw [List.length_tail] at this
      rw [List.length_append, List.length_take]
      omega
    · split
      · have hstar := length_starLoop dot wild src
        have := ih (starLoop dot wild src).2
        rw [List.length_append]
        omega
      · split
        · have hskip : (if STAR ∈ wild ∨ QUESTION ∈ wild then skipPart src else src).length ≤ src.length := by
            split
            · exact length_skipPart src
            · exact Nat.le_refl _
          have := ih (if STAR ∈ wild ∨ QUESTION ∈ wild then skipPart src else src)
          rw [List.length_cons]
          omega
        · have hskip := length_skipChar src
          have := ih (skipChar src)
          rw [List.length_cons]
          omega

theorem length_generated (src mask : WStr) : (generated src mask).length ≤ mask.length + src.length := by
  have hmask := length_pointToName mask
  have hsrc := length_pointToName src
  have hwild := length_wildLoop (wcsrchr DOT (pointToName src)) (pointToName mask) (pointToName src)
  rw [generated, List.length_append, List.length_take]
  omega

theorem length_splitFolder (srcName : WStr) (n : Nat) : (splitFolder srcName n).1.length ≤ srcName.length := by
  rw [splitFolder]
  split
  · rw [List.splitAt_eq, List.length_take]
    exact Nat.min_le_right _ _
  · exact Nat.le_refl _

/-! ## Identity masks -/

/-- A star at the end copies the source. -/
theorem starLoop_nil (dot : Option WStr) (src : WStr) : starLoop dot [] src = (src, []) := by
  induction src with
  | nil => rfl
  | cons x src ih =>
    have hstops : starStops dot [] x src = false := by
      cases dot <;> simp [starStops]
    rw [starLoop, hstops, if_neg Bool.false_ne_true, ih]

/-- A star in front of the last dot of the mask copies as far as the last dot of the source. -/
theorem starLoop_dot (front dot : WStr) :
    starLoop (some dot) [DOT, STAR] (front ++ dot) = (front, dot) := by
  induction front with
  | nil =>
    cases dot with
    | nil => rfl
    | cons x dot =>
      have hstops : starStops (some (x :: dot)) [DOT, STAR] x dot = true := by
        rw [starStops, if_pos (by decide)]
        exact decide_eq_true rfl
      rw [List.nil_append, starLoop, hstops, if_pos rfl]
  | cons x front ih =>
    have hstops : starStops (some dot) [DOT, STAR] x (front ++ dot) = false := by
      rw [starStops, if_pos (by decide), List.length_append]
      exact decide_eq_false (by omega)
    rw [List.cons_append, starLoop, hstops, if_neg Bool.false_ne_true, ih]

theorem starLoop_plain {src : WStr} (h : DOT ∉ src) : starLoop none [DOT, STAR] src = (src, []) := by
  induction src with
  | nil => rfl
  | cons x src ih =>
    rw [List.mem_cons, not_or] at h
    have hstops : starStops none [DOT, STAR] x src = false := decide_eq_false (by simpa using h.1)
    rw [starLoop, hstops, if_neg Bool.false_ne_true, ih h.2]

/-- `*` -/
theorem wildLoop_star (dot : Option WStr) (src : WStr) : wildLoop dot [STAR] src = src := by
  rw [wildLoop, if_neg (by decide), if_pos rfl, starLoop_nil]
  exact List.append_nil src

/-- `.*` in front of the dot of the source that is left. -/
theorem wildLoop_dot (dot : Option WStr) (src : WStr) :
    wildLoop dot [DOT, STAR] src = DOT :: skipPart src := by
  rw [wildLoop, if_neg (by decide), if_neg (by decide), if_pos rfl, if_pos (.inl (by decide)), wildLoop_star]

/-- `*.*` -/
theorem wildLoop_starDotStar (name : WStr) :
    stripDot (wildLoop (wcsrchr DOT name) [STAR, DOT, STAR] name) = stripDot name := by
  rw [wildLoop, if_neg (by decide), if_pos rfl]
  cases hdot : wcsrchr DOT name with
  | none =>
    have hnot := wcsrchr_none hdot
    have hlast : name.getLast? ≠ some DOT := fun h => hnot (List.mem_of_getLast? h)
    rw [starLoop_plain hnot]
    dsimp only
    rw [wildLoop_dot, skipPart, stripDot, if_pos (List.getLast?_concat), List.dropLast_concat, stripDot,
      if_neg hlast]
  | some t =>
    obtain ⟨front, behind, rfl, rfl, -⟩ := wcsrchr_some hdot
    rw [starLoop_dot]
    dsimp only
    rw [wildLoop_dot, skipPart, if_pos rfl]

theorem convertWildcards_name {name : WStr} (hname : SLASH ∉ name) {mask : WStr} (hmask : SLASH ∉ mask)
    (hstar : STAR ∈ mask) :
    convertWildcards name mask 0 = (true, stripDot (wildLoop (wcsrchr DOT name) mask name)) := by
  have hwild : ¬(STAR ∉ pointToName mask ∧ QUESTION ∉ pointToName mask) := by
    rw [pointToName_of_not_mem hmask]
    exact fun h => h.1 hstar
  have hsplit : splitFolder name 0 = (name, []) := rfl
  rw [convertWildcards, if_neg hwild, hsplit]
  dsimp only
  rw [generated, pointToName_of_not_mem hname, pointToName_of_not_mem hmask, if_pos rfl, Nat.sub_self, Nat.sub_self,
    List.take_zero, List.take_zero, List.nil_append, List.nil_append, List.append_nil]

/-- **Identity masks keep the name**, but for one dot at its end, and what is generated fits into the
buffer for every source and mask. -/
theorem convertWildcards_identity :
    (∀ name, name ≠ [] → SLASH ∉ name → ∀ mask, mask = [STAR] ∨ mask = [STAR, DOT, STAR] →
      convertWildcards name mask 0 = (true, if name.getLast? = some DOT then name.dropLast else name))
    ∧ ∀ (srcName mask : WStr) (selectedFolderNameLength : Nat),
      (generated (splitFolder srcName selectedFolderNameLength).1 mask).length + 1
        ≤ mask.length + srcName.length + 1 := by
  refine ⟨fun name _ hname mask hmask => ?_, fun srcName mask n => ?_⟩
  · rcases hmask with rfl | rfl
    · rw [convertWildcards_name hname (by decide) (by decide), wildLoop_star]
      rfl
    · rw [convertWildcards_name hname (by decide) (by decide), wildLoop_starDotStar]
      rfl
  · have hsource := length_splitFolder srcName n
    have := length_generated (splitFolder srcName n).1 mask
    omega

/-- `a.` by `*.*` -/
theorem convertWildcards_identity_dot : convertWildcards [0x61, DOT] [STAR, DOT, STAR] 0 = (true, [0x61]) :=
  convertWildcards_identity.1 [0x61, DOT] (by decide) (by decide) [STAR, DOT, STAR] (.inr rfl)

/-- **A name that ends with a dot is changed.** -/
theorem dotted_not_kept : ¬convertWildcards [0x61, DOT] [STAR] 0 = (true, [0x61, DOT]) := by decide

end Far2l.ProcessName
