/-
Far2l.Mix.MixToFullPath — both functions `MixToFullPath` of `far/src/mix/cvtname.cpp`.

A path is the list of its characters; the terminator is behind them. What is read is
checked: a result is `none` where a character behind the terminator is looked at. The
current directory of the process is a parameter.
-/
import Far2l.Lib.LexicalPath
import Far2l.Utils.Chars

namespace Far2l.FullPath

/-! ## The functions -/

/-- `GOOD_SLASH` -/
def slash : WChar := 0x2F

def dot : WChar := 0x2E

/-- `pstPath[i]`: a character, or the terminator. -/
def read (path : WStr) (i : Nat) : Option (Option WChar) := if i ≤ path.length then some path[i]? else none

/-- `for (n = k - 1; n >= 0 && !IsSlash(pstPath[n]); n--)`, and one more: where the name begins that ends
in front of `k`. -/
def scanBack (path : WStr) : Nat → Nat
  | 0 => 0
  | k + 1 => if path[k]? = some slash then k + 1 else scanBack path k

/-- The characters from `src` up to the terminator are copied to `dst`. -/
def copyDown (path : WStr) (dst src : Nat) : WStr := path.take dst ++ path.drop src

/-- A turn of the loop, at `m`. -/
def turn (path : WStr) (m : Nat) : Option (WStr × Nat) :=
  match read path m with
  | none => none
  | some c =>
      if c = some dot ∧ (m = 0 ∨ read path (m - 1) = some (some slash)) then
        match read path (m + 1) with
        | none => none
        | some none => some (path.take m, m)
        | some (some c1) =>
            if c1 = slash then some (copyDown path m (m + 2), m)
            else if c1 = dot then
              match read path (m + 2) with
              | none => none
              | some none =>
                  let n := scanBack path (m - 1)
                  if n > 0 then some (path.take n, n) else some ([slash], n)
              | some (some c2) =>
                  let n := scanBack path (m - 1)
                  if c2 = slash then some (copyDown path n (m + 3), n) else some (path, m + 1)
            else some (path, m + 1)
      else some (path, m + 1)

theorem read_some {path : WStr} {i : Nat} {c : WChar} (h : read path i = some (some c)) : path[i]? = some c := by
  rw [read] at h
  split at h
  · exact Option.some.inj h
  · cases h

theorem scanBack_le (path : WStr) : ∀ k, scanBack path k ≤ k
  | 0 => Nat.le_refl _
  | k + 1 => by
    have ih := scanBack_le path k
    rw [scanBack]
    split <;> omega

/-- Every turn shortens the path or moves on. -/
theorem turn_lt {path path' : WStr} {m m' : Nat} (hm : m < path.length) (h : turn path m = some (path', m')) :
    2 * path'.length - m' < 2 * path.length - m := by
  have hback := scanBack_le path (m - 1)
  rw [turn] at h
  split at h
  · cases h
  split at h
  · split at h
    · cases h
    · obtain ⟨rfl, rfl⟩ := Prod.mk.inj (Option.some.inj h)
      rw [List.length_take]
      omega
    · next hread =>
      have h1 := (List.getElem?_eq_some_iff.mp (read_some hread)).1
      split at h
      · obtain ⟨rfl, rfl⟩ := Prod.mk.inj (Option.some.inj h)
        rw [copyDown, List.length_append, List.length_take, List.length_drop]
        omega
      split at h
      · split at h
        · cases h
        · simp only at h
          split at h
          · obtain ⟨rfl, rfl⟩ := Prod.mk.inj (Option.some.inj h)
            rw [List.length_take]
            omega
          · obtain ⟨rfl, rfl⟩ := Prod.mk.inj (Option.some.inj h)
            rw [List.length_singleton]
            omega
        · next hread2 =>
          have h2 := (List.getElem?_eq_some_iff.mp (read_some hread2)).1
          simp only at h
          split at h
          · obtain ⟨rfl, rfl⟩ := Prod.mk.inj (Option.some.inj h)
            rw [copyDown, List.length_append, List.length_take, List.length_drop]
            omega
          · obtain ⟨rfl, rfl⟩ := Prod.mk.inj (Option.some.inj h)
            omega
      · obtain ⟨rfl, rfl⟩ := Prod.mk.inj (Option.some.inj h)
        omega
  · obtain ⟨rfl, rfl⟩ := Prod.mk.inj (Option.some.inj h)
    omega

/-- `for (int m = 0; pstPath[m];)`, from some `m` on -/
def pathLoop (path : WStr) (m : Nat) : Option WStr :=
  if hm : m < path.length then
    match hturn : turn path m with
    | none => none
    | some (path', m') => pathLoop path' m'
  else if m = path.length then some path
  else none
termination_by 2 * path.length - m
decreasing_by exact turn_lt hm hturn

/-- `if (strPath.GetLength() > 1 && strPath[strPath.GetLength() - 1] == GOOD_SLASH)` -/
def truncated (path : WStr) : WStr := if path.length > 1 ∧ path.getLast? = some slash then path.dropLast else path

/-- `MixToFullPath` of a string -/
def mixToFullPath (path : WStr) : Option WStr := (pathLoop path 0).map truncated

/-- `while (stPath[0] == '.' && (!stPath[1] || stPath[1] == GOOD_SLASH))` -/
def skipDots : WStr → WStr
  | [] => []
  | [c] => if c = dot then [] else [c]
  | c :: c1 :: path => if c = dot ∧ c1 = slash then skipDots path else c :: c1 :: path

/-- The string that is made of a path and a current directory, neither of them a null pointer. -/
def joined (processDir path currentDir : WStr) : WStr :=
  if path.head? = some slash then path
  else
    let dest := if currentDir = [] then processDir else currentDir
    let dest := if dest = [] then [dot, slash] else dest
    let dest := if dest.getLast? ≠ some slash then dest ++ [slash] else dest
    dest ++ skipDots path

/-- `MixToFullPath` of a path and a current directory -/
def mixToFullPathIn (processDir path currentDir : WStr) : Option WStr :=
  mixToFullPath (joined processDir path currentDir)

/-! ## A turn at a component

The loop stands behind components that are kept, each with a slash behind it, and in front of
those to come. -/

/-- How paths are written. -/
def wide : PathSyntax WChar := ⟨slash, dot, by decide⟩

def dots : WStr := [dot, dot]

/-- Components with a slash behind each. -/
def flat (kept : List WStr) : WStr := kept.flatMap (· ++ [slash])

theorem flat_concat (kept : List WStr) (c : WStr) : flat (kept ++ [c]) = flat kept ++ c ++ [slash] := by
  simp [flat, List.flatMap_append]

theorem flat_eq_nil {kept : List WStr} : flat kept = [] ↔ kept = [] := by
  cases kept <;> simp [flat]

theorem read_append (front rest : WStr) (k : Nat) : read (front ++ rest) (front.length + k) = read rest k := by
  rw [read, read, List.length_append, List.getElem?_append_right (Nat.le_add_right _ _), Nat.add_sub_cancel_left]
  simp only [Nat.add_le_add_iff_left]

theorem read_append_zero (front rest : WStr) : read (front ++ rest) front.length = read rest 0 :=
  read_append front rest 0

/-- Behind kept components a component begins. -/
theorem begins (kept : List WStr) (rest : WStr) :
    (flat kept).length = 0 ∨ read (flat kept ++ rest) ((flat kept).length - 1) = some (some slash) := by
  rcases List.eq_nil_or_concat kept with rfl | ⟨kept, c, rfl⟩
  · exact .inl rfl
  · right
    rw [List.concat_eq_append, flat_concat, List.length_append, List.length_singleton, Nat.add_sub_cancel,
      List.append_assoc, read_append_zero]
    simp [read]

theorem pathLoop_turn {path path' : WStr} {m m' : Nat} (hm : m < path.length) (h : turn path m = some (path', m')) :
    pathLoop path m = pathLoop path' m' := by
  rw [pathLoop, dif_pos hm]
  split
  · next hnone => exact absurd (h.symm.trans hnone) (by simp)
  · next heq =>
    obtain ⟨rfl, rfl⟩ := Prod.mk.inj (Option.some.inj (h.symm.trans heq))
    rfl

theorem pathLoop_length (path : WStr) : pathLoop path path.length = some path := by
  rw [pathLoop, dif_neg (Nat.lt_irrefl _), if_pos rfl]

section

variable (kept : List WStr) (rest : WStr)

/-- What a turn does at a component depends on what is to come. -/
theorem turn_flat : turn (flat kept ++ rest) (flat kept).length =
    match read rest 0 with
    | none => none
    | some c =>
        if c = some dot then
          match read rest 1 with
          | none => none
          | some none => some (flat kept, (flat kept).length)
          | some (some c1) =>
              if c1 = slash then some (flat kept ++ rest.drop 2, (flat kept).length)
              else if c1 = dot then
                match read rest 2 with
                | none => none
                | some none =>
                    let n := scanBack (flat kept ++ rest) ((flat kept).length - 1)
                    if n > 0 then some ((flat kept ++ rest).take n, n) else some ([slash], n)
                | some (some c2) =>
                    let n := scanBack (flat kept ++ rest) ((flat kept).length - 1)
                    if c2 = slash then some ((flat kept ++ rest).take n ++ rest.drop 3, n)
                    else some (flat kept ++ rest, (flat kept).length + 1)
              else some (flat kept ++ rest, (flat kept).length + 1)
        else some (flat kept ++ rest, (flat kept).length + 1) := by
  simp only [turn, read_append_zero, read_append, begins kept rest, and_true, copyDown, List.take_left',
    List.drop_append, List.drop_eq_nil_of_le (Nat.le_add_right _ _), Nat.add_sub_cancel_left, List.nil_append]

/-- The name in front of the component is scanned back over. -/
theorem scanBack_flat (hkept : ∀ c ∈ kept, slash ∉ c) :
    scanBack (flat kept ++ rest) ((flat kept).length - 1) = (flat kept.dropLast).length := by
  rcases List.eq_nil_or_concat kept with rfl | ⟨kept, c, rfl⟩
  · rfl
  have hc : slash ∉ c := hkept c (by simp)
  rw [List.concat_eq_append, List.dropLast_concat, flat_concat]
  -- over the name itself, character by character
  have hname : ∀ j ≤ c.length, scanBack (flat kept ++ c ++ [slash] ++ rest) ((flat kept).length + j)
      = scanBack (flat kept ++ c ++ [slash] ++ rest) (flat kept).length := by
    intro j
    induction j with
    | zero => exact fun _ => rfl
    | succ j ih =>
      intro hj
      have hat : (flat kept ++ c ++ [slash] ++ rest)[(flat kept).length + j]? ≠ some slash := by
        rw [List.append_assoc, List.append_assoc, List.getElem?_append_right (by omega), Nat.add_sub_cancel_left,
          List.getElem?_append_left (by omega)]
        exact fun h => hc (List.mem_of_getElem? h)
      rw [← Nat.add_assoc, scanBack, if_neg hat, ih (by omega)]
  have hlength : (flat kept ++ c ++ [slash]).length - 1 = (flat kept).length + c.length := by
    simp only [List.length_append, List.length_singleton]
    omega
  rw [hlength, hname _ (Nat.le_refl _)]
  rcases List.eq_nil_or_concat kept with rfl | ⟨kept, x, rfl⟩
  · rfl
  · rw [List.concat_eq_append, flat_concat, List.length_append, List.length_singleton, scanBack, if_pos]
    simp

theorem take_flat (hkept : ∀ c ∈ kept, slash ∉ c) :
    (flat kept ++ rest).take (flat kept.dropLast).length = flat kept.dropLast := by
  rcases List.eq_nil_or_concat kept with rfl | ⟨kept, c, rfl⟩
  · rfl
  · rw [List.concat_eq_append, List.dropLast_concat, flat_concat]
    simp

theorem turn_dot_end : turn (flat kept ++ [dot]) (flat kept).length = some (flat kept, (flat kept).length) := by
  rw [turn_flat]
  simp [read]

theorem turn_dot : turn (flat kept ++ dot :: slash :: rest) (flat kept).length
    = some (flat kept ++ rest, (flat kept).length) := by
  rw [turn_flat]
  simp [read]

variable {kept} (hkept : ∀ c ∈ kept, slash ∉ c)

include hkept in
theorem turn_dots : turn (flat kept ++ dot :: dot :: slash :: rest) (flat kept).length
    = some (flat kept.dropLast ++ rest, (flat kept.dropLast).length) := by
  rw [turn_flat]
  simp only [scanBack_flat kept _ hkept, take_flat kept _ hkept]
  simp [read, show dot ≠ slash by decide]

include hkept in
theorem turn_dots_root (hnil : kept.dropLast = []) :
    turn (flat kept ++ [dot, dot]) (flat kept).length = some ([slash], 0) := by
  rw [turn_flat]
  simp only [scanBack_flat kept _ hkept, take_flat kept _ hkept]
  simp [read, show dot ≠ slash by decide, hnil, flat]

include hkept in
theorem turn_dots_end (hnil : kept.dropLast ≠ []) :
    turn (flat kept ++ [dot, dot]) (flat kept).length = some (flat kept.dropLast, (flat kept.dropLast).length) := by
  have hpos : 0 < (flat kept.dropLast).length := List.length_pos_iff.mpr fun h => hnil (flat_eq_nil.mp h)
  rw [turn_flat]
  simp only [scanBack_flat kept _ hkept, take_flat kept _ hkept]
  simp [read, show dot ≠ slash by decide, hpos]

end

/-- Any other component is passed: its first character … -/
theorem turn_pass (kept : List WStr) {c tail : WStr} (hc : slash ∉ c) (hdot : c ≠ [dot]) (hdots : c ≠ dots)
    (htail : tail = [] ∨ ∃ rest, tail = slash :: rest) (hne : c ++ tail ≠ []) :
    turn (flat kept ++ (c ++ tail)) (flat kept).length = some (flat kept ++ (c ++ tail), (flat kept).length + 1) := by
  rw [turn_flat]
  match c, hc, hdot, hdots with
  | [], _, _, _ =>
    obtain ⟨rest, rfl⟩ := htail.resolve_left fun h => hne (by rw [h]; rfl)
    simp [read, show slash ≠ dot by decide]
  | x :: c, hc, hdot, hdots =>
    by_cases hx : x = dot
    · subst hx
      match c, hc, hdot, hdots with
      | [], _, hdot, _ => exact absurd rfl hdot
      | y :: c, hc, _, hdots =>
        have hy : y ≠ slash := fun h => hc (by simp [h])
        by_cases hy' : y = dot
        · subst hy'
          match c, hc, hdots with
          | [], _, hdots => exact absurd rfl hdots
          | z :: c, hc, _ =>
            have hz : z ≠ slash := fun h => hc (by simp [h])
            simp [read, hy, hz]
        · simp [read, hy, hy']
    · simp [read, hx]

/-- … and the others. -/
theorem turn_inside {path : WStr} {m : Nat} (hpos : m ≠ 0) (hm : m < path.length)
    (hbefore : path[m - 1]? ≠ some slash) :
    turn path m = some (path, m + 1) := by
  have hread : read path m = some path[m]? := if_pos (by omega)
  have hread' : read path (m - 1) ≠ some (some slash) := fun h => hbefore (read_some h)
  rw [turn, hread]
  simp [hpos, hread']

theorem turn_slash {path : WStr} {m : Nat} (h : read path m = some (some slash)) :
    turn path m = some (path, m + 1) := by
  rw [turn, h]
  simp [show slash ≠ dot by decide]

/-- The loop passes the component. -/
theorem pathLoop_pass (kept : List WStr) {c tail : WStr} (hc : slash ∉ c) (hdot : c ≠ [dot]) (hdots : c ≠ dots)
    (htail : tail = [] ∨ ∃ rest, tail = slash :: rest) :
    pathLoop (flat kept ++ (c ++ tail)) (flat kept).length
      = pathLoop (flat kept ++ (c ++ tail)) ((flat kept).length + c.length) := by
  cases hcons : c with
  | nil => rfl
  | cons x c' =>
    rw [← hcons]
    have hlength : 1 ≤ c.length := by simp [hcons]
    rw [pathLoop_turn (by simp only [List.length_append]; omega)
      (turn_pass kept hc hdot hdots htail (by simp [hcons]))]
    have hrest : ∀ j < c.length,
        pathLoop (flat kept ++ (c ++ tail)) ((flat kept).length + 1)
          = pathLoop (flat kept ++ (c ++ tail)) ((flat kept).length + (j + 1)) := by
      intro j
      induction j with
      | zero => exact fun _ => rfl
      | succ j ih =>
        intro hlt
        rw [ih (by omega)]
        refine pathLoop_turn (by simp only [List.length_append]; omega) (turn_inside (by omega)
          (by simp only [List.length_append]; omega) ?_)
        rw [← Nat.add_assoc, Nat.add_sub_cancel, List.getElem?_append_right (by omega), Nat.add_sub_cancel_left,
          List.getElem?_append_left (by omega)]
        exact fun h => hc (List.mem_of_getElem? h)
    rw [hrest (c.length - 1) (by omega), Nat.sub_add_cancel hlength]

/-! ## The loop, component by component -/

/-- What the loop keeps: everything but single dots. -/
def isKept (c : WStr) : Bool := decide (c ≠ [dot])

/-- The components of the result, from those that are kept and the last one of the path. -/
def finish (kept : List WStr) (last : WStr) : List WStr :=
  if last = [dot] then kept ++ [[]]
  else if last = dots then if kept = [] then [[], []] else kept ++ [[]]
  else kept

/-- The path with these components. -/
def join (cs : List WStr) : WStr := [slash].intercalate cs

theorem join_concat_nil (kept : List WStr) : join (kept ++ [[]]) = flat kept := by
  induction kept with
  | nil => rfl
  | cons c kept ih =>
    rw [List.cons_append, join, List.intercalate_cons_of_ne_nil (by simp)]
    simp [show [slash].intercalate (kept ++ [[]]) = flat kept from ih, flat]

theorem join_concat (kept : List WStr) (c : WStr) : join (kept ++ [c]) = flat kept ++ c := by
  induction kept with
  | nil => simp [join, flat]
  | cons x kept ih =>
    rw [List.cons_append, join, List.intercalate_cons_of_ne_nil (by simp)]
    simp [show [slash].intercalate (kept ++ [c]) = flat kept ++ c from ih, flat]

theorem follow_single (kept : List WStr) (c : WStr) : wide.follow isKept kept [c] =
    if c = dots then kept.dropLast else if isKept c then kept ++ [c] else kept := rfl

/-- **The loop keeps components.** Behind those that are kept it goes through those to come. -/
theorem pathLoop_flat : ∀ (cs : List WStr) (last : WStr) (kept : List WStr), (∀ c ∈ kept, slash ∉ c) →
    (∀ c ∈ cs, slash ∉ c) → slash ∉ last →
      pathLoop (flat kept ++ join (cs ++ [last])) (flat kept).length
        = some (join (finish (wide.follow isKept kept (cs ++ [last])) last))
  | [], last, kept, hkept, _, hlast => by
    rw [List.nil_append, follow_single, join, List.intercalate_singleton, finish]
    by_cases hdot : last = [dot]
    · subst hdot
      rw [pathLoop_turn (by simp) (turn_dot_end kept), pathLoop_length, if_pos rfl, if_neg (by decide),
        if_neg (by decide), join_concat_nil]
    rw [if_neg hdot]
    by_cases hdots : last = dots
    · subst hdots
      rw [if_pos rfl, if_pos rfl]
      by_cases hnil : kept.dropLast = []
      · have hroot : pathLoop [slash] 0 = pathLoop [slash] 1 := pathLoop_turn (by decide) (by decide)
        have hstep := pathLoop_turn (by simp) (turn_dots_root hkept hnil)
        rw [if_pos hnil]
        exact hstep.trans (hroot.trans (pathLoop_length [slash]))
      · have hstep := pathLoop_turn (by simp) (turn_dots_end hkept hnil)
        rw [if_neg hnil, join_concat_nil]
        exact hstep.trans (pathLoop_length _)
    · have hpass := pathLoop_pass kept hlast hdot hdots (.inl rfl)
      rw [List.append_nil] at hpass
      rw [hpass, if_neg hdots, if_neg hdots, if_pos (show isKept last from decide_eq_true hdot), ← List.length_append,
        pathLoop_length, join_concat]
  | c :: cs, last, kept, hkept, hcs, hlast => by
    have hc := hcs c List.mem_cons_self
    have hrest := fun x hx => hcs x (List.mem_cons_of_mem _ hx)
    have hjoin : join (c :: cs ++ [last]) = c ++ slash :: join (cs ++ [last]) := by
      rw [List.cons_append, join, List.intercalate_cons_of_ne_nil (by simp)]
      simp [join]
    rw [hjoin, List.cons_append, PathSyntax.follow_cons]
    by_cases hdot : c = [dot]
    · subst hdot
      have hstep := pathLoop_turn (by simp) (turn_dot kept (join (cs ++ [last])))
      exact hstep.trans (pathLoop_flat cs last kept hkept hrest hlast)
    by_cases hdots : c = dots
    · subst hdots
      have hstep := pathLoop_turn (by simp) (turn_dots (join (cs ++ [last])) hkept)
      exact hstep.trans
        (pathLoop_flat cs last kept.dropLast (fun x hx => hkept x (List.dropLast_subset _ hx)) hrest hlast)
    · have hread : read (flat kept ++ (c ++ slash :: join (cs ++ [last]))) ((flat kept).length + c.length)
          = some (some slash) := by
        rw [read_append, read_append_zero]
        simp [read]
      have hkept' : ∀ x ∈ kept ++ [c], slash ∉ x := by
        intro x hx
        rcases List.mem_append.mp hx with hx | hx
        · exact hkept x hx
        · exact List.mem_singleton.mp hx ▸ hc
      rw [pathLoop_pass kept hc hdot hdots (.inr ⟨_, rfl⟩), if_neg (show ¬c = [wide.dot, wide.dot] from hdots),
        if_pos (show isKept c from decide_eq_true hdot),
        pathLoop_turn (by simp only [List.length_append, List.length_cons]; omega) (turn_slash hread),
        ← pathLoop_flat cs last (kept ++ [c]) hkept' hrest hlast, flat_concat]
      simp [Nat.add_assoc]

theorem follow_nil_eq (cs : List WStr) : wide.follow isKept [] cs = wide.stays isKept cs := by
  rw [PathSyntax.follow_eq, List.take_nil, List.nil_append]

/-- **The components of a path** are what the loop goes by. -/
theorem pathLoop_eq {path : WStr} {cs : List WStr} {last : WStr} (hpath : path.splitOn slash = cs ++ [last]) :
    pathLoop path 0 = some (join (finish (wide.stays isKept (cs ++ [last])) last)) := by
  have hjoin : join (cs ++ [last]) = path := hpath ▸ List.intercalate_splitOn slash
  have hparts : ∀ c ∈ cs ++ [last], slash ∉ c := fun c hc => wide.sep_not_mem_of_mem_splitOn (p := path) (hpath ▸ hc)
  have hloop := pathLoop_flat cs last [] (by simp) (fun c hc => hparts c (List.mem_append_left _ hc))
    (hparts last (by simp))
  rw [hjoin, follow_nil_eq] at hloop
  exact hloop

/-! ## The full path -/

/-- The full path of a directory or a file, as far as its components go. -/
structure IsFullPath (dest : WStr) (d : wide.Dir) : Prop where
  absolute : dest.head? = some slash
  plain : ∀ c ∈ dest.splitOn slash, c ≠ [dot] ∧ c ≠ dots
  names : (dest.splitOn slash).filter (· ≠ []) = PathSyntax.names d

/-- The first component that stays is empty, as the one in front of the leading slash is, and something
follows it; or nothing stays, and the path ends with two dots. -/
def KeepsRoot (cs : List WStr) : Prop :=
  (cs.getLast? = some dots ∧ wide.stays isKept cs = []) ∨
    ((wide.stays isKept cs).head? = some [] ∧
      (2 ≤ (wide.stays isKept cs).length ∨ cs.getLast? = some [dot] ∨ cs.getLast? = some dots))

/-- The components are read alike, whether or not the empty ones count: the root is kept, and the same
names stay. -/
def ReadsAlike (path : WStr) : Prop :=
  KeepsRoot (path.splitOn slash) ∧
    PathSyntax.SameStay wide (fun c => decide (wide.IsName c)) isKept (path.splitOn slash)

/-- A trailing slash is no component. -/
theorem isFullPath_truncated (dest : WStr) (d : wide.Dir) : IsFullPath (truncated dest) d ↔ IsFullPath dest d := by
  rw [truncated]
  split
  · next h =>
    obtain ⟨hlength, hlast⟩ := h
    have hne : dest ≠ [] := List.ne_nil_of_length_pos (by omega)
    have hsplit : dest.dropLast ++ [slash] = dest := by
      rw [← Option.some.inj ((List.getLast?_eq_some_getLast hne).symm.trans hlast)]
      exact List.dropLast_concat_getLast hne
    generalize dest.dropLast = w at hsplit
    subst hsplit
    have hw : w ≠ [] := by
      rintro rfl
      simp at hlength
    have hparts : (w ++ [slash]).splitOn slash = w.splitOn slash ++ [[]] := by
      rw [List.splitOn_append_cons_self, List.splitOn_nil]
    have hhead : (w ++ [slash]).head? = w.head? := by
      obtain ⟨x, w, rfl⟩ := List.exists_cons_of_ne_nil hw
      rfl
    have hplain : (∀ c ∈ w.splitOn slash ++ [[]], c ≠ [dot] ∧ c ≠ dots) ↔
        ∀ c ∈ w.splitOn slash, c ≠ [dot] ∧ c ≠ dots := by
      simp only [List.mem_append, List.mem_singleton]
      refine ⟨fun h c hc => h c (.inl hc), fun h c hc => ?_⟩
      rcases hc with hc | rfl
      · exact h c hc
      · exact ⟨by decide, by decide⟩
    have hnames : (w.splitOn slash ++ [[]]).filter (fun c => decide (c ≠ [])) =
        (w.splitOn slash).filter (· ≠ []) := by
      simp
    constructor
    · rintro ⟨h1, h2, h3⟩
      exact ⟨hhead.trans h1, by rw [hparts]; exact hplain.mpr h2, by rw [hparts]; exact hnames.trans h3⟩
    · rintro ⟨h1, h2, h3⟩
      rw [hparts] at h2 h3
      exact ⟨hhead.symm.trans h1, hplain.mp h2, hnames.symm.trans h3⟩
  · exact Iff.rfl

/-- The components of what is made of components. -/
theorem isFullPath_join {cs : List WStr} (hne : cs ≠ []) (hcs : ∀ c ∈ cs, slash ∉ c) (d : wide.Dir) :
    IsFullPath (join cs) d ↔ (cs.head? = some [] ∧ 2 ≤ cs.length) ∧ (∀ c ∈ cs, c ≠ [dot] ∧ c ≠ dots) ∧
      cs.filter (· ≠ []) = PathSyntax.names d := by
  have hparts : (join cs).splitOn slash = cs := List.splitOn_intercalate slash hcs hne
  have hhead : (join cs).head? = some slash ↔ cs.head? = some [] ∧ 2 ≤ cs.length := by
    match cs, hne, hcs with
    | [c], _, hcs =>
      refine iff_of_false (fun h => ?_) fun h => by simp at h
      rw [join, List.intercalate_singleton] at h
      exact hcs c List.mem_cons_self (List.mem_of_mem_head? (by simp [h]))
    | c :: c' :: cs, _, hcs =>
      rw [join, List.intercalate_cons_cons]
      cases c with
      | nil => simp
      | cons x c =>
        refine iff_of_false (fun h => ?_) fun h => by simp at h
        have hx : x = slash := by simpa using h
        exact hcs (x :: c) List.mem_cons_self (hx ▸ List.mem_cons_self)
  rw [← hhead]
  constructor
  · rintro ⟨h1, h2, h3⟩
    rw [hparts] at h2 h3
    exact ⟨h1, h2, h3⟩
  · rintro ⟨h1, h2, h3⟩
    exact ⟨h1, by rw [hparts]; exact h2, by rw [hparts]; exact h3⟩

theorem isName_of_kept {c : WStr} (hslash : slash ∉ c) (hkept : isKept c) (hdots : c ≠ dots) :
    wide.IsName c ↔ c ≠ [] :=
  ⟨fun h => h.1, fun h => ⟨h, of_decide_eq_true hkept, hdots, hslash⟩⟩

/-- A last component that is no dots stays. -/
theorem stays_ne_nil {cs : List WStr} {last : WStr} (hdot : last ≠ [dot]) (hdots : last ≠ dots) :
    wide.stays isKept (cs ++ [last]) ≠ [] := by
  rw [← follow_nil_eq, PathSyntax.follow_append, follow_single, if_neg hdots,
    if_pos (show isKept last from decide_eq_true hdot)]
  simp

section

variable {cs : List WStr} {last : WStr}

theorem finish_ne_nil : finish (wide.stays isKept (cs ++ [last])) last ≠ [] := by
  rw [finish]
  split
  · simp
  split
  · split <;> simp
  · next hdot hdots => exact stays_ne_nil hdot hdots

theorem mem_finish {kept : List WStr} {c : WStr} (h : c ∈ finish kept last) : c ∈ kept ∨ c = [] := by
  rw [finish] at h
  split at h
  · simpa using h
  split at h
  · split at h
    · exact .inr (by simpa using h)
    · simpa using h
  · exact .inl h

theorem filter_finish (kept : List WStr) : (finish kept last).filter (· ≠ []) = kept.filter (· ≠ []) := by
  rw [finish]
  split
  · simp
  split
  · split
    · next h => simp [h]
    · simp
  · rfl

/-- The result has a root exactly when it is kept. -/
theorem finish_root_iff : (finish (wide.stays isKept (cs ++ [last])) last).head? = some [] ∧
      2 ≤ (finish (wide.stays isKept (cs ++ [last])) last).length ↔ KeepsRoot (cs ++ [last]) := by
  have hlast : (cs ++ [last]).getLast? = some last := List.getLast?_concat
  have hne : last ≠ [dot] → last ≠ dots → wide.stays isKept (cs ++ [last]) ≠ [] := stays_ne_nil
  rw [KeepsRoot, hlast, finish]
  generalize wide.stays isKept (cs ++ [last]) = kept at hne
  by_cases hdot : last = [dot]
  · subst hdot
    cases kept <;> simp [show ([dot] : WStr) ≠ dots by decide]
  by_cases hdots : last = dots
  · subst hdots
    cases kept <;> simp [show dots ≠ [dot] by decide]
  · rw [if_neg hdot, if_neg hdots]
    simp [hdot, hdots]

end

/-- **A path is normalised** exactly when its components are read alike. -/
theorem mixToFullPath_iff (path : WStr) :
    (∃ dest, mixToFullPath path = some dest ∧ IsFullPath dest (wide.walk [] (path.splitOn slash))) ↔
      ReadsAlike path := by
  obtain ⟨init, last, hpath⟩ : ∃ init last, path.splitOn slash = init ++ [last] :=
    ⟨_, _, (List.dropLast_concat_getLast (List.splitOn_ne_nil slash path)).symm⟩
  have hloop := pathLoop_eq hpath
  have hparts : ∀ c ∈ init ++ [last], slash ∉ c :=
    fun c hc => wide.sep_not_mem_of_mem_splitOn (p := path) (hpath ▸ hc)
  rw [ReadsAlike, hpath]
  have hmem : ∀ c ∈ finish (wide.stays isKept (init ++ [last])) last, slash ∉ c ∧ c ≠ [dot] ∧ c ≠ dots := by
    intro c hc
    rcases mem_finish hc with hc | rfl
    · obtain ⟨hmem, hdots, hkept⟩ := PathSyntax.stays_subset _ c hc
      exact ⟨hparts c hmem, of_decide_eq_true hkept, hdots⟩
    · exact ⟨List.not_mem_nil, by decide, by decide⟩
  have hnames : (finish (wide.stays isKept (init ++ [last])) last).filter (· ≠ []) =
      PathSyntax.names (wide.walk [] (init ++ [last])) ↔
        PathSyntax.SameStay wide (fun c => decide (wide.IsName c)) isKept (init ++ [last]) := by
    have hfilter : (wide.stays isKept (init ++ [last])).filter (· ≠ []) =
        (wide.stays isKept (init ++ [last])).filter fun c => decide (wide.IsName c) := by
      refine List.filter_congr fun c hc => ?_
      obtain ⟨hmem, hdots, hkept⟩ := PathSyntax.stays_subset _ c hc
      exact decide_eq_decide.mpr (isName_of_kept (hparts c hmem) hkept hdots).symm
    have hweaker : ∀ c, decide (wide.IsName c) = true → isKept c = true :=
      fun c hc => decide_eq_true (of_decide_eq_true hc).2.1
    rw [filter_finish, hfilter, PathSyntax.names_walk, PathSyntax.follow_eq, ← PathSyntax.stays_eq_iff hweaker,
      show PathSyntax.names ([] : wide.Dir) = [] from rfl, List.take_nil, List.nil_append]
  have hroot : (finish (wide.stays isKept (init ++ [last])) last).head? = some [] ∧
      2 ≤ (finish (wide.stays isKept (init ++ [last])) last).length ↔ KeepsRoot (init ++ [last]) := finish_root_iff
  rw [← hroot, ← hnames, mixToFullPath, hloop, Option.map_some]
  simp only [Option.some.injEq, exists_eq_left', isFullPath_truncated]
  rw [isFullPath_join finish_ne_nil (fun c hc => (hmem c hc).1)]
  exact and_congr_right fun _ => and_iff_right fun c hc => (hmem c hc).2

/-- Leading dots lead nowhere. -/
theorem walk_skipDots (d : wide.Dir) : ∀ path : WStr,
    wide.walk d ((skipDots path).splitOn slash) = wide.walk d (path.splitOn slash)
  | [] => rfl
  | [c] => by
    rw [skipDots]
    split
    · next h =>
      subst h
      rfl
    · rfl
  | c :: c1 :: path => by
    rw [skipDots]
    split
    · next h =>
      obtain ⟨rfl, rfl⟩ := h
      rw [walk_skipDots d path, show dot :: slash :: path = [dot] ++ slash :: path from rfl,
        List.splitOn_append_cons_self, PathSyntax.walk_append]
      rfl
    · rfl

/-- The string that is normalised denotes what the path denotes in the current directory. -/
theorem walk_joined (processDir : WStr) {path currentDir : WStr} (habs : wide.Absolute currentDir) :
    wide.walk [] ((joined processDir path currentDir).splitOn slash)
      = wide.resolve (wide.resolve [] currentDir) path := by
  have hne : currentDir ≠ [] := by
    rintro rfl
    exact nomatch habs
  rw [joined]
  by_cases hpath : path.head? = some slash
  · rw [if_pos hpath, PathSyntax.resolve_absolute (S := wide) hpath]
    rfl
  rw [if_neg hpath, PathSyntax.resolve_relative (S := wide) hpath, PathSyntax.resolve_absolute habs]
  simp only [hne, if_false]
  by_cases hlast : currentDir.getLast? = some slash
  · rw [if_neg fun h => h hlast]
    obtain ⟨w, rfl⟩ : ∃ w, currentDir = w ++ [slash] :=
      ⟨currentDir.dropLast, by
        rw [← Option.some.inj ((List.getLast?_eq_some_getLast hne).symm.trans hlast)]
        exact (List.dropLast_concat_getLast hne).symm⟩
    rw [List.append_assoc, List.singleton_append, List.splitOn_append_cons_self, PathSyntax.walk_append,
      walk_skipDots]
    congr 1
    rw [show wide.sep = slash from rfl, List.splitOn_append_cons_self, PathSyntax.walk_append]
    rfl
  · rw [if_pos hlast, List.append_assoc, List.singleton_append, List.splitOn_append_cons_self, PathSyntax.walk_append,
      walk_skipDots]
    rfl

/-- The function comes to an end without leaving the string, and yields the full path of what the path
denotes in the current directory. -/
def Normalises (processDir path currentDir : WStr) : Prop :=
  ∃ dest, mixToFullPathIn processDir path currentDir = some dest ∧
    IsFullPath dest (wide.resolve (wide.resolve [] currentDir) path)

/-- **Full paths.** In an absolute current directory, a path is normalised lexically exactly when the string
it is joined to reads alike with and without its empty components. -/
theorem normalises_iff (processDir path currentDir : WStr) (habs : wide.Absolute currentDir) :
    Normalises processDir path currentDir ↔ ReadsAlike (joined processDir path currentDir) := by
  rw [Normalises, ← walk_joined processDir habs]
  exact mixToFullPath_iff _

theorem normalises_iff_root : Normalises [] [dot, dot] [slash] ↔ ReadsAlike (joined [] [dot, dot] [slash]) :=
  normalises_iff [] [dot, dot] [slash] rfl

/-- Of "/../x" the root is lost. -/
theorem root_lost : ¬∀ processDir path currentDir : WStr, wide.Absolute currentDir →
    Normalises processDir path currentDir := by
  intro h
  obtain ⟨dest, hdest, hfull⟩ := h [] [slash, dot, dot, slash, 0x78] [slash] rfl
  have hrun : mixToFullPathIn [] [slash, dot, dot, slash, 0x78] [slash] = some [0x78] := by
    have hloop : pathLoop [slash, dot, dot, slash, 0x78] 0
        = some (join (finish (wide.stays isKept ([[], dots] ++ [[0x78]])) [0x78])) := pathLoop_eq (by decide)
    rw [mixToFullPathIn, mixToFullPath,
      show joined [] [slash, dot, dot, slash, 0x78] [slash] = [slash, dot, dot, slash, 0x78] by decide, hloop]
    decide
  obtain rfl := Option.some.inj (hrun.symm.trans hdest)
  exact absurd hfull.absolute (by decide)

end Far2l.FullPath
