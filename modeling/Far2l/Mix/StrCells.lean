/-
Far2l.Mix.StrCells — `far/src/mix/StrCells.cpp`: the cells that a text takes, the
part of it that fits into some, and how its middle is cut out.

A position in a text is the number of characters in front of it. The loop of
`StrCellsTruncateCenter` is run with a number of turns.
-/
import Far2l.Utils.CharClasses

namespace Far2l

/-- What `CharClasses` says of the characters of a text. -/
structure CellClasses where
  fullWidth : WChar → Bool
  isPrefix : WChar → Bool
  suffix : WChar → Bool

/-- The classes of the table in the sources. -/
def CellClasses.table : CellClasses where
  fullWidth := CharClasses.table.fullWidth
  isPrefix := CharClasses.table.isPrefix
  suffix := CharClasses.table.suffix

namespace StrCells

variable (cc : CellClasses)

/-- `Xxxfix`. -/
def xxxfix (c : WChar) : Bool := cc.isPrefix c || cc.suffix c

/-! ## `StrCellsCount` -/

/-- A turn: the cells of a character, which may be the first one or the last one. -/
def cellsOf (first last : Bool) (c : WChar) : Nat :=
  if cc.fullWidth c then 2
  else if (last || !cc.isPrefix c) && (first || !cc.suffix c) then 1
  else 0

/-- The loop. -/
def countLoop : (first : Bool) → WStr → Nat
  | _, [] => 0
  | first, c :: rest => cellsOf cc first rest.isEmpty c + countLoop false rest

/-- `StrCellsCount`. -/
def strCellsCount (pwz : WStr) : Nat := countLoop cc true pwz

/-! ## `StrSizeOfCells` -/

/-- The loop, over what is left of the text behind `i`. -/
def sizeLoop (ng : Nat) (roundUp : Bool) (rest : WStr) (i g : Nat) : Nat × Nat :=
  if g < ng ∧ rest ≠ [] then
    match _h : rest.dropWhile cc.isPrefix with
    | [] => (i + rest.length, g + 1)
    | c :: behind =>
        if cc.fullWidth c ∧ !roundUp ∧ g + 1 = ng then
          (i + (rest.takeWhile cc.isPrefix).length, g)
        else
          sizeLoop ng roundUp (behind.dropWhile cc.suffix)
            (i + (rest.takeWhile cc.isPrefix).length + 1 + (behind.takeWhile cc.suffix).length)
            (g + if cc.fullWidth c then 2 else 1)
  else (i, g)
termination_by rest.length
decreasing_by
  have hprefix := (List.dropWhile_suffix cc.isPrefix (l := rest)).length_le
  have hsuffix := (List.dropWhile_suffix cc.suffix (l := behind)).length_le
  rw [_h, List.length_cons] at hprefix
  omega

/-- `StrSizeOfCells`: the length that is returned, and `ng`. -/
def strSizeOfCells (pwz : WStr) (ng : Nat) (roundUp : Bool) : Nat × Nat :=
  sizeLoop cc ng roundUp pwz 0 0

/-! ## `StrCellsTruncateCenter` -/

/-- `ChooseTruncReplacement`, by `Opt.NoGraphics`. -/
def chooseTruncReplacement (noGraphics : Bool) : WStr :=
  if noGraphics then L ['.', '.', '.'] else [0x2026]

/-- `cut_start` and `cut_end`. -/
structure Cut where
  cutStart : Nat
  cutEnd : Nat
  deriving DecidableEq, Repr

/-- `while (cut_start > 0 && CharClasses(pwz[cut_start]).Xxxfix()) --cut_start`. -/
def skipBack (pwz : WStr) : Nat → Nat
  | 0 => 0
  | pos + 1 => if xxxfix cc (pwz.getD (pos + 1) 0) then skipBack pwz pos else pos + 1

/-- `while (cut_end < n && CharClasses(pwz[cut_end]).Xxxfix()) ++cut_end`. -/
def skipForth (pwz : WStr) (pos : Nat) : Nat := pos + ((pwz.drop pos).takeWhile (xxxfix cc)).length

/-- Where the cut is in front of the loop. -/
def Cut.first (pwz : WStr) (len : Nat) : Cut :=
  let cutStart := pwz.length / 2
  let cutStart := if cutStart > 0 then cutStart - 1 else cutStart
  let cutStart := if cutStart > 0 ∧ len > 1 then cutStart - 1 else cutStart
  let cutStart := skipBack cc pwz cutStart
  ⟨cutStart, skipForth cc pwz (cutStart + len)⟩

/-- The cells of both pieces, with the replacement, are not more than `ng`. -/
def Cut.Fits (pwz : WStr) (len ng : Nat) (C : Cut) : Prop :=
  strCellsCount cc (pwz.take C.cutStart) + strCellsCount cc (pwz.drop C.cutEnd) + len ≤ ng

instance (pwz : WStr) (len ng : Nat) (C : Cut) : Decidable (C.Fits cc pwz len ng) :=
  inferInstanceAs (Decidable (_ ≤ _))

/-- `--cut_start` and the loop behind it. -/
def Cut.back (pwz : WStr) (C : Cut) : Cut :=
  { C with cutStart := skipBack cc pwz (C.cutStart - 1) }

/-- `if (cut_end < n)`, with `++cut_end` and the loop behind it. -/
def Cut.forth (pwz : WStr) (C : Cut) : Cut :=
  if C.cutEnd < pwz.length then { C with cutEnd := skipForth cc pwz (C.cutEnd + 1) } else C

/-- A turn of the loop, or the cut with which it is left. -/
def Cut.turn (pwz : WStr) (len ng : Nat) (C : Cut) : Cut ⊕ Cut :=
  if C.Fits cc pwz len ng then .inl C
  else if C.cutStart > 0 then
    if (C.back cc pwz).Fits cc pwz len ng then .inl (C.back cc pwz)
    else .inr ((C.back cc pwz).forth cc pwz)
  else .inr (C.forth cc pwz)

/-- The loop; `none` where it is still running. -/
def Cut.run (pwz : WStr) (len ng : Nat) : (turns : Nat) → Cut → Option Cut
  | 0, _ => none
  | turns + 1, C =>
      match C.turn cc pwz len ng with
      | .inl C => some C
      | .inr C => C.run pwz len ng turns

/-- `wmemmove` and `wmemcpy`. -/
def memCopy (pwz : WStr) (pos : Nat) (text : WStr) : WStr :=
  pwz.take pos ++ text ++ pwz.drop (pos + text.length)

/-- What follows the loop. -/
def Cut.replace (pwz rpl : WStr) (C : Cut) : WStr :=
  (memCopy (memCopy pwz (C.cutStart + rpl.length) (pwz.drop C.cutEnd)) C.cutStart rpl).take
    (pwz.length - (C.cutEnd - C.cutStart) + rpl.length)

/-- `StrCellsTruncateCenter`. -/
def strCellsTruncateCenter (noGraphics : Bool) (turns : Nat) (pwz : WStr) (ng : Nat) : Option WStr :=
  let rpl := chooseTruncReplacement noGraphics
  if strCellsCount cc pwz ≤ ng ∨ pwz.length < rpl.length then some pwz
  else ((Cut.first cc pwz rpl.length).run cc pwz rpl.length ng turns).map fun C => C.replace pwz rpl

end StrCells

end Far2l
