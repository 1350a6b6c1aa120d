/-
Far2l.Filemask.FileMasksProcessor — `FileMasksProcessor` of
`far/src/filemask/FileMasksProcessor.cpp`: the masks a name must match and those it
must not match, from one text.

Matching a mask and matching a regular expression are taken from the surroundings,
as are the groups of masks.
-/
import Far2l.Filemask.UserDefinedList

namespace Far2l.Filemask

/-! ## Masks -/

/-- What the masks are made with: `CmpName`, `RegExp::Compile` and `RegExp::Search`, and
`GetMaskGroup`. -/
structure Surroundings where
  ctype : Ctype
  cmpName : WStr → WStr → Bool → Bool
  compile : WStr → Bool
  search : WStr → WStr → Bool
  getMaskGroup : WStr → Option WStr

/-- `BaseFileMask`: a `SingleFileMask`, a `RegexMask` or a `FileMasksProcessor`. -/
inductive FileMask where
  | single (mask : WStr)
  | regex (pattern : WStr)
  | processor (includeMasks excludeMasks : List FileMask)

variable (E : Surroundings)

mutual

/-- `Compare`. -/
def FileMask.compare (fileName : WStr) (caseSens : Bool) : FileMask → Bool
  | .single mask => E.cmpName mask fileName caseSens
  | .regex pattern => E.search pattern fileName
  | .processor includeMasks excludeMasks =>
      if compareAny fileName caseSens includeMasks then !compareAny fileName caseSens excludeMasks
      else false

/-- `Compare`: does one of these masks match? -/
def compareAny (fileName : WStr) (caseSens : Bool) : List FileMask → Bool
  | [] => false
  | mask :: masks =>
      if mask.compare fileName caseSens then true else compareAny fileName caseSens masks

end

/-! ## `Set` -/

/-- `FindExcludeChar`: the place of the character that separates the masks to exclude, and
`regexp` as in the loop. -/
def findExcludeCharLoop : Bool → WStr → Option Nat
  | _, [] => none
  | false, c :: masks =>
      if c = BAR then some 0 else (findExcludeCharLoop (c = SLASH) masks).map (· + 1)
  | true, c :: masks =>
      if c = BACKSLASH then
        match masks with
        | [] => none
        | _ :: masks => (findExcludeCharLoop true masks).map (· + 2)
      else (findExcludeCharLoop (c ≠ SLASH) masks).map (· + 1)

/-- `FindExcludeChar`. -/
def findExcludeChar (masks : WStr) : Option Nat := findExcludeCharLoop false masks

/-- `while (iswspace(*p)) p++`. -/
def skipBlank (masks : WStr) : WStr := masks.dropWhile E.ctype.iswspace

/-- `SetPart`: the flags of the list. -/
def partFlags (addAsterisk : Bool) : ListFlags :=
  { packAsterisks := true, processBrackets := true, processRegexp := true, addAsterisk := addAsterisk }

/-- `SetPart`: the name of a group of masks. -/
def groupKey (onemask : WStr) : Option WStr :=
  match onemask with
  | [] => none
  | c :: rest =>
      let key := rest.takeWhile (· ≠ GREATER)
      if c = LESS ∧ key ≠ [] ∧ rest.drop key.length = [GREATER] then some key else none

/-- `SetPart`: a mask that is no group. -/
def plainMask (onemask : WStr) : Option FileMask :=
  if onemask.head? = some SLASH then
    if E.compile onemask then some (.regex onemask) else none
  else if onemask = [] then none
  else some (.single onemask)

/-- `SetPart`: one mask; `group` makes the masks of a group. -/
def newMask (group : WStr → Option FileMask) (onemask : WStr) : Option FileMask :=
  match (groupKey onemask).bind E.getMaskGroup with
  | some masks => group masks
  | none => plainMask E onemask

/-- `SetPart`. -/
def setPart (group : WStr → Option FileMask) (masks : WStr) (addAsterisk : Bool) :
    Option (List FileMask) :=
  (setList E.ctype (partFlags addAsterisk) masks).bind fun items => items.mapM (newMask E group)

/-- `Set`: the text of the masks to include, and that of the masks to exclude, if there is any. -/
def splitMasks (masks : WStr) : Option (WStr × Option WStr) :=
  let pInclude := skipBlank E masks
  match findExcludeChar pInclude with
  | none => some (pInclude, none)
  | some i =>
      let pExclude := skipBlank E (pInclude.drop (i + 1))
      let pInclude := pInclude.take i
      if pInclude = [] ∧ pExclude = [] then none
      else if pExclude = [] then some (pInclude, none)
      else some (pInclude, some (pExclude.take ((findExcludeChar pExclude).getD pExclude.length)))

/-- `Set`, with `depth` calls left up to `MAXCALLDEPTH`. -/
def setMasks : Nat → WStr → Bool → Option FileMask
  | 0, _, _ => none
  | depth + 1, masks, addAsterisk =>
      let group := fun masks => setMasks depth masks false
      if masks = [] then none
      else
        (splitMasks E masks).bind fun parts =>
          (setPart E group (if parts.1 = [] then [ASTERISK] else parts.1) addAsterisk).bind
            fun includeMasks =>
              (parts.2.elim (some []) fun exclude => setPart E group exclude false).map
                fun excludeMasks => .processor includeMasks excludeMasks

/-- `MAXCALLDEPTH`. -/
def MAXCALLDEPTH : Nat := 64

/-- `FileMasksProcessor::Set`. -/
def set (masks : WStr) (addAsterisk : Bool) : Option FileMask :=
  setMasks E MAXCALLDEPTH masks addAsterisk

end Far2l.Filemask
