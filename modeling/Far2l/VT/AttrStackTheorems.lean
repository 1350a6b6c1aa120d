/-
Far2l.VT.AttrStackTheorems — `push-attr` and `pop-attr`, with attributes and blank
characters that are changed in between.

An entry has a `WORD` for the attributes, which the true colours do not fit into. The
bottom quarter of the stack goes when there are more than 4096 entries; in a sequence of
4096 commands that are properly nested it does not reach those that are still wanted.
-/
import Far2l.Console.AnsiEscTheorems
import Far2l.VT.Terminal

namespace Far2l

namespace VT

open AnsiEsc

/-- The fonts of the terminal. -/
def fontOps : FontOps FontState where
  initial := {}
  parseSuffixM := FontState.parseSuffixM
  toConsoleAttributes := FontState.toConsoleAttributes
  fromConsoleAttributes := FontState.fromConsoleAttributes

/-- What changes, saves and restores attributes: `ESC[#m`, and three strings of the terminal. -/
inductive AttrCommand where
  | sgr (argv : List Int) (argc : Nat)
  | setBlank (text : List Byte)
  | pushAttr
  | popAttr

namespace AttrCommand

/-- What the automaton asks for. -/
def action : AttrCommand → Action
  | sgr argv argc => .interpretEscSeq { prefix1 := ch '[', suffix := ch 'm', esArgc := argc, esArgv := argv }
  | setBlank text =>
      .interpretControlString { prefix1 := ch '_', osCmdArg := Terminal.bytesOf "set-blank=" ++ text }
  | pushAttr => .interpretControlString { prefix1 := ch '_', osCmdArg := Terminal.bytesOf "push-attr" }
  | popAttr => .interpretControlString { prefix1 := ch '_', osCmdArg := Terminal.bytesOf "pop-attr" }

/-- Is it a command for the stack? -/
def onStack : AttrCommand → Bool
  | pushAttr | popAttr => true
  | _ => false

/-- Commands that are properly nested. -/
inductive Nested : List AttrCommand → Prop
  | nil : Nested []
  | other {c : AttrCommand} {rest : List AttrCommand} : c.onStack = false → Nested rest → Nested (c :: rest)
  | pair {body rest : List AttrCommand} : Nested body → Nested rest → Nested (pushAttr :: (body ++ popAttr :: rest))

/-- The commands for the stack. -/
def stackCommands (cmds : List AttrCommand) : Nat := cmds.countP onStack

/-- What a command leaves. -/
def apply (T : Terminal FontState) : AttrCommand → Terminal FontState
  | sgr argv argc =>
      { T.setAttributes (T.fontState.parseSuffixM argv argc).toConsoleAttributes with
        fontState := T.fontState.parseSuffixM argv argc }
  | setBlank text => { T with blankCharacter := if text.length > 0 then Terminal.ofChar (text.getD 0 0) else wch ' ' }
  | pushAttr => T.pushAttr
  | popAttr => T.popAttr fontOps

end AttrCommand

namespace Terminal

open AttrCommand

variable {cc : CharClasses} {fuel : Nat} {T : Terminal FontState} {cmds body rest : List AttrCommand}

/-- Commands, one after the other. -/
def runCommands (cc : CharClasses) (fuel : Nat) (T : Terminal FontState) (cmds : List AttrCommand) :
    Option (Terminal FontState) := T.performAll fontOps cc fuel (cmds.map action)

theorem perform_action (T : Terminal FontState) (c : AttrCommand) :
    T.perform fontOps cc fuel c.action = some (c.apply T) := by
  cases c with
  | sgr argv argc => rfl
  | setBlank text =>
    have hstarts : (bytesOf "set-blank=").isPrefixOf (bytesOf "set-blank=" ++ text) = true :=
      List.isPrefixOf_iff_prefix.mpr (List.prefix_append _ _)
    have hlength : (bytesOf "set-blank=").length = 10 := by decide
    rw [action, perform, interpretControlString, if_neg (fun h => h rfl), if_pos hstarts, AttrCommand.apply]
    dsimp only
    rw [List.length_append, hlength, List.getD_append_right _ _ _ _ (by omega), hlength]
    simp
  | pushAttr => rfl
  | popAttr => rfl

/-- **Commands always come to their end.** -/
theorem runCommands_eq (T : Terminal FontState) (cmds : List AttrCommand) :
    runCommands cc fuel T cmds = some (cmds.foldl AttrCommand.apply T) := by
  induction cmds generalizing T with
  | nil => rfl
  | cons c cmds ih =>
    rw [List.foldl_cons, ← ih (c.apply T)]
    show (T.perform fontOps cc fuel c.action).bind (fun T => runCommands cc fuel T cmds) = _
    rw [perform_action, Option.bind_some]

/-! ## The stack -/

/-- What a command that is none for the stack leaves of it. -/
theorem apply_other {c : AttrCommand} (hc : c.onStack = false) (T : Terminal FontState) :
    (c.apply T).attrStack = T.attrStack := by
  cases c with
  | sgr argv argc => rfl
  | setBlank text => rfl
  | pushAttr => cases hc
  | popAttr => cases hc

/-- The entry that saves the attributes and the blank character. -/
def entry (T : Terminal FontState) : AttrStackEntry := ⟨T.blankCharacter, T.console.attributes.toUInt16⟩

/-- A command that pushes: 1024 entries go when there are 4096. -/
theorem pushAttr_stack (hfew : T.attrStack.length ≤ 4096) :
    ∃ k, T.pushAttr.attrStack = T.attrStack.drop k ++ [T.entry] ∧ (k = 0 ∧ T.attrStack.length < 4096
      ∨ k = 1024 ∧ T.attrStack.length = 4096) := by
  rw [pushAttr]
  dsimp only
  rw [List.length_append, List.length_singleton]
  by_cases hfull : T.attrStack.length = 4096
  · refine ⟨1024, ?_, .inr ⟨rfl, hfull⟩⟩
    rw [if_pos (by omega), hfull, List.drop_append_of_le_length (by omega)]
    rfl
  · refine ⟨0, ?_, .inl ⟨rfl, by omega⟩⟩
    rw [if_neg (by omega), List.drop_zero]
    rfl

/-- A command that pops. -/
theorem popAttr_stack {stack : List AttrStackEntry} {e : AttrStackEntry} (h : T.attrStack = stack ++ [e]) :
    (T.popAttr fontOps).attrStack = stack ∧ (T.popAttr fontOps).console.attributes = e.attributes.toUInt64
      ∧ (T.popAttr fontOps).blankCharacter = e.blankCharacter := by
  rw [popAttr, h, List.getLast?_concat]
  dsimp only
  exact ⟨List.dropLast_concat, rfl, rfl⟩

/-- The entries of a stack that a run leaves: the bottom may be gone, but the top ones are there. -/
def Leaves (pushes : Nat) (stack stack' : List AttrStackEntry) : Prop :=
  ∃ k, stack' = stack.drop k ∧ k ≤ stack.length ∧ (k = 0 ∨ 3073 ≤ stack.length - k + pushes)

theorem Leaves.trans {p q : Nat} {s₁ s₂ s₃ : List AttrStackEntry} (h : Leaves p s₁ s₂) (h' : Leaves q s₂ s₃) :
    Leaves (p + q) s₁ s₃ := by
  obtain ⟨k, rfl, hk, hkept⟩ := h
  obtain ⟨k', rfl, hk', hkept'⟩ := h'
  rw [List.length_drop] at hk' hkept'
  refine ⟨k + k', List.drop_drop, by omega, ?_⟩
  omega

theorem Leaves.length {p : Nat} {s s' : List AttrStackEntry} (h : Leaves p s s') : s'.length ≤ s.length := by
  obtain ⟨k, rfl, -⟩ := h
  rw [List.length_drop]
  exact Nat.sub_le _ _

/-- The number of commands that push. -/
def pushes (cmds : List AttrCommand) : Nat := cmds.countP fun | .pushAttr => true | _ => false

/-- **The pushed entry is popped**, when the commands in between leave the stack as it has been. -/
theorem pair_leaves (hfew : T.attrStack.length ≤ 4096) (hpushes : pushes body ≤ 3072)
    (hbody : ∀ T' : Terminal FontState, T'.attrStack.length ≤ 4096 →
      Leaves (pushes body) T'.attrStack (body.foldl AttrCommand.apply T').attrStack) :
    let T' := (body.foldl AttrCommand.apply T.pushAttr).popAttr fontOps
    Leaves (pushes body + 1) T.attrStack T'.attrStack
      ∧ T'.console.attributes = T.console.attributes.toUInt16.toUInt64 ∧ T'.blankCharacter = T.blankCharacter := by
  obtain ⟨k₀, hpush, hk₀⟩ := pushAttr_stack hfew
  have hlength : (T.attrStack.drop k₀ ++ [T.entry]).length = T.attrStack.length - k₀ + 1 := by
    rw [List.length_append, List.length_drop, List.length_singleton]
  obtain ⟨k, hrun, hk, hkept⟩ := hbody T.pushAttr (by rw [hpush, hlength]; omega)
  rw [hpush, hlength] at hk hkept
  have hk' : k ≤ (T.attrStack.drop k₀).length := by
    rw [List.length_drop]
    omega
  rw [hpush, List.drop_append_of_le_length hk', List.drop_drop] at hrun
  obtain ⟨hstack, hattributes, hblank⟩ := popAttr_stack hrun
  refine ⟨⟨k₀ + k, hstack, ?_, ?_⟩, hattributes, hblank⟩
  · rw [List.length_drop] at hk'
    omega
  · omega

theorem pushes_pair (body rest : List AttrCommand) :
    pushes (.pushAttr :: (body ++ .popAttr :: rest)) = pushes body + 1 + pushes rest := by
  rw [pushes, List.countP_cons_of_pos rfl, List.countP_append, List.countP_cons_of_neg (by decide), pushes, pushes]
  omega

theorem pushes_other {c : AttrCommand} (hc : c.onStack = false) (rest : List AttrCommand) :
    pushes (c :: rest) = pushes rest := by
  cases c with
  | pushAttr => cases hc
  | _ => rfl

/-- Half of the commands for the stack push. -/
theorem nested_pushes (h : Nested cmds) : stackCommands cmds = 2 * pushes cmds := by
  induction h with
  | nil => rfl
  | @other c rest hc _ ih =>
    rw [pushes_other hc, stackCommands, List.countP_cons_of_neg (by rw [hc]; decide)]
    exact ih
  | @pair body rest _ _ ihBody ihRest =>
    rw [stackCommands] at ihBody ihRest ⊢
    rw [pushes_pair, List.countP_cons_of_pos rfl, List.countP_append, List.countP_cons_of_pos rfl, ihBody, ihRest]
    omega

/-- **Commands that are properly nested leave the stack.** -/
theorem nested_leaves (h : Nested cmds) : ∀ T : Terminal FontState, T.attrStack.length ≤ 4096 →
    pushes cmds ≤ 3072 → Leaves (pushes cmds) T.attrStack (cmds.foldl AttrCommand.apply T).attrStack := by
  induction h with
  | nil => exact fun T _ _ => ⟨0, rfl, Nat.zero_le _, .inl rfl⟩
  | @other c rest hc _ ih =>
    intro T hfew hpushes
    rw [pushes_other hc] at hpushes ⊢
    have hrest := ih (c.apply T) (by rw [apply_other hc]; exact hfew) hpushes
    rw [apply_other hc] at hrest
    exact hrest
  | @pair body rest _ _ ihBody ihRest =>
    intro T hfew hpushes
    rw [pushes_pair] at hpushes ⊢
    have hpair := (pair_leaves hfew (by omega) fun T' hT' => ihBody T' hT' (by omega)).1
    rw [List.foldl_cons, List.foldl_append, List.foldl_cons]
    exact hpair.trans (ihRest _ (hpair.length.trans hfew) (by omega))

/-- **There are never more than 4096 entries.** -/
theorem run_few (hfew : T.attrStack.length ≤ 4096) : ∀ cmds : List AttrCommand,
    (cmds.foldl AttrCommand.apply T).attrStack.length ≤ 4096 := by
  intro cmds
  induction cmds generalizing T with
  | nil => exact hfew
  | cons c cmds ih =>
    refine @ih (c.apply T) ?_
    cases c with
    | pushAttr =>
      obtain ⟨k, hpush, hk⟩ := pushAttr_stack hfew
      rw [AttrCommand.apply, hpush, List.length_append, List.length_drop, List.length_singleton]
      omega
    | popAttr =>
      rw [AttrCommand.apply, popAttr]
      split
      · exact hfew
      · dsimp only
        rw [List.length_dropLast]
        omega
    | sgr argv argc => exact hfew
    | setBlank text => exact hfew

/-! ## Attributes that are restored -/

/-- **Each `pop-attr` restores** the attributes and the blank character at the `push-attr` it belongs to. -/
def AttrsRestored (cc : CharClasses) (fuel : Nat) (T : Terminal FontState) (cmds : List AttrCommand) : Prop :=
  ∀ u body v, cmds = u ++ .pushAttr :: (body ++ .popAttr :: v) → Nested body →
    ∃ T₁ T₂, runCommands cc fuel T u = some T₁
      ∧ runCommands cc fuel T (u ++ .pushAttr :: (body ++ [.popAttr])) = some T₂
      ∧ T₂.console.attributes = T₁.console.attributes ∧ T₂.blankCharacter = T₁.blankCharacter

/-- The attributes at each `push-attr` that belongs to a `pop-attr` are a `WORD`. -/
def PushesWords (cc : CharClasses) (fuel : Nat) (T : Terminal FontState) (cmds : List AttrCommand) : Prop :=
  ∀ u body v, cmds = u ++ .pushAttr :: (body ++ .popAttr :: v) → Nested body →
    ∃ T₁, runCommands cc fuel T u = some T₁ ∧ T₁.console.attributes < 0x10000

theorem toUInt16_toUInt64 (a : UInt64) : a.toUInt16.toUInt64 = a ↔ a < 0x10000 := by
  rw [← UInt64.toNat_inj, UInt16.toNat_toUInt64, UInt64.toNat_toUInt16, UInt64.lt_iff_toNat_lt]
  exact Nat.mod_eq_iff_lt (by decide)

/-- A pair of commands restores what a `WORD` holds of the attributes. -/
theorem pair_restores (cc : CharClasses) (fuel : Nat) (hfew : T.attrStack.length ≤ 4096) (hcount : stackCommands cmds ≤ 4096)
    {u v : List AttrCommand} (hcmds : cmds = u ++ .pushAttr :: (body ++ .popAttr :: v)) (hbody : Nested body) :
    ∃ T₁ T₂, runCommands cc fuel T u = some T₁
      ∧ runCommands cc fuel T (u ++ .pushAttr :: (body ++ [.popAttr])) = some T₂
      ∧ T₂.console.attributes = T₁.console.attributes.toUInt16.toUInt64 ∧ T₂.blankCharacter = T₁.blankCharacter := by
  have hpushes : pushes body ≤ 3072 := by
    have hhalf := nested_pushes hbody
    rw [stackCommands] at hhalf
    rw [hcmds, stackCommands, List.countP_append, List.countP_cons_of_pos rfl, List.countP_append,
      List.countP_cons_of_pos rfl] at hcount
    omega
  obtain ⟨-, hattributes, hblank⟩ := pair_leaves (run_few hfew u) hpushes
    fun T' hT' => nested_leaves hbody T' hT' hpushes
  refine ⟨_, _, runCommands_eq T u, runCommands_eq T _, ?_⟩
  rw [List.foldl_append, List.foldl_cons, List.foldl_append]
  exact ⟨hattributes, hblank⟩

theorem attrsRestored_iff (hfew : T.attrStack.length ≤ 4096) (hcount : stackCommands cmds ≤ 4096) :
    AttrsRestored cc fuel T cmds ↔ PushesWords cc fuel T cmds := by
  constructor
  · intro hrestored u body v hcmds hbody
    obtain ⟨T₁, T₂, hrun₁, hrun₂, heq, -⟩ := hrestored u body v hcmds hbody
    obtain ⟨T₁', T₂', hrun₁', hrun₂', hword, -⟩ := pair_restores cc fuel hfew hcount hcmds hbody
    obtain rfl := Option.some.inj (hrun₁.symm.trans hrun₁')
    obtain rfl := Option.some.inj (hrun₂.symm.trans hrun₂')
    exact ⟨T₁, hrun₁, (toUInt16_toUInt64 _).mp (hword.symm.trans heq)⟩
  · intro hwords u body v hcmds hbody
    obtain ⟨T₁, hrun₁, hlt⟩ := hwords u body v hcmds hbody
    obtain ⟨T₁', T₂, hrun₁', hrun₂, hword, hblank⟩ := pair_restores cc fuel hfew hcount hcmds hbody
    obtain rfl := Option.some.inj (hrun₁.symm.trans hrun₁')
    exact ⟨T₁, T₂, hrun₁, hrun₂, hword.trans ((toUInt16_toUInt64 _).mpr hlt), hblank⟩

/-- The font state behind sequences of arguments. -/
def fontBehind (sgrs : List (List Int × Nat)) : FontState :=
  sgrs.foldl (fun f sgr => f.parseSuffixM sgr.1 sgr.2) {}

theorem fontBehind_indexed (sgrs : List (List Int × Nat)) : (fontBehind sgrs).Indexed := by
  refine List.foldlRecOn sgrs _ ⟨by decide, by decide⟩ fun f hf sgr _ => hf.parseSuffixM sgr.1 sgr.2

/-- **Saved attributes come back**: another font state shows them exactly when the background is not bright and it does
not conceal text that can be seen; and `pop-attr` restores them exactly when they are a `WORD`. -/
theorem attributes_comeBack (cc : CharClasses) (fuel : Nat) (sgrs : List (List Int × Nat))
    (hshown : (fontBehind sgrs).concealed = false) (g : FontState) (hfew : T.attrStack.length ≤ 4096)
    (hcount : stackCommands cmds ≤ 4096) :
    ((g.fromConsoleAttributes (fontBehind sgrs).toConsoleAttributes).toConsoleAttributes
        = (fontBehind sgrs).toConsoleAttributes
      ↔ (fontBehind sgrs).background < 8 ∧ (g.concealed = true → (fontBehind sgrs).Invisible))
    ∧ (AttrsRestored cc fuel T cmds ↔ PushesWords cc fuel T cmds) :=
  ⟨comesBack_iff (fontBehind_indexed sgrs) hshown g, attrsRestored_iff hfew hcount⟩

/-- A terminal without cells. -/
def bare : Terminal FontState := { console := { buf := ⟨80, []⟩ }, fontState := {} }

/-- Red text, which is blue for a while. -/
def blueInRed : List AttrCommand := [.sgr [31] 1, .pushAttr, .sgr [34] 1, .popAttr]

theorem attributes_comeBack_blueInRed :
    ((({} : FontState).fromConsoleAttributes (fontBehind [([31], 1)]).toConsoleAttributes).toConsoleAttributes
        = (fontBehind [([31], 1)]).toConsoleAttributes
      ↔ (fontBehind [([31], 1)]).background < 8
        ∧ (({} : FontState).concealed = true → (fontBehind [([31], 1)]).Invisible))
    ∧ (AttrsRestored CharClasses.table 0 bare blueInRed ↔ PushesWords CharClasses.table 0 bare blueInRed) :=
  attributes_comeBack CharClasses.table 0 [([31], 1)] rfl {} (by decide) (by decide)

/-- **A bright background and a true colour do not come back.** -/
theorem brightBackground_lost :
    (({} : FontState).fromConsoleAttributes (fontBehind [([100], 1)]).toConsoleAttributes).toConsoleAttributes
        ≠ (fontBehind [([100], 1)]).toConsoleAttributes
    ∧ ¬AttrsRestored CharClasses.table 0 bare [.sgr [38, 2, 1, 2, 3] 5, .pushAttr, .popAttr] := by
  refine ⟨by decide, fun hrestored => ?_⟩
  obtain ⟨T₁, T₂, hrun₁, hrun₂, heq, -⟩ := hrestored [.sgr [38, 2, 1, 2, 3] 5] [] [] rfl .nil
  rw [runCommands_eq] at hrun₁ hrun₂
  obtain rfl := Option.some.inj hrun₁
  obtain rfl := Option.some.inj hrun₂
  exact absurd heq (by decide)

end Terminal

end VT

end Far2l
