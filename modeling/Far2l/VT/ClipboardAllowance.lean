/-
Far2l.VT.ClipboardAllowance — for how long an application in the terminal may
read the clipboard after a gesture of the user.

A gesture opens a period, and each read opens it anew, at most
`CLIPBOARD_READ_ALLOWANCE_PROLONGS` times. `ClipboardClose` sets the count of
these back, so that an application that reads, closes and opens in turn is never
shut out; and a terminal whose user has made no gesture takes the tick count
zero for one.
-/
import Far2l.VT.Far2lExtensions
import Far2l.Lib.Reach

namespace Far2l.VT

open VTFar2lExtensios

/-! ## Runs -/

/-- What happens to the terminal: input of the user, and messages of the application. -/
inductive Event where
  | mouse (e : MouseEvent)
  | key (e : KeyEvent)
  | interact (H : Host) (S : StackSerializer)

/-- An event, and the tick count it comes at. -/
structure Timed where
  now : Nat
  event : Event

/-- The terminal, and what has happened: when the user made a gesture that pastes, and when
contents of the clipboard were returned. -/
structure Usage where
  ext : VTFar2lExtensios := {}
  now : Nat
  gestures : List Nat := []
  returned : List Nat := []

/-- When contents have been returned, after a command with this effect. -/
def Effect.logged : Effect → (now : Nat) → List Nat → List Nat
  | .returned _, now, log => now :: log
  | _, _, log => log

namespace Usage

/-- An event is handled. -/
def handle (s : Usage) (e : Timed) : Usage :=
  match e.event with
  | .mouse m =>
      { s with
        ext := s.ext.onInputMouse e.now m
        now := e.now
        gestures := if m.pastes then e.now :: s.gestures else s.gestures }
  | .key k =>
      { s with
        ext := (s.ext.onInputKey e.now k).1
        now := e.now
        gestures := if k.pastes then e.now :: s.gestures else s.gestures }
  | .interact H S =>
      let a := s.ext.onInteract H e.now S
      { s with ext := a.ext, now := e.now, returned := a.effect.logged e.now s.returned }

/-- The tick count does not run backwards, and does not wrap. -/
def Clocked (s : Usage) (e : Timed) : Prop := s.now ≤ e.now ∧ e.now < 2 ^ 32

/-- The command of the clipboard that a message is. -/
def commandCode (S : StackSerializer) : Option (Byte × StackSerializer) :=
  (S.popNum 1).bind fun r =>
    if UInt8.ofNat r.1 = FARTTY_INTERACT_CLIPBOARD then
      (r.2.popNum 1).map fun r => (UInt8.ofNat r.1, r.2)
    else none

/-- `ClipboardClose`. -/
def Closes (S : StackSerializer) : Prop :=
  ∃ r ∈ commandCode S, r.1 = FARTTY_INTERACT_CLIP_CLOSE

/-- `GetData` or `GetDataID`. -/
def Reads (S : StackSerializer) : Prop :=
  ∃ r ∈ commandCode S,
    r.1 = FARTTY_INTERACT_CLIP_GETDATA ∨ r.1 = FARTTY_INTERACT_CLIP_GETDATAID

/-- **The events that keep the limit.** `ClipboardClose` comes before the period has been opened
anew, or when it is over; nothing is read in the first period of the tick count before the user has
made a gesture. -/
def Heeds (s : Usage) (e : Timed) : Prop :=
  ∀ H S, e.event = .interact H S →
    (Closes S → s.ext.clipboardReadAllowanceProlongs = 0
      ∨ s.ext.isAllowedClipboardRead e.now = false)
    ∧ (Reads S → s.gestures ≠ [] ∨ CLIPBOARD_READ_ALLOWANCE_EXPIRATION_MSEC ≤ e.now)

/-- Contents were returned at `t`, and a gesture is not too far back. -/
def Recent (s : Usage) (t : Nat) : Prop :=
  ∃ u ∈ s.gestures, u ≤ t ∧ t - u <
    (1 + CLIPBOARD_READ_ALLOWANCE_PROLONGS) * CLIPBOARD_READ_ALLOWANCE_EXPIRATION_MSEC

instance (s : Usage) (t : Nat) : Decidable (s.Recent t) :=
  inferInstanceAs (Decidable (∃ u ∈ s.gestures, _))

end Usage

/-! ## What a command does -/

/-- What a command does to the allowance. -/
inductive Outcome (X : VTFar2lExtensios) (now : Nat) (S : StackSerializer) (a : Answer) : Prop where
  | kept (hallow : a.ext.clipboardReadAllowance = X.clipboardReadAllowance)
      (hprolongs : a.ext.clipboardReadAllowanceProlongs = X.clipboardReadAllowanceProlongs)
      (heffect : ∀ data, a.effect ≠ .returned data)
  | closed (hcloses : Usage.Closes S)
      (hallow : a.ext.clipboardReadAllowance = X.clipboardReadAllowance)
      (hprolongs : a.ext.clipboardReadAllowanceProlongs = 0)
      (heffect : ∀ data, a.effect ≠ .returned data)
  | read (hreads : Usage.Reads S) (hallowed : X.isAllowedClipboardRead now = true)
      (hext : a.ext = X ∨ a.ext = X.allowClipboardRead now true)

section

variable {X : VTFar2lExtensios} {H : Host} {now : Nat} {S T : StackSerializer}

theorem logged_of_ne {f : Effect} (h : ∀ data, f ≠ .returned data) (now : Nat) (l : List Nat) :
    f.logged now l = l := by
  cases f with
  | none => rfl
  | returned data => exact absurd rfl (h data)
  | handed fmt data => rfl

theorem outcome_open : Outcome X now S (X.onInteractClipboardOpen H T) := by
  rw [onInteractClipboardOpen]
  cases T.popStr with
  | none => exact .kept rfl rfl fun _ h => Effect.noConfusion h
  | some r => exact .kept rfl rfl fun _ h => Effect.noConfusion h

theorem outcome_setDataChunk : Outcome X now S (X.onInteractClipboardSetDataChunk T) := by
  rw [onInteractClipboardSetDataChunk]
  split
  · cases T.popNum 2 with
    | none => exact .kept rfl rfl fun _ h => Effect.noConfusion h
    | some r =>
      dsimp only
      split
      · cases r.2.pop (r.1 * 2 ^ 8) with
        | none => exact .kept rfl rfl fun _ h => Effect.noConfusion h
        | some c => exact .kept rfl rfl fun _ h => Effect.noConfusion h
      · exact .kept rfl rfl fun _ h => Effect.noConfusion h
  · exact .kept rfl rfl fun _ h => Effect.noConfusion h

theorem outcome_hand (fmt : Nat) (data : Option (List Byte)) :
    Outcome X now S (X.handClipboardData H fmt data) :=
  .kept rfl rfl fun _ h => Effect.noConfusion h

theorem outcome_setData : Outcome X now S (X.onInteractClipboardSetData H T) := by
  rw [onInteractClipboardSetData]
  split
  · cases T.popNum 4 with
    | none => exact .kept rfl rfl fun _ h => Effect.noConfusion h
    | some r =>
      dsimp only
      cases r.2.popNum 4 with
      | none => exact .kept rfl rfl fun _ h => Effect.noConfusion h
      | some r' =>
        dsimp only
        split
        · split
          · cases r'.2.pop r'.1 with
            | none => exact .kept rfl rfl fun _ h => Effect.noConfusion h
            | some piece => exact outcome_hand _ _
          · exact outcome_hand _ _
        · exact outcome_hand _ _
  · exact .kept rfl rfl fun _ h => Effect.noConfusion h

theorem outcome_getData (hreads : Usage.Reads S) :
    Outcome X now S (X.onInteractClipboardGetData H now T) := by
  rw [onInteractClipboardGetData]
  split
  · dsimp only
    cases T.popNum 4 with
    | none => exact .kept rfl rfl fun _ h => Effect.noConfusion h
    | some r =>
      cases hallowed : X.isAllowedClipboardRead now with
      | true => exact .read hreads hallowed (.inr rfl)
      | false => exact .kept rfl rfl fun _ h => Effect.noConfusion h
  · exact .kept rfl rfl fun _ h => Effect.noConfusion h

theorem outcome_getDataID (hreads : Usage.Reads S) :
    Outcome X now S (X.onInteractClipboardGetDataID H now T) := by
  rw [onInteractClipboardGetDataID]
  split
  · next h =>
    cases T.popNum 4 with
    | none => exact .kept rfl rfl fun _ h => Effect.noConfusion h
    | some r => exact .read hreads h.2 (.inl rfl)
  · exact .kept rfl rfl fun _ h => Effect.noConfusion h

/-- A message does one of three things to the allowance. -/
theorem outcome_onInteract (X : VTFar2lExtensios) (H : Host) (now : Nat) (S : StackSerializer) :
    Outcome X now S (X.onInteract H now S) := by
  rw [onInteract]
  cases hpop : S.popNum 1 with
  | none => exact .kept rfl rfl fun _ h => Effect.noConfusion h
  | some r =>
    dsimp only
    split
    · next hclip =>
      cases hpop' : r.2.popNum 1 with
      | none => exact .kept rfl rfl fun _ h => Effect.noConfusion h
      | some r' =>
        have hcode : Usage.commandCode S = some (UInt8.ofNat r'.1, r'.2) := by
          rw [Usage.commandCode, hpop, Option.bind_some, if_pos hclip, hpop', Option.map_some]
        dsimp only
        rw [onInteractClipboard]
        split
        · exact outcome_open
        split
        · next hclose => exact .closed ⟨_, hcode, hclose⟩ rfl rfl fun _ h => Effect.noConfusion h
        split
        · exact .kept rfl rfl fun _ h => Effect.noConfusion h
        split
        · exact .kept rfl rfl fun _ h => Effect.noConfusion h
        split
        · exact outcome_setDataChunk
        split
        · exact outcome_setData
        split
        · next hget => exact outcome_getData ⟨_, hcode, .inl hget⟩
        split
        · next hget => exact outcome_getDataID ⟨_, hcode, .inr hget⟩
        split
        · exact .kept rfl rfl fun _ h => Effect.noConfusion h
        · exact .kept rfl rfl fun _ h => Effect.noConfusion h
    · exact .kept rfl rfl fun _ h => Effect.noConfusion h

end

/-! ## The limit -/

namespace Usage

variable {s : Usage} {e : Timed}

/-- **The allowance runs from a gesture**, or has run out, or there has been no gesture. -/
structure Limited (s : Usage) : Prop where
  allowance_le : s.ext.clipboardReadAllowance ≤ s.now
  prolongs_le : s.ext.clipboardReadAllowanceProlongs ≤ CLIPBOARD_READ_ALLOWANCE_PROLONGS
  allowance :
    (s.gestures = [] ∧ s.ext.clipboardReadAllowance = 0)
    ∨ (∃ u ∈ s.gestures, u ≤ s.ext.clipboardReadAllowance
        ∧ s.ext.clipboardReadAllowance
          ≤ u + s.ext.clipboardReadAllowanceProlongs * (CLIPBOARD_READ_ALLOWANCE_EXPIRATION_MSEC - 1))
    ∨ (s.gestures ≠ []
        ∧ s.ext.clipboardReadAllowance + CLIPBOARD_READ_ALLOWANCE_EXPIRATION_MSEC ≤ s.now)
  recent : ∀ t ∈ s.returned, s.Recent t

/-- Time that has not run backwards leaves the period of the allowance. -/
theorem isAllowed_iff {X : VTFar2lExtensios} {now : Nat} (h : X.clipboardReadAllowance ≤ now) :
    X.isAllowedClipboardRead now = true
      ↔ now < X.clipboardReadAllowance + CLIPBOARD_READ_ALLOWANCE_EXPIRATION_MSEC := by
  rw [isAllowedClipboardRead, if_pos h, decide_eq_true_iff]
  omega

/-- A gesture. -/
theorem Limited.gesture {ext : VTFar2lExtensios} {now : Nat} (h : s.Limited)
    (hext : ext.clipboardReadAllowance = now ∧ ext.clipboardReadAllowanceProlongs = 0) :
    Limited { s with ext := ext, now := now, gestures := now :: s.gestures } where
  allowance_le := Nat.le_of_eq hext.1
  prolongs_le := hext.2 ▸ Nat.zero_le _
  allowance := .inr (.inl ⟨now, List.mem_cons_self, Nat.le_of_eq hext.1.symm, by
    show ext.clipboardReadAllowance ≤ _
    rw [hext.1]
    exact Nat.le_add_right _ _⟩)
  recent t ht := by
    obtain ⟨u, hu, hle⟩ := h.recent t ht
    exact ⟨u, List.mem_cons_of_mem _ hu, hle⟩

/-- Time goes by, and the allowance stays as it is. -/
theorem Limited.wait {ext : VTFar2lExtensios} {now : Nat} (h : s.Limited) (hnow : s.now ≤ now)
    (hallow : ext.clipboardReadAllowance = s.ext.clipboardReadAllowance)
    (hprolongs : ext.clipboardReadAllowanceProlongs = s.ext.clipboardReadAllowanceProlongs) :
    Limited { s with ext := ext, now := now } where
  allowance_le := hallow ▸ Nat.le_trans h.allowance_le hnow
  prolongs_le := hprolongs ▸ h.prolongs_le
  allowance := by
    dsimp only
    rw [hallow, hprolongs]
    rcases h.allowance with h | h | h
    · exact .inl h
    · exact .inr (.inl h)
    · exact .inr (.inr ⟨h.1, Nat.le_trans h.2 hnow⟩)
  recent := h.recent

/-- `ClipboardClose` where it has nothing to set back. -/
theorem Limited.close {ext : VTFar2lExtensios} {now : Nat} (h : s.Limited) (hnow : s.now ≤ now)
    (hallow : ext.clipboardReadAllowance = s.ext.clipboardReadAllowance)
    (hprolongs : ext.clipboardReadAllowanceProlongs = 0)
    (hheeds : s.ext.clipboardReadAllowanceProlongs = 0 ∨ s.ext.isAllowedClipboardRead now = false) :
    Limited { s with ext := ext, now := now } := by
  rcases hheeds with hzero | hover
  · exact h.wait hnow hallow (hprolongs.trans hzero.symm)
  · have hle : s.ext.clipboardReadAllowance ≤ now := Nat.le_trans h.allowance_le hnow
    have hexpired : s.ext.clipboardReadAllowance + CLIPBOARD_READ_ALLOWANCE_EXPIRATION_MSEC ≤ now := by
      have := mt (isAllowed_iff hle).mpr (by rw [hover]; exact Bool.false_ne_true)
      omega
    refine ⟨hallow ▸ hle, hprolongs ▸ Nat.zero_le _, ?_, h.recent⟩
    dsimp only
    rw [hallow]
    rcases h.allowance with h | ⟨u, hu, -⟩ | h
    · exact .inl h
    · exact .inr (.inr ⟨List.ne_nil_of_mem hu, hexpired⟩)
    · exact .inr (.inr ⟨h.1, hexpired⟩)

/-- A read that is allowed has a gesture behind it. -/
theorem Limited.read {now : Nat} (h : s.Limited) (hnow : s.now ≤ now)
    (hallowed : s.ext.isAllowedClipboardRead now = true)
    (hfirst : s.gestures ≠ [] ∨ CLIPBOARD_READ_ALLOWANCE_EXPIRATION_MSEC ≤ now) :
    ∃ u ∈ s.gestures, u ≤ s.ext.clipboardReadAllowance
      ∧ now ≤ u + (s.ext.clipboardReadAllowanceProlongs + 1)
          * (CLIPBOARD_READ_ALLOWANCE_EXPIRATION_MSEC - 1) := by
  have hlt := (isAllowed_iff (Nat.le_trans h.allowance_le hnow)).mp hallowed
  rcases h.allowance with ⟨hnone, hzero⟩ | ⟨u, hu, hle, hsum⟩ | ⟨-, hexpired⟩
  · rcases hfirst with hsome | hlate
    · exact absurd hnone hsome
    · omega
  · refine ⟨u, hu, hle, ?_⟩
    rw [CLIPBOARD_READ_ALLOWANCE_EXPIRATION_MSEC] at hlt hsum ⊢
    omega
  · omega

theorem prolong_cases (X : VTFar2lExtensios) (now : Nat) :
    X.allowClipboardRead now true = X
    ∨ (X.clipboardReadAllowanceProlongs < CLIPBOARD_READ_ALLOWANCE_PROLONGS
      ∧ (X.allowClipboardRead now true).clipboardReadAllowance = now
      ∧ (X.allowClipboardRead now true).clipboardReadAllowanceProlongs
        = X.clipboardReadAllowanceProlongs + 1) := by
  rw [allowClipboardRead, if_pos rfl]
  split
  · exact .inl rfl
  · next h => exact .inr ⟨Nat.lt_of_not_le h, rfl, rfl⟩

/-- **One event** keeps the limit. -/
theorem Limited.handle (h : s.Limited) (hclock : s.Clocked e) (hheeds : s.Heeds e) :
    (s.handle e).Limited := by
  obtain ⟨now, event⟩ := e
  have hnow : s.now ≤ now := hclock.1
  cases event with
  | mouse m =>
    show Limited { s with
      ext := s.ext.onInputMouse now m
      now := now
      gestures := if m.pastes then now :: s.gestures else s.gestures }
    rw [onInputMouse]
    cases m.pastes with
    | true => exact h.gesture ⟨rfl, rfl⟩
    | false => exact h.wait hnow rfl rfl
  | key k =>
    show Limited { s with
      ext := (s.ext.onInputKey now k).1
      now := now
      gestures := if k.pastes then now :: s.gestures else s.gestures }
    have hcount : (s.ext.countKills k).clipboardReadAllowance = s.ext.clipboardReadAllowance
        ∧ (s.ext.countKills k).clipboardReadAllowanceProlongs
          = s.ext.clipboardReadAllowanceProlongs := by
      rw [countKills]
      split
      · split
        · exact ⟨rfl, rfl⟩
        · split <;> exact ⟨rfl, rfl⟩
      · exact ⟨rfl, rfl⟩
    simp only [onInputKey]
    split
    · next hkills =>
      -- Ctrl+Alt+C does not paste: it has Alt
      have halt : k.alt = true := by
        have := hkills.2.1
        rw [KeyEvent.kills, decide_eq_true_iff] at this
        exact this.2.1
      have hpastes : k.pastes = false := by
        simp [KeyEvent.pastes, halt]
      rw [hpastes]
      exact h.wait hnow hcount.1 hcount.2
    · cases k.pastes with
      | true => exact h.gesture ⟨rfl, rfl⟩
      | false => exact h.wait hnow hcount.1 hcount.2
  | interact H S =>
    have hheeds := hheeds H S rfl
    have hout := outcome_onInteract s.ext H now S
    show Limited { s with
      ext := (s.ext.onInteract H now S).ext
      now := now
      returned := (s.ext.onInteract H now S).effect.logged now s.returned }
    generalize s.ext.onInteract H now S = a at hout ⊢
    cases hout with
    | kept hallow hprolongs heffect =>
      rw [logged_of_ne heffect]
      exact h.wait hnow hallow hprolongs
    | closed hcloses hallow hprolongs heffect =>
      rw [logged_of_ne heffect]
      exact h.close hnow hallow hprolongs (hheeds.1 hcloses)
    | read hreads hallowed hext =>
      obtain ⟨u, hu, hle, hsum⟩ := h.read hnow hallowed (hheeds.2 hreads)
      have hprolongs := h.prolongs_le
      have hunow : u ≤ now := Nat.le_trans hle (Nat.le_trans h.allowance_le hnow)
      have hrecent : ∀ t ∈ a.effect.logged now s.returned, s.Recent t := by
        intro t ht
        have hmem : t ∈ now :: s.returned := by
          cases heff : a.effect with
          | returned data =>
            rw [heff] at ht
            exact ht
          | none =>
            rw [heff] at ht
            exact List.mem_cons_of_mem _ ht
          | handed fmt data =>
            rw [heff] at ht
            exact List.mem_cons_of_mem _ ht
        rcases List.mem_cons.mp hmem with rfl | ht
        · refine ⟨u, hu, hunow, ?_⟩
          rw [CLIPBOARD_READ_ALLOWANCE_PROLONGS] at hprolongs ⊢
          rw [CLIPBOARD_READ_ALLOWANCE_EXPIRATION_MSEC] at hsum ⊢
          omega
        · exact h.recent t ht
      have hsame : Limited { s with ext := s.ext, now := now } := h.wait hnow rfl rfl
      have hnext : Limited { s with ext := a.ext, now := now } := by
        rcases hext with heq | heq
        · rw [heq]
          exact hsame
        · rw [heq]
          rcases prolong_cases s.ext now with heq | ⟨hlt, hallow, hcount⟩
          · rw [heq]
            exact hsame
          · refine ⟨Nat.le_of_eq hallow, hcount ▸ hlt, .inr (.inl ⟨u, hu, ?_, ?_⟩), h.recent⟩
            · show u ≤ (s.ext.allowClipboardRead now true).clipboardReadAllowance
              rw [hallow]
              exact hunow
            · show (s.ext.allowClipboardRead now true).clipboardReadAllowance ≤ _
              dsimp only
              rw [hallow, hcount]
              exact hsum
      exact ⟨hnext.allowance_le, hnext.prolongs_le, hnext.allowance, hrecent⟩

/-- Events whose tick counts do not run backwards. -/
def inOrder : (now : Nat) → List Timed → Bool
  | _, [] => true
  | now, e :: es => now ≤ e.now ∧ e.now < 2 ^ 32 ∧ inOrder e.now es

theorem now_handle (s : Usage) (e : Timed) : (s.handle e).now = e.now := by
  obtain ⟨now, event⟩ := e
  cases event <;> rfl

theorem reach_inOrder {start : Usage} : ∀ (es : List Timed) {s : Usage},
    Reach handle Clocked start s → inOrder s.now es = true →
    Reach handle Clocked start (es.foldl handle s)
  | [], _, h, _ => h
  | e :: es, s, h, horder => by
    rw [inOrder, decide_eq_true_iff] at horder
    refine reach_inOrder es (.step e h ⟨horder.1, horder.2.1⟩) ?_
    rw [now_handle]
    exact horder.2.2

theorem commandCode_clipMessage (code : Byte) (args : StackSerializer) :
    commandCode (clipMessage code args) = some (code, args) := by
  have hclip : UInt8.ofNat FARTTY_INTERACT_CLIPBOARD.toNat = FARTTY_INTERACT_CLIPBOARD := rfl
  rw [commandCode, clipMessage, StackSerializer.popNum_push_singleton, Option.bind_some,
    if_pos hclip, StackSerializer.popNum_push_singleton, Option.map_some, UInt8.ofNat_toNat]

theorem closes_clipMessage {code : Byte} {args : StackSerializer} :
    Closes (clipMessage code args) ↔ code = FARTTY_INTERACT_CLIP_CLOSE := by
  rw [Closes, commandCode_clipMessage]
  simp

theorem reads_clipMessage {code : Byte} {args : StackSerializer} :
    Reads (clipMessage code args)
      ↔ code = FARTTY_INTERACT_CLIP_GETDATA ∨ code = FARTTY_INTERACT_CLIP_GETDATAID := by
  rw [Reads, commandCode_clipMessage]
  simp

/-- Some text is on the clipboard. -/
def textHost : Host := { getClipboardData := fun _ => some [0x41] }

/-- Shift+Ins. -/
def pasteKey (now : Nat) : Timed := ⟨now, .key ⟨true, 0x2D, 0x0010⟩⟩

/-- `ClipboardOpen` -/
def openClip (now : Nat) : Timed :=
  ⟨now, .interact textHost (clipMessage FARTTY_INTERACT_CLIP_OPEN
    (({} : StackSerializer).pushStr (List.replicate 0x20 0x61)))⟩

/-- `ClipboardClose` -/
def closeClip (now : Nat) : Timed :=
  ⟨now, .interact textHost (clipMessage FARTTY_INTERACT_CLIP_CLOSE {})⟩

/-- `GetData` -/
def getClip (now : Nat) : Timed :=
  ⟨now, .interact textHost (clipMessage FARTTY_INTERACT_CLIP_GETDATA
    (({} : StackSerializer).pushNum 4 CF_TEXT))⟩

/-- The clipboard is read once after a gesture. -/
def pasteOnce : Usage := [pasteKey 10000, openClip 10010, getClip 14000].foldl handle { now := 10000 }

end Usage

end Far2l.VT
