/-
Far2l.Console.ScreenBufRuns — the screen after a `Flush`, in every run of the
operations of the buffer.

Beside the screen a run carries what the program does not keep: have colours been
changed since `Flush` last looked at the cells? Where they have not, a flag that
is set says that the buffer holds what `Shadow` holds.
-/
import Far2l.Console.ScreenBufTheorems

namespace Far2l

namespace Display

open ScreenBuf (Kept Inside Recolours)

variable {S : Display} {oem2Unicode : UInt64 → UInt64}

/-! ## Operations with rectangles of the screen -/

/-- The part of the screen that has been saved has the cells of the rectangle. -/
structure Saves (ss : SaveScreen) (r : Rect) : Prop where
  first : ss.rect.x1 ≤ r.x1 ∧ ss.rect.y1 ≤ r.y1
  last : r.x2 ≤ ss.rect.x2 ∧ r.y2 ≤ ss.rect.y2
  length : ss.screenBuf.length = ss.rect.height * ss.rect.width

/-- The rectangle is on the screen, and the text is as long as it is said to be. -/
def InRange (s : ScreenBuf) : Op → Prop
  | .write _ _ text textLength => textLength ≤ text.length
  | .applyShadow r ss => s.Inside r ∧ ∀ saved ∈ ss, Saves saved r
  | .applyColorMask r _ => s.Inside r
  | .fillRect r _ _ => s.Inside r
  | _ => True

/-- Does the operation change the colour of a cell? -/
def ChangesColour (s : ScreenBuf) : Op → Prop
  | .applyShadow r ss => s.Recolours r fun i j c =>
      (ScreenBuf.sourceAttr ss r i j c).map shadowAttr
  | .applyColorMask r colorMask => s.Recolours r fun _ _ c =>
      some (ScreenBuf.maskAttr colorMask c.attributes)
  | .applyColor r color => s.onScreen r ∧ s.Recolours (s.cut r) fun _ _ _ => some color
  | .applyColorExcept r color exceptColor => s.onScreen r ∧ s.Recolours (s.cut r) fun _ _ c =>
      some (if c.attributes ≠ exceptColor then color else c.attributes)
  | _ => False

/-- Does the operation look at the cells? -/
def Looks (S : Display) : Op → Prop
  | .flush force _ => S.Compares force
  | _ => False

/-- A cell that has been saved can be read. -/
theorem sourceAttr_some {ss : Option SaveScreen} {r : Rect} (hss : ∀ saved ∈ ss, Saves saved r)
    {i j : Nat} (hi : i < r.height) (hj : j < r.width) (c : CharInfo) :
    (ScreenBuf.sourceAttr ss r i j c).isSome := by
  cases ss with
  | none => rfl
  | some ss =>
    obtain ⟨⟨hx1, hy1⟩, ⟨hx2, hy2⟩, hlength⟩ := hss ss rfl
    rw [Rect.height] at hi
    rw [Rect.width] at hj
    rw [Rect.height, Rect.width] at hlength
    obtain ⟨y, hy⟩ : ∃ y : Nat, r.y1 + i - ss.rect.y1 = y := ⟨(r.y1 + i - ss.rect.y1).toNat, by omega⟩
    obtain ⟨x, hx⟩ : ∃ x : Nat, r.x1 - ss.rect.x1 + j = x := ⟨(r.x1 - ss.rect.x1 + j).toNat, by omega⟩
    obtain ⟨w, hw⟩ : ∃ w : Nat, ss.rect.x2 + 1 - ss.rect.x1 = w :=
      ⟨(ss.rect.x2 + 1 - ss.rect.x1).toNat, by omega⟩
    obtain ⟨n, hn⟩ : ∃ n : Nat, ss.rect.y2 - ss.rect.y1 + 1 = n :=
      ⟨(ss.rect.y2 - ss.rect.y1 + 1).toNat, by omega⟩
    rw [hn, show ss.rect.x2 - ss.rect.x1 + 1 = w from by omega, Int.toNat_natCast,
      Int.toNat_natCast] at hlength
    have hle : (y + 1) * w ≤ n * w := Nat.mul_le_mul_right w (by omega)
    rw [Nat.succ_mul] at hle
    have hindex : (r.y1 + i - ss.rect.y1) * (ss.rect.x2 + 1 - ss.rect.x1) + (r.x1 - ss.rect.x1) + j
        = ((y * w + x : Nat) : Int) := by
      rw [hy, hw, Int.add_assoc, hx]
      push_cast
      ring
    rw [ScreenBuf.sourceAttr, hindex, if_neg (by omega), Option.isSome_map, Int.toNat_natCast,
      List.getElem?_eq_getElem (by omega)]
    rfl

/-- The part of a rectangle that is on the screen. -/
theorem inside_cut (s : ScreenBuf) (r : Rect) : s.Inside (s.cut r) := by
  constructor <;> dsimp only [ScreenBuf.cut] <;> omega

/-- What the operations on the buffer keep. -/
structure Redrawn (S S' : Display) : Prop where
  bufX : S'.scrBuf.bufX = S.scrBuf.bufX
  bufY : S'.scrBuf.bufY = S.scrBuf.bufY
  shadow : S'.scrBuf.shadow = S.scrBuf.shadow
  length : S'.scrBuf.buf.length = S.scrBuf.buf.length
  console : S'.console = S.console

theorem Redrawn.coherent {S' : Display} (h : S.Redrawn S') (hS : S.Coherent) : S'.Coherent := by
  refine ⟨⟨?_, ?_, ?_, ?_⟩, ?_⟩
  · rw [h.console, h.bufY]
    exact hS.console
  · rw [h.console, h.bufX]
    exact hS.width
  · rw [h.length, h.bufX, h.bufY]
    exact hS.buf
  · rw [h.shadow, h.bufX, h.bufY]
    exact hS.shadow
  · rw [h.console, h.shadow]
    exact hS.cells

theorem redrawn_of_kept {s : ScreenBuf} (h : S.scrBuf.Kept s) :
    S.Redrawn { S with scrBuf := s } :=
  ⟨h.bufX, h.bufY, h.shadow, h.length, rfl⟩

/-- Where the flag is set, the buffer holds the cells of `Shadow`. -/
def Trusted (S : Display) : Prop := S.scrBuf.flushed = false ∨ S.Settled

/-- An operation that changes colours. -/
theorem recolour_step (h : S.Coherent) {r : Rect} (attr : Nat → Nat → CharInfo → Option UInt64)
    (hr : S.scrBuf.Inside r) (hattr : ∀ i j c, i < r.height → j < r.width → (attr i j c).isSome) :
    ∃ S', S.onBuf (S.scrBuf.recolour r attr) = some S' ∧ S'.Coherent
      ∧ (¬S.scrBuf.Recolours r attr → S.Trusted → S'.Trusted) := by
  obtain ⟨s, hrecolour, hkept, hflushed, hsame⟩ := ScreenBuf.recolour_kept hr h.buf hattr
  rw [onBuf, hrecolour, Option.map_some]
  refine ⟨_, rfl, (redrawn_of_kept hkept).coherent h, fun hnone htrusted => ?_⟩
  rcases htrusted with hclear | hsettled
  · exact .inl (hflushed.trans hclear)
  · refine .inr ?_
    show s.shadow = s.buf
    rw [hkept.shadow, hsame hnone]
    exact hsettled

/-- An operation that changes no cell and no flag of the cells. -/
theorem sameBuf_step (h : S.Coherent) {s : ScreenBuf} (hsame : S.SameCells { S with scrBuf := s })
    (hflushed : s.flushed = S.scrBuf.flushed) :
    ({ S with scrBuf := s } : Display).Coherent
      ∧ (S.Trusted → ({ S with scrBuf := s } : Display).Trusted) :=
  ⟨hsame.coherent h, Or.imp (hflushed.trans ·) hsame.settled⟩

theorem sameCells_moveCursor (S : Display) (x y : Int) :
    S.SameCells { S with scrBuf := S.scrBuf.moveCursor x y }
      ∧ (S.scrBuf.moveCursor x y).flushed = S.scrBuf.flushed := by
  rw [ScreenBuf.moveCursor]
  split <;> split <;> exact ⟨⟨rfl, rfl, rfl, rfl, rfl⟩, rfl⟩

theorem sameCells_setCursorType (S : Display) (visible : Bool) (size : UInt32) :
    S.SameCells { S with scrBuf := S.scrBuf.setCursorType visible size }
      ∧ (S.scrBuf.setCursorType visible size).flushed = S.scrBuf.flushed := by
  rw [ScreenBuf.setCursorType]
  split <;> exact ⟨⟨rfl, rfl, rfl, rfl, rfl⟩, rfl⟩

theorem sameCells_unlock (S : Display) :
    S.SameCells { S with scrBuf := S.scrBuf.unlock }
      ∧ S.scrBuf.unlock.flushed = S.scrBuf.flushed := by
  rw [ScreenBuf.unlock]
  split <;> exact ⟨⟨rfl, rfl, rfl, rfl, rfl⟩, rfl⟩

/-- **One operation.** The console keeps the cells of `Shadow`. The flag can be trusted when `Flush`
has looked at the cells, and goes on being so where no colour is changed. -/
theorem step_spec (oem2Unicode : UInt64 → UInt64) (h : S.Coherent) {op : Op} (hop : InRange S.scrBuf op) :
    ∃ S', S.step oem2Unicode op = some S' ∧ S'.Coherent
      ∧ (S.Looks op → S'.Settled)
      ∧ (¬S.Looks op → ¬ChangesColour S.scrBuf op → S.Trusted → S'.Trusted) := by
  cases op with
  | write x y text textLength =>
    obtain ⟨s, hwrite, hkept, hcases⟩ := ScreenBuf.write_kept oem2Unicode x y h.buf hop
    refine ⟨{ S with scrBuf := s }, by rw [step, hwrite]; rfl, (redrawn_of_kept hkept).coherent h,
      False.elim, fun _ _ htrusted => ?_⟩
    rcases hcases with rfl | hclear
    · exact htrusted
    · exact .inl hclear
  | applyShadow r ss =>
    obtain ⟨S', hstep, hcoherent, htrusted⟩ := recolour_step h
      (fun i j c => (ScreenBuf.sourceAttr ss r i j c).map shadowAttr) hop.1
      (fun i j c hi hj => by rw [Option.isSome_map]; exact sourceAttr_some hop.2 hi hj c)
    exact ⟨S', hstep, hcoherent, False.elim, fun _ => htrusted⟩
  | applyColorMask r colorMask =>
    obtain ⟨S', hstep, hcoherent, htrusted⟩ := recolour_step h
      (fun _ _ c => some (ScreenBuf.maskAttr colorMask c.attributes)) hop
      (fun _ _ _ _ _ => rfl)
    exact ⟨S', hstep, hcoherent, False.elim, fun _ => htrusted⟩
  | applyColor r color =>
    rw [step, ScreenBuf.applyColor]
    split
    · next hon =>
      obtain ⟨S', hstep, hcoherent, htrusted⟩ := recolour_step h
        (fun _ _ _ => some color) (inside_cut S.scrBuf r) (fun _ _ _ _ _ => rfl)
      exact ⟨S', hstep, hcoherent, False.elim,
        fun _ hnone => htrusted fun hchanges => hnone ⟨hon, hchanges⟩⟩
    · exact ⟨S, rfl, h, False.elim, fun _ _ htrusted => htrusted⟩
  | applyColorExcept r color exceptColor =>
    rw [step, ScreenBuf.applyColorExcept]
    split
    · next hon =>
      obtain ⟨S', hstep, hcoherent, htrusted⟩ := recolour_step h
        (fun _ _ c => some (if c.attributes ≠ exceptColor then color else c.attributes))
        (inside_cut S.scrBuf r)
        (fun _ _ _ _ _ => rfl)
      exact ⟨S', hstep, hcoherent, False.elim,
        fun _ hnone => htrusted fun hchanges => hnone ⟨hon, hchanges⟩⟩
    · exact ⟨S, rfl, h, False.elim, fun _ _ htrusted => htrusted⟩
  | fillRect r ch color =>
    obtain ⟨s, hfill, hkept, hclear⟩ := ScreenBuf.fillRect_kept oem2Unicode ch color hop h.buf
    exact ⟨{ S with scrBuf := s }, by rw [step, hfill]; rfl, (redrawn_of_kept hkept).coherent h,
      False.elim, fun _ _ _ => .inl hclear⟩
  | moveCursor x y =>
    obtain ⟨hsame, hflushed⟩ := sameCells_moveCursor S x y
    obtain ⟨hcoherent, htrusted⟩ := sameBuf_step h hsame hflushed
    exact ⟨_, rfl, hcoherent, False.elim, fun _ _ => htrusted⟩
  | setCursorType visible size =>
    obtain ⟨hsame, hflushed⟩ := sameCells_setCursorType S visible size
    obtain ⟨hcoherent, htrusted⟩ := sameBuf_step h hsame hflushed
    exact ⟨_, rfl, hcoherent, False.elim, fun _ _ => htrusted⟩
  | lock =>
    obtain ⟨hcoherent, htrusted⟩ := sameBuf_step h (s := S.scrBuf.lock) ⟨rfl, rfl, rfl, rfl, rfl⟩ rfl
    exact ⟨_, rfl, hcoherent, False.elim, fun _ _ => htrusted⟩
  | unlock =>
    obtain ⟨hsame, hflushed⟩ := sameCells_unlock S
    obtain ⟨hcoherent, htrusted⟩ := sameBuf_step h hsame hflushed
    exact ⟨_, rfl, hcoherent, False.elim, fun _ _ => htrusted⟩
  | flush force clock =>
    obtain ⟨S', hflush, hcoherent, hlooks, hkept, hlocked⟩ :=
      flush_spec oem2Unicode h force clock
    refine ⟨S', hflush, hcoherent, hlooks, fun hnot _ htrusted => ?_⟩
    by_cases hlock : S.scrBuf.lockCount = 0
    · -- nothing is compared as the flag is set
      rcases htrusted with hclear | hsettled
      · exact absurd ⟨hlock, .inr hclear⟩ hnot
      · exact .inr ((hkept hnot).settled hsettled)
    · rw [hlocked hlock]
      exact htrusted

/-! ## Runs -/

/-- A display, and whether a colour has changed since `Flush` last looked at the cells. -/
structure Session where
  display : Display
  recoloured : Prop

/-- An operation of a run. -/
def Session.step (oem2Unicode : UInt64 → UInt64) (session : Option Session) (op : Op) :
    Option Session :=
  session.bind fun R => (R.display.step oem2Unicode op).map fun S' =>
    ⟨S', ¬R.display.Looks op ∧ (R.recoloured ∨ ChangesColour R.display.scrBuf op)⟩

/-- The operations of a run have rectangles of the screen. -/
def Session.Allowed (session : Option Session) (op : Op) : Prop :=
  ∀ R ∈ session, InRange R.display.scrBuf op

/-- The run begins with `FillBuf`. -/
def Session.begin (S : Display) : Option Session := S.fillBuf.map fun S => ⟨S, False⟩

/-- What holds in every state of a run. -/
structure Session.Inv (R : Session) : Prop where
  coherent : R.display.Coherent
  trusted : R.recoloured ∨ R.display.Trusted

theorem Session.inv_of_reach (hS : S.Sized) {session : Option Session}
    (hrun : Reach (Session.step oem2Unicode) Session.Allowed (Session.begin S) session) :
    ∃ R, session = some R ∧ R.Inv := by
  refine hrun.invariant (I := fun session => ∃ R, session = some R ∧ R.Inv) ?_ ?_
  · obtain ⟨S', hfill, hcoherent, hsettled⟩ := fillBuf_spec hS
    rw [begin, hfill]
    exact ⟨_, rfl, hcoherent, .inr (.inr hsettled)⟩
  · rintro _ op ⟨R, rfl, hcoherent, htrusted⟩ hallowed
    obtain ⟨S', hstep, hcoherent', hlooks, hnot⟩ := step_spec oem2Unicode hcoherent
      (hallowed R rfl)
    refine ⟨_, by rw [Session.step, Option.bind_some, hstep, Option.map_some], hcoherent', ?_⟩
    by_cases hlook : R.display.Looks op
    · exact .inr (.inr (hlooks hlook))
    · rcases htrusted with hcoloured | htrusted
      · exact .inl ⟨hlook, .inl hcoloured⟩
      · by_cases hchanges : ChangesColour R.display.scrBuf op
        · exact .inl ⟨hlook, .inr hchanges⟩
        · exact .inr (hnot hlook hchanges htrusted)

/-- **The screen shows the virtual buffer** after a `Flush` that is not locked, in every run that
begins with `FillBuf`, where the flag is clear or no colour has been changed since `Flush` last
looked at the cells. -/
theorem flush_shows (hS : S.Sized) {session : Option Session}
    (hrun : Reach (Session.step oem2Unicode) Session.Allowed (Session.begin S) session) :
    ∃ R, session = some R
      ∧ (R.display.scrBuf.lockCount = 0 → (R.display.scrBuf.flushed = true → ¬R.recoloured) →
        ∀ clock, ∃ S', R.display.flush oem2Unicode false clock = some S'
          ∧ S'.console.chars = S'.scrBuf.buf ∧ S'.scrBuf.shadow = S'.scrBuf.buf) := by
  obtain ⟨R, hsession, hcoherent, htrusted⟩ := Session.inv_of_reach hS hrun
  refine ⟨R, hsession, fun hlock hflag clock => ?_⟩
  obtain ⟨S', hflush, hcoherent', hlooks, hkept, -⟩ :=
    flush_spec oem2Unicode hcoherent false clock
  have hsettled : S'.Settled := by
    by_cases hcompares : R.display.Compares false
    · exact hlooks hcompares
    · have hset : R.display.scrBuf.flushed = true := by
        rw [← Bool.not_eq_false]
        exact fun hclear => hcompares ⟨hlock, .inr hclear⟩
      rcases htrusted with hcoloured | hclear | hsettled
      · exact absurd hcoloured (hflag hset)
      · exact absurd ⟨hlock, .inr hclear⟩ hcompares
      · exact (hkept hcompares).settled hsettled
  exact ⟨S', hflush, hcoherent'.cells.trans hsettled, hsettled⟩

/-- A screen of 24 columns and 12 rows, all of them `A`. -/
def letters : Display where
  scrBuf := { bufX := 24, bufY := 12
              buf := List.replicate 288 default, shadow := List.replicate 288 default }
  console := ⟨24, List.replicate 288 ⟨65, 7⟩⟩
  cursorPosition := ⟨0, 0⟩
  cursorInfo := (0, false)

theorem sized_letters : letters.Sized :=
  ⟨⟨by decide, by decide, List.length_replicate⟩, rfl, List.length_replicate, List.length_replicate⟩

set_option maxRecDepth 20000 in
/-- A text that is written is shown. -/
theorem flush_shows_text :
    ∃ R, Session.step id (Session.begin letters) (.write 3 2 [⟨66, 7⟩] 1) = some R
      ∧ ∃ S', R.display.flush id false none = some S'
        ∧ S'.console.chars = S'.scrBuf.buf ∧ S'.scrBuf.shadow = S'.scrBuf.buf := by
  have hflags : (Session.step id (Session.begin letters) (.write 3 2 [⟨66, 7⟩] 1)).map
      (fun R => (R.display.scrBuf.lockCount, R.display.scrBuf.flushed)) = some (0, false) := by
    decide
  have hallowed : Session.Allowed (Session.begin letters) (.write 3 2 [⟨66, 7⟩] 1) :=
    fun R _ => Int.le_refl _
  obtain ⟨R, hR, hshows⟩ := @flush_shows _ id sized_letters _
    (.step (.write 3 2 [⟨66, 7⟩] 1) .start hallowed)
  rw [hR, Option.map_some] at hflags
  obtain ⟨hlock, hflushed⟩ := Prod.mk.inj (Option.some.inj hflags)
  exact ⟨R, hR, hshows hlock (fun hset => by rw [hflushed] at hset; exact absurd hset (by simp)) none⟩

set_option maxRecDepth 20000 in
/-- **A colour that is applied is not shown**: the flag is still set, and `Flush` looks at no cell. -/
theorem applyColor_not_shown :
    ∃ R, Reach (Session.step id) Session.Allowed (Session.begin letters) (some R)
      ∧ R.display.scrBuf.lockCount = 0
      ∧ ∃ S', R.display.flush id false none = some S'
        ∧ S'.console.chars ≠ S'.scrBuf.buf ∧ S'.scrBuf.shadow ≠ S'.scrBuf.buf := by
  have hrun : (Session.step id (Session.begin letters) (.applyColor ⟨0, 0, 0, 0⟩ 0x70)).map
      (fun R => (R.display.scrBuf.lockCount, (R.display.flush id false none).map fun S' =>
        (decide (S'.console.chars = S'.scrBuf.buf), decide (S'.scrBuf.shadow = S'.scrBuf.buf))))
      = some (0, some (false, false)) := by
    decide
  obtain ⟨R, hR, hvalues⟩ := Option.map_eq_some_iff.mp hrun
  obtain ⟨hlock, hflush⟩ := Prod.mk.inj hvalues
  obtain ⟨S', hS', hcells⟩ := Option.map_eq_some_iff.mp hflush
  obtain ⟨hconsole, hshadow⟩ := Prod.mk.inj hcells
  refine ⟨R, hR ▸ .step _ .start (fun _ _ => trivial), hlock, S', hS', ?_, ?_⟩
  · exact of_decide_eq_false hconsole
  · exact of_decide_eq_false hshadow

end Display

end Far2l
