/-
Far2l.TTY.ClipboardTransferTheorems — chunked transfers arrive whole.

While a thread sends, the server holds the bytes before its offset, and nothing
else; when no thread sends, it holds nothing. The thread keeps the clipboard
open, so that no other message clears or adds a chunk in between.
-/
import Far2l.TTY.ClipboardTransfer

namespace Far2l.TTY

open VT VTFar2lExtensios

/-! ## What the server does with a message -/

section Server

variable {X : VTFar2lExtensios} {H : Host} {now : Nat}

theorem onInteract_setDataChunk (args : StackSerializer) :
    X.onInteract H now (clipMessage FARTTY_INTERACT_CLIP_SETDATACHUNK args)
      = X.onInteractClipboardSetDataChunk args :=
  (onInteract_clipMessage X H now _ args).trans rfl

theorem onInteract_setData (args : StackSerializer) :
    X.onInteract H now (clipMessage FARTTY_INTERACT_CLIP_SETDATA args)
      = X.onInteractClipboardSetData H args :=
  (onInteract_clipMessage X H now _ args).trans rfl

theorem setDataChunk_chunk {chunk : List Byte} (hlen : chunk.length = CHUNK_SIZE)
    (hopen : X.clipboardOpens > 0) :
    X.onInteractClipboardSetDataChunk
        ((({} : StackSerializer).push chunk).pushNum 2 (CHUNK_SIZE / 2 ^ 8))
      = { ext := { X with clipboardChunks := X.clipboardChunks ++ chunk }, reply := some {} } := by
  have hpop := StackSerializer.pop_push {} chunk
  rw [hlen] at hpop
  rw [onInteractClipboardSetDataChunk, if_pos hopen,
    StackSerializer.popNum_pushNum _ (by decide)]
  dsimp only
  rw [if_pos (by decide), show CHUNK_SIZE / 2 ^ 8 * 2 ^ 8 = CHUNK_SIZE from rfl, hpop]

theorem setDataChunk_discard (hopen : X.clipboardOpens > 0) :
    X.onInteractClipboardSetDataChunk (({} : StackSerializer).pushNum 2 0)
      = { ext := { X with clipboardChunks := [] }, reply := some {} } := by
  rw [onInteractClipboardSetDataChunk, if_pos hopen,
    StackSerializer.popNum_pushNum _ (by decide)]
  rfl

theorem setDataChunk_closed (hclosed : ¬ X.clipboardOpens > 0) (S : StackSerializer) :
    X.onInteractClipboardSetDataChunk S = { ext := X, reply := some {} } := by
  rw [onInteractClipboardSetDataChunk, if_neg hclosed]

/-- The last piece completes the data. -/
theorem setData_piece {format : UInt32} {piece : List Byte} (hopen : X.clipboardOpens > 0)
    (hpos : 0 < piece.length) (hle : X.clipboardChunks.length + piece.length ≤ CLIPBOARD_ALLOC_MAX) :
    X.onInteractClipboardSetData H
        (((({} : StackSerializer).push piece).pushNum 4 piece.length).pushNum 4 format.toNat)
      = X.handClipboardData H format.toNat
          (if H.malloc (X.clipboardChunks.length + piece.length)
            then some (X.clipboardChunks ++ piece) else none) := by
  rw [CLIPBOARD_ALLOC_MAX] at hle
  have hformat : format.toNat < 256 ^ 4 := format.toNat_lt
  have hchunks : X.clipboardChunks.length % 2 ^ 32 = X.clipboardChunks.length :=
    Nat.mod_eq_of_lt (by omega)
  have htotal : (piece.length + X.clipboardChunks.length) % 2 ^ 32
      = X.clipboardChunks.length + piece.length := by
    rw [Nat.mod_eq_of_lt (by omega), Nat.add_comm]
  have halloc : H.clipboardAlloc (X.clipboardChunks.length + piece.length)
      = H.malloc (X.clipboardChunks.length + piece.length) := by
    rw [Host.clipboardAlloc, CLIPBOARD_ALLOC_MAX]
    have hlow : 0 < X.clipboardChunks.length + piece.length := by omega
    simp [hlow, hle]
  rw [onInteractClipboardSetData, if_pos hopen, StackSerializer.popNum_pushNum _ hformat]
  dsimp only
  rw [StackSerializer.popNum_pushNum _ (by omega)]
  dsimp only
  rw [hchunks, htotal, if_pos ⟨by omega, by omega⟩, halloc, StackSerializer.pop_push,
    List.take_length]
  cases H.malloc (X.clipboardChunks.length + piece.length) with
  | true => rfl
  | false => rfl

theorem setData_closed (hclosed : ¬ X.clipboardOpens > 0) (S : StackSerializer) :
    X.onInteractClipboardSetData H S
      = { ext := { X with clipboardChunks := [] }, reply := some (replyChar 255) } := by
  rw [onInteractClipboardSetData, if_neg hclosed]

/-- A command leaves the chunks alone, and sets no data. -/
structure Aside (X : VTFar2lExtensios) (a : Answer) : Prop where
  opens : a.ext.clipboardOpens = X.clipboardOpens
  chunks : a.ext.clipboardChunks = X.clipboardChunks
  effect : ∀ fmt data, a.effect ≠ .handed fmt data

theorem aside_of_ext {a : Answer} (hext : a.ext = X) (heffect : ∀ fmt data, a.effect ≠ .handed fmt data) :
    Aside X a := ⟨by rw [hext], by rw [hext], heffect⟩

theorem allowClipboardRead_aside (X : VTFar2lExtensios) (now : Nat) (prolong : Bool) :
    (X.allowClipboardRead now prolong).clipboardOpens = X.clipboardOpens
    ∧ (X.allowClipboardRead now prolong).clipboardChunks = X.clipboardChunks := by
  rw [allowClipboardRead]
  split
  · split <;> exact ⟨rfl, rfl⟩
  · exact ⟨rfl, rfl⟩

theorem returned_aside (data : Option (List Byte)) (fmt : Nat) (data' : Option (List Byte)) :
    (data.map Effect.returned).getD .none ≠ .handed fmt data' := by
  cases data <;> exact fun h => Effect.noConfusion h

theorem aside_getData (S : StackSerializer) : Aside X (X.onInteractClipboardGetData H now S) := by
  rw [onInteractClipboardGetData]
  split
  · dsimp only
    cases S.popNum 4 with
    | none => exact aside_of_ext rfl fun _ _ h => Effect.noConfusion h
    | some r =>
      cases X.isAllowedClipboardRead now with
      | true =>
        have hallow := allowClipboardRead_aside X now true
        exact ⟨hallow.1, hallow.2, returned_aside _⟩
      | false => exact aside_of_ext rfl (returned_aside none)
  · exact aside_of_ext rfl fun _ _ h => Effect.noConfusion h

theorem aside_getDataID (S : StackSerializer) :
    Aside X (X.onInteractClipboardGetDataID H now S) := by
  rw [onInteractClipboardGetDataID]
  split
  · cases S.popNum 4 with
    | none => exact aside_of_ext rfl fun _ _ h => Effect.noConfusion h
    | some r => exact aside_of_ext rfl (returned_aside _)
  · exact aside_of_ext rfl fun _ _ h => Effect.noConfusion h

/-- The commands that neither set data nor open or close the clipboard. -/
theorem aside_plain {code : Byte} (h : Link.PlainCommand code) (S : StackSerializer) :
    Aside X (X.onInteractClipboard H now code S) := by
  obtain ⟨hopen, hclose, hchunk, hset⟩ := h
  rw [onInteractClipboard, if_neg hopen, if_neg hclose]
  split
  · exact aside_of_ext rfl fun _ _ h => Effect.noConfusion h
  split
  · exact aside_of_ext rfl fun _ _ h => Effect.noConfusion h
  split
  · exact aside_getData S
  split
  · exact aside_getDataID S
  split
  · exact aside_of_ext rfl fun _ _ h => Effect.noConfusion h
  · exact aside_of_ext rfl fun _ _ h => Effect.noConfusion h

/-- `ClipboardOpen` clears the chunks. -/
theorem open_clears (S : StackSerializer) :
    (X.onInteractClipboardOpen H S).ext.clipboardChunks = []
    ∧ (X.onInteractClipboardOpen H S).effect = .none := by
  rw [onInteractClipboardOpen]
  cases S.popStr <;> exact ⟨rfl, rfl⟩

end Server

namespace Link

variable {L : Link} {H : Host} {now : Nat}

theorem logHanded_of_ne {f : Effect} (h : ∀ fmt data, f ≠ .handed fmt data)
    (log : List (Nat × Option (List Byte))) : logHanded f log = log := by
  cases f with
  | none => rfl
  | returned data => rfl
  | handed fmt data => exact absurd rfl (h fmt data)

/-! ## The invariant -/

/-- The thread counts as one that has the clipboard open. -/
def holds : SetDataThread → Bool
  | .sending _ _ _ | .discarding | .ending => true
  | _ => false

/-- What the server holds for the thread. -/
def Pending (ext : VTFar2lExtensios) : SetDataThread → Prop
  | .sending t i ofs =>
      ofs = i * CHUNK_SIZE ∧ ofs < t.data.length
        ∧ (ext.clipboardOpens > 0 → ext.clipboardChunks = t.data.take ofs)
  | .discarding => True
  | _ => ext.clipboardChunks = []

/-- **The server holds what the thread has sent**, and has handed over what was completed. -/
structure Sound (L : Link) : Prop where
  counter : L.openCounter = L.opens + if holds L.thread then 1 else 0
  closed : ¬ L.ext.clipboardOpens > 0 → L.ext.clipboardChunks = []
  pending : Pending L.ext L.thread
  reads : L.overrun = false
  handed : L.handed = L.completed.flatMap Completed.hands

theorem Pending.congr {ext ext' : VTFar2lExtensios} {T : SetDataThread} (h : Pending ext T)
    (hopens : ext'.clipboardOpens = ext.clipboardOpens)
    (hchunks : ext'.clipboardChunks = ext.clipboardChunks) : Pending ext' T := by
  cases T with
  | idle => exact hchunks.trans h
  | sending t i ofs =>
    refine ⟨h.1, h.2.1, fun hopen => ?_⟩
    rw [hopens] at hopen
    exact hchunks.trans (h.2.2 hopen)
  | discarding => trivial
  | ending => exact hchunks.trans h
  | closing => exact hchunks.trans h

/-- The thread is not in the middle of a transfer. -/
theorem Pending.of_nil {ext : VTFar2lExtensios} {T : SetDataThread} (hholds : holds T = false)
    (hchunks : ext.clipboardChunks = []) : Pending ext T := by
  cases T with
  | idle => exact hchunks
  | sending t i ofs => exact Bool.noConfusion hholds
  | discarding => exact Bool.noConfusion hholds
  | ending => exact Bool.noConfusion hholds
  | closing => exact hchunks

/-- A message that clears the chunks, while no thread sends. -/
theorem Sound.cleared (h : L.Sound) {S : StackSerializer} (hholds : holds L.thread = false)
    (hchunks : (L.ext.onInteract H now S).ext.clipboardChunks = [])
    (heffect : (L.ext.onInteract H now S).effect = .none) : (L.deliver H now S).Sound where
  counter := h.counter
  closed _ := hchunks
  pending := Pending.of_nil hholds hchunks
  reads := h.reads
  handed := by
    show logHanded _ L.handed = _
    rw [heffect]
    exact h.handed

/-! ## The thread -/

theorem readAt_some {data : List Byte} {ofs len : Nat} (h : ofs + len ≤ data.length) :
    readAt data ofs len = some ((data.drop ofs).take len) := if_pos h

theorem Sound.sendChunk (h : L.Sound) {t : Transfer} {i ofs : Nat}
    (hthread : L.thread = .sending t i ofs) (hmore : t.data.length - ofs > CHUNK_SIZE)
    (cancelled : Bool) : (L.sendChunk H now t i ofs cancelled).Sound := by
  obtain ⟨hofs, hlt, hchunks⟩ : Pending L.ext (.sending t i ofs) := hthread ▸ h.pending
  have hcount : L.openCounter = L.opens + 1 := by
    have := h.counter
    rw [hthread] at this
    exact this
  have hlen : ((t.data.drop ofs).take CHUNK_SIZE).length = CHUNK_SIZE := by
    rw [List.length_take, List.length_drop]
    omega
  rw [Link.sendChunk, readAt_some (by omega)]
  generalize hchunk : (t.data.drop ofs).take CHUNK_SIZE = chunk at hlen ⊢
  have htake : t.data.take (ofs + CHUNK_SIZE) = t.data.take ofs ++ chunk := by
    rw [List.take_add, hchunk]
  have hext : ∃ ext, L.ext.onInteract H now (chunkMessage chunk) = { ext := ext, reply := some {} }
      ∧ ext.clipboardOpens = L.ext.clipboardOpens
      ∧ (ext.clipboardOpens > 0 → ext.clipboardChunks = t.data.take (ofs + CHUNK_SIZE))
      ∧ (¬ ext.clipboardOpens > 0 → ext.clipboardChunks = []) := by
    rw [chunkMessage, onInteract_setDataChunk]
    by_cases hopen : L.ext.clipboardOpens > 0
    · rw [setDataChunk_chunk hlen hopen]
      refine ⟨_, rfl, rfl, fun _ => ?_, fun hclosed => absurd hopen hclosed⟩
      rw [htake, ← hchunks hopen]
    · rw [setDataChunk_closed hopen]
      exact ⟨_, rfl, rfl, fun h => absurd h hopen, h.closed⟩
  obtain ⟨ext, hanswer, hopens, hafter, hnone⟩ := hext
  have hdeliver : L.deliver H now (chunkMessage chunk) = { L with ext := ext } := by
    rw [deliver, hanswer]
    rfl
  dsimp only
  rw [hdeliver]
  cases cancelled with
  | true => exact ⟨hcount, hnone, trivial, h.reads, h.handed⟩
  | false =>
    refine ⟨hcount, hnone, ⟨?_, by omega, hafter⟩, h.reads, h.handed⟩
    rw [hofs, Nat.succ_mul]

theorem Sound.sendLast (h : L.Sound) {t : Transfer} {i ofs : Nat}
    (hthread : L.thread = .sending t i ofs) : (L.sendLast H now t ofs).Sound := by
  obtain ⟨-, hlt, hchunks⟩ : Pending L.ext (.sending t i ofs) := hthread ▸ h.pending
  have hcount : L.openCounter = L.opens + 1 := by
    have := h.counter
    rw [hthread] at this
    exact this
  have hle := t.size_le
  rw [Link.sendLast, readAt_some (by omega), List.take_of_length_le (Nat.le_of_eq List.length_drop)]
  dsimp only
  by_cases hopen : L.ext.clipboardOpens > 0
  · have hsum : L.ext.clipboardChunks.length + (t.data.drop ofs).length = t.data.length := by
      rw [hchunks hopen, List.length_take, List.length_drop]
      omega
    have hanswer : L.ext.onInteract H now (dataMessage t.format (t.data.drop ofs))
        = L.ext.handClipboardData H t.format.toNat
            (if H.malloc t.data.length then some t.data else none) := by
      rw [dataMessage, onInteract_setData, setData_piece hopen (by rw [List.length_drop]; omega) (by rw [hsum]; exact hle), hsum,
        hchunks hopen, List.take_append_drop]
    refine ⟨hcount, fun _ => ?_, ?_, h.reads, ?_⟩
    · show (L.ext.onInteract H now _).ext.clipboardChunks = []
      rw [hanswer]
      rfl
    · show (L.ext.onInteract H now _).ext.clipboardChunks = []
      rw [hanswer]
      rfl
    · show logHanded (L.ext.onInteract H now _).effect L.handed = _
      rw [hanswer, List.flatMap_append, ← h.handed]
      simp [handClipboardData, logHanded, Completed.hands, hopen]
  · have hanswer : L.ext.onInteract H now (dataMessage t.format (t.data.drop ofs))
        = { ext := { L.ext with clipboardChunks := [] }, reply := some (replyChar 255) } := by
      rw [dataMessage, onInteract_setData, setData_closed hopen]
    refine ⟨hcount, fun _ => ?_, ?_, h.reads, ?_⟩
    · show (L.ext.onInteract H now _).ext.clipboardChunks = []
      rw [hanswer]
    · show (L.ext.onInteract H now _).ext.clipboardChunks = []
      rw [hanswer]
    · show logHanded (L.ext.onInteract H now _).effect L.handed = _
      rw [hanswer, List.flatMap_append, ← h.handed]
      simp [logHanded, Completed.hands, hopen]

theorem Sound.discard (h : L.Sound) (hthread : L.thread = .discarding) :
    Sound { L.deliver H now discardMessage with thread := .ending } := by
  have hcount : L.openCounter = L.opens + 1 := by
    have := h.counter
    rw [hthread] at this
    exact this
  have hanswer : (L.ext.onInteract H now discardMessage).ext.clipboardChunks = []
      ∧ (L.ext.onInteract H now discardMessage).effect = .none := by
    rw [discardMessage, onInteract_setDataChunk]
    by_cases hopen : L.ext.clipboardOpens > 0
    · rw [setDataChunk_discard hopen]
      exact ⟨rfl, rfl⟩
    · rw [setDataChunk_closed hopen]
      exact ⟨h.closed hopen, rfl⟩
  refine ⟨hcount, fun _ => hanswer.1, hanswer.1, h.reads, ?_⟩
  show logHanded (L.ext.onInteract H now discardMessage).effect L.handed = _
  rw [hanswer.2]
  exact h.handed

theorem Sound.threadEnds (h : L.Sound) (hthread : L.thread = .ending) : L.threadEnds.Sound := by
  have hcount : L.openCounter = L.opens + 1 := by
    have := h.counter
    rw [hthread] at this
    exact this
  have hchunks : L.ext.clipboardChunks = [] := by
    have := h.pending
    rw [hthread] at this
    exact this
  have hholds : holds L.threadEnds.thread = false := by
    rw [Link.threadEnds]
    dsimp only
    split <;> rfl
  refine ⟨?_, h.closed, Pending.of_nil hholds hchunks, h.reads, h.handed⟩
  rw [hholds]
  show L.openCounter - 1 = _
  rw [hcount]
  exact Int.add_sub_cancel _ _

theorem Sound.closeMessage (h : L.Sound) (hholds : holds L.thread = false) :
    (L.deliver H now closeMessage).Sound := by
  refine h.cleared hholds ?_ ?_
  · rw [Link.closeMessage, onInteract_clipMessage]
    rfl
  · rw [Link.closeMessage, onInteract_clipMessage]
    rfl

theorem Sound.threadStep (h : L.Sound) (cancelled : Bool) :
    (L.threadStep H now cancelled).Sound := by
  rw [Link.threadStep]
  cases hthread : L.thread with
  | idle => exact h
  | sending t i ofs =>
    dsimp only
    split
    · next hmore => exact h.sendChunk hthread hmore.2 cancelled
    · exact h.sendLast hthread
  | discarding => exact h.discard hthread
  | ending => exact h.threadEnds hthread
  | closing =>
    have hholds : holds L.thread = false := by rw [hthread]; rfl
    have hclose : (L.deliver H now Link.closeMessage).Sound := h.closeMessage hholds
    refine ⟨?_, hclose.closed, ?_, hclose.reads, hclose.handed⟩
    · have hcount := h.counter
      rw [hthread] at hcount
      exact hcount
    · have hpending := hclose.pending
      have hsame : (L.deliver H now Link.closeMessage).thread = .closing := hthread
      rw [hsame] at hpending
      exact hpending

/-! ## The application -/

theorem Sound.onClipboardOpen (h : L.Sound) (clientId : List Byte) :
    (L.onClipboardOpen H now clientId).Sound := by
  rw [Link.onClipboardOpen]
  split
  · refine ⟨?_, h.closed, h.pending, h.reads, h.handed⟩
    have hcount := h.counter
    show L.openCounter + 1 = ((L.opens + 1 : Nat) : Int) + _
    rw [hcount]
    push_cast
    omega
  · next hfirst =>
    have hcount := h.counter
    have hholds : holds L.thread = false := by
      cases hh : holds L.thread with
      | false => rfl
      | true =>
        rw [hh] at hcount
        simp only [if_true] at hcount
        omega
    rw [hholds] at hcount
    simp only [Bool.false_eq_true, if_false] at hcount
    have hopen := open_clears (X := L.ext) (H := H) (({} : StackSerializer).pushStr clientId)
    have hdeliver : (L.deliver H now (openMessage clientId)).Sound := by
      refine h.cleared hholds ?_ ?_
      · rw [openMessage, onInteract_clipMessage]
        exact hopen.1
      · rw [openMessage, onInteract_clipMessage]
        exact hopen.2
    refine ⟨?_, hdeliver.closed, hdeliver.pending, hdeliver.reads, hdeliver.handed⟩
    simp only [firstOpen]
    show _ = _ + if holds L.thread then (1 : Int) else 0
    rw [hholds]
    split
    · split
      · push_cast
        omega
      · push_cast
        omega
    · simp only [Bool.false_eq_true, if_false]
      split <;> omega

theorem Sound.onClipboardClose (h : L.Sound) (hopens : 0 < L.opens) :
    (L.onClipboardClose H now).Sound := by
  have hcount := h.counter
  have hclosed : Sound { L with openCounter := L.openCounter - 1, opens := L.opens - 1 } := by
    refine ⟨?_, h.closed, h.pending, h.reads, h.handed⟩
    show L.openCounter - 1 = ((L.opens - 1 : Nat) : Int) + if holds L.thread then 1 else 0
    omega
  simp only [Link.onClipboardClose]
  split
  · exact hclosed
  · next hlast =>
    refine hclosed.closeMessage ?_
    show holds L.thread = false
    cases hh : holds L.thread with
    | false => rfl
    | true =>
      rw [hh] at hcount
      simp only [if_true] at hcount
      omega

theorem Sound.onClipboardSetData (h : L.Sound) (hidle : L.thread = .idle) (t : Transfer) :
    (L.onClipboardSetData t).Sound := by
  have hcount := h.counter
  have hchunks : L.ext.clipboardChunks = [] := by
    have := h.pending
    rw [hidle] at this
    exact this
  rw [hidle] at hcount
  refine ⟨?_, h.closed, ⟨rfl, t.size_pos, fun _ => ?_⟩, h.reads, h.handed⟩
  · show L.openCounter + 1 = L.opens + 1
    rw [hcount]
    simp [holds]
  · rw [List.take_zero]
    exact hchunks

theorem Sound.command (h : L.Sound) {code : Byte} (hplain : PlainCommand code)
    (args : StackSerializer) : (L.deliver H now (clipMessage code args)).Sound := by
  have haside : Aside L.ext (L.ext.onInteract H now (clipMessage code args)) := by
    rw [onInteract_clipMessage]
    exact aside_plain hplain args
  refine ⟨h.counter, fun hclosed => ?_, h.pending.congr haside.opens haside.chunks, h.reads, ?_⟩
  · have hclosed' : ¬ (L.ext.onInteract H now (clipMessage code args)).ext.clipboardOpens > 0 :=
      hclosed
    rw [haside.opens] at hclosed'
    exact haside.chunks.trans (h.closed hclosed')
  · show logHanded _ L.handed = _
    rw [logHanded_of_ne haside.effect]
    exact h.handed

/-- **One step** keeps the invariant. -/
theorem Sound.perform (h : L.Sound) {op : Op} (hcan : L.Can op) : (L.perform op).Sound := by
  cases op with
  | thread H now cancelled => exact h.threadStep cancelled
  | open_ H now clientId => exact h.onClipboardOpen clientId
  | close H now => exact h.onClipboardClose hcan
  | setData t => exact h.onClipboardSetData hcan.2 t
  | command H now code args => exact h.command hcan args

/-- Two letters. -/
def twoLetters : Transfer := ⟨1, [0x41, 0x42], true, by decide, by decide⟩

/-- The application opens the clipboard, sets two letters, and they are sent. -/
def sentLetters : Link :=
  [.open_ {} 0 (List.replicate 0x20 0x61), .setData twoLetters, .thread {} 0 false].foldl perform {}

end Link

end Far2l.TTY
