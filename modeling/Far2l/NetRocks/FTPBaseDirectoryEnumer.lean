/-
Far2l.NetRocks.FTPBaseDirectoryEnumer — what the calls of `Enum` tell about a listing,
whatever the pieces are that it comes in.
-/
import Far2l.NetRocks.FTPDataCommandTheorems
import Mathlib.Logic.Function.Iterate

namespace Far2l.NetRocks.FTPDataCommand

variable {Entry : Type} {onParseLine : List Byte → Option Entry} {control line rest buffer : List Byte}
  {lines : List (List Byte)} {c : FTPDataCommand Entry}

/-! ## Listings -/

/-- A line with its end. -/
def ended (line : List Byte) : List Byte := line ++ [0x0D, newline]

/-- Lines, one below the other. -/
def listing (lines : List (List Byte)) : List Byte := (lines.map ended).flatten

/-- A line has something in it, and no end. -/
def Plain (line : List Byte) : Prop := line ≠ [] ∧ ∀ ch ∈ line, isEol ch = false

/-- The line is not so long that `Enum` gives up before its end has come. -/
def Short (line : List Byte) : Prop := line.length + 1 ≤ MAX_LINE

/-- All that a data connection is to bring. -/
def joined (d : DataConnection) : List Byte := (d.pieces.map Subtype.val).flatten

theorem length_ended (line rest : List Byte) : (ended line ++ rest).length = line.length + 2 + rest.length := by
  rw [List.length_append, ended, List.length_append]
  rfl

theorem listing_cons : listing (line :: lines) = ended line ++ listing lines := rfl

theorem Plain.newline_not_mem (h : Plain line) : newline ∉ line := fun hmem =>
  Bool.noConfusion ((h.2 newline hmem).symm.trans rfl)

/-- Only the last character of an ended line is a line feed. -/
theorem Plain.not_mem_of_append (h : Plain line) {x : List Byte} (hx : x ≠ []) (heq : ended line = buffer ++ x) :
    newline ∉ buffer ∧ buffer.length ≤ line.length + 1 := by
  have hlast : buffer ++ x.dropLast = line ++ [0x0D] := by
    have hdrop := congrArg List.dropLast heq
    rw [List.dropLast_append_of_ne_nil hx, ended, show [0x0D, newline] = [0x0D] ++ [newline] from rfl,
      ← List.append_assoc, List.dropLast_concat] at hdrop
    exact hdrop.symm
  constructor
  · intro hmem
    have hmem' : newline ∈ line ++ [0x0D] := by
      rw [← hlast]
      exact List.mem_append_left _ hmem
    rcases List.mem_append.mp hmem' with hmem' | hmem'
    · exact h.newline_not_mem hmem'
    · exact absurd (List.mem_singleton.mp hmem') (by decide)
  · have hlength := congrArg List.length hlast
    simp only [List.length_append, List.length_singleton] at hlength
    omega

/-- What has come of a listing is whole lines or a part of one. -/
theorem listing_split (h : Plain line) (heq : buffer ++ rest = ended line ++ listing lines) :
    (newline ∉ buffer ∧ buffer.length ≤ line.length + 1) ∨
      ∃ buffer', buffer = ended line ++ buffer' ∧ buffer' ++ rest = listing lines := by
  rcases List.append_eq_append_iff.mp heq with ⟨x, hx, hrest⟩ | ⟨x, hx, hrest⟩
  · by_cases hnil : x = []
    · rw [hnil, List.append_nil] at hx
      refine Or.inr ⟨[], by rw [List.append_nil, hx], ?_⟩
      rw [hrest, hnil]
      rfl
    · exact Or.inl (h.not_mem_of_append hnil hx)
  · exact Or.inr ⟨x, hx, hrest.symm⟩

/-- A listing does not begin with the end of a line. -/
theorem head_of_listing (hlines : ∀ l ∈ lines, Plain l) (heq : buffer ++ rest = listing lines) :
    buffer.dropWhile isEol = buffer := by
  cases buffer with
  | nil => rfl
  | cons ch buffer =>
    cases lines with
    | nil => exact absurd heq (by simp [listing])
    | cons line lines =>
      obtain ⟨hne, hplain⟩ := hlines line List.mem_cons_self
      obtain ⟨ch', line', rfl⟩ := List.exists_cons_of_ne_nil hne
      have hhead : ch = ch' := by
        rw [listing_cons, ended, List.cons_append, List.cons_append, List.cons_append] at heq
        exact (List.cons.inj heq).1
      have hch := hplain ch' List.mem_cons_self
      rw [List.dropWhile_cons_of_neg (by rw [hhead, hch]; exact Bool.false_ne_true)]

/-! ## The lines of the buffer -/

theorem takeLine_none (h : newline ∉ buffer) : takeLine buffer = none := by
  rw [takeLine, List.idxOf?_eq_none_iff.mpr h]

theorem takeLine_ended (h : Plain line) (hrest : rest.dropWhile isEol = rest) :
    takeLine (ended line ++ rest) = some (line, rest) := by
  have hlength := length_ended line rest
  have hindex : (ended line ++ rest).idxOf? newline = some (line.length + 1) := by
    rw [List.idxOf?_eq_some_iff]
    refine ⟨by omega, by simp [ended], fun j hj heq => ?_⟩
    by_cases hlt : j < line.length
    · have hget : (ended line ++ rest)[j]? = some newline := by
        rw [List.getElem?_eq_getElem (by omega), heq]
      rw [ended, List.append_assoc, List.getElem?_append_left hlt] at hget
      exact h.newline_not_mem (List.mem_of_getElem? hget)
    · obtain rfl : j = line.length := by omega
      simp [ended, newline] at heq
  have hreturn : (ended line ++ rest)[line.length]? = some 0x0D := by simp [ended]
  rw [takeLine, hindex]
  dsimp only
  rw [Nat.add_sub_cancel, if_pos ⟨Nat.succ_pos _, hreturn⟩]
  have htake : (ended line ++ rest).take line.length = line := by
    rw [ended, List.append_assoc, List.take_left]
  have hdrop : (ended line ++ rest).drop (line.length + 1) = newline :: rest := by
    rw [ended, List.append_assoc, ← List.drop_drop, List.drop_left]
    rfl
  rw [htake, hdrop, List.dropWhile_cons_of_pos rfl, hrest]

/-- The end of a line has come, and nothing behind it. -/
theorem takeLine_alone (h : Plain line) : takeLine (ended line) = some (line, []) := by
  have htake : takeLine (ended line ++ []) = some (line, []) := takeLine_ended h rfl
  rwa [List.append_nil] at htake

/-- **The lines that have come are parsed** up to the first entry, and a part of a line is left. -/
theorem parseLines_spec (onParseLine : List Byte → Option Entry) :
    ∀ (lines : List (List Byte)), (∀ l ∈ lines, Plain l) →
    ∀ {fuel : Nat} {buffer : List Byte}, buffer.length ≤ fuel → buffer ++ rest = listing lines →
    ∃ later buffer', later <:+ lines ∧ buffer' ++ rest = listing later ∧
      ((∃ e, parseLines onParseLine fuel buffer = (some e, buffer') ∧
          lines.filterMap onParseLine = e :: later.filterMap onParseLine) ∨
        (parseLines onParseLine fuel buffer = (none, buffer') ∧
          lines.filterMap onParseLine = later.filterMap onParseLine ∧ newline ∉ buffer')) := by
  intro lines
  induction lines with
  | nil =>
    intro _ fuel buffer _ heq
    obtain ⟨rfl, hrest⟩ : buffer = [] ∧ rest = [] := by simpa [listing] using heq
    refine ⟨[], [], List.suffix_rfl, heq, Or.inr ⟨?_, rfl, List.not_mem_nil⟩⟩
    cases fuel <;> rfl
  | cons line lines ih =>
    intro hlines fuel buffer hfuel heq
    have hline := hlines line List.mem_cons_self
    have hlater := fun l hl => hlines l (List.mem_cons_of_mem _ hl)
    rcases listing_split hline (heq.trans listing_cons) with ⟨hnone, -⟩ | ⟨buffer', rfl, heq'⟩
    · refine ⟨line :: lines, buffer, List.suffix_rfl, heq, Or.inr ⟨?_, rfl, hnone⟩⟩
      cases fuel with
      | zero => rfl
      | succ fuel => rw [parseLines, takeLine_none hnone]
    · have hlength := length_ended line buffer'
      obtain ⟨fuel, rfl⟩ : ∃ n, fuel = n + 1 := ⟨fuel - 1, by omega⟩
      have hfuel' : buffer'.length ≤ fuel := by omega
      rw [parseLines, takeLine_ended hline (head_of_listing hlater heq')]
      dsimp only
      cases he : onParseLine line with
      | some e =>
        refine ⟨lines, buffer', List.suffix_cons _ _, heq', Or.inl ⟨e, rfl, ?_⟩⟩
        rw [List.filterMap_cons, he]
      | none =>
        obtain ⟨later, buffer'', hsuffix, heq'', hparsed⟩ := ih hlater hfuel' heq'
        refine ⟨later, buffer'', hsuffix.trans (List.suffix_cons _ _), heq'', ?_⟩
        rw [List.filterMap_cons, he]
        exact hparsed

/-! ## A listing that comes in pieces -/

/-- What there is still to tell: the lines that have not been taken, and the connections to take them from. -/
structure Pending (control : List Byte) (lines : List (List Byte)) (c : FTPDataCommand Entry) : Prop where
  text : c.readBuffer ++ joined c.data = listing lines
  inOrder : c.data.inOrder = true
  dataTransport : c.dataTransport = true
  conn : c.conn = true
  control : c.control = control

theorem recv_joined (d : DataConnection) {len : Nat} (hin : d.inOrder = true) (hlen : 0 < len) :
    ((d.recv len).1 = 0 ∧ joined d = []) ∨
      (0 < (d.recv len).1 ∧ (d.recv len).2.1 ++ joined (d.recv len).2.2 = joined d) := by
  rw [DataConnection.recv, joined]
  cases hpieces : d.pieces with
  | nil => exact Or.inl ⟨if_pos hin, rfl⟩
  | cons piece pieces =>
    refine Or.inr ?_
    have hpos := List.length_pos_iff.mpr piece.property
    dsimp only
    split
    · exact ⟨by dsimp only; omega, rfl⟩
    · refine ⟨by dsimp only; omega, ?_⟩
      rw [joined, List.map_cons, List.flatten_cons, List.map_cons, List.flatten_cons, ← List.append_assoc,
        List.take_append_drop]

/-- **`Enum` tells the next entry of a listing**, or that there is none. -/
theorem Pending.enumLoop (onParseLine : List Byte → Option Entry) {code : Nat}
    (hcode : (recvResponseFromTransport control).1 = some code) :
    ∀ {fuel : Nat} {c : FTPDataCommand Entry} {lines : List (List Byte)}, (∀ l ∈ lines, Plain l ∧ Short l) →
    toCome c.data < fuel → c.Pending control lines →
    (∃ e later, later <:+ lines ∧ lines.filterMap onParseLine = e :: later.filterMap onParseLine ∧
        (enumLoop onParseLine fuel c).Pending control later ∧
        (enumLoop onParseLine fuel c).log = c.log ++ [.entry e]) ∨
      (lines.filterMap onParseLine = [] ∧ (enumLoop onParseLine fuel c).dataTransport = false ∧
        (enumLoop onParseLine fuel c).log = c.log ++ [.noMore])
  | fuel + 1, c, lines, hlines, hfuel, h => by
    obtain ⟨later, buffer, hsuffix, htext, hparsed⟩ := parseLines_spec onParseLine lines
      (fun l hl => (hlines l hl).1) (Nat.le_refl c.readBuffer.length) h.text
    rw [FTPDataCommand.enumLoop]
    rcases hparsed with ⟨e, hparsed, hentries⟩ | ⟨hparsed, hentries, hnone⟩
    · rw [hparsed]
      exact Or.inl ⟨e, later, hsuffix, hentries, ⟨htext, h.inOrder, h.dataTransport, h.conn, h.control⟩, rfl⟩
    · have hshort : ¬buffer.length > MAX_LINE := by
        cases later with
        | nil =>
          obtain ⟨rfl, -⟩ : buffer = [] ∧ _ := by simpa [listing] using htext
          exact Nat.not_lt_zero _
        | cons line later =>
          obtain ⟨hplain, hshort⟩ := hlines line (hsuffix.subset List.mem_cons_self)
          rcases listing_split hplain (htext.trans listing_cons) with ⟨-, hle⟩ | ⟨x, rfl, -⟩
          · exact Nat.not_lt_of_le (Nat.le_trans hle hshort)
          · exact absurd (by simp [ended]) hnone
      rw [hparsed]
      dsimp only
      rw [if_neg hshort]
      have hrecv := recv_joined c.data h.inOrder (show 0 < 0x1000 by decide)
      have hless : 0 < (c.data.recv 0x1000).1 → toCome (c.data.recv 0x1000).2.2 < toCome c.data := toCome_recv
      have hin := (recv_inOrder c.data 0x1000).trans h.inOrder
      generalize c.data.recv 0x1000 = got at hrecv hless hin
      obtain ⟨r, received, data⟩ := got
      dsimp only at hrecv hless hin ⊢
      rcases hrecv with ⟨hzero, hend⟩ | ⟨hpos, hmore⟩
      · rw [if_pos (by omega)]
        have hnil : later = [] := by
          cases later with
          | nil => rfl
          | cons line later =>
            rw [hend, List.append_nil, listing_cons] at htext
            exact absurd (by rw [htext]; simp [ended]) hnone
        refine Or.inr ⟨by rw [hentries, hnil]; rfl, ?_⟩
        rw [FTPDataCommand.ensureFinalized]
        dsimp only
        rw [h.conn, if_pos rfl, h.control]
        generalize recvResponseFromTransport control = answer at hcode
        obtain ⟨code', rest⟩ := answer
        dsimp only at hcode
        subst hcode
        exact ⟨rfl, rfl⟩
      · rw [if_neg (by omega)]
        have hpending : ({ c with readBuffer := buffer ++ received, data := data } :
            FTPDataCommand Entry).Pending control later :=
          ⟨by rw [List.append_assoc, hmore, htext], hin, h.dataTransport, h.conn, h.control⟩
        have hfuel' : toCome data < fuel := by
          have := hless hpos
          omega
        have ih := Pending.enumLoop onParseLine hcode (fun l hl => hlines l (hsuffix.subset hl)) hfuel' hpending
        rw [hentries]
        rcases ih with ⟨e, later', hsuffix', hrest⟩ | hrest
        · exact Or.inl ⟨e, later', hsuffix'.trans hsuffix, hrest⟩
        · exact Or.inr hrest

/-- There is nothing to tell when the end was met. -/
theorem enums_closed : ∀ (m : Nat) {c : FTPDataCommand Entry}, c.dataTransport = false →
    ((enum onParseLine)^[m] c).log = c.log ++ List.replicate m .noMore
  | 0, c, _ => (List.append_nil _).symm
  | m + 1, c, h => by
    have hlogged : enum onParseLine c = c.logged .noMore := by
      rw [enum, h]
      rfl
    rw [Function.iterate_succ_apply, hlogged, enums_closed m (c := c.logged .noMore) h, logged, List.append_assoc]
    rfl

/-- **The calls of `Enum` tell the entries of a listing one by one**, and then that there are no more. -/
theorem Pending.enums {code : Nat} (hcode : (recvResponseFromTransport control).1 = some code) :
    ∀ (m : Nat) {c : FTPDataCommand Entry} {lines : List (List Byte)}, (∀ l ∈ lines, Plain l ∧ Short l) →
    c.Pending control lines →
    ((enum onParseLine)^[m] c).log = c.log ++ (((lines.filterMap onParseLine).take m).map .entry ++
      List.replicate (m - (lines.filterMap onParseLine).length) .noMore)
  | 0, c, _, _, _ => by simp
  | m + 1, c, lines, hlines, h => by
    have henum : enum onParseLine c = FTPDataCommand.enumLoop onParseLine (toCome c.data + 1) c := by
      rw [enum, h.dataTransport, if_pos rfl]
    rw [Function.iterate_succ_apply, henum]
    rcases h.enumLoop onParseLine hcode hlines (Nat.lt_succ_self _) with
      ⟨e, later, hsuffix, hentries, hpending, hlog⟩ | ⟨hentries, hclosed, hlog⟩
    · rw [Pending.enums hcode m (fun l hl => hlines l (hsuffix.subset hl)) hpending, hlog, hentries,
        List.take_succ_cons, List.map_cons, List.length_cons, Nat.add_sub_add_right, List.append_assoc]
      rfl
    · rw [enums_closed m hclosed, hlog, hentries, List.append_assoc]
      rfl

/-! ## A listing that comes byte by byte -/

/-- Every byte comes alone. -/
def singles (s : List Byte) : DataConnection := ⟨s.map fun b => ⟨[b], List.cons_ne_nil _ _⟩, true⟩

theorem joined_singles : ∀ s : List Byte, joined (singles s) = s
  | [] => rfl
  | b :: s => congrArg (b :: ·) (joined_singles s)

theorem toCome_singles : ∀ s : List Byte, toCome (singles s) = s.length
  | [] => rfl
  | b :: s => by
    have ih : toCome (singles s) = s.length := toCome_singles s
    show 1 + toCome (singles s) = s.length + 1
    omega

theorem recv_singles (b : Byte) (s : List Byte) : (singles (b :: s)).recv 0x1000 = (1, [b], singles s) := rfl

/-- A line that was no entry might as well not have come. -/
theorem enumLoop_skip (hline : Plain line) (hnone : onParseLine line = none) (fuel : Nat) (data : DataConnection) :
    enumLoop onParseLine (fuel + 1) { c with readBuffer := ended line, data := data } =
      enumLoop onParseLine (fuel + 1) { c with readBuffer := [], data := data } := by
  have hlength : (ended line).length = line.length + 1 + 1 := by
    rw [ended, List.length_append]
    rfl
  have hparsed : parseLines onParseLine (ended line).length (ended line) = (none, []) := by
    rw [hlength, parseLines, takeLine_alone hline]
    dsimp only
    rw [hnone]
    rfl
  rw [enumLoop, enumLoop]
  dsimp only
  rw [hparsed]
  rfl

/-- **A line that is too long is met**, at the latest after the lines before it. -/
theorem enumLoop_long (onParseLine : List Byte → Option Entry) :
    ∀ {fuel : Nat} {c : FTPDataCommand Entry} {lines : List (List Byte)} {s : List Byte},
    (∀ l ∈ lines, Plain l) → (∃ l ∈ lines, ¬Short l) → s.length < fuel → c.data = singles s →
    newline ∉ c.readBuffer → c.readBuffer ++ s = listing lines → c.dataTransport = true →
    .threw ∈ (enumLoop onParseLine fuel c).log ∨
      ∃ later s', later.length < lines.length ∧ (∀ l ∈ later, Plain l) ∧ (∃ l ∈ later, ¬Short l) ∧
        (enumLoop onParseLine fuel c).data = singles s' ∧ (enumLoop onParseLine fuel c).readBuffer = [] ∧
        s' = listing later ∧ (enumLoop onParseLine fuel c).dataTransport = true
  | fuel + 1, c, lines, s, hlines, hlong, hfuel, hdata, hbuffer, htext, htransport => by
    have hparsed : parseLines onParseLine c.readBuffer.length c.readBuffer = (none, c.readBuffer) := by
      cases c.readBuffer.length with
      | zero => rfl
      | succ n => rw [parseLines, takeLine_none hbuffer]
    rw [enumLoop, hparsed]
    dsimp only
    by_cases hmax : c.readBuffer.length > MAX_LINE
    · rw [if_pos hmax]
      exact Or.inl (List.mem_append_right _ (List.mem_singleton_self _))
    rw [if_neg hmax, hdata]
    cases s with
    | nil =>
      obtain ⟨l, hl, -⟩ := hlong
      obtain ⟨line, lines, rfl⟩ := List.exists_cons_of_ne_nil (List.ne_nil_of_mem hl)
      rw [List.append_nil] at htext
      exact absurd (by rw [htext, listing_cons]; simp [ended]) hbuffer
    | cons b s =>
      rw [recv_singles]
      dsimp only
      rw [if_neg (by decide)]
      by_cases hb : b = newline
      · -- the line is complete, and it was not too long
        subst hb
        obtain ⟨l, hl, -⟩ := id hlong
        obtain ⟨line, lines, rfl⟩ := List.exists_cons_of_ne_nil (List.ne_nil_of_mem hl)
        have hline := hlines line List.mem_cons_self
        have hlater := fun l hl => hlines l (List.mem_cons_of_mem _ hl)
        have hcomplete : c.readBuffer ++ [newline] = ended line ∧ s = listing lines := by
          have htext' : (c.readBuffer ++ [newline]) ++ s = ended line ++ listing lines := by
            rw [List.append_assoc]
            exact htext
          rcases listing_split hline htext' with ⟨hnot, -⟩ | ⟨x, hx, hrest⟩
          · exact absurd (by simp) hnot
          · have hnil : x = [] := by
              by_contra hne
              have hdrop := congrArg List.dropLast hx
              rw [List.dropLast_concat, List.dropLast_append_of_ne_nil hne] at hdrop
              exact absurd (by rw [hdrop]; simp [ended]) hbuffer
            rw [hnil, List.append_nil] at hx
            rw [hnil] at hrest
            exact ⟨hx, hrest⟩
        have hshort : Short line := by
          have hlength := congrArg List.length hcomplete.1
          rw [List.length_append, ended, List.length_append] at hlength
          simp only [List.length_cons, List.length_nil] at hlength
          rw [Short]
          omega
        have hlong' : ∃ l ∈ lines, ¬Short l := by
          obtain ⟨l, hl, hnot⟩ := hlong
          rcases List.mem_cons.mp hl with rfl | hl
          · exact absurd hshort hnot
          · exact ⟨l, hl, hnot⟩
        rw [hcomplete.1]
        obtain ⟨fuel, rfl⟩ : ∃ n, fuel = n + 1 := ⟨fuel - 1, by rw [List.length_cons] at hfuel; omega⟩
        cases he : onParseLine line with
        | some e =>
          have hlength : (ended line).length = line.length + 1 + 1 := by
            rw [ended, List.length_append]
            rfl
          rw [enumLoop]
          dsimp only
          rw [hlength, parseLines, takeLine_alone hline]
          dsimp only
          rw [he]
          exact Or.inr ⟨lines, s, Nat.lt_succ_self _, hlater, hlong', rfl, rfl, hcomplete.2, htransport⟩
        | none =>
          rw [enumLoop_skip hline he]
          have hfuel' : s.length < fuel + 1 := by
            rw [List.length_cons] at hfuel
            omega
          have hlong'' := enumLoop_long onParseLine (c := { c with readBuffer := [], data := singles s }) hlater
            hlong' hfuel' rfl List.not_mem_nil hcomplete.2 htransport
          rcases hlong'' with hthrew | ⟨later, s', hless, hrest⟩
          · exact Or.inl hthrew
          · exact Or.inr ⟨later, s', Nat.lt_succ_of_lt hless, hrest⟩
      · have hfuel' : s.length < fuel := by
          rw [List.length_cons] at hfuel
          omega
        have hbuffer' : newline ∉ c.readBuffer ++ [b] := by
          rw [List.mem_append, List.mem_singleton]
          exact fun h => h.elim hbuffer fun h => hb h.symm
        exact enumLoop_long onParseLine (c := { c with readBuffer := c.readBuffer ++ [b], data := singles s }) hlines
          hlong hfuel' rfl hbuffer' (by rw [List.append_assoc]; exact htext) htransport

/-- **A line that is too long makes `Enum` throw**, where the bytes come alone. -/
theorem enums_long (onParseLine : List Byte → Option Entry) :
    ∀ {lines : List (List Byte)} {c : FTPDataCommand Entry} {s : List Byte},
    (∀ l ∈ lines, Plain l) → (∃ l ∈ lines, ¬Short l) → c.data = singles s → c.readBuffer = [] →
    s = listing lines → c.dataTransport = true →
    ∃ m, .threw ∈ ((enum onParseLine)^[m] c).log := by
  intro lines
  induction hn : lines.length using Nat.strongRecOn generalizing lines with
  | ind n ih =>
    intro c s hlines hlong hdata hbuffer htext htransport
    have henum : enum onParseLine c = enumLoop onParseLine (toCome c.data + 1) c := by
      rw [enum, htransport, if_pos rfl]
    have hfuel : s.length < toCome c.data + 1 := by
      rw [hdata, toCome_singles]
      exact Nat.lt_succ_self _
    rcases enumLoop_long onParseLine hlines hlong hfuel hdata (by rw [hbuffer]; exact List.not_mem_nil)
        (by rw [hbuffer]; exact htext) htransport with
      hthrew | ⟨later, s', hless, hlater, hlong', hdata', hbuffer', htext', htransport'⟩
    · exact ⟨1, by rw [Function.iterate_one, henum]; exact hthrew⟩
    · rw [← henum] at hdata' hbuffer' htransport'
      obtain ⟨m, hm⟩ := ih later.length (hn ▸ hless) rfl hlater hlong' hdata' hbuffer' htext' htransport'
      exact ⟨m + 1, hm⟩

end Far2l.NetRocks.FTPDataCommand
