/-
Far2l.NetRocks.FTPDataCommandTheorems — what the members of a data command tell
about its connections.

The final reply is read once, whatever the members do, and its code is looked
at by nobody. What `Recv` returns is not looked at by `Read`, and by `Enum` only
for being positive.
-/
import Far2l.NetRocks.FTPDataCommand

namespace Far2l.NetRocks

/-! ## Replies -/

/-- `'0' + d` -/
def digit (d : Nat) : Byte := UInt8.ofNat (0x30 + d)

/-- The three digits of a code. -/
def digits (code : Nat) : List Byte := [digit (code / 100), digit (code / 10 % 10), digit (code % 10)]

/-- **A reply**: its last line begins with the code and a space; a reply of more lines begins with
the code and a hyphen, and the lines between do not begin as the last one does. -/
structure FinalReply where
  code : Nat
  /-- The text of the first line, and the lines between. -/
  opening : Option (List Byte × List (List Byte))
  text : List Byte
  code_lt : code < 1000
  text_line : newline ∉ text
  opening_line : ∀ o ∈ opening, newline ∉ o.1
  between_line : ∀ o ∈ opening, ∀ line ∈ o.2, newline ∉ line
  between_last : ∀ o ∈ opening, ∀ line ∈ o.2, ¬ digits code ++ [0x20] <+: line

namespace FinalReply

/-- The lines before the last one. -/
def openingBytes (r : FinalReply) : List Byte :=
  match r.opening with
  | none => []
  | some (first, between) =>
      digits r.code ++ 0x2D :: first ++ newline :: between.flatMap (· ++ [newline])

/-- The last line. -/
def lastLine (r : FinalReply) : List Byte := digits r.code ++ 0x20 :: r.text

def bytes (r : FinalReply) : List Byte := r.openingBytes ++ r.lastLine ++ [newline]

end FinalReply

/-- A line is read up to its end. -/
theorem recvResponse_line {cnt ofs : Nat} {mtch control : List Byte} :
    ∀ {line str : List Byte}, newline ∉ line → str.length + line.length ≤ MAX_RESPONSE →
      recvResponse str cnt ofs mtch (line ++ newline :: control)
        = recvResponse (str ++ line) cnt ofs mtch (newline :: control)
  | [], str, _, _ => by rw [List.nil_append, List.append_nil]
  | ch :: line, str, hline, hsize => by
    rw [List.mem_cons, not_or] at hline
    rw [List.length_cons] at hsize
    have hsize' : (str ++ [ch]).length + line.length ≤ MAX_RESPONSE := by
      rw [List.length_append, List.length_singleton]
      omega
    rw [List.cons_append, recvResponse, if_neg (by omega)]
    dsimp only
    rw [if_pos (Ne.symm hline.1), recvResponse_line hline.2 hsize', List.append_assoc,
      List.singleton_append]

theorem digitValue_digit {d : Nat} (h : d < 10) : digitValue (digit d) = some d := by
  have hd : d = 0 ∨ d = 1 ∨ d = 2 ∨ d = 3 ∨ d = 4 ∨ d = 5 ∨ d = 6 ∨ d = 7 ∨ d = 8 ∨ d = 9 := by omega
  rcases hd with rfl | rfl | rfl | rfl | rfl | rfl | rfl | rfl | rfl | rfl <;> rfl

/-- A digit begins a number. -/
theorem atoi_digit {d : Nat} (h : d < 10) (s : List Byte) :
    atoi (digit d :: s) = digitsValue 0 (digit d :: s) % 2 ^ 32 := by
  have hd : d = 0 ∨ d = 1 ∨ d = 2 ∨ d = 3 ∨ d = 4 ∨ d = 5 ∨ d = 6 ∨ d = 7 ∨ d = 8 ∨ d = 9 := by omega
  rcases hd with rfl | rfl | rfl | rfl | rfl | rfl | rfl | rfl | rfl | rfl <;> rfl

/-- A line that begins with a code has its number. -/
theorem atoi_digits {code : Nat} (h : code < 1000) {ch : Byte} (hch : digitValue ch = none)
    (s : List Byte) : atoi (digits code ++ ch :: s) = code := by
  have hfirst := digitValue_digit (show code / 100 < 10 by omega)
  have hsecond := digitValue_digit (show code / 10 % 10 < 10 by omega)
  have hthird := digitValue_digit (show code % 10 < 10 by omega)
  rw [digits, List.cons_append, List.cons_append, List.cons_append, List.nil_append,
    atoi_digit (by omega)]
  simp only [digitsValue, hfirst, hsecond, hthird, hch]
  have htens : code / 10 / 10 = code / 100 := Nat.div_div_eq_div_mul code 10 10
  have hvalue : 10 * (10 * (10 * 0 + code / 100) + code / 10 % 10) + code % 10 = code := by omega
  rw [hvalue, Nat.mod_eq_of_lt (by omega)]

/-- The end of a line that is neither the first nor the last one. -/
theorem recvResponse_between {str line mtch control : List Byte} {cnt : Nat} (hcnt : 0 < cnt)
    (hline : newline ∉ line) (hno : newline ∉ mtch) (hlast : ¬ mtch <+: line)
    (hsize : str.length + line.length ≤ MAX_RESPONSE) :
    recvResponse str cnt str.length mtch (line ++ newline :: control)
      = recvResponse (str ++ (line ++ [newline])) (cnt + 1) (str ++ (line ++ [newline])).length mtch
          control := by
  have hdrop : (str ++ line ++ [newline]).drop str.length = line ++ [newline] := by
    rw [List.append_assoc, List.drop_left]
  have htake : (line ++ [newline]).take 4 ≠ mtch := by
    intro heq
    have hprefix : mtch <+: line ++ [newline] := heq ▸ List.take_prefix _ _
    rcases List.prefix_concat_iff.mp hprefix with heq | hprefix
    · rw [heq, List.mem_append] at hno
      exact hno (.inr (List.mem_singleton_self _))
    · exact hlast hprefix
  have hlen : (str ++ line).length ≤ MAX_RESPONSE := by
    rw [List.length_append]
    exact hsize
  rw [recvResponse_line hline hsize, recvResponse, if_neg (by omega)]
  dsimp only
  rw [if_neg (fun h => h rfl), if_neg (by omega), hdrop, if_neg (by
    rintro (h | ⟨-, h⟩)
    · omega
    · exact htake h)]
  have hp : (str ++ line ++ [newline]).length - 1 + 1 = (str ++ (line ++ [newline])).length := by
    rw [List.append_assoc]
    refine Nat.sub_add_cancel ?_
    rw [List.length_append, List.length_append, List.length_singleton]
    omega
  rw [hp, List.append_assoc]

/-- All lines between the first and the last one. -/
theorem recvResponse_betweens {mtch control : List Byte} (hmtch : mtch.length = 4)
    (hno : newline ∉ mtch) :
    ∀ {between : List (List Byte)} {str : List Byte} {cnt : Nat}, 0 < cnt →
      (∀ line ∈ between, newline ∉ line ∧ ¬ mtch <+: line) →
      (str ++ between.flatMap (· ++ [newline])).length ≤ MAX_RESPONSE →
      recvResponse str cnt str.length mtch (between.flatMap (· ++ [newline]) ++ control)
        = recvResponse (str ++ between.flatMap (· ++ [newline])) (cnt + between.length)
            (str ++ between.flatMap (· ++ [newline])).length mtch control
  | [], str, cnt, _, _, _ => by
    rw [List.flatMap_nil, List.nil_append, List.append_nil, List.length_nil, Nat.add_zero]
  | line :: between, str, cnt, hcnt, hlines, hsize => by
    obtain ⟨⟨hline, hlast⟩, hrest⟩ := List.forall_mem_cons.mp hlines
    rw [List.flatMap_cons] at hsize ⊢
    have hlen : str.length + line.length ≤ MAX_RESPONSE := by
      rw [List.length_append, List.length_append, List.length_append] at hsize
      omega
    have hstep : ∀ control', recvResponse str cnt str.length mtch (line ++ newline :: control') = _ :=
      fun control' => recvResponse_between hcnt hline hno hlast hlen
    have hsplit : line ++ [newline] ++ between.flatMap (· ++ [newline]) ++ control
        = line ++ newline :: (between.flatMap (· ++ [newline]) ++ control) := by
      simp only [List.append_assoc, List.cons_append, List.nil_append]
    rw [← List.append_assoc] at hsize
    rw [hsplit, hstep, recvResponse_betweens hmtch hno (Nat.succ_pos _) hrest hsize,
      List.append_assoc, List.length_cons]
    congr 1
    omega

/-- `ddd ` -/
theorem newline_not_mem_digits (code : Nat) (h : code < 1000) (ch : Byte) (hch : ch ≠ newline) :
    newline ∉ digits code ++ [ch] := by
  have hdigit : ∀ d < 10, digit d ≠ newline := by decide
  intro hmem
  simp only [digits, List.cons_append, List.nil_append, List.mem_cons, List.not_mem_nil,
    or_false] at hmem
  rcases hmem with hmem | hmem | hmem | hmem
  · exact hdigit _ (by omega) hmem.symm
  · exact hdigit _ (by omega) hmem.symm
  · exact hdigit _ (by omega) hmem.symm
  · exact hch hmem.symm

/-- The last line gives the code. -/
theorem recvResponse_last (r : FinalReply) {str mtch control : List Byte} {cnt : Nat}
    (hmtch : cnt = 0 ∨ mtch = digits r.code ++ [0x20]) (hcode : str = [] ∨ ∃ s, str = digits r.code ++ 0x2D :: s)
    (hsize : (str ++ r.lastLine).length ≤ MAX_RESPONSE) :
    recvResponse str cnt str.length mtch (r.lastLine ++ newline :: control)
      = (some r.code, control) := by
  have hline : newline ∉ r.lastLine := by
    have hfront := newline_not_mem_digits r.code r.code_lt 0x20 (by decide)
    intro hmem
    have hsplit : r.lastLine = digits r.code ++ [0x20] ++ r.text := by
      rw [FinalReply.lastLine, List.append_assoc, List.singleton_append]
    rw [hsplit, List.mem_append] at hmem
    rcases hmem with hmem | hmem
    · exact hfront hmem
    · exact r.text_line hmem
  have hlen : str.length + r.lastLine.length ≤ MAX_RESPONSE := by
    rwa [List.length_append] at hsize
  have hdigits : (digits r.code).length = 3 := rfl
  have hlast : r.lastLine.length = 4 + r.text.length := by
    rw [FinalReply.lastLine, List.length_append, hdigits, List.length_cons]
    omega
  have hdrop : (str ++ r.lastLine ++ [newline]).drop str.length = r.lastLine ++ [newline] := by
    rw [List.append_assoc, List.drop_left]
  have htake : (r.lastLine ++ [newline]).take 4 = digits r.code ++ [0x20] := rfl
  have hatoi : atoi (r.lastLine ++ [newline]) = r.code := by
    rw [FinalReply.lastLine, List.append_assoc, List.cons_append]
    exact atoi_digits r.code_lt rfl _
  have hplain : (str ++ r.lastLine ++ [newline])[str.length + 3]? = some 0x20 := by
    rw [List.append_assoc, List.getElem?_append_right (Nat.le_add_right _ _),
      Nat.add_sub_cancel_left]
    rfl
  have hp : (str ++ r.lastLine ++ [newline]).length - 1 = str.length + r.lastLine.length := by
    rw [List.length_append, List.length_append, List.length_singleton]
    omega
  have hends : cnt + 1 = 1 ∨ (str.length + r.lastLine.length ≥ 4 ∧ digits r.code ++ [0x20] = mtch) := by
    rcases hmtch with hcnt | hmtch
    · exact .inl (congrArg (· + 1) hcnt)
    · exact .inr ⟨by omega, hmtch.symm⟩
  rw [recvResponse_line hline hlen, recvResponse, if_neg (by omega)]
  dsimp only
  rw [if_neg (fun h => h rfl), hplain, if_neg (fun h => absurd h.2.2 (by decide)), hdrop, htake, hp,
    if_pos hends, hatoi]
  split
  · next hzero =>
    -- The number is asked for again, from the beginning of the reply.
    rcases hcode with rfl | ⟨s, rfl⟩
    · rw [List.nil_append, hatoi]
    · have hagain : atoi (digits r.code ++ 0x2D :: s ++ r.lastLine ++ [newline]) = r.code := by
        rw [List.append_assoc, List.append_assoc, List.cons_append]
        exact atoi_digits r.code_lt rfl _
      rw [hagain]
  · rfl

/-- The first line of a reply of more lines. -/
theorem recvResponse_first {code : Nat} (hcode : code < 1000) {first control : List Byte}
    (hfirst : newline ∉ first) (hsize : (digits code ++ 0x2D :: first).length ≤ MAX_RESPONSE) :
    recvResponse [] 0 0 [] (digits code ++ 0x2D :: first ++ newline :: control)
      = recvResponse (digits code ++ 0x2D :: first ++ [newline]) 1
          (digits code ++ 0x2D :: first ++ [newline]).length (digits code ++ [0x20]) control := by
  have hline : newline ∉ digits code ++ 0x2D :: first := by
    have hfront := newline_not_mem_digits code hcode 0x2D (by decide)
    intro hmem
    have hsplit : digits code ++ 0x2D :: first = digits code ++ [0x2D] ++ first := by
      rw [List.append_assoc, List.singleton_append]
    rw [hsplit, List.mem_append] at hmem
    rcases hmem with hmem | hmem
    · exact hfront hmem
    · exact hfirst hmem
  have hlength : (digits code ++ 0x2D :: first ++ [newline]).length = first.length + 5 := by
    have hdigits : (digits code).length = 3 := rfl
    rw [List.length_append, List.length_append, hdigits, List.length_cons, List.length_singleton]
    omega
  have hlen : ([] : List Byte).length + (digits code ++ 0x2D :: first).length ≤ MAX_RESPONSE := by
    rw [List.length_nil, Nat.zero_add]
    exact hsize
  rw [recvResponse_line hline hlen, List.nil_append, recvResponse, if_neg (by omega)]
  dsimp only
  rw [if_neg (fun h => h rfl), if_pos ⟨rfl, by omega, rfl⟩, hlength]
  rfl

/-- **A reply is read whole, and nothing behind it.** -/
theorem recvResponseFromTransport_bytes (r : FinalReply)
    (hsize : r.bytes.length ≤ MAX_RESPONSE + 1) (later : List Byte) :
    recvResponseFromTransport (r.bytes ++ later) = (some r.code, later) := by
  rw [FinalReply.bytes, List.length_append, List.length_singleton] at hsize
  have hwhole : (r.openingBytes ++ r.lastLine).length ≤ MAX_RESPONSE := Nat.le_of_succ_le_succ hsize
  rw [recvResponseFromTransport, FinalReply.bytes]
  rw [FinalReply.openingBytes] at hwhole ⊢
  cases hopening : r.opening with
  | none =>
    rw [hopening] at hwhole
    dsimp only at hwhole ⊢
    rw [List.nil_append, List.append_assoc, List.singleton_append]
    exact recvResponse_last r (.inl rfl) (.inl rfl) hwhole
  | some o =>
    obtain ⟨first, between⟩ := o
    rw [hopening] at hwhole
    dsimp only at hwhole ⊢
    have hsplit : digits r.code ++ 0x2D :: first ++ newline :: between.flatMap (· ++ [newline])
          ++ r.lastLine ++ [newline] ++ later
        = digits r.code ++ 0x2D :: first ++ newline :: (between.flatMap (· ++ [newline])
          ++ (r.lastLine ++ newline :: later)) := by
      simp only [List.append_assoc, List.cons_append, List.nil_append]
    have hfront : digits r.code ++ 0x2D :: first ++ newline :: between.flatMap (· ++ [newline])
        = digits r.code ++ 0x2D :: first ++ [newline] ++ between.flatMap (· ++ [newline]) := by
      simp only [List.append_assoc, List.cons_append, List.nil_append]
    rw [hfront] at hwhole
    have hbetweens : (digits r.code ++ 0x2D :: first ++ [newline]
        ++ between.flatMap (· ++ [newline])).length ≤ MAX_RESPONSE := by
      rw [List.length_append] at hwhole
      exact Nat.le_of_add_right_le hwhole
    have hfirst : (digits r.code ++ 0x2D :: first).length ≤ MAX_RESPONSE := by
      rw [List.length_append, List.length_append] at hbetweens
      omega
    have hlines : ∀ line ∈ between, newline ∉ line ∧ ¬ digits r.code ++ [0x20] <+: line :=
      fun line hline => ⟨r.between_line _ hopening line hline, r.between_last _ hopening line hline⟩
    have hbegins : ∃ s, digits r.code ++ 0x2D :: first ++ [newline] ++ between.flatMap (· ++ [newline])
        = digits r.code ++ 0x2D :: s := by
      refine ⟨first ++ [newline] ++ between.flatMap (· ++ [newline]), ?_⟩
      simp only [List.append_assoc, List.cons_append]
    rw [hsplit, recvResponse_first r.code_lt (r.opening_line _ hopening) hfirst,
      recvResponse_betweens rfl (newline_not_mem_digits r.code r.code_lt 0x20 (by decide))
        Nat.one_pos hlines hbetweens]
    exact recvResponse_last r (.inr rfl) (.inr hbegins) hwhole

/-- No more is read than a reply may have. -/
theorem recvResponse_le {str mtch : List Byte} {cnt ofs : Nat} :
    ∀ {control : List Byte},
      control.length ≤ (recvResponse str cnt ofs mtch control).2.length
        + (MAX_RESPONSE + 1 - str.length)
  | [] => Nat.zero_le _
  | ch :: control => by
    rw [recvResponse]
    split
    · exact Nat.le_add_right _ _
    · next hsize =>
      have hgrown : (str ++ [ch]).length = str.length + 1 := by
        rw [List.length_append, List.length_singleton]
      have hstep : ∀ {rest : List Byte},
          control.length ≤ rest.length + (MAX_RESPONSE + 1 - (str ++ [ch]).length) →
          (ch :: control).length ≤ rest.length + (MAX_RESPONSE + 1 - str.length) := by
        intro rest h
        rw [hgrown] at h
        rw [List.length_cons]
        omega
      dsimp only
      split
      · exact hstep recvResponse_le
      · split
        · exact hstep recvResponse_le
        · split
          · exact hstep (Nat.le_add_right _ _)
          · exact hstep recvResponse_le

/-- A reply that is longer is not read whole. -/
theorem recvResponseFromTransport_long (r : FinalReply) (hsize : MAX_RESPONSE + 1 < r.bytes.length)
    (later : List Byte) : (recvResponseFromTransport (r.bytes ++ later)).2 ≠ later := by
  intro heq
  have hle : (r.bytes ++ later).length ≤ (recvResponseFromTransport (r.bytes ++ later)).2.length
      + (MAX_RESPONSE + 1 - ([] : List Byte).length) := recvResponse_le
  rw [heq, List.length_append, List.length_nil] at hle
  omega

namespace FTPDataCommand

variable {Entry : Type} {c : FTPDataCommand Entry} {control : List Byte} {inOrder : Bool}

/-- Success of a command. -/
def Positive (code : Nat) : Prop := 200 ≤ code ∧ code ≤ 299

/-- **What an event may hide**: nothing. `Read` returns how much has come, and not where the
connection has failed; success is told where the final reply was positive, and the end of a
directory where the connection was also closed in order. -/
def Honest (c : FTPDataCommand Entry) : Event Entry → Prop
  | .read len received connected returned =>
      connected = true ∧ returned = received.length ∧ returned ≤ len
  | .writeComplete => ∃ code, c.finalReply = some code ∧ Positive code
  | .noMore => c.endListed = true ∧ c.data.inOrder = true
      ∧ ∃ code, c.finalReply = some code ∧ Positive code
  | _ => True

/-! ## The control connection -/

/-- **The final reply is read once**: it is still to come as long as there is a connection to read
it from. -/
structure Linked (control : List Byte) (c : FTPDataCommand Entry) : Prop where
  pending : c.conn = true → c.control = control ∧ c.finalReply = none
  consumed : c.conn = false → c.control = (recvResponseFromTransport control).2
    ∧ c.finalReply = (recvResponseFromTransport control).1

/-- What has been finalized. -/
def finalized (control : List Byte) (c : FTPDataCommand Entry) : FTPDataCommand Entry :=
  { c with
    dataTransport := false
    conn := false
    control := (recvResponseFromTransport control).2
    finalReply := (recvResponseFromTransport control).1 }

theorem Linked.ensureFinalized (h : c.Linked control) :
    c.ensureFinalized.2 = finalized control c := by
  obtain ⟨conn, dataTransport, readBuffer, data, control', finalReply, endRead, endListed,
    completing, log⟩ := c
  cases conn with
  | true =>
    obtain ⟨hcontrol, hreply⟩ := h.pending rfl
    dsimp only at hcontrol hreply
    subst hcontrol hreply
    rw [FTPDataCommand.ensureFinalized, finalized]
    dsimp only
    rw [if_pos rfl]
    generalize recvResponseFromTransport control' = answer
    obtain ⟨code, rest⟩ := answer
    cases code with
    | none => rfl
    | some code => rfl
  | false =>
    obtain ⟨hcontrol, hreply⟩ := h.consumed rfl
    dsimp only at hcontrol hreply
    subst hcontrol hreply
    rfl

/-- It does not throw where there is a reply. -/
theorem Linked.ensureFinalized_ok (h : c.Linked control) {code : Nat}
    (hcode : (recvResponseFromTransport control).1 = some code) : c.ensureFinalized.1 = true := by
  rw [FTPDataCommand.ensureFinalized]
  dsimp only
  split
  · next hconn =>
    rw [(h.pending hconn).1]
    generalize recvResponseFromTransport control = answer at hcode
    obtain ⟨code', rest⟩ := answer
    dsimp only at hcode
    subst hcode
    rfl
  · rfl

theorem Linked.destroy (h : c.Linked control) :
    c.destroy.control = (recvResponseFromTransport control).2 := by
  rw [FTPDataCommand.destroy, h.ensureFinalized]
  rfl

/-! ## `Recv` -/

theorem recv_inOrder (d : DataConnection) (len : Nat) : (d.recv len).2.2.inOrder = d.inOrder := by
  rw [DataConnection.recv]
  split
  · rfl
  · split
    · rfl
    · rfl

/-- What `Recv` returns is how much it has received, but for a failure. -/
theorem recv_spec (d : DataConnection) (len : Nat) :
    (0 ≤ (d.recv len).1 → (d.recv len).1 = (d.recv len).2.1.length ∧ (d.recv len).2.1.length ≤ len)
    ∧ ((d.recv len).1 < 0 ↔ d.pieces.isEmpty = true ∧ d.inOrder = false) := by
  rw [DataConnection.recv]
  cases hpieces : d.pieces with
  | nil =>
    dsimp only
    cases hin : d.inOrder with
    | true =>
      exact ⟨fun _ => ⟨rfl, Nat.zero_le _⟩, fun h => absurd h (by decide), fun h => Bool.noConfusion h.2⟩
    | false => exact ⟨fun h => absurd h (by decide), fun _ => ⟨rfl, rfl⟩, fun _ => by decide⟩
  | cons piece pieces =>
    dsimp only
    split
    · next hrest =>
      refine ⟨fun _ => ⟨rfl, List.drop_eq_nil_iff.mp hrest⟩, fun h => absurd h (by dsimp only; omega),
        fun h => Bool.noConfusion h.1⟩
    · next hrest =>
      have hlen : len ≤ piece.val.length := by
        have hnot := mt List.drop_eq_nil_iff.mpr hrest
        omega
      dsimp only
      rw [List.length_take, Nat.min_eq_left hlen]
      exact ⟨fun _ => ⟨rfl, Nat.le_refl _⟩, fun h => absurd h (by omega),
        fun h => Bool.noConfusion h.1⟩

/-! ## Files -/

/-- **What has happened to a file**, where the final reply is there. -/
structure FileRun (control : List Byte) (inOrder : Bool) (c : FTPDataCommand Entry) : Prop where
  linked : c.Linked control
  inOrder_eq : c.data.inOrder = inOrder
  completing : c.completing = true → c.conn = false ∧ .writeComplete ∈ c.log
  log_complete : .writeComplete ∈ c.log → c.conn = false ∧ c.completing = true
  log_noMore : .noMore ∉ c.log
  log_read : ∀ len received connected returned, .read len received connected returned ∈ c.log →
    (connected = true → returned = received.length ∧ returned ≤ len)
    ∧ (connected = false → c.endRead = true ∧ inOrder = false)
  failed : c.endRead = true → inOrder = false →
    ∃ len received returned, .read len received false returned ∈ c.log

theorem FileRun.read (h : c.FileRun control inOrder) {len : Nat} (hlen : len < 2 ^ 64) :
    (c.read len).FileRun control inOrder := by
  obtain ⟨hok, hfail⟩ := recv_spec c.data len
  have hsame := recv_inOrder c.data len
  rw [FTPDataCommand.read]
  generalize c.data.recv len = got at hok hfail hsame
  obtain ⟨r, received, data⟩ := got
  dsimp only at hok hfail hsame ⊢
  rw [logged]
  have hreturned : 0 ≤ r → (r % 2 ^ 64).toNat = received.length := by
    intro hr
    obtain ⟨heq, hle⟩ := hok hr
    omega
  refine ⟨⟨h.linked.pending, h.linked.consumed⟩, hsame.trans h.inOrder_eq, ?_, ?_, ?_, ?_, ?_⟩
  · intro hcompleting
    obtain ⟨hconn, hlog⟩ := h.completing hcompleting
    exact ⟨hconn, List.mem_append_left _ hlog⟩
  · intro hlog
    rcases List.mem_append.mp hlog with hlog | hlog
    · exact h.log_complete hlog
    · exact nomatch List.mem_singleton.mp hlog
  · intro hlog
    rcases List.mem_append.mp hlog with hlog | hlog
    · exact h.log_noMore hlog
    · exact nomatch List.mem_singleton.mp hlog
  · intro len' received' connected' returned' hlog
    rcases List.mem_append.mp hlog with hlog | hlog
    · obtain ⟨hconnected, hfailed⟩ := h.log_read _ _ _ _ hlog
      refine ⟨hconnected, fun hnot => ?_⟩
      obtain ⟨hend, hin⟩ := hfailed hnot
      exact ⟨by rw [hend]; rfl, hin⟩
    · obtain ⟨rfl, rfl, rfl, rfl⟩ := Event.read.inj (List.mem_singleton.mp hlog)
      constructor
      · intro hconnected
        have hr := of_decide_eq_true hconnected
        rw [hreturned hr]
        exact ⟨rfl, (hok hr).2⟩
      · intro hconnected
        have hr := of_decide_eq_false hconnected
        obtain ⟨hempty, hin⟩ := hfail.mp (by omega)
        exact ⟨by rw [hempty, Bool.or_true], h.inOrder_eq ▸ hin⟩
  · intro hend hin
    rw [Bool.or_eq_true] at hend
    rcases hend with hend | hempty
    · obtain ⟨len', received', returned', hlog⟩ := h.failed hend hin
      exact ⟨len', received', returned', List.mem_append_left _ hlog⟩
    · have hr := hfail.mpr ⟨hempty, h.inOrder_eq.trans hin⟩
      have hconnected : decide (0 ≤ r) = false := decide_eq_false (by omega)
      refine ⟨len, received, (r % 2 ^ 64).toNat, List.mem_append_right _ ?_⟩
      rw [hconnected]
      exact List.mem_singleton_self _

/-- An event that tells nothing is added. -/
theorem FileRun.logged (h : c.FileRun control inOrder) {e : Event Entry}
    (he : e = .write ∨ e = .threw) : (c.logged e).FileRun control inOrder := by
  have hold : ∀ {e' : Event Entry}, e' ≠ .write → e' ≠ .threw → e' ∈ c.log ++ [e] → e' ∈ c.log := by
    intro e' hwrite hthrew hlog
    rcases List.mem_append.mp hlog with hlog | hlog
    · exact hlog
    · rw [List.mem_singleton.mp hlog] at hwrite hthrew
      rcases he with he | he
      · exact absurd he hwrite
      · exact absurd he hthrew
  refine ⟨⟨h.linked.pending, h.linked.consumed⟩, h.inOrder_eq, ?_, ?_, ?_, ?_, ?_⟩
  · intro hcompleting
    obtain ⟨hconn, hlog⟩ := h.completing hcompleting
    exact ⟨hconn, List.mem_append_left _ hlog⟩
  · exact fun hlog => h.log_complete (hold nofun nofun hlog)
  · exact fun hlog => h.log_noMore (hold nofun nofun hlog)
  · exact fun _ _ _ _ hlog => h.log_read _ _ _ _ (hold nofun nofun hlog)
  · intro hend hin
    obtain ⟨len, received, returned, hlog⟩ := h.failed hend hin
    exact ⟨len, received, returned, List.mem_append_left _ hlog⟩

theorem FileRun.writeComplete (h : c.FileRun control inOrder) {code : Nat}
    (hcode : (recvResponseFromTransport control).1 = some code) :
    c.writeComplete.FileRun control inOrder := by
  have hlinked : ({ c with completing := true } : FTPDataCommand Entry).Linked control :=
    ⟨h.linked.pending, h.linked.consumed⟩
  have hfinal := hlinked.ensureFinalized
  have hok := hlinked.ensureFinalized_ok hcode
  rw [FTPDataCommand.writeComplete]
  generalize ({ c with completing := true } : FTPDataCommand Entry).ensureFinalized = done at hfinal hok
  obtain ⟨ok, c'⟩ := done
  dsimp only at hfinal hok ⊢
  subst hfinal hok
  rw [if_pos rfl, FTPDataCommand.logged, finalized]
  refine ⟨⟨fun h => Bool.noConfusion h, fun _ => ⟨rfl, rfl⟩⟩, h.inOrder_eq,
    fun _ => ⟨rfl, List.mem_append_right _ (List.mem_singleton_self _)⟩, fun _ => ⟨rfl, rfl⟩,
    ?_, ?_, ?_⟩
  · intro hlog
    rcases List.mem_append.mp hlog with hlog | hlog
    · exact h.log_noMore hlog
    · exact nomatch List.mem_singleton.mp hlog
  · intro len received connected returned hlog
    rcases List.mem_append.mp hlog with hlog | hlog
    · exact h.log_read _ _ _ _ hlog
    · exact nomatch List.mem_singleton.mp hlog
  · intro hend hin
    obtain ⟨len, received, returned, hlog⟩ := h.failed hend hin
    exact ⟨len, received, returned, List.mem_append_left _ hlog⟩

theorem FileRun.perform (h : c.FileRun control inOrder) {code : Nat}
    (hcode : (recvResponseFromTransport control).1 = some code) {op : FileOp} (hcan : c.CanFile op) :
    (c.performFile op).FileRun control inOrder := by
  cases op with
  | read len => exact h.read hcan.2
  | write sent =>
    refine h.logged ?_
    cases sent with
    | true => exact .inl rfl
    | false => exact .inr rfl
  | writeComplete => exact h.writeComplete hcode

/-- **What a file tells is honest** if and only if `Read` has not met a failure, and `WriteComplete`
is called only for a reply that is positive. -/
theorem FileRun.honest_iff (h : c.FileRun control inOrder) {code : Nat}
    (hcode : (recvResponseFromTransport control).1 = some code) :
    (∀ e ∈ c.log, c.Honest e)
      ↔ (c.endRead = true → inOrder = true) ∧ (c.completing = true → Positive code) := by
  constructor
  · intro hall
    refine ⟨fun hend => ?_, fun hcompleting => ?_⟩
    · cases hin : inOrder with
      | true => rfl
      | false =>
        obtain ⟨len, received, returned, hlog⟩ := h.failed hend hin
        exact absurd (hall _ hlog).1 Bool.false_ne_true
    · obtain ⟨hconn, hlog⟩ := h.completing hcompleting
      obtain ⟨code', hreply, hpositive⟩ := hall _ hlog
      rw [(h.linked.consumed hconn).2, hcode] at hreply
      rwa [Option.some.inj hreply]
  · rintro ⟨hend, hcompleting⟩ e he
    cases e with
    | read len received connected returned =>
      obtain ⟨hconnected, hfailed⟩ := h.log_read _ _ _ _ he
      cases connected with
      | true => exact ⟨rfl, hconnected rfl⟩
      | false =>
        obtain ⟨hmet, hin⟩ := hfailed rfl
        exact absurd (hin.symm.trans (hend hmet)) Bool.false_ne_true
    | writeComplete =>
      obtain ⟨hconn, hcalled⟩ := h.log_complete he
      exact ⟨code, (h.linked.consumed hconn).2.trans hcode, hcompleting hcalled⟩
    | noMore => exact absurd he h.log_noMore
    | write => trivial
    | entry _ => trivial
    | threw => trivial

/-! ## Directories -/

variable {onParseLine : List Byte → Option Entry}

/-- A turn of the loop that receives something leaves less to come. -/
theorem toCome_recv {d : DataConnection} {len : Nat} (h : 0 < (d.recv len).1) :
    toCome (d.recv len).2.2 < toCome d := by
  rw [DataConnection.recv] at h ⊢
  rw [toCome, toCome]
  cases hpieces : d.pieces with
  | nil =>
    rw [hpieces] at h
    dsimp only at h
    split at h
    · exact absurd h (by decide)
    · exact absurd h (by decide)
  | cons piece pieces =>
    rw [hpieces] at h
    have hpos := List.length_pos_iff.mpr piece.property
    dsimp only at h ⊢
    split at h
    · next hrest =>
      rw [dif_pos hrest, List.map_cons, List.sum_cons]
      dsimp only
      omega
    · next hrest =>
      have hlen : len ≤ piece.val.length := by
        have hnot := mt List.drop_eq_nil_iff.mpr hrest
        omega
      rw [dif_neg hrest]
      dsimp only at h ⊢
      rw [List.map_cons, List.sum_cons, List.map_cons, List.sum_cons, List.length_drop]
      omega

/-- **What has happened to a directory**, where the final reply is there. -/
structure EnumRun (control : List Byte) (inOrder : Bool) (c : FTPDataCommand Entry) : Prop where
  linked : c.Linked control
  inOrder_eq : c.data.inOrder = inOrder
  transport : c.dataTransport = false → c.endListed = true
  ended : c.endListed = true → c.conn = false ∧ .noMore ∈ c.log
  log_noMore : .noMore ∈ c.log → c.conn = false ∧ c.endListed = true
  log_other : ∀ e ∈ c.log, (∃ x, e = .entry x) ∨ e = .noMore ∨ e = .threw

/-- An entry or an exception is told. -/
theorem EnumRun.logged (h : c.EnumRun control inOrder) {buffer : List Byte} {e : Event Entry}
    (he : (∃ x, e = .entry x) ∨ e = .threw) :
    (({ c with readBuffer := buffer } : FTPDataCommand Entry).logged e).EnumRun control inOrder := by
  have hnot : e ≠ .noMore := by
    rcases he with ⟨x, rfl⟩ | rfl
    · exact nofun
    · exact nofun
  refine ⟨⟨h.linked.pending, h.linked.consumed⟩, h.inOrder_eq, h.transport, fun hend => ?_,
    fun hlog => ?_, fun e' hlog => ?_⟩
  · obtain ⟨hconn, hlog⟩ := h.ended hend
    exact ⟨hconn, List.mem_append_left _ hlog⟩
  · rcases List.mem_append.mp hlog with hlog | hlog
    · exact h.log_noMore hlog
    · exact absurd (List.mem_singleton.mp hlog).symm hnot
  · rcases List.mem_append.mp hlog with hlog | hlog
    · exact h.log_other e' hlog
    · rw [List.mem_singleton.mp hlog]
      exact he.imp_right .inr

theorem EnumRun.loop {code : Nat} (hcode : (recvResponseFromTransport control).1 = some code) :
    ∀ {fuel : Nat} {c : FTPDataCommand Entry}, c.EnumRun control inOrder →
      (enumLoop onParseLine fuel c).EnumRun control inOrder
  | 0, _, h => h
  | fuel + 1, c, h => by
    rw [enumLoop]
    generalize parseLines onParseLine c.readBuffer.length c.readBuffer = parsed
    obtain ⟨entry, buffer⟩ := parsed
    cases entry with
    | some e => exact h.logged (.inl ⟨e, rfl⟩)
    | none =>
      dsimp only
      split
      · exact h.logged (.inr rfl)
      · have hsame := recv_inOrder c.data 0x1000
        generalize c.data.recv 0x1000 = got at hsame
        obtain ⟨r, received, data⟩ := got
        dsimp only at hsame ⊢
        split
        · have hlinked : ({ c with readBuffer := buffer, data := data, endListed := true }
              : FTPDataCommand Entry).Linked control := ⟨h.linked.pending, h.linked.consumed⟩
          rw [hlinked.ensureFinalized, hlinked.ensureFinalized_ok hcode, if_pos rfl,
            FTPDataCommand.logged, finalized]
          refine ⟨⟨fun h => Bool.noConfusion h, fun _ => ⟨rfl, rfl⟩⟩, hsame.trans h.inOrder_eq,
            fun _ => rfl, fun _ => ⟨rfl, List.mem_append_right _ (List.mem_singleton_self _)⟩,
            fun _ => ⟨rfl, rfl⟩, fun e' hlog => ?_⟩
          rcases List.mem_append.mp hlog with hlog | hlog
          · exact h.log_other e' hlog
          · exact .inr (.inl (List.mem_singleton.mp hlog))
        · exact EnumRun.loop hcode ⟨⟨h.linked.pending, h.linked.consumed⟩, hsame.trans h.inOrder_eq,
            h.transport, h.ended, h.log_noMore, h.log_other⟩

theorem EnumRun.enum (h : c.EnumRun control inOrder) {code : Nat}
    (hcode : (recvResponseFromTransport control).1 = some code) :
    (c.enum onParseLine).EnumRun control inOrder := by
  rw [FTPDataCommand.enum]
  split
  · exact h.loop hcode
  · next htransport =>
    rw [Bool.not_eq_true] at htransport
    obtain ⟨hconn, hlog⟩ := h.ended (h.transport htransport)
    refine ⟨⟨h.linked.pending, h.linked.consumed⟩, h.inOrder_eq, h.transport,
      fun _ => ⟨hconn, List.mem_append_left _ hlog⟩, fun _ => h.log_noMore hlog, fun e' hlog' => ?_⟩
    rcases List.mem_append.mp hlog' with hlog' | hlog'
    · exact h.log_other e' hlog'
    · exact .inr (.inl (List.mem_singleton.mp hlog'))

/-- **What a directory tells is honest** if and only if its end is met in order and with a positive
reply. -/
theorem EnumRun.honest_iff (h : c.EnumRun control inOrder) {code : Nat}
    (hcode : (recvResponseFromTransport control).1 = some code) :
    (∀ e ∈ c.log, c.Honest e) ↔ (c.endListed = true → inOrder = true ∧ Positive code) := by
  constructor
  · intro hall hend
    obtain ⟨hconn, hlog⟩ := h.ended hend
    obtain ⟨-, hin, code', hreply, hpositive⟩ := hall _ hlog
    rw [(h.linked.consumed hconn).2, hcode] at hreply
    rw [Option.some.inj hreply]
    exact ⟨h.inOrder_eq.symm.trans hin, hpositive⟩
  · intro hend e he
    rcases h.log_other e he with ⟨x, rfl⟩ | rfl | rfl
    · trivial
    · obtain ⟨hconn, hmet⟩ := h.log_noMore he
      obtain ⟨hin, hpositive⟩ := hend hmet
      exact ⟨hmet, h.inOrder_eq.trans hin, code, (h.linked.consumed hconn).2.trans hcode, hpositive⟩
    · trivial

/-! ## Runs -/

theorem Linked.performFile (h : c.Linked control) (op : FileOp) :
    (c.performFile op).Linked control := by
  cases op with
  | read len => exact ⟨h.pending, h.consumed⟩
  | write sent => exact ⟨h.pending, h.consumed⟩
  | writeComplete =>
    have hlinked : ({ c with completing := true } : FTPDataCommand Entry).Linked control :=
      ⟨h.pending, h.consumed⟩
    show (({ c with completing := true } : FTPDataCommand Entry).ensureFinalized.2.logged _).Linked
      control
    rw [hlinked.ensureFinalized]
    exact ⟨fun h => Bool.noConfusion h, fun _ => ⟨rfl, rfl⟩⟩

theorem Linked.loop :
    ∀ {fuel : Nat} {c : FTPDataCommand Entry}, c.Linked control →
      (enumLoop onParseLine fuel c).Linked control
  | 0, _, h => h
  | fuel + 1, c, h => by
    rw [enumLoop]
    generalize parseLines onParseLine c.readBuffer.length c.readBuffer = parsed
    obtain ⟨entry, buffer⟩ := parsed
    cases entry with
    | some e => exact ⟨h.pending, h.consumed⟩
    | none =>
      dsimp only
      split
      · exact ⟨h.pending, h.consumed⟩
      · split
        · have hlinked : ({ c with
              readBuffer := buffer
              data := (c.data.recv 0x1000).2.2
              endListed := true } : FTPDataCommand Entry).Linked control := ⟨h.pending, h.consumed⟩
          rw [hlinked.ensureFinalized]
          exact ⟨fun h => Bool.noConfusion h, fun _ => ⟨rfl, rfl⟩⟩
        · exact Linked.loop ⟨h.pending, h.consumed⟩

theorem Linked.enum (h : c.Linked control) : (c.enum onParseLine).Linked control := by
  rw [FTPDataCommand.enum]
  split
  · exact h.loop
  · exact ⟨h.pending, h.consumed⟩

/-- A data command has been sent. -/
def opened (data : DataConnection) (control : List Byte) : FTPDataCommand Entry :=
  { data := data, control := control }

theorem opened_linked (data : DataConnection) :
    (opened data control : FTPDataCommand Entry).Linked control :=
  ⟨fun _ => ⟨rfl, rfl⟩, fun h => Bool.noConfusion h⟩

/-- **Data commands hide nothing**: what a run on a file has told is honest, and one final reply is
consumed, if and only if the reply is not too long, `Read` has met no failure, and `WriteComplete`
was called only for a positive reply; and for a directory if and only if its end was met only in
order and with a positive reply. -/
theorem reach_honest_iff (data : DataConnection) (r : FinalReply) (later : List Byte) :
    (∀ c : FTPDataCommand Entry, Reach performFile CanFile (opened data (r.bytes ++ later)) c →
      ((∀ e ∈ c.log, c.Honest e) ∧ c.destroy.control = later
        ↔ r.bytes.length ≤ MAX_RESPONSE + 1 ∧ (c.endRead = true → data.inOrder = true)
          ∧ (c.completing = true → Positive r.code)))
    ∧ ∀ (onParseLine : List Byte → Option Entry) (c : FTPDataCommand Entry),
      Reach (fun c (_ : Unit) => c.enum onParseLine) (fun _ _ => True)
          (opened data (r.bytes ++ later)) c →
        ((∀ e ∈ c.log, c.Honest e) ∧ c.destroy.control = later
          ↔ r.bytes.length ≤ MAX_RESPONSE + 1
            ∧ (c.endListed = true → data.inOrder = true ∧ Positive r.code)) := by
  constructor
  · intro c hreach
    have hlinked := hreach.invariant (opened_linked data) fun c op hc _ => hc.performFile op
    rw [hlinked.destroy]
    by_cases hsize : r.bytes.length ≤ MAX_RESPONSE + 1
    · have hreply := recvResponseFromTransport_bytes r hsize later
      have hcode := congrArg Prod.fst hreply
      have hrun : c.FileRun (r.bytes ++ later) data.inOrder := by
        refine hreach.invariant ⟨opened_linked data, rfl, fun h => Bool.noConfusion h,
          fun h => absurd h List.not_mem_nil, List.not_mem_nil,
          fun _ _ _ _ h => absurd h List.not_mem_nil, fun h => Bool.noConfusion h⟩ ?_
        exact fun c op hc hcan => hc.perform hcode hcan
      rw [hrun.honest_iff hcode]
      exact ⟨fun h => ⟨hsize, h.1⟩, fun h => ⟨h.2, congrArg Prod.snd hreply⟩⟩
    · refine ⟨fun h => ?_, fun h => absurd h.1 hsize⟩
      exact absurd h.2 (recvResponseFromTransport_long r (Nat.lt_of_not_le hsize) later)
  · intro onParseLine c hreach
    have hlinked := hreach.invariant (opened_linked data) fun c _ hc _ => hc.enum
    rw [hlinked.destroy]
    by_cases hsize : r.bytes.length ≤ MAX_RESPONSE + 1
    · have hreply := recvResponseFromTransport_bytes r hsize later
      have hcode := congrArg Prod.fst hreply
      have hrun : c.EnumRun (r.bytes ++ later) data.inOrder := by
        refine hreach.invariant ⟨opened_linked data, rfl, fun h => Bool.noConfusion h,
          fun h => Bool.noConfusion h, fun h => absurd h List.not_mem_nil,
          fun _ h => absurd h List.not_mem_nil⟩ ?_
        exact fun c _ hc _ => hc.enum hcode
      rw [hrun.honest_iff hcode]
      exact ⟨fun h => ⟨hsize, h.1⟩, fun h => ⟨h.2, congrArg Prod.snd hreply⟩⟩
    · refine ⟨fun h => ?_, fun h => absurd h.1 hsize⟩
      exact absurd h.2 (recvResponseFromTransport_long r (Nat.lt_of_not_le hsize) later)

/-- `226 ok` -/
def transferComplete : FinalReply where
  code := 226
  opening := none
  text := [0x6F, 0x6B]
  code_lt := by decide
  text_line := by decide
  opening_line := nofun
  between_line := nofun
  between_last := nofun

/-- Something is written, and completed. -/
def stored (r : FinalReply) : FTPDataCommand Unit :=
  ((opened ⟨[], true⟩ (r.bytes ++ [])).performFile (.write true)).performFile .writeComplete

theorem reach_stored (r : FinalReply) :
    Reach performFile CanFile (opened ⟨[], true⟩ (r.bytes ++ [])) (stored r) := by
  have h0 : Reach performFile CanFile (opened ⟨[], true⟩ (r.bytes ++ []))
      (opened ⟨[], true⟩ (r.bytes ++ []) : FTPDataCommand Unit) := .start
  exact (h0.step (FileOp.write true) rfl).step FileOp.writeComplete trivial

theorem reach_honest_iff_stored :
    (∀ e ∈ (stored transferComplete).log, (stored transferComplete).Honest e)
        ∧ (stored transferComplete).destroy.control = []
      ↔ transferComplete.bytes.length ≤ MAX_RESPONSE + 1
        ∧ ((stored transferComplete).endRead = true → true = true)
        ∧ ((stored transferComplete).completing = true → Positive transferComplete.code) :=
  (reach_honest_iff ⟨[], true⟩ transferComplete []).1 _ (reach_stored transferComplete)

/-- `552 full` -/
def quotaExceeded : FinalReply where
  code := 552
  opening := none
  text := [0x66, 0x75, 0x6C, 0x6C]
  code_lt := by decide
  text_line := by decide
  opening_line := nofun
  between_line := nofun
  between_last := nofun

/-- **A file that the server has not stored** is complete all the same. -/
theorem quotaExceeded_not_honest :
    ¬ ∀ (data : DataConnection) (r : FinalReply) (later : List Byte) (c : FTPDataCommand Unit),
        Reach performFile CanFile (opened data (r.bytes ++ later)) c →
          .writeComplete ∈ c.log → Positive r.code := by
  intro hall
  have hlog : (stored quotaExceeded).log = [.write, .writeComplete] := by decide
  have hmem : .writeComplete ∈ (stored quotaExceeded).log := by
    rw [hlog]
    exact List.mem_cons_of_mem _ (List.mem_singleton_self _)
  exact absurd (hall ⟨[], true⟩ quotaExceeded [] _ (reach_stored _) hmem).2 (by decide)

end FTPDataCommand

end Far2l.NetRocks
