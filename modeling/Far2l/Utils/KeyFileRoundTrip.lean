/-
Far2l.Utils.KeyFileRoundTrip — a key file that is saved and loaded again holds
the sections, keys and values it was saved with.

The writer quotes a string that would not survive the way it is; the loader trims
a line, its key and its value, and decodes what is quoted. A string that is
written without quotes begins and ends with characters no trimming takes away.
-/
import Far2l.Utils.KeyFileSections

namespace Far2l.KeyFile

/-! ## Escaping -/

theorem decodeLoop_plain {c : Byte} (hc : c ≠ BACKSLASH) {rest : Str} (hrest : rest ≠ []) :
    decodeLoop (c :: rest) = c :: decodeLoop rest := by
  cases rest with
  | nil => exact absurd rfl hrest
  | cons d rest => rw [decodeLoop, if_neg hc]

/-- A character is read back. -/
theorem decodeLoop_encodeChar (keyName : Bool) (c : Byte) {rest : Str} (hrest : rest ≠ []) :
    decodeLoop (encodeChar keyName c ++ rest) = c :: decodeLoop rest := by
  have hescape : ∀ d : Byte, decodeLoop ([BACKSLASH, d] ++ rest)
      = decodeEscape d ++ decodeLoop rest := fun d => by
    show decodeLoop (BACKSLASH :: d :: rest) = _
    rw [decodeLoop, if_pos rfl]
  rw [encodeChar]
  split
  · next h => rw [hescape, h]; rfl
  · split
    · next h => rw [hescape, h]; rfl
    · split
      · next h => rw [hescape, h]; rfl
      · split
        · next h => rw [hescape, h]; rfl
        · split
          · next h => rw [hescape, h]; rfl
          · next hc =>
            split
            · next h => rw [hescape, h.1]; rfl
            · exact decodeLoop_plain hc hrest

theorem decodeLoop_body (keyName : Bool) : ∀ s : Str,
    decodeLoop (s.flatMap (encodeChar keyName) ++ [DQUOTE]) = s
  | [] => rfl
  | c :: s => by
    rw [List.flatMap_cons, List.append_assoc, decodeLoop_encodeChar keyName c (by simp),
      decodeLoop_body keyName s]

theorem quoted_encode (keyName : Bool) (s : Str) : quoted (encode keyName s) = true := by
  rw [quoted, encode, List.getLast?_concat]
  simp

/-- **What is encoded is decoded.** -/
theorem decode_encode (keyName : Bool) (s : Str) : decode (encode keyName s) = s := by
  rw [decode, if_neg]
  · show decodeLoop (s.flatMap (encodeChar keyName) ++ [DQUOTE]) = s
    exact decodeLoop_body keyName s
  · rw [quoted_encode, encode]
    simp

theorem decode_plain {s : Str} (h : quoted s = false) : decode s = s := by
  rw [decode, if_pos (.inr (by rw [h]; rfl))]

theorem mem_encodeChar {keyName : Bool} {c d : Byte} (h : d ∈ encodeChar keyName c) :
    (d ≠ NEWLINE ∧ (keyName = true → d ≠ EQUALS)) := by
  have hescape : ∀ x : Byte, x ≠ NEWLINE → x ≠ EQUALS → d ∈ [BACKSLASH, x] →
      d ≠ NEWLINE ∧ (keyName = true → d ≠ EQUALS) := by
    intro x hx hx' hd
    rcases List.mem_cons.mp hd with rfl | hd
    · exact ⟨by decide, fun _ => by decide⟩
    · rw [List.mem_singleton.mp hd]
      exact ⟨hx, fun _ => hx'⟩
  rw [encodeChar] at h
  split at h
  · exact hescape _ (by decide) (by decide) h
  · split at h
    · exact hescape _ (by decide) (by decide) h
    · next hnewline =>
      split at h
      · exact hescape _ (by decide) (by decide) h
      · split at h
        · exact hescape _ (by decide) (by decide) h
        · split at h
          · exact hescape _ (by decide) (by decide) h
          · split at h
            · exact hescape _ (by decide) (by decide) h
            · next heq =>
              rw [List.mem_singleton.mp h]
              exact ⟨hnewline, fun hk he => heq ⟨he, hk⟩⟩

theorem mem_encode {keyName : Bool} {s : Str} {d : Byte} (h : d ∈ encode keyName s) :
    d ≠ NEWLINE ∧ (keyName = true → d ≠ EQUALS) := by
  rw [encode, List.cons_append, List.mem_cons, List.mem_append, List.mem_singleton] at h
  rcases h with rfl | h | rfl
  · exact ⟨by decide, fun _ => by decide⟩
  · obtain ⟨c, -, hc⟩ := List.mem_flatMap.mp h
    exact mem_encodeChar hc
  · exact ⟨by decide, fun _ => by decide⟩

/-- A string without characters that need escaping. -/
theorem plain_of_not_contains {s : Str} {keyName : Bool}
    (h : containsEscRequiringChars s keyName = false) {c : Byte} (hc : c ∈ s) :
    c ≠ CARRIAGE ∧ c ≠ NEWLINE ∧ c ≠ 0 ∧ (keyName = true → c ≠ EQUALS) := by
  have hno := List.any_eq_false.mp h c hc
  simp only [decide_eq_true_eq, not_or, not_and] at hno
  exact ⟨hno.1, hno.2.1, hno.2.2.1, hno.2.2.2⟩

/-! ## Trimming -/

/-- A string without a character at its ends that trimming takes away. -/
def Firm (s : Str) : Prop :=
  (∀ c, s.head? = some c → isTrimmed [BLANK, TABULATOR, CARRIAGE] c = false)
    ∧ ∀ c, s.getLast? = some c → isTrimmed [BLANK, TABULATOR, CARRIAGE] c = false

theorem isTrimmed_mono {spaces more : List Byte} (h : ∀ c ∈ spaces, c ∈ more) {c : Byte}
    (hc : isTrimmed more c = false) : isTrimmed spaces c = false := by
  refine Bool.eq_false_iff.mpr fun htrim => Bool.eq_false_iff.mp hc ?_
  simp only [isTrimmed, decide_eq_true_eq] at htrim ⊢
  exact ⟨htrim.1, htrim.2.imp_left (h c)⟩

theorem strTrimLeft_firm {spaces : List Byte} {s : Str}
    (h : ∀ c, s.head? = some c → isTrimmed spaces c = false) : strTrimLeft spaces s = s := by
  cases s with
  | nil => rfl
  | cons c s =>
    rw [strTrimLeft, List.dropWhile_cons, h c rfl, if_neg Bool.false_ne_true]

theorem strTrimRight_firm {spaces : List Byte} {s : Str}
    (h : ∀ c, s.getLast? = some c → isTrimmed spaces c = false) : strTrimRight spaces s = s := by
  have hleft : strTrimLeft spaces s.reverse = s.reverse :=
    strTrimLeft_firm fun c hc => h c (by rwa [List.head?_reverse] at hc)
  rw [strTrimLeft] at hleft
  rw [strTrimRight, hleft, List.reverse_reverse]

theorem strTrim_firm {s : Str} (h : Firm s) : strTrim [BLANK, TABULATOR, CARRIAGE] s = s := by
  rw [strTrim, strTrimRight_firm h.2, strTrimLeft_firm h.1]

theorem blanks_mem : ∀ c ∈ [BLANK, TABULATOR], c ∈ [BLANK, TABULATOR, CARRIAGE] := by simp

theorem firm_encode (keyName : Bool) (s : Str) : Firm (encode keyName s) := by
  rw [encode]
  refine ⟨fun c hc => ?_, fun c hc => ?_⟩
  · obtain rfl : DQUOTE = c := by simpa using hc
    decide
  · rw [List.getLast?_concat] at hc
    obtain rfl : DQUOTE = c := by simpa using hc
    decide

/-- A string is firm when its ends are no blanks and need no escaping. -/
theorem firm_plain {s : Str} {keyName : Bool} {first last : List Byte}
    (hesc : containsEscRequiringChars s keyName = false) (htouch : touches s first last = false)
    (hfirst : ∀ c ∈ [BLANK, TABULATOR], c ∈ first) (hlast : ∀ c ∈ [BLANK, TABULATOR], c ∈ last) :
    Firm s := by
  have htouch' := Bool.eq_false_iff.mp htouch
  simp only [touches, ne_eq, decide_eq_true_eq, not_or, not_exists, not_and] at htouch'
  obtain ⟨hhead, hgetLast⟩ := htouch'
  have hfirm : ∀ c ∈ s, (c ∉ [BLANK, TABULATOR]) →
      isTrimmed [BLANK, TABULATOR, CARRIAGE] c = false := by
    intro c hc hblank
    obtain ⟨hcr, -, hzero, -⟩ := plain_of_not_contains hesc hc
    refine Bool.eq_false_iff.mpr fun htrim => ?_
    simp only [isTrimmed, decide_eq_true_eq] at htrim
    rcases htrim.2 with hmem | rfl
    · simp only [List.mem_cons, List.not_mem_nil, or_false, not_or] at hblank hmem
      rcases hmem with h | h | h
      · exact hblank.1 h
      · exact hblank.2 h
      · exact hcr h
    · exact hzero rfl
  refine ⟨fun c hc => hfirm c (List.mem_of_mem_head? hc) fun hb => hhead c (hfirst c hb) hc, ?_⟩
  exact fun c hc => hfirm c (List.mem_of_getLast? hc) fun hb => hgetLast c (hlast c hb) hc

/-! ## What is written of a name, a key and a value -/

theorem decode_encodeSection (s : Str) : decode (encodeSection s) = s := by
  rw [encodeSection]
  split
  · next h =>
    rcases h with rfl | ⟨hq, -⟩
    · rfl
    · exact decode_plain (by simpa using hq)
  · exact decode_encode false s

theorem newline_encodeSection (s : Str) : NEWLINE ∉ encodeSection s := by
  rw [encodeSection]
  split
  · next h =>
    rcases h with rfl | ⟨-, hesc⟩
    · exact List.not_mem_nil
    · intro hmem
      exact (plain_of_not_contains (by simpa using hesc) hmem).2.1 rfl
  · exact fun hmem => (mem_encode hmem).1 rfl

/-- What is written of a key. -/
structure KeyText (s text : Str) : Prop where
  decode : decode text = s
  newline : NEWLINE ∉ text
  equals : EQUALS ∉ text
  firm : Firm text
  head : ∀ c, text.head? = some c → c ≠ LBRACKET ∧ c ≠ SEMICOLON ∧ c ≠ HASH

theorem keyText_encodeKey (s : Str) : KeyText s (encodeKey s) := by
  rw [encodeKey]
  split
  · next h =>
    rcases h with rfl | ⟨hq, hesc, htouch⟩
    · exact ⟨rfl, List.not_mem_nil, List.not_mem_nil, ⟨by simp, by simp⟩, by simp⟩
    · have hesc' : containsEscRequiringChars s true = false := by simpa using hesc
      have htouch' : touches s [SEMICOLON, HASH, LBRACKET, BLANK, TABULATOR] [BLANK, TABULATOR]
          = false := by simpa using htouch
      refine ⟨decode_plain (by simpa using hq), ?_, ?_, ?_, fun c hc => ?_⟩
      · exact fun hmem => (plain_of_not_contains hesc' hmem).2.1 rfl
      · exact fun hmem => (plain_of_not_contains hesc' hmem).2.2.2 rfl rfl
      · exact firm_plain hesc' htouch' (by simp) (by simp)
      · have hno := Bool.eq_false_iff.mp htouch'
        simp only [touches, ne_eq, decide_eq_true_eq, not_or, not_exists, not_and] at hno
        refine ⟨?_, ?_, ?_⟩ <;> rintro rfl <;> exact hno.1 _ (by decide) hc
  · refine ⟨decode_encode true s, fun hmem => (mem_encode hmem).1 rfl,
      fun hmem => (mem_encode hmem).2 rfl rfl, firm_encode true s, fun c hc => ?_⟩
    obtain rfl : DQUOTE = c := by simpa [encode] using hc
    decide

/-- What is written of a value. -/
structure ValueText (s text : Str) : Prop where
  decode : decode text = s
  newline : NEWLINE ∉ text
  firm : Firm text

theorem valueText_encodeValue (s : Str) : ValueText s (encodeValue s) := by
  rw [encodeValue]
  split
  · next h =>
    rcases h with rfl | ⟨hq, hesc, htouch⟩
    · exact ⟨rfl, List.not_mem_nil, ⟨by simp, by simp⟩⟩
    · have hesc' : containsEscRequiringChars s false = false := by simpa using hesc
      refine ⟨decode_plain (by simpa using hq), ?_, ?_⟩
      · exact fun hmem => (plain_of_not_contains hesc' hmem).2.1 rfl
      · exact firm_plain hesc' (by simpa using htouch) (by simp) (by simp)
  · exact ⟨decode_encode false s, fun hmem => (mem_encode hmem).1 rfl, firm_encode false s⟩

/-! ## Lines -/

theorem contentLines_line : ∀ {l : Str}, NEWLINE ∉ l → ∀ rest,
    contentLines (l ++ NEWLINE :: rest) = l :: contentLines rest
  | [], _, rest => by rw [List.nil_append, contentLines, if_pos rfl]
  | c :: l, h, rest => by
    obtain ⟨hc, hl⟩ := List.ne_and_not_mem_of_not_mem_cons h
    rw [List.cons_append, contentLines, if_neg hc.symm, contentLines_line hl]

/-- The lines of `content` are read. -/
def Loader.lines {ci : Bool} (R : Loader ci) (content : Str) : Loader ci :=
  (contentLines content).foldl Loader.line R

variable {ci : Bool} {R : Loader ci}

theorem Loader.lines_line {l : Str} (h : NEWLINE ∉ l) (rest : Str) :
    R.lines (l ++ NEWLINE :: rest) = (R.line l).lines rest := by
  rw [Loader.lines, contentLines_line h, List.foldl_cons]
  rfl

theorem Loader.line_nil : R.line [] = R := rfl

theorem Loader.line_section (name : Str) :
    R.line (LBRACKET :: encodeSection name ++ [RBRACKET]) = R.enter name true := by
  have hfirm : Firm (LBRACKET :: encodeSection name ++ [RBRACKET]) := by
    refine ⟨fun c hc => ?_, fun c hc => ?_⟩
    · obtain rfl : LBRACKET = c := by simpa using hc
      decide
    · rw [List.getLast?_concat] at hc
      obtain rfl : RBRACKET = c := by simpa using hc
      decide
  have hlast : (LBRACKET :: encodeSection name ++ [RBRACKET]).getLast? = some RBRACKET :=
    List.getLast?_concat
  rw [Loader.line, strTrim_firm hfirm]
  show (if LBRACKET = LBRACKET then
    if (LBRACKET :: encodeSection name ++ [RBRACKET]).getLast? = some RBRACKET then
      R.enter (decode (encodeSection name ++ [RBRACKET]).dropLast) true else R else _) = _
  rw [if_pos rfl, if_pos hlast, List.dropLast_concat, decode_encodeSection]

theorem takeWhile_key {key : Str} (h : EQUALS ∉ key) (value : Str) :
    (key ++ EQUALS :: value).takeWhile (· ≠ EQUALS) = key
      ∧ (key ++ EQUALS :: value).dropWhile (· ≠ EQUALS) = EQUALS :: value := by
  have hkey : ∀ c ∈ key, decide (c ≠ EQUALS) = true := fun c hc =>
    decide_eq_true fun heq => h (heq ▸ hc)
  refine ⟨?_, ?_⟩
  · rw [List.takeWhile_append_of_pos hkey]
    simp
  · rw [List.dropWhile_append_of_pos hkey]
    simp

theorem Loader.line_key {key keyText value valueText : Str} (hk : KeyText key keyText)
    (hv : ValueText value valueText) :
    R.line (keyText ++ EQUALS :: valueText) = R.assign keyText valueText := by
  obtain ⟨htake, hdrop⟩ := takeWhile_key hk.equals valueText
  have hfirm : Firm (keyText ++ EQUALS :: valueText) := by
    refine ⟨fun c hc => ?_, fun c hc => ?_⟩
    · cases keyText with
      | nil =>
        obtain rfl : EQUALS = c := by simpa using hc
        decide
      | cons d keyText => exact hk.firm.1 c hc
    · rw [List.getLast?_append_of_ne_nil _ (List.cons_ne_nil _ _)] at hc
      cases valueText with
      | nil =>
        obtain rfl : EQUALS = c := by simpa using hc
        decide
      | cons d valueText => exact hv.firm.2 c (by rwa [List.getLast?_cons_cons] at hc)
  have hright : strTrimRight [BLANK, TABULATOR] keyText = keyText :=
    strTrimRight_firm fun c hc => isTrimmed_mono blanks_mem (hk.firm.2 c hc)
  have hleft : strTrimLeft [BLANK, TABULATOR] valueText = valueText :=
    strTrimLeft_firm fun c hc => isTrimmed_mono blanks_mem (hv.firm.1 c hc)
  have hmem : EQUALS ∈ keyText ++ EQUALS :: valueText := by simp
  have hhead : ∀ c, (keyText ++ EQUALS :: valueText).head? = some c →
      c ≠ LBRACKET ∧ c ≠ SEMICOLON ∧ c ≠ HASH := by
    intro c hc
    cases keyText with
    | nil =>
      obtain rfl : EQUALS = c := by simpa using hc
      decide
    | cons d keyText => exact hk.head c hc
  rw [Loader.line, strTrim_firm hfirm]
  generalize hline : keyText ++ EQUALS :: valueText = line at htake hdrop hmem hhead
  cases line with
  | nil => simp at hmem
  | cons c rest =>
    obtain ⟨hbracket, hsemicolon, hhash⟩ := hhead c rfl
    dsimp only
    rw [if_neg hbracket, if_pos ⟨hsemicolon, hhash⟩, if_pos hmem, htake, hdrop, hright,
      List.drop_one, List.tail_cons, hleft]

/-! ## Sections -/

namespace Sections

variable {ci : Bool} {S : Sections ci}

/-- A node with other values. -/
def withValues (it : Nat) (f : KeyFileValues → KeyFileValues) (x : Str × Node) : Str × Node :=
  (x.1, if x.2.id = it then { x.2 with values := f x.2.values } else x.2)

theorem nodes_modifyValues (S : Sections ci) (it : Nat) (f : KeyFileValues → KeyFileValues) :
    (S.modifyValues it f).nodes = S.nodes.map (withValues it f) := by
  have hderef : ∀ i, (S.modifyValues it f).deref i = (S.deref i).map (withValues it f) := by
    intro i
    show List.find? _ (List.map (withValues it f) _) = _
    rw [List.find?_map]
    refine congrArg _ (congrArg (List.find? · S.map.entries) (funext fun x => ?_))
    have hid : (withValues it f x).2.id = x.2.id := by
      simp only [withValues]
      split <;> rfl
    simp only [Function.comp, hid]
  show List.filterMap _ S.ordered = _
  rw [funext hderef, nodes, List.map_filterMap]

theorem Ordered.nodes_ensure (h : S.Ordered) {name : Str} (hname : S.map.find? name = none) :
    (S.ensure name).1.nodes = S.nodes ++ [(name, ⟨S.fresh, .empty⟩)] := by
  have hperm := @SortedMap.perm_insertEntry _ _ (keyFileCmp ci) name
    (⟨S.fresh, .empty⟩ : Node) S.map.entries
  refine (h.ensure name).nodes_eq ?_ ?_
  · rw [ensure_none hname, List.map_append, h.nodes_ids]
    rfl
  · rw [ensure_none hname, emplace_none hname]
    show ∀ e ∈ _, e ∈ (S.map.emplace name _).entries
    rw [SortedMap.entries_emplace hname]
    intro e he
    rcases List.mem_append.mp he with he | he
    · exact hperm.mem_iff.mpr (List.mem_cons_of_mem _ (h.mem_nodes.mp he))
    · exact hperm.mem_iff.mpr (List.mem_cons.mpr (.inl (List.mem_singleton.mp he)))

theorem Ordered.nodes_ids_nodup (h : S.Ordered) : (S.nodes.map fun e => e.2.id).Nodup := by
  rw [h.nodes_ids]
  exact h.perm.nodup_iff.mpr h.nodup

end Sections

/-- With case, names are the same when they are equal. -/
theorem sameName_iff {a b : Str} : sameName false a b = true ↔ a = b := by
  rw [sameName, SortedMap.equiv_iff, ← Bool.not_eq_true, ← Bool.not_eq_true, keyFileCmp_iff,
    keyFileCmp_iff, List.not_lt, List.not_lt]
  constructor
  · rintro ⟨hba, hab⟩
    have hkey := List.le_antisymm hab hba
    exact List.map_injective_iff.mpr (fun ca cb h => charValue_inj.mp h) hkey
  · rintro rfl
    exact ⟨List.le_refl _, List.le_refl _⟩

/-- The section `name` is being read behind the sections `E`; `values` has been read of it. -/
structure Loader.Reading (R : Loader false) (E : List (Str × KeyFileValues)) (name : Str)
    (values : KeyFileValues) : Prop where
  ordered : R.kf.Ordered
  nodes : ∃ pre it, R.values = some it ∧ R.kf.nodes = pre ++ [(name, ⟨it, values⟩)]
    ∧ (pre.map fun e => (e.1, e.2.values)) = E

namespace Loader

variable {R : Loader false} {E : List (Str × KeyFileValues)} {name : Str} {values : KeyFileValues}

theorem Reading.enumeration (h : R.Reading E name values) :
    R.kf.enumeration = E ++ [(name, values)] := by
  obtain ⟨pre, it, -, hnodes, hE⟩ := h.nodes
  rw [Sections.enumeration, hnodes, List.map_append, hE]
  rfl

/-- A section with a new name is entered. -/
theorem reading_enter (h : R.kf.Ordered) (hnew : name ∉ R.kf.names) (named : Bool) :
    (R.enter name named).Reading R.kf.enumeration name .empty := by
  have hname : R.kf.map.find? name = none := by
    refine h.find?_none_iff.mpr fun n hn => Bool.eq_false_iff.mpr fun hsame => hnew ?_
    rwa [← sameName_iff.mp hsame]
  refine ⟨h.ensure name, R.kf.nodes, R.kf.fresh, ?_, h.nodes_ensure hname, rfl⟩
  rw [Loader.enter, Sections.ensure_none hname]

/-- A key and its value are assigned. -/
theorem Reading.assign (h : R.Reading E name values) (key value : Str) :
    (R.assign key value).Reading E name (values.set (decode key) (decode value)) := by
  obtain ⟨pre, it, hvalues, hnodes, hE⟩ := h.nodes
  have hassign : R.assign key value = { R with
      kf := R.kf.modifyValues it fun values => values.set (decode key) (decode value) } := by
    rw [Loader.assign, hvalues, if_neg (by simp)]
    simp only [hvalues]
  have hpre : ∀ e ∈ pre, e.2.id ≠ it := by
    have hnodup := h.ordered.nodes_ids_nodup
    rw [hnodes, List.map_append, List.nodup_append] at hnodup
    exact fun e he => hnodup.2.2 _ (List.mem_map_of_mem he) it (by simp)
  rw [hassign]
  refine ⟨h.ordered.modifyValues it fun values => values.set (decode key) (decode value), pre, it,
    hvalues, ?_, hE⟩
  show (R.kf.modifyValues it _).nodes = _
  rw [Sections.nodes_modifyValues, hnodes, List.map_append, List.map_singleton]
  have hsame : pre.map (Sections.withValues it fun values => values.set (decode key) (decode value))
      = pre.map id := by
    refine List.map_congr_left fun e he => ?_
    rw [Sections.withValues, if_neg (hpre e he)]
    rfl
  rw [hsame, List.map_id]
  simp [Sections.withValues]

/-- **The keys of a section are read back.** What is written of them is in the order of the keys. -/
theorem Reading.keys (rest : Str) : ∀ (entries : List (Str × Str)) {R : Loader false}
    {values : KeyFileValues}, R.Reading E name values →
    ((values.entries ++ entries).Pairwise fun x y => keyFileCmp false x.1 y.1 = true) →
    ∃ (R' : Loader false) (values' : KeyFileValues), R.lines (entries.flatMap saveKey ++ rest) = R'.lines rest
      ∧ R'.Reading E name values' ∧ values'.entries = values.entries ++ entries
  | [], R, values, h, _ => ⟨R, values, rfl, h, (List.append_nil _).symm⟩
  | (key, value) :: entries, R, values, h, hsorted => by
    have hk := keyText_encodeKey key
    have hv := valueText_encodeValue value
    have hset := h.assign (encodeKey key) (encodeValue value)
    rw [hk.decode, hv.decode] at hset
    have hlast : (values.set key value).entries = values.entries ++ [(key, value)] :=
      SortedMap.entries_set_last fun e he =>
        (List.pairwise_append.mp hsorted).2.2 e he _ List.mem_cons_self
    have hsorted1 : ((values.set key value).entries ++ entries).Pairwise
        fun x y => keyFileCmp false x.1 y.1 = true := by
      rwa [hlast, List.append_assoc]
    obtain ⟨R', values', hlines, hread, hentries⟩ := Reading.keys rest entries hset hsorted1
    refine ⟨R', values', ?_, hread, ?_⟩
    · have hnl : NEWLINE ∉ encodeKey key ++ EQUALS :: encodeValue value := by
        rw [List.mem_append, List.mem_cons, not_or, not_or]
        exact ⟨hk.newline, by decide, hv.newline⟩
      have hline : ((key, value) :: entries).flatMap saveKey ++ rest
          = (encodeKey key ++ EQUALS :: encodeValue value)
            ++ NEWLINE :: (entries.flatMap saveKey ++ rest) := by
        simp [saveKey, List.append_assoc]
      rw [hline, lines_line hnl, line_key hk hv, hlines]
    · rw [hentries, hlast, List.append_assoc]
      rfl

/-- **A section is read back.** -/
theorem lines_section (h : R.kf.Ordered) (hnew : name ∉ R.kf.names) (values : KeyFileValues)
    (rest : Str) : ∃ R' : Loader false, R.lines (saveSection (name, values) ++ rest) = R'.lines rest
      ∧ R'.kf.Ordered ∧ R'.kf.enumeration = R.kf.enumeration ++ [(name, values)] := by
  have henter := reading_enter h hnew true
  have hsorted : ((SortedMap.empty : KeyFileValues).entries ++ values.entries).Pairwise
      fun x y => keyFileCmp false x.1 y.1 = true := values.sorted
  obtain ⟨R', values', hlines, hread, hentries⟩ :=
    henter.keys (NEWLINE :: rest) values.entries hsorted
  refine ⟨R', ?_, hread.ordered, ?_⟩
  · have hnl : NEWLINE ∉ LBRACKET :: encodeSection name ++ [RBRACKET] := by
      simp only [List.cons_append, List.mem_cons, List.mem_append, not_or]
      exact ⟨by decide, newline_encodeSection name, by decide, List.not_mem_nil⟩
    have hsplit : saveSection (name, values) ++ rest
        = (LBRACKET :: encodeSection name ++ [RBRACKET])
          ++ NEWLINE :: (values.entries.flatMap saveKey ++ NEWLINE :: rest) := by
      simp [saveSection, List.append_assoc]
    rw [hsplit, lines_line hnl, line_section, hlines]
    show R'.lines ([] ++ NEWLINE :: rest) = _
    rw [lines_line List.not_mem_nil, line_nil]
  · rw [hread.enumeration, @SortedMap.ext _ _ _ values' values hentries]

/-- **The sections are read back in order.** -/
theorem lines_sections : ∀ (sections : List (Str × KeyFileValues)) {R : Loader false},
    R.kf.Ordered → ((R.kf.enumeration ++ sections).map Prod.fst).Nodup →
    (R.lines (sections.flatMap saveSection)).kf.enumeration = R.kf.enumeration ++ sections
  | [], R, _, _ => (List.append_nil _).symm
  | (name, values) :: sections, R, h, hnodup => by
    have hnew : name ∉ R.kf.names := by
      rw [List.map_append, List.nodup_append] at hnodup
      exact fun hmem => hnodup.2.2 name hmem name List.mem_cons_self rfl
    obtain ⟨R', hlines, hord, henum⟩ :=
      lines_section h hnew values (sections.flatMap saveSection)
    have hnodup' : ((R'.kf.enumeration ++ sections).map Prod.fst).Nodup := by
      rwa [henum, List.append_assoc]
    rw [List.flatMap_cons, hlines, lines_sections sections hord hnodup', henum, List.append_assoc]
    rfl

end Loader

/-- **Saved and loaded again, a key file holds the same sections in the same order, with the same
keys and values.** -/
theorem loadKeyFile_save (K : KeyFileHelper false) (h : K.kf.names.Nodup) :
    ∃ content, K.save false = some content
      ∧ (loadKeyFile false content).enumeration = K.kf.enumeration := by
  refine ⟨saveContent K.kf, rfl, ?_⟩
  have hlines := Loader.lines_sections K.kf.enumeration (R := {}) .empty (by exact h)
  exact hlines

theorem loadKeyFile_save_quoted :
    let K := (({} : KeyFileHelper false).setString [DQUOTE] [EQUALS, BLANK] [NEWLINE]).setString []
      [] []
    ∃ content, K.save false = some content
      ∧ (loadKeyFile false content).enumeration = K.kf.enumeration :=
  loadKeyFile_save _ (by decide)

end Far2l.KeyFile
