/-
Lib.Division — texts that are divided among the items of a pattern.

An item fits some pieces of a text. A pattern fits a text that can be cut into
pieces, one for each item. What a search for such a division may forget is said
by `Divided.later`: when every item in front of one that fits everything takes a
single character, the earliest place where those items fit is as good as any.
Nothing here is about particular items.
-/
import Mathlib.Data.List.Forall2
import Mathlib.Data.List.Infix

namespace Far2l

variable {ι α : Type} {fits : ι → List α → Prop}

/-- The text is cut into pieces, one for each item of the pattern. -/
def Divided (fits : ι → List α → Prop) (pattern : List ι) (text : List α) : Prop :=
  ∃ pieces, List.Forall₂ fits pattern pieces ∧ pieces.flatten = text

/-- An item that takes single characters. -/
def Single (fits : ι → List α → Prop) (item : ι) : Prop :=
  ∀ piece, fits item piece → piece.length = 1

/-! ## One item -/

theorem divided_nil {text : List α} : Divided fits [] text ↔ text = [] := by
  constructor
  · rintro ⟨pieces, hfits, rfl⟩
    rw [List.forall₂_nil_left_iff.mp hfits]
    rfl
  · rintro rfl
    exact ⟨[], .nil, rfl⟩

theorem divided_cons {item : ι} {pattern : List ι} {text : List α} :
    Divided fits (item :: pattern) text
      ↔ ∃ piece rest, fits item piece ∧ Divided fits pattern rest ∧ text = piece ++ rest := by
  constructor
  · rintro ⟨pieces, hfits, rfl⟩
    obtain ⟨piece, rest, hpiece, hrest, rfl⟩ := List.forall₂_cons_left_iff.mp hfits
    exact ⟨piece, rest.flatten, hpiece, ⟨rest, hrest, rfl⟩, List.flatten_cons⟩
  · rintro ⟨piece, rest, hpiece, ⟨pieces, hfits, rfl⟩, rfl⟩
    exact ⟨piece :: pieces, .cons hpiece hfits, List.flatten_cons⟩

theorem Single.divided_nil {item : ι} (h : Single fits item) {pattern : List ι} :
    ¬Divided fits (item :: pattern) [] := by
  intro hdivided
  obtain ⟨piece, rest, hpiece, -, hnil⟩ := divided_cons.mp hdivided
  have hlen := h piece hpiece
  rw [(List.append_eq_nil_iff.mp hnil.symm).1] at hlen
  exact absurd hlen Nat.zero_ne_one

theorem Single.divided_cons {item : ι} (h : Single fits item) {pattern : List ι} {c : α}
    {text : List α} :
    Divided fits (item :: pattern) (c :: text) ↔ fits item [c] ∧ Divided fits pattern text := by
  rw [Far2l.divided_cons]
  constructor
  · rintro ⟨piece, rest, hpiece, hrest, htext⟩
    obtain ⟨d, rfl⟩ := List.length_eq_one_iff.mp (h piece hpiece)
    obtain ⟨rfl, rfl⟩ := List.cons.inj htext
    exact ⟨hpiece, hrest⟩
  · rintro ⟨hpiece, hrest⟩
    exact ⟨[c], text, hpiece, hrest, rfl⟩

/-- An item that fits everything leaves any end of the text. -/
theorem divided_run {item : ι} (h : ∀ piece, fits item piece) {pattern : List ι} {text : List α} :
    Divided fits (item :: pattern) text ↔ ∃ rest, rest <:+ text ∧ Divided fits pattern rest := by
  rw [divided_cons]
  constructor
  · rintro ⟨piece, rest, -, hrest, rfl⟩
    exact ⟨rest, List.suffix_append _ _, hrest⟩
  · rintro ⟨rest, ⟨piece, rfl⟩, hrest⟩
    exact ⟨piece, rest, h piece, hrest, rfl⟩

/-! ## Items in front -/

theorem Divided.append {front pattern : List ι} {text : List α}
    (h : Divided fits (front ++ pattern) text) :
    ∃ first rest, Divided fits front first ∧ Divided fits pattern rest ∧ text = first ++ rest := by
  induction front generalizing text with
  | nil => exact ⟨[], text, divided_nil.mpr rfl, h, rfl⟩
  | cons item front ih =>
    obtain ⟨piece, rest, hpiece, hrest, rfl⟩ := divided_cons.mp h
    obtain ⟨first, last, hfirst, hlast, rfl⟩ := ih hrest
    exact ⟨piece ++ first, last, divided_cons.mpr ⟨piece, first, hpiece, hfirst, rfl⟩, hlast,
      (List.append_assoc _ _ _).symm⟩

/-- Single items take as many characters as there are items. -/
theorem Divided.length {front : List ι} (hsingle : ∀ item ∈ front, Single fits item) {text : List α}
    (h : Divided fits front text) : text.length = front.length := by
  induction front generalizing text with
  | nil => exact congrArg List.length (divided_nil.mp h)
  | cons item front ih =>
    obtain ⟨piece, rest, hpiece, hrest, rfl⟩ := divided_cons.mp h
    have hone := hsingle item List.mem_cons_self piece hpiece
    have hrest := ih (fun item hitem => hsingle item (List.mem_cons_of_mem _ hitem)) hrest
    rw [List.length_append, List.length_cons, hone, hrest, Nat.add_comm]

/-- **What comes later is no better**: where the items in front of a run take single characters and
have been fitted at the beginning of a text, a division of an end of that text also divides what is
behind them. -/
theorem Divided.later {front pattern : List ι} {run : ι} (hrun : ∀ piece, fits run piece)
    (hsingle : ∀ item ∈ front, Single fits item) {taken text rest : List α}
    (hlen : taken.length = front.length) (hrest : rest <:+ taken ++ text)
    (h : Divided fits (front ++ run :: pattern) rest) : Divided fits (run :: pattern) text := by
  obtain ⟨first, rest, hfirst, hdivided, rfl⟩ := h.append
  have hfirst := hfirst.length hsingle
  obtain ⟨last, hlast, hpattern⟩ := (divided_run hrun).mp hdivided
  have hle := hrest.length_le
  rw [List.length_append, List.length_append] at hle
  have hsuffix : rest <:+ text := List.suffix_of_suffix_length_le
    ((List.suffix_append first rest).trans hrest) (List.suffix_append taken text) (by omega)
  exact (divided_run hrun).mpr ⟨last, hlast.trans hsuffix, hpattern⟩

end Far2l
