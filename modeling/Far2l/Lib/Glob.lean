/-
Far2l.Lib.Glob — patterns of which an item is any run of letters, or one letter of
a kind, apart from any program.
-/
import Mathlib.Data.List.Forall2
import Mathlib.Data.List.TakeDrop

namespace Far2l.Glob

variable {α : Type}

/-- An item of a pattern. -/
inductive Item (α : Type) where
  | any
  | one (ok : α → Prop)

/-- The whole word matches the pattern. -/
def Matches : List (Item α) → List α → Prop
  | [], word => word = []
  | .any :: items, word => ∃ rest, rest <:+ word ∧ Matches items rest
  | .one ok :: items, word => ∃ c rest, word = c :: rest ∧ ok c ∧ Matches items rest

@[simp] theorem matches_nil {word : List α} : Matches [] word ↔ word = [] := Iff.rfl

@[simp] theorem not_matches_one_nil {ok : α → Prop} {items : List (Item α)} : ¬ Matches (.one ok :: items) [] := by
  rintro ⟨c, rest, h, -⟩
  cases h

@[simp] theorem matches_one_cons {ok : α → Prop} {items : List (Item α)} {c : α} {word : List α} :
    Matches (.one ok :: items) (c :: word) ↔ ok c ∧ Matches items word := by
  constructor
  · rintro ⟨d, rest, h, hok, hmatch⟩
    cases h
    exact ⟨hok, hmatch⟩
  · rintro ⟨hok, hmatch⟩
    exact ⟨c, word, rfl, hok, hmatch⟩

/-- A run at the end takes what there is. -/
theorem matches_any_last (word : List α) : Matches [.any] word := ⟨[], List.nil_suffix, rfl⟩

/-- Without runs, a pattern is compared letter by letter. -/
theorem matches_ones_iff : ∀ {kinds : List (α → Prop)} {word : List α},
    Matches (kinds.map .one) word ↔ List.Forall₂ (fun ok c => ok c) kinds word
  | [], word => by simp
  | ok :: kinds, [] => by simp
  | ok :: kinds, c :: word => by
    rw [List.map_cons, matches_one_cons, List.forall₂_cons, matches_ones_iff]

/-- **The end of the word decides** where nothing but letters follow a run. -/
theorem matches_suffix_iff {kinds : List (α → Prop)} {word : List α} :
    Matches (.any :: kinds.map .one) word ↔
      kinds.length ≤ word.length ∧
        List.Forall₂ (fun ok c => ok c) kinds (word.drop (word.length - kinds.length)) := by
  constructor
  · rintro ⟨rest, hrest, hmatch⟩
    have hkinds := matches_ones_iff.mp hmatch
    have hlen := hkinds.length_eq
    have hle := hrest.length_le
    refine ⟨hlen ▸ hle, ?_⟩
    rwa [hlen, ← List.suffix_iff_eq_drop.mp hrest]
  · rintro ⟨-, hkinds⟩
    exact ⟨_, List.drop_suffix _ _, matches_ones_iff.mpr hkinds⟩

end Far2l.Glob
