/-
Far2l.Lib.Spans — stretches laid out one behind another, apart from any program.

A reader that cuts its input into pieces appends the piece it has just finished.
So the layout is proved at the end of the list: a stretch fits behind the others
when these are laid out in front of its start.
-/
import Mathlib.Order.Basic

namespace Far2l

/-- A half-open stretch `[start, stop)`. -/
structure Span (α : Type) where
  start : α
  stop : α

namespace Span

variable {α : Type} [Preorder α] {low high high' : α} {spans : List (Span α)} {span : Span α}

/-- The stretch lies between two bounds. -/
structure Between (low high : α) (span : Span α) : Prop where
  low_le : low ≤ span.start
  ordered : span.start ≤ span.stop
  le_high : span.stop ≤ high

/-- The stretches lie between two bounds, in increasing order, and do not overlap. -/
structure LaidOut (low high : α) (spans : List (Span α)) : Prop where
  between : ∀ span ∈ spans, Between low high span
  apart : spans.Pairwise fun left right => left.stop ≤ right.start

theorem LaidOut.nil : LaidOut low high ([] : List (Span α)) := ⟨by simp, .nil⟩

theorem LaidOut.mono (h : LaidOut low high spans) (hhigh : high ≤ high') :
    LaidOut low high' spans where
  between span hspan :=
    ⟨(h.between span hspan).low_le, (h.between span hspan).ordered,
      (h.between span hspan).le_high.trans hhigh⟩
  apart := h.apart

/-- **A stretch is laid out behind others** that end in front of it. -/
theorem LaidOut.append (h : LaidOut low span.start spans) (hspan : Between low high span) :
    LaidOut low high (spans ++ [span]) where
  between other hother := by
    rcases List.mem_append.mp hother with hother | hother
    · exact (h.mono (hspan.ordered.trans hspan.le_high)).between other hother
    · obtain rfl := List.mem_singleton.mp hother
      exact hspan
  apart := by
    refine List.pairwise_append.mpr ⟨h.apart, List.pairwise_singleton _ _, ?_⟩
    intro other hother last hlast
    obtain rfl := List.mem_singleton.mp hlast
    exact (h.between other hother).le_high

end Span

end Far2l
