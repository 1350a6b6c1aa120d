/-
Far2l.Lib.Calendar — the calendar form of a time, as the C library has it.

A time is a number of seconds since 1970 began, without leap seconds. The years are
counted off first, then the months, then the days; nothing here is about a program.
-/
import Mathlib.Algebra.GroupWithZero.Nat
import Mathlib.Algebra.BigOperators.Group.List.Basic

namespace Far2l.Calendar

/-! ## Dates -/

/-- A date and a time of the day; months and days are counted from 1. -/
structure DateTime where
  year : Nat
  month : Nat
  day : Nat
  hour : Nat
  minute : Nat
  second : Nat
  deriving DecidableEq, Repr

def leap (year : Nat) : Bool := year % 4 = 0 ∧ (year % 100 ≠ 0 ∨ year % 400 = 0)

def monthLengths (year : Nat) : List Nat :=
  [31, if leap year then 29 else 28, 31, 30, 31, 30, 31, 31, 30, 31, 30, 31]

def yearLength (year : Nat) : Nat := (monthLengths year).sum

/-- The days from the beginning of 1970 up to a year, which is so many years later. -/
def daysBefore : Nat → Nat
  | 0 => 0
  | years + 1 => daysBefore years + yearLength (1970 + years)

/-- The seconds from the beginning of 1970 up to a time. -/
def DateTime.seconds (t : DateTime) : Nat :=
  (daysBefore (t.year - 1970) + ((monthLengths t.year).take (t.month - 1)).sum + (t.day - 1)) * 86400 +
    t.hour * 3600 + t.minute * 60 + t.second

/-- The date is in the calendar, and the time is one of the day. -/
structure DateTime.Valid (t : DateTime) : Prop where
  year : 1970 ≤ t.year
  month : 1 ≤ t.month ∧ t.month ≤ 12
  day : 1 ≤ t.day ∧ ∀ n ∈ (monthLengths t.year)[t.month - 1]?, t.day ≤ n
  hour : t.hour < 24
  minute : t.minute < 60
  second : t.second < 60

/-! ## From seconds to a date -/

/-- The year that a day is in, and how many days of it are over; with so many turns at most. -/
def yearOf : Nat → Nat → Nat → Nat × Nat
  | 0, year, days => (year, days)
  | turns + 1, year, days =>
      if days < yearLength year then (year, days) else yearOf turns (year + 1) (days - yearLength year)

/-- The month that a day of a year is in, and the day of the month. -/
def monthOf : List Nat → Nat → Nat → Nat × Nat
  | [], month, days => (month, days + 1)
  | n :: lengths, month, days => if days < n then (month, days + 1) else monthOf lengths (month + 1) (days - n)

/-- The calendar form of a time. -/
def civil (t : Nat) : DateTime :=
  let (year, days) := yearOf (t / 86400) 1970 (t / 86400)
  let (month, day) := monthOf (monthLengths year) 1 days
  ⟨year, month, day, t % 86400 / 3600, t % 3600 / 60, t % 60⟩

/-- Broken-down time, as in `time.h`: months count from 0, years from 1900. -/
structure Tm where
  sec : Int := 0
  min : Int := 0
  hour : Int := 0
  mday : Int := 0
  mon : Int := 0
  year : Int := 0
  deriving DecidableEq, Repr

/-- `gmtime_r` -/
def gmtime (t : Nat) : Tm :=
  let c := civil t
  { sec := c.second, min := c.minute, hour := c.hour, mday := c.day, mon := c.month - 1, year := c.year - 1900 }

/-! ## The form is right -/

theorem yearLength_pos (year : Nat) : 365 ≤ yearLength year := by
  rw [yearLength, monthLengths]
  split <;> decide

theorem daysBefore_succ (years : Nat) : daysBefore (years + 1) = daysBefore years + yearLength (1970 + years) := rfl

/-- The years are counted off. -/
theorem yearOf_spec : ∀ (turns years days : Nat), days < turns * 365 + 365 →
    1970 ≤ (yearOf turns (1970 + years) days).1 ∧
      daysBefore ((yearOf turns (1970 + years) days).1 - 1970) + (yearOf turns (1970 + years) days).2
        = daysBefore years + days ∧
      (yearOf turns (1970 + years) days).2 < yearLength (yearOf turns (1970 + years) days).1
  | 0, years, days, h => by
    have := yearLength_pos (1970 + years)
    exact ⟨Nat.le_add_right _ _, by simp [yearOf], by simp only [yearOf]; omega⟩
  | turns + 1, years, days, h => by
    have hlong := yearLength_pos (1970 + years)
    rw [yearOf]
    split
    · next hlt => exact ⟨Nat.le_add_right _ _, by simp, hlt⟩
    · next hge =>
      have ih := yearOf_spec turns (years + 1) (days - yearLength (1970 + years)) (by omega)
      rw [daysBefore_succ, ← Nat.add_assoc] at ih
      refine ⟨ih.1, ?_, ih.2.2⟩
      rw [ih.2.1]
      omega

/-- The months are counted off. -/
theorem monthOf_spec : ∀ (lengths : List Nat) (month days : Nat), days < lengths.sum →
    ∃ k, (monthOf lengths month days).1 = month + k ∧ k < lengths.length ∧
      (lengths.take k).sum + ((monthOf lengths month days).2 - 1) = days ∧ 1 ≤ (monthOf lengths month days).2 ∧
      ∀ n ∈ lengths[k]?, (monthOf lengths month days).2 ≤ n
  | [], _, days, h => absurd h (Nat.not_lt_zero _)
  | n :: lengths, month, days, h => by
    rw [monthOf]
    split
    · next hlt =>
      refine ⟨0, rfl, Nat.succ_pos _, by simp, Nat.succ_pos _, ?_⟩
      intro n' hn'
      obtain rfl : n = n' := by simpa using hn'
      exact hlt
    · next hge =>
      rw [List.sum_cons] at h
      obtain ⟨k, hmonth, hk, hsum, hday, hle⟩ := monthOf_spec lengths (month + 1) (days - n) (by omega)
      refine ⟨k + 1, by omega, Nat.succ_lt_succ hk, ?_, hday, hle⟩
      rw [List.take_succ_cons, List.sum_cons]
      omega

/-- **The calendar form of a time** is a date and a time of the day, and it is that time. -/
theorem civil_spec (t : Nat) : (civil t).Valid ∧ (civil t).seconds = t := by
  have hyear := yearOf_spec (t / 86400) 0 (t / 86400) (by omega)
  obtain ⟨k, hmonth, hk, hsum, hday, hle⟩ := monthOf_spec (monthLengths (yearOf (t / 86400) 1970 (t / 86400)).1) 1
    (yearOf (t / 86400) 1970 (t / 86400)).2 hyear.2.2
  have hcivil : civil t = ⟨(yearOf (t / 86400) 1970 (t / 86400)).1,
      (monthOf (monthLengths (yearOf (t / 86400) 1970 (t / 86400)).1) 1 (yearOf (t / 86400) 1970 (t / 86400)).2).1,
      (monthOf (monthLengths (yearOf (t / 86400) 1970 (t / 86400)).1) 1 (yearOf (t / 86400) 1970 (t / 86400)).2).2,
      t % 86400 / 3600, t % 3600 / 60, t % 60⟩ := rfl
  obtain ⟨hy, hdays, -⟩ := hyear
  rw [Nat.add_zero] at hy
  rw [Nat.add_zero, show daysBefore 0 = 0 from rfl, Nat.zero_add] at hdays
  rw [hcivil, DateTime.seconds]
  generalize yearOf (t / 86400) 1970 (t / 86400) = yd at *
  generalize monthOf (monthLengths yd.1) 1 yd.2 = md at *
  have hlength : (monthLengths yd.1).length = 12 := rfl
  have hindex : md.1 - 1 = k := by omega
  refine ⟨⟨hy, ?_, ⟨hday, by rw [hindex]; exact hle⟩, ?_, ?_, ?_⟩, ?_⟩
  · show 1 ≤ md.1 ∧ md.1 ≤ 12
    omega
  · show t % 86400 / 3600 < 24
    omega
  · show t % 3600 / 60 < 60
    omega
  · exact Nat.mod_lt _ (by decide)
  · simp only [hindex]
    have hday' : daysBefore (yd.1 - 1970) + ((monthLengths yd.1).take k).sum + (md.2 - 1) = t / 86400 := by omega
    rw [hday']
    omega

end Far2l.Calendar
