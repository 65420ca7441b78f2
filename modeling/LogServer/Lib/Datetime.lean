import Mathlib

/-!
# Datetimes with and without an offset

A datetime is what a wall clock shows, from year 1 to year 9999 and to the microsecond, with its offset
from UTC or without one.  Two datetimes are ordered, and have a difference, if both have an offset or
neither has one; where only one of them has, there is no answer.  The calendar has a first and a last day,
and arithmetic that leaves it fails.
-/

/-- Microseconds of a day. -/
def Datetime.day : ℕ := 86400000000

/-- The microseconds from the start of year 1 to the end of year 9999. -/
def Datetime.limit : ℕ := 3652059 * Datetime.day

structure Datetime where
  /-- What the clock shows, in microseconds from the start of year 1. -/
  wall : ℕ
  /-- How far the clock is ahead of UTC, in microseconds. -/
  offset : Option ℤ
  wall_lt : wall < Datetime.limit
  offset_lt : ∀ z ∈ offset, -(Datetime.day : ℤ) < z ∧ z < Datetime.day

namespace Datetime

inductive Error where
  | typeError
  | overflowError
deriving DecidableEq, Repr

def naive (n : Fin limit) : Datetime := ⟨n, none, n.isLt, nofun⟩

variable (x y : Datetime)

/-- The time that is meant: UTC, or what a clock without an offset shows. -/
def instant : ℤ := x.wall - x.offset.getD 0

/-- Both have an offset, or neither has one. -/
def Comparable : Prop := x.offset.isSome = y.offset.isSome

instance : Decidable (x.Comparable y) := inferInstanceAs (Decidable (_ = _))

/-- `x > y`. -/
def gt : Except Error Bool :=
  if x.Comparable y then .ok (y.instant < x.instant) else .error .typeError

/-- `x <= y`. -/
def le : Except Error Bool :=
  if x.Comparable y then .ok (x.instant ≤ y.instant) else .error .typeError

/-- `x - y`, in microseconds. -/
def sub : Except Error ℤ :=
  if x.Comparable y then .ok (x.instant - y.instant) else .error .typeError

/-- `x` earlier by a duration, with the same offset. -/
def earlier (duration : ℕ) : Except Error Datetime :=
  if duration ≤ x.wall then
    .ok { x with wall := x.wall - duration, wall_lt := (Nat.sub_le _ _).trans_lt x.wall_lt }
  else .error .overflowError

variable {x y} {duration : ℕ}

theorem gt_of_comparable (h : x.Comparable y) : x.gt y = .ok (decide (y.instant < x.instant)) :=
  if_pos h

theorem le_of_comparable (h : x.Comparable y) : x.le y = .ok (decide (x.instant ≤ y.instant)) :=
  if_pos h

theorem sub_of_comparable (h : x.Comparable y) : x.sub y = .ok (x.instant - y.instant) := if_pos h

theorem gt_of_not_comparable (h : ¬x.Comparable y) : x.gt y = .error .typeError := if_neg h

theorem earlier_of_lt (h : x.wall < duration) : x.earlier duration = .error .overflowError :=
  if_neg (Nat.not_le.mpr h)

/-- **Going back** within the calendar keeps the offset and takes the duration off the time. -/
theorem exists_earlier (h : duration ≤ x.wall) : ∃ x', x.earlier duration = .ok x' ∧
    x'.Comparable x ∧ x'.instant = x.instant - duration := by
  refine ⟨_, if_pos h, rfl, ?_⟩
  show ((x.wall - duration : ℕ) : ℤ) - x.offset.getD 0 = x.wall - x.offset.getD 0 - duration
  rw [Nat.cast_sub h]
  ring

end Datetime
