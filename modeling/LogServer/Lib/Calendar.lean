import Mathlib

/-!
# Calendar months

Months are numbered through, from January of year 0 on.  Adding months to a time keeps its day of the
month, or takes the last day of a month that has no such day.

`forall_addMonths_le_iff` says when a whole month lies some months back: it does not depend on the number
of months alone, since the last day of a short month is clamped to nothing.
-/

namespace Calendar

def isLeap (year : ℕ) : Bool := year % 4 = 0 && (year % 100 ≠ 0 || year % 400 = 0)

def daysIn (month : ℕ) : ℕ :=
  match month % 12 with
  | 1 => if isLeap (month / 12) then 29 else 28
  | 3 | 5 | 8 | 10 => 30
  | _ => 31

theorem daysIn_pos (month : ℕ) : 1 ≤ daysIn month := by
  unfold daysIn
  split
  · split <;> decide
  all_goals decide

structure Instant where
  month : ℕ
  day : ℕ
  second : ℕ
  day_pos : 1 ≤ day
  day_le : day ≤ daysIn month
  second_lt : second < 86400

namespace Instant

/-- Not later. -/
instance : LE Instant where
  le t t' := t.month < t'.month ∨ t.month = t'.month ∧
    (t.day < t'.day ∨ t.day = t'.day ∧ t.second ≤ t'.second)

variable {t t' : Instant}

theorem le_iff : t ≤ t' ↔ t.month < t'.month ∨ t.month = t'.month ∧
    (t.day < t'.day ∨ t.day = t'.day ∧ t.second ≤ t'.second) := Iff.rfl

def addMonths (t : Instant) (n : ℕ) : Instant where
  month := t.month + n
  day := min t.day (daysIn (t.month + n))
  second := t.second
  day_pos := le_min t.day_pos (daysIn_pos _)
  day_le := min_le_right _ _
  second_lt := t.second_lt

def last (month : ℕ) : Instant where
  month
  day := daysIn month
  second := 86399
  day_pos := daysIn_pos month
  day_le := le_refl _
  second_lt := by decide

/-- No time of a month is later than its last second, also some months later. -/
theorem addMonths_le_last (t : Instant) (n : ℕ) : t.addMonths n ≤ (last t.month).addMonths n := by
  have hday : min t.day (daysIn (t.month + n)) ≤ min (daysIn t.month) (daysIn (t.month + n)) :=
    min_le_min t.day_le (le_refl _)
  refine .inr ⟨rfl, ?_⟩
  rcases Nat.lt_or_eq_of_le hday with hlt | heq
  · exact .inl hlt
  · exact .inr ⟨heq, Nat.le_of_lt_succ t.second_lt⟩

theorem le_trans {t t' t'' : Instant} (h : t ≤ t') (h' : t' ≤ t'') : t ≤ t'' := by
  rw [le_iff] at *
  omega

end Instant

/-- **A whole month lies `n` months before the beginning of a day** if its number does, and in the
last month that can, if the day of the month is past. -/
theorem forall_addMonths_le_iff {month n : ℕ} {now : Instant} (hnow : now.second = 0) :
    (∀ t : Instant, t.month = month → t.addMonths n ≤ now) ↔ month + n < now.month ∨
      month + n = now.month ∧ min (daysIn month) (daysIn now.month) < now.day := by
  have hlast : (Instant.last month).addMonths n ≤ now ↔ month + n < now.month ∨
      month + n = now.month ∧ min (daysIn month) (daysIn now.month) < now.day := by
    have hle : (Instant.last month).addMonths n ≤ now ↔ month + n < now.month ∨
        month + n = now.month ∧ (min (daysIn month) (daysIn (month + n)) < now.day ∨
          min (daysIn month) (daysIn (month + n)) = now.day ∧ 86399 ≤ now.second) := Iff.rfl
    rw [hle, hnow]
    refine or_congr_right (and_congr_right fun heq ↦ ?_)
    rw [heq]
    simp
  rw [← hlast]
  constructor
  · exact fun h ↦ h (Instant.last month) rfl
  · rintro h t rfl
    exact Instant.le_trans (t.addMonths_le_last n) h

end Calendar
