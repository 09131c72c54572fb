import FieldWages.Proofs.NightWork

/-!
# Shifts by their length

A shift lasts from its first minute up to its last, which is on the next day if it is not
later on the same one, so that it is a minute long at least and a day at most
(`shiftLength`). Its night minutes are those of its minutes that lie in the night, counted
one by one along its length. Hence they are no more than it is long; and as the nights of
all days are the same, shifts that follow each other have the night minutes of the shift
they make up, as long as they take no more than a day.

* `nightMoments_shiftLength`: counting along a shift;
* `nightMinutes_eq_nightMoments`: the night minutes of shifts, and of shifts one after the
  other.
-/

namespace FieldWages

/-- The minutes from one minute of the day to another, on the next day if that is not
    later. -/
def shiftLength (start stop : ℕ) : ℕ :=
  if start < stop then stop - start else minutesPerDay - start + stop

variable {u a b c : ℕ}

/-- A shift ends where it should, on its own day or on the next. -/
theorem add_shiftLength (ha : a < minutesPerDay) :
    a + shiftLength a b = if b ≤ a then minutesPerDay + b else b := by
  rw [shiftLength]
  split_ifs <;> omega

/-- Shifts one after the other, in a day at most, make up a shift. -/
theorem shiftLength_add (ha : a < minutesPerDay) (hb : b < minutesPerDay)
    (h : shiftLength a b + shiftLength b c ≤ minutesPerDay) :
    shiftLength a b + shiftLength b c = shiftLength a c := by
  simp only [shiftLength] at *
  split_ifs at * <;> omega

theorem nightMoments_le (a b : ℕ) : nightMoments u a b ≤ b - a :=
  (Finset.card_filter_le _ _).trans (Nat.card_Ico a b).le

/-- What is counted along a shift, by what the day has before its ends. -/
theorem nightMoments_shiftLength (ha : a < minutesPerDay) (hb : b < minutesPerDay) :
    nightBefore 1 a + nightMoments 1 a (a + shiftLength a b) =
      if b ≤ a then maxNightMinutes + nightBefore 1 b else nightBefore 1 b := by
  rw [add_shiftLength ha]
  split
  · exact nightMoments_pastMidnight ha.le hb.le
  · next hab => exact nightMoments_ofDay (le_of_not_ge hab) hb.le

theorem nightMinutesBetween_eq_nightMoments (ha : a < minutesPerDay) (hb : b < minutesPerDay) :
    nightMinutesBetween a b = nightMoments 1 a (a + shiftLength a b) :=
  Nat.add_left_cancel
    ((nightMinutesBetween_spec ha hb).trans (nightMoments_shiftLength ha hb).symm)

/-- A shift has the same night minutes on the next day. -/
theorem nightMoments_fromStop (ha : a < minutesPerDay) (n : ℕ) :
    nightMoments 1 (a + shiftLength a b) (a + shiftLength a b + n) = nightMoments 1 b (b + n) := by
  rw [add_shiftLength ha]
  split
  · rw [Nat.add_assoc]
    exact nightMoments_nextDay
  · rfl

theorem nightMinutesBetween_add (ha : a < minutesPerDay) (hb : b < minutesPerDay)
    (hc : c < minutesPerDay) (h : shiftLength a b + shiftLength b c ≤ minutesPerDay) :
    nightMinutesBetween a c = nightMinutesBetween a b + nightMinutesBetween b c := by
  -- The second shift is counted from where the first one ends, be it a day later.
  rw [nightMinutesBetween_eq_nightMoments ha hc, nightMinutesBetween_eq_nightMoments ha hb,
    nightMinutesBetween_eq_nightMoments hb hc, ← nightMoments_fromStop ha (shiftLength b c),
    nightMoments_add (Nat.le_add_right _ _) (Nat.le_add_right _ _), Nat.add_assoc,
    shiftLength_add ha hb h]

/-- The night minutes of a shift are those of its minutes that lie in the night, and cutting
    them to those of one night changes nothing; they are no more than its length. Of two
    shifts one after the other, in a day at most, they add up. -/
theorem nightMinutes_eq_nightMoments (start stop : TimeOfDay) :
    let length := shiftLength start.minute stop.minute
    nightMinutes start stop = nightMoments 1 start.minute (start.minute + length) ∧
      nightMinutes start stop = uncappedNightMinutes start.minute stop.minute ∧
      nightMinutes start stop ≤ min length maxNightMinutes ∧
      ∀ next : TimeOfDay, length + shiftLength stop.minute next.minute ≤ minutesPerDay →
        nightMinutes start next = nightMinutes start stop + nightMinutes stop next := by
  intro length
  have hcount := nightMinutesBetween_eq_nightMoments start.minute_lt stop.minute_lt
  refine ⟨hcount, nightMinutesBetween_eq_uncapped start.minute_lt stop.minute_lt, ?_, ?_⟩
  · refine le_min ?_ (min_le_left _ _)
    have hle := nightMoments_le (u := 1) start.minute (start.minute + length)
    rw [Nat.add_sub_cancel_left] at hle
    exact hcount.trans_le hle
  · exact fun next h => nightMinutesBetween_add start.minute_lt stop.minute_lt next.minute_lt h

/-- From eight in the evening to two in the morning and on to half past seven: four hours of
    the night each. -/
theorem nightMinutes_eq_nightMoments_evening :
    let start : TimeOfDay := { second := 72000, nano := 0 }
    let stop : TimeOfDay := { second := 7200, nano := 0 }
    let next : TimeOfDay := { second := 27000, nano := 0 }
    shiftLength start.minute stop.minute + shiftLength stop.minute next.minute ≤ minutesPerDay ∧
      nightMinutes start stop = 240 ∧ nightMinutes stop next = 240 ∧
      nightMinutes start next = 480 := by
  intro start stop next
  have hlength : shiftLength start.minute stop.minute + shiftLength stop.minute next.minute ≤
      minutesPerDay := by
    decide
  have hstop : nightMinutes start stop = 240 := by decide
  have hnext : nightMinutes stop next = 240 := by decide
  obtain ⟨-, -, -, hadd⟩ := nightMinutes_eq_nightMoments start stop
  exact ⟨hlength, hstop, hnext, by rw [hadd next hlength, hstop, hnext]⟩

end FieldWages
