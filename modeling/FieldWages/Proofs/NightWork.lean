import FieldWages.NightWork
import Mathlib.Data.Rat.Floor
import Mathlib.Order.Interval.Finset.Nat
import Mathlib.Tactic

/-!
# Night work by the clock

The night of a shift is measured by counting moments: those from the beginning of
the shift up to its end, at so many to the minute, that lie between 22:00 and
06:00 of any day (`nightMoments`). Counted by the minute, a shift has the night
minutes that are calculated. Counted by the nanosecond it may have somewhat more
or less, as the calculation cuts both ends to their minutes; that is less than a
minute in all, unless both ends are cut to one minute (`TimeOfDay.WithinMinute`).
Such a shift, of less than a minute, is taken for one that runs past midnight to
the same minute, and has a whole night.

* `nightMoments_ofDay`, `nightMoments_pastMidnight`: counting within a day and past
  midnight;
* `nightMinutesBetween_eq_uncapped`, `nightMinutesBetween_spec`: the minutes that are
  calculated, with their cap and by what the day has before them;
* `TimeOfDay.nightMinutes_near_iff`: how near they come to the seconds worked.
-/

namespace FieldWages

/-! ## Counting the moments of the night -/

/-- Whether a moment lies in the night. Moments are counted from a midnight on, so
    many to the minute. -/
def IsNightMoment (perMinute moment : ℕ) : Prop :=
  moment % (minutesPerDay * perMinute) < nightEndMinute * perMinute ∨
    nightStartMinute * perMinute ≤ moment % (minutesPerDay * perMinute)

instance (perMinute : ℕ) : DecidablePred (IsNightMoment perMinute) :=
  fun _ => inferInstanceAs (Decidable (_ ∨ _))

/-- How many of the moments from `first` on and before `last` lie in the night. -/
def nightMoments (perMinute first last : ℕ) : ℕ :=
  ((Finset.Ico first last).filter (IsNightMoment perMinute)).card

/-- How many moments of the night a day has before one of its moments. -/
def nightBefore (perMinute moment : ℕ) : ℕ :=
  min moment (nightEndMinute * perMinute) + (moment - nightStartMinute * perMinute)

variable {u a b c : ℕ}

theorem nightMoments_add (hab : a ≤ b) (hbc : b ≤ c) :
    nightMoments u a b + nightMoments u b c = nightMoments u a c := by
  rw [nightMoments, nightMoments, nightMoments, ← Finset.Ico_union_Ico_eq_Ico hab hbc,
    Finset.filter_union, Finset.card_union_of_disjoint]
  exact Finset.disjoint_filter_filter (Finset.Ico_disjoint_Ico_consecutive a b c)

/-- The nights of the next day are those of the day. -/
theorem nightMoments_nextDay :
    nightMoments u (minutesPerDay * u + a) (minutesPerDay * u + b) = nightMoments u a b := by
  refine Finset.card_nbij' (· - minutesPerDay * u) (minutesPerDay * u + ·) ?_ ?_ ?_ ?_
  all_goals intro m hm
  all_goals simp only [Finset.coe_filter, Finset.mem_Ico, Set.mem_ofPred_eq, IsNightMoment] at hm ⊢
  · obtain ⟨k, rfl⟩ := Nat.exists_eq_add_of_le (by omega : minutesPerDay * u ≤ m)
    rw [Nat.add_mod_left] at hm
    rw [Nat.add_sub_cancel_left]
    exact ⟨by omega, hm.2⟩
  · rw [Nat.add_mod_left]
    exact ⟨by omega, hm.2⟩
  · omega
  · omega

theorem nightMoments_fromMidnight (hb : b ≤ minutesPerDay * u) :
    nightMoments u 0 b = nightBefore u b := by
  have hsplit : (Finset.Ico 0 b).filter (IsNightMoment u) =
      Finset.Ico 0 (min b (nightEndMinute * u)) ∪ Finset.Ico (nightStartMinute * u) b := by
    ext m
    simp only [Finset.mem_filter, Finset.mem_union, Finset.mem_Ico, IsNightMoment]
    by_cases hm : m < b
    · rw [Nat.mod_eq_of_lt (Nat.lt_of_lt_of_le hm hb)]
      omega
    · omega
  have hdisjoint : Disjoint (Finset.Ico 0 (min b (nightEndMinute * u)))
      (Finset.Ico (nightStartMinute * u) b) := by
    refine Finset.disjoint_left.2 fun m hm hm' => ?_
    simp only [Finset.mem_Ico, nightEndMinute, nightStartMinute] at hm hm'
    omega
  rw [nightMoments, hsplit, Finset.card_union_of_disjoint hdisjoint, Nat.card_Ico, Nat.card_Ico,
    Nat.sub_zero, nightBefore]

theorem nightMoments_ofDay (hab : a ≤ b) (hb : b ≤ minutesPerDay * u) :
    nightBefore u a + nightMoments u a b = nightBefore u b := by
  rw [← nightMoments_fromMidnight hb, ← nightMoments_fromMidnight (hab.trans hb),
    nightMoments_add (Nat.zero_le a) hab]

/-- A shift past midnight has the night moments of its two days. -/
theorem nightMoments_pastMidnight (ha : a ≤ minutesPerDay * u) (hb : b ≤ minutesPerDay * u) :
    nightBefore u a + nightMoments u a (minutesPerDay * u + b) =
      nightBefore u (minutesPerDay * u) + nightBefore u b := by
  have hnext := nightMoments_nextDay (u := u) (a := 0) (b := b)
  rw [Nat.add_zero, nightMoments_fromMidnight hb] at hnext
  rw [← nightMoments_add ha (Nat.le_add_right _ b), hnext, ← Nat.add_assoc,
    nightMoments_ofDay ha le_rfl]

/-! ## Minutes -/

theorem nightMinutesOfDay_spec (hab : a ≤ b) (hb : b ≤ minutesPerDay) :
    nightBefore 1 a + nightMinutesOfDay a b = nightBefore 1 b := by
  simp only [nightBefore, nightMinutesOfDay, overlap, nightEndMinute, nightStartMinute,
    minutesPerDay] at *
  omega

theorem nightBefore_mono (hab : a ≤ b) : nightBefore u a ≤ nightBefore u b := by
  simp only [nightBefore]
  omega

/-- The night minutes of a shift before they are cut to those of a night. -/
def uncappedNightMinutes (start stop : ℕ) : ℕ :=
  if stop ≤ start then nightMinutesOfDay start minutesPerDay + nightMinutesOfDay 0 stop
  else nightMinutesOfDay start stop

theorem uncappedNightMinutes_spec (ha : a < minutesPerDay) (hb : b < minutesPerDay) :
    nightBefore 1 a + uncappedNightMinutes a b =
      if b ≤ a then maxNightMinutes + nightBefore 1 b else nightBefore 1 b := by
  have hday : nightBefore 1 minutesPerDay = maxNightMinutes := rfl
  have hzero : nightBefore 1 0 = 0 := rfl
  rw [uncappedNightMinutes]
  split
  · have hevening := nightMinutesOfDay_spec ha.le le_rfl
    have hmorning := nightMinutesOfDay_spec (Nat.zero_le b) hb.le
    omega
  · next hab => exact nightMinutesOfDay_spec (le_of_not_ge hab) hb.le

theorem uncappedNightMinutes_le (ha : a < minutesPerDay) (hb : b < minutesPerDay) :
    uncappedNightMinutes a b ≤ maxNightMinutes := by
  have hspec := uncappedNightMinutes_spec ha hb
  split at hspec
  · next hba =>
    -- The evening behind `a` and the morning before `b` are parts of the nights of one day.
    have hmono : nightBefore 1 b ≤ nightBefore 1 a := nightBefore_mono hba
    omega
  · have hle : nightBefore 1 b ≤ nightBefore 1 minutesPerDay := nightBefore_mono hb.le
    have hday : nightBefore 1 minutesPerDay = maxNightMinutes := rfl
    omega

/-- The cap on the minutes of a shift never bites. -/
theorem nightMinutesBetween_eq_uncapped (ha : a < minutesPerDay) (hb : b < minutesPerDay) :
    nightMinutesBetween a b = uncappedNightMinutes a b :=
  min_eq_right (uncappedNightMinutes_le ha hb)

theorem nightMinutesBetween_spec (ha : a < minutesPerDay) (hb : b < minutesPerDay) :
    nightBefore 1 a + nightMinutesBetween a b =
      if b ≤ a then maxNightMinutes + nightBefore 1 b else nightBefore 1 b := by
  rw [nightMinutesBetween_eq_uncapped ha hb, uncappedNightMinutes_spec ha hb]

/-! ## Nanoseconds -/

/-- The nanoseconds of a minute. -/
def nanosPerMinute : ℕ := 60000000000

namespace TimeOfDay

variable {start stop : TimeOfDay}

/-- The nanoseconds since midnight, if the time is in no leap second. -/
def nanos (t : TimeOfDay) : ℕ := t.second * 1000000000 + t.nano

/-- The nanoseconds of a shift that lie in the night: the shift runs past midnight
    unless it ends after it begins. -/
def nightNanos (start stop : TimeOfDay) : ℕ :=
  nightMoments nanosPerMinute start.nanos
    (if start.nanos < stop.nanos then stop.nanos else minutesPerDay * nanosPerMinute + stop.nanos)

/-- The seconds of a shift that lie in the night. -/
def nightSeconds (start stop : TimeOfDay) : ℚ := nightNanos start stop / 1000000000

theorem nanos_spec {t : TimeOfDay} (h : t.nano < 1000000000) :
    nanosPerMinute * t.minute ≤ t.nanos ∧ t.nanos < nanosPerMinute * t.minute + nanosPerMinute := by
  simp only [nanosPerMinute, nanos, minute]
  omega

theorem nanos_lt {t : TimeOfDay} (h : t.nano < 1000000000) :
    t.nanos < minutesPerDay * nanosPerMinute := by
  have := t.second_lt
  simp only [nanosPerMinute, nanos, minutesPerDay]
  omega

/-- Cutting a time of day to its minute leaves out less than a minute of the night. -/
theorem nightBefore_nanos {t : TimeOfDay} (h : t.nano < 1000000000) :
    nanosPerMinute * nightBefore 1 t.minute ≤ nightBefore nanosPerMinute t.nanos ∧
      nightBefore nanosPerMinute t.nanos <
        nanosPerMinute * nightBefore 1 t.minute + nanosPerMinute := by
  obtain ⟨h₁, h₂⟩ := nanos_spec h
  simp only [nightBefore, nightEndMinute, nightStartMinute, nanosPerMinute] at *
  omega

/-- The night nanoseconds of a shift, by what its ends have before them. -/
theorem nightNanos_spec (h₁ : start.nano < 1000000000) (h₂ : stop.nano < 1000000000) :
    nightBefore nanosPerMinute start.nanos + nightNanos start stop =
      if start.nanos < stop.nanos then nightBefore nanosPerMinute stop.nanos
      else maxNightMinutes * nanosPerMinute + nightBefore nanosPerMinute stop.nanos := by
  have hstart := (nanos_lt h₁).le
  have hstop := (nanos_lt h₂).le
  rw [nightNanos]
  split
  · next hlt => exact nightMoments_ofDay hlt.le hstop
  · rw [nightMoments_pastMidnight hstart hstop]
    rfl

/-- A shift has no more night than it is long. -/
theorem nightNanos_le (h₁ : start.nano < 1000000000) (h₂ : stop.nano < 1000000000)
    (hlt : start.nanos < stop.nanos) : nightNanos start stop ≤ stop.nanos - start.nanos := by
  have hspec := nightNanos_spec h₁ h₂
  rw [if_pos hlt] at hspec
  simp only [nightBefore, nightEndMinute, nightStartMinute, nanosPerMinute] at hspec
  omega

/-- Whether a shift begins and ends in one minute of one day. -/
def WithinMinute (start stop : TimeOfDay) : Prop :=
  start.nanos < stop.nanos ∧ start.minute = stop.minute

theorem WithinMinute.length_lt (h : WithinMinute start stop) (h₁ : start.nano < 1000000000)
    (h₂ : stop.nano < 1000000000) : stop.nanos - start.nanos < nanosPerMinute := by
  obtain ⟨hs, -⟩ := nanos_spec h₁
  obtain ⟨-, ht⟩ := nanos_spec h₂
  have := h.2
  simp only [nanosPerMinute] at *
  omega

instance : Decidable (WithinMinute start stop) := inferInstanceAs (Decidable (_ ∧ _))

/-- A shift within a minute is taken for one around the clock. -/
theorem WithinMinute.nightMinutes_eq (h : WithinMinute start stop) :
    nightMinutes start stop = maxNightMinutes := by
  have hspec := nightMinutesBetween_spec start.minute_lt stop.minute_lt
  rw [if_pos h.2.ge, h.2] at hspec
  rw [nightMinutes, h.2]
  omega

/-- Any other shift crosses midnight by its minutes if it does by its nanoseconds. -/
theorem minute_le_iff (h₁ : start.nano < 1000000000) (h₂ : stop.nano < 1000000000)
    (h : ¬WithinMinute start stop) : stop.minute ≤ start.minute ↔ ¬start.nanos < stop.nanos := by
  obtain ⟨hs, hs'⟩ := nanos_spec h₁
  obtain ⟨ht, ht'⟩ := nanos_spec h₂
  simp only [WithinMinute, nanosPerMinute] at *
  omega

/-- Its night minutes are off by less than one. -/
theorem nightMinutes_near (h₁ : start.nano < 1000000000) (h₂ : stop.nano < 1000000000)
    (h : ¬WithinMinute start stop) :
    nanosPerMinute * nightMinutes start stop < nightNanos start stop + nanosPerMinute ∧
      nightNanos start stop < nanosPerMinute * nightMinutes start stop + nanosPerMinute := by
  have hminutes := nightMinutesBetween_spec start.minute_lt stop.minute_lt
  have hnanos := nightNanos_spec h₁ h₂
  have hstart := nightBefore_nanos h₁
  have hstop := nightBefore_nanos h₂
  rw [← nightMinutes] at hminutes
  by_cases hlt : start.nanos < stop.nanos
  · rw [if_neg ((minute_le_iff h₁ h₂ h).not.2 (not_not.2 hlt))] at hminutes
    rw [if_pos hlt] at hnanos
    simp only [nanosPerMinute] at *
    omega
  · rw [if_pos ((minute_le_iff h₁ h₂ h).2 hlt)] at hminutes
    rw [if_neg hlt] at hnanos
    simp only [nanosPerMinute, maxNightMinutes] at *
    omega

/-- The minutes of a shift that does not cross midnight, a minute begun counted as one. -/
def lengthInMinutes (start stop : TimeOfDay) : ℕ :=
  ⌈((stop.nanos - start.nanos : ℕ) : ℚ) / nanosPerMinute⌉₊

theorem le_lengthInMinutes_iff {n : ℕ} (hn : 0 < n) :
    n ≤ lengthInMinutes start stop ↔ nanosPerMinute * (n - 1) < stop.nanos - start.nanos := by
  have hpos : (0 : ℚ) < nanosPerMinute := by norm_num [nanosPerMinute]
  obtain ⟨n, rfl⟩ := Nat.exists_eq_add_of_lt hn
  rw [Nat.zero_add, Nat.add_sub_cancel, lengthInMinutes, Nat.succ_le_iff, Nat.lt_ceil,
    lt_div_iff₀ hpos, mul_comm]
  exact_mod_cast Iff.rfl

/-- Seconds that differ by less than a minute, in nanoseconds. -/
theorem abs_sub_nightSeconds_lt_iff {n : ℕ} :
    |60 * (n : ℚ) - nightSeconds start stop| < 60 ↔
      nanosPerMinute * n < nightNanos start stop + nanosPerMinute ∧
        nightNanos start stop < nanosPerMinute * n + nanosPerMinute := by
  have hseconds : nightSeconds start stop * 1000000000 = nightNanos start stop :=
    div_mul_cancel₀ _ (by norm_num)
  rw [abs_lt, ← Nat.cast_lt (α := ℚ), ← Nat.cast_lt (α := ℚ)]
  push_cast [nanosPerMinute]
  rw [← hseconds]
  constructor
  · rintro ⟨h₁, h₂⟩
    exact ⟨by linarith, by linarith⟩
  · rintro ⟨h₁, h₂⟩
    exact ⟨by linarith, by linarith⟩

/-- The night minutes of a shift are its night seconds to within a minute, and for
    one on a single day no more than its length, unless it lies within a minute:
    then they are those of a whole night. -/
theorem nightMinutes_near_iff (h₁ : start.nano < 1000000000) (h₂ : stop.nano < 1000000000) :
    (|60 * (nightMinutes start stop : ℚ) - nightSeconds start stop| < 60 ↔
        ¬WithinMinute start stop) ∧
      (start.nanos < stop.nanos →
        (nightMinutes start stop ≤ lengthInMinutes start stop ↔ start.minute ≠ stop.minute)) ∧
      (WithinMinute start stop → nightMinutes start stop = maxNightMinutes) := by
  refine ⟨?_, fun hlt => ?_, WithinMinute.nightMinutes_eq⟩
  · rw [abs_sub_nightSeconds_lt_iff]
    refine ⟨fun h hwithin => ?_, nightMinutes_near h₁ h₂⟩
    -- Of less than a minute, no more than that can be night.
    have hle := nightNanos_le h₁ h₂ hwithin.1
    have hlt := hwithin.length_lt h₁ h₂
    rw [hwithin.nightMinutes_eq] at h
    simp only [nanosPerMinute, maxNightMinutes] at h hlt
    omega
  · refine ⟨fun h hminute => ?_, fun hminute => ?_⟩
    · have hwithin : WithinMinute start stop := ⟨hlt, hminute⟩
      have hlength := hwithin.length_lt h₁ h₂
      rw [hwithin.nightMinutes_eq, le_lengthInMinutes_iff (by decide)] at h
      simp only [nanosPerMinute, maxNightMinutes] at h hlength
      omega
    · rcases Nat.eq_zero_or_pos (nightMinutes start stop) with hzero | hpos
      · rw [hzero]
        exact Nat.zero_le _
      · obtain ⟨hnear, -⟩ := nightMinutes_near h₁ h₂ fun h => hminute h.2
        have hle := nightNanos_le h₁ h₂ hlt
        rw [le_lengthInMinutes_iff hpos]
        simp only [nanosPerMinute] at hnear ⊢
        omega

/-- The last second of a minute of the night: its minute counts as a whole. -/
theorem nightMinutes_near_iff_lastSecond :
    let start : TimeOfDay := { second := 79259, nano := 0 }
    let stop : TimeOfDay := { second := 79260, nano := 0 }
    nightMinutes start stop = 1 ∧ nightSeconds start stop = 1 ∧
      |60 * (nightMinutes start stop : ℚ) - nightSeconds start stop| < 60 ∧
      nightMinutes start stop ≤ lengthInMinutes start stop := by
  intro start stop
  have hstart : start.nano < 1000000000 := by decide
  have hstop : stop.nano < 1000000000 := by decide
  have hnanos : nightNanos start stop = 1000000000 := by
    have hspec := nightNanos_spec hstart hstop
    rw [if_pos (by decide), show nightBefore nanosPerMinute start.nanos = 21659000000000 by decide,
      show nightBefore nanosPerMinute stop.nanos = 21660000000000 by decide] at hspec
    omega
  obtain ⟨hnear, hlength, -⟩ := nightMinutes_near_iff hstart hstop
  refine ⟨by decide, by rw [nightSeconds, hnanos]; norm_num, hnear.2 (by decide), ?_⟩
  exact (hlength (by decide)).2 (by decide)

/-- Forty seconds of a morning are given the minutes of a whole night. -/
theorem not_nightMinutes_near_morning :
    let start : TimeOfDay := { second := 28810, nano := 0 }
    let stop : TimeOfDay := { second := 28850, nano := 0 }
    nightMinutes start stop = 480 ∧ nightSeconds start stop = 0 ∧
      ¬|60 * (nightMinutes start stop : ℚ) - nightSeconds start stop| < 60 ∧
      ¬nightMinutes start stop ≤ lengthInMinutes start stop := by
  intro start stop
  have hstart : start.nano < 1000000000 := by decide
  have hstop : stop.nano < 1000000000 := by decide
  have hminutes : nightMinutes start stop = 480 := by decide
  have hseconds : nightSeconds start stop = 0 := by
    have hspec := nightNanos_spec hstart hstop
    rw [if_pos (by decide), show nightBefore nanosPerMinute start.nanos = 21600000000000 by decide,
      show nightBefore nanosPerMinute stop.nanos = 21600000000000 by decide] at hspec
    rw [nightSeconds, show nightNanos start stop = 0 by omega]
    norm_num
  refine ⟨hminutes, hseconds, ?_, ?_⟩
  · rw [hminutes, hseconds]
    norm_num
  · rw [hminutes, le_lengthInMinutes_iff (by decide)]
    decide

end TimeOfDay

end FieldWages
