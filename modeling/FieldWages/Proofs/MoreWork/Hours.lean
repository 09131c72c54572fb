import FieldWages.Proofs.Decimal.Monotone
import FieldWages.Proofs.Payroll
import FieldWages.Proofs.SameWork.Hours

/-!
# Hours of more work

An entry more adds hours to its day, or a day to the others, and takes none away. So the
days of the longer list have at least the hours of the shorter one, and so do the parts
they are split into (`HourSums.AtMost`): a day with more hours fills no tier less, and a
day more adds to all of them. The one exception is a limit of the first tier that is
negative, since every ordinary day then adds the limit itself to the tier.

* `DailyHoursMap.ofAttendance_atMost`: the days of a list and of a part of it;
* `HourSums.addDay_unless`: what a day adds to the sums;
* `HourSums.AtMost.addDay`, `HourSums.AtMost.addDay_right`: a day with more hours, and a day
  more;
* `HourBreakdown.ofDaily_atMost`, `HourBreakdown.limit_nonneg`: the parts of more hours.
-/

namespace FieldWages

open Decimal

variable {x : Decimal} {shift : Option (TimeOfDay × TimeOfDay)}

/-- Night hours are not negative. -/
theorem nightHours_nonneg {start stop : TimeOfDay} {n : Decimal}
    (h : nightHours start stop x = .ok n) : zero ≤ n := by
  obtain ⟨q, hq, h⟩ := bind_eq_ok.1 h
  rw [pure_eq_ok] at h
  subst h
  have hq₀ := zero_le_div (zero_le_ofUInt32 _) (by decide) hq
  rw [zero_le_iff, toRat_min, toRat_max, toRat_zero]
  exact le_min (zero_le_iff.1 (toHundredths_nonneg hq₀)) (le_max_right _ _)

/-! ## Days -/

/-- Whether a day has no more hours than another. -/
structure DailyHours.AtMost (a b : DailyHours) : Prop where
  total : a.total ≤ b.total
  night : a.night ≤ b.night

namespace DailyHours

variable {a a' b c : DailyHours}

theorem AtMost.refl (a : DailyHours) : a.AtMost a := ⟨le_rfl, le_rfl⟩

theorem AtMost.trans (h : a.AtMost b) (h' : b.AtMost c) : a.AtMost c :=
  ⟨h.total.trans h'.total, h.night.trans h'.night⟩

/-- An entry takes nothing from its day. -/
theorem AtMost.addEntry_right (h : a.AtMost b) (hx : zero ≤ x) :
    UnlessOverflow a.AtMost (b.addEntry x shift) := by
  refine (le_add h.total hx).bind fun total htotal => ?_
  cases shift with
  | none => exact .ok ⟨htotal, h.night⟩
  | some times =>
    obtain ⟨n, hn⟩ := exists_nightHours_eq_ok times.1 times.2 x
    refine .bind_ok hn ((le_add h.night (nightHours_nonneg hn)).bind fun night hnight => ?_)
    exact .ok ⟨htotal, hnight⟩

/-- An entry adds the same to both days. -/
theorem AtMost.addEntry (h : a.AtMost b) (ha : a.addEntry x shift = .ok a') :
    UnlessOverflow a'.AtMost (b.addEntry x shift) := by
  obtain ⟨total, htotal, ha⟩ := bind_eq_ok.1 ha
  refine (add_mono htotal h.total le_rfl).bind fun total' htotal' => ?_
  cases shift with
  | none =>
    cases ha
    exact .ok ⟨htotal', h.night⟩
  | some times =>
    obtain ⟨n, hn, ha⟩ := bind_eq_ok.1 ha
    obtain ⟨night, hnight, ha⟩ := bind_eq_ok.1 ha
    cases ha
    refine .bind_ok hn ((add_mono hnight h.night le_rfl).bind fun night' hnight' => ?_)
    exact .ok ⟨htotal', hnight'⟩

end DailyHours

/-! ## The days of a list -/

/-- Whether an entry has no negative hours. -/
def AttendanceEntry.HoursNonneg (e : AttendanceEntry) : Prop := ∀ hours ∈ e.paidHours, zero ≤ hours

instance (e : AttendanceEntry) : Decidable e.HoursNonneg :=
  inferInstanceAs (Decidable (∀ hours ∈ e.paidHours, zero ≤ hours))

namespace DailyHoursMap

variable {p : Period} {m m' m₁ : DailyHoursMap} {e : AttendanceEntry}
  {as bs : List AttendanceEntry}

/-- Whether all days of a map are among those of another, with no more hours; none are
    negative. -/
structure AtMost (m m' : DailyHoursMap) : Prop where
  days : ∀ d ∈ m.keys, d ∈ m'.keys
  nonneg : ∀ d, DailyHours.none.AtMost (m.on d)
  hours : ∀ d, (m.on d).AtMost (m'.on d)

theorem AtMost.nonneg_right (h : m.AtMost m') (d : Date) : DailyHours.none.AtMost (m'.on d) :=
  (h.nonneg d).trans (h.hours d)

theorem atMost_empty : AtMost .empty .empty :=
  ⟨fun _ h => h, fun _ => .refl _, fun _ => .refl _⟩

/-- The entries of an input that is accepted have no negative hours. -/
theorem nonneg_of_accepted {employee : Employee} {q : Parameters}
    (h : Payroll.refusal? employee as q = none) : ∀ e ∈ as, e.HoursNonneg := by
  obtain ⟨-, -, -, -, hentries⟩ := Payroll.refusal?_eq_none_iff.1 h
  intro e he hours hpaid
  exact not_lt_iff_le.1 ((Payroll.entryRefusal?_eq_none_iff.1 (hentries e he)).2 hours hpaid)

/-- An entry takes nothing from the days of a list. -/
theorem AtMost.addEntry_right (h : m.AtMost m') (he : e.HoursNonneg) :
    UnlessOverflow m.AtMost (addEntry p m' e) := by
  rw [addEntry]
  split
  · next hours _ hpaid =>
    refine ((h.hours e.workDate).addEntry_right (he hours hpaid)).bind fun day hday => ?_
    refine .ok ⟨fun d hd => SortedMap.mem_keys_insert.2 (.inr (h.days d hd)), h.nonneg, fun d => ?_⟩
    rw [on_insert]
    split
    · next hd => exact hd ▸ hday
    · exact h.hours d
  · exact .ok h

/-- An entry adds the same to both lists of days. -/
theorem AtMost.addEntry (h : m.AtMost m') (he : e.HoursNonneg) (hm : addEntry p m e = .ok m₁) :
    UnlessOverflow m₁.AtMost (addEntry p m' e) := by
  rw [DailyHoursMap.addEntry] at hm ⊢
  split at hm
  · next hours hp hpaid =>
    obtain ⟨day, hday, hm⟩ := bind_eq_ok.1 hm
    cases hm
    have hnonneg := ((h.nonneg e.workDate).addEntry_right (he hours hpaid)).of_eq_ok hday
    refine ((h.hours e.workDate).addEntry hday).bind fun day' hday' => ?_
    refine .ok ⟨fun d hd => ?_, fun d => ?_, fun d => ?_⟩
    · rw [SortedMap.mem_keys_insert] at hd ⊢
      exact hd.imp_right (h.days d)
    · rw [on_insert]
      split
      · exact hnonneg
      · exact h.nonneg d
    · rw [on_insert, on_insert]
      split
      · exact hday'
      · exact h.hours d
  · cases hm
    exact .ok h

/-- The days of a list have at least the hours of those of a part of it. -/
theorem ofAttendance_atMost (h : as.Sublist bs) (hbs : ∀ e ∈ bs, e.HoursNonneg)
    (hm : ofAttendance as p = .ok m) : UnlessOverflow m.AtMost (ofAttendance bs p) := by
  have heq : List.SublistForall₂ (· = ·) as bs :=
    List.sublistForall₂_iff.2 ⟨as, List.forall₂_same.2 fun _ _ => rfl, h⟩
  refine UnlessOverflow.foldlM (R := AtMost) heq hbs ?_ AtMost.addEntry_right atMost_empty hm
  rintro s t e _ s' hst rfl he hs
  exact hst.addEntry he hs

/-- The days of a map are found in one with at least its hours, in order. -/
theorem AtMost.sublistForall₂_entries (h : m.AtMost m') :
    List.SublistForall₂ (fun e e' => e.1 = e'.1 ∧ e.2.AtMost e'.2) m.entries m'.entries := by
  refine SortedMap.sublistForall₂_entries fun e he => ?_
  have hget := SortedMap.get?_of_mem he
  have hkey := h.days e.1 (SortedMap.isSome_get?.1 (by rw [hget]; rfl))
  obtain ⟨day', hday'⟩ := Option.isSome_iff_exists.1 (SortedMap.isSome_get?.2 hkey)
  refine ⟨day', hday', ?_⟩
  have hhours := h.hours e.1
  rwa [on, on, hget, hday'] at hhours

theorem AtMost.nonneg_entries (h : m.AtMost m') : ∀ e ∈ m'.entries, DailyHours.none.AtMost e.2 := by
  intro e he
  have hday := h.nonneg_right e.1
  rwa [on, SortedMap.get?_of_mem he] at hday

end DailyHoursMap

/-! ## The parts of the days -/

/-- A number exceeds a limit by more if it is greater. -/
theorem sub_min_mono {a b : ℚ} (h : a ≤ b) (n : ℚ) : a - min a n ≤ b - min b n := by
  rcases le_total a n with ha | ha
  · rw [min_eq_left ha, sub_self]
    exact sub_nonneg.2 (min_le_left b n)
  · rw [min_eq_right ha, min_eq_right (ha.trans h)]
    exact sub_le_sub_right h n

namespace HourSums

variable {s s' t t' : HourSums} {n₁ t₁ hours hours' extra extra' rest rest' : Decimal}
  {c : WorkCalendar} {day day' : Date × DailyHours} {daily daily' : DailyHoursMap}

/-- What an ordinary day adds to the sums: normal hours up to the limit `n₁`, and of the
    extra hours those up to `t₁` to the first tier and the rest to the second. -/
structure AddsOrdinary (n₁ t₁ hours extra rest : Decimal) (s s' : HourSums) : Prop where
  fits_extra : Fits (hours.toRat - min hours.toRat n₁.toRat) extra
  fits_rest : Fits (extra.toRat - min extra.toRat t₁.toRat) rest
  normal : Fits (s.normal.toRat + min hours.toRat n₁.toRat) s'.normal
  tier1 : Fits (s.tier1.toRat + min extra.toRat t₁.toRat) s'.tier1
  tier2 : Fits (s.tier2.toRat + rest.toRat) s'.tier2
  others : s' = { s with normal := s'.normal, tier1 := s'.tier1, tier2 := s'.tier2 }

theorem addOrdinary_unless (n₁ t₁ hours : Decimal) (s : HourSums) :
    UnlessOverflow (fun s' => ∃ extra rest, AddsOrdinary n₁ t₁ hours extra rest s s')
      (s.addOrdinary hours n₁ t₁) := by
  refine (sub_unless _ _).bind fun above habove => ?_
  rw [toRat_min] at habove
  -- What is above the limit is not negative, so it is extra as it is.
  have hextra : Fits (hours.toRat - min hours.toRat n₁.toRat) (above.max zero) := by
    refine habove.congr ?_
    rw [equiv_iff, toRat_max, toRat_zero, max_eq_left]
    exact zero_le_iff.1 (habove.nonneg (sub_nonneg.2 (min_le_left _ _)))
  refine (add_unless _ _).bind fun normal hnormal => ?_
  refine (add_unless _ _).bind fun tier1 htier1 => ?_
  refine (sub_unless _ _).bind fun rest hrest => ?_
  refine (add_unless _ _).bind fun tier2 htier2 => ?_
  rw [toRat_min] at hnormal htier1 hrest
  exact .ok ⟨_, rest, hextra, hrest, hnormal, htier1, htier2, rfl⟩

/-- What a Sunday or holiday adds to the sums: all of its hours, and once more those
    above the limit. -/
structure AddsSpecial (n₁ hours above : Decimal) (s s' : HourSums) : Prop where
  fits_above : Fits (hours.toRat - n₁.toRat) above
  special : Fits (s.special.toRat + hours.toRat) s'.special
  specialExtra : Fits (s.specialExtra.toRat + max above.toRat 0) s'.specialExtra
  others : s' = { s with special := s'.special, specialExtra := s'.specialExtra }

theorem addSpecial_unless (n₁ hours : Decimal) (s : HourSums) :
    UnlessOverflow (fun s' => ∃ above, AddsSpecial n₁ hours above s s')
      (s.addSpecial hours n₁) := by
  refine (add_unless _ _).bind fun special hspecial => ?_
  refine (sub_unless _ _).bind fun above habove => ?_
  refine (add_unless _ _).bind fun specialExtra hspecialExtra => ?_
  rw [toRat_max, toRat_zero] at hspecialExtra
  exact .ok ⟨above, habove, hspecial, hspecialExtra, rfl⟩

/-- What a day adds to the sums: its night hours, and what an ordinary day or a Sunday or
    holiday adds. -/
def AddsDay (n₁ t₁ : Decimal) (c : WorkCalendar) (day : Date × DailyHours) (s s' : HourSums) :
    Prop :=
  ∃ night, Fits (s.night.toRat + day.2.night.toRat) night ∧
    if c.isSundayOrHoliday day.1 then
      ∃ above, AddsSpecial n₁ day.2.total above { s with night } s'
    else ∃ extra rest, AddsOrdinary n₁ t₁ day.2.total extra rest { s with night } s'

theorem addDay_unless (n₁ t₁ : Decimal) (c : WorkCalendar) (day : Date × DailyHours)
    (s : HourSums) : UnlessOverflow (AddsDay n₁ t₁ c day s) (addDay n₁ t₁ c s day) := by
  refine (add_unless _ _).bind fun night hnight => ?_
  dsimp only
  split
  · next hdate =>
    refine (addSpecial_unless _ _ _).mono fun s' h => ⟨night, hnight, ?_⟩
    rwa [if_pos hdate]
  · next hdate =>
    refine (addOrdinary_unless _ _ _ _).mono fun s' h => ⟨night, hnight, ?_⟩
    rwa [if_neg hdate]

/-- Whether some sums are no greater than others; of the first tier, only if its limit is
    not negative. -/
structure AtMost (t₁ : Decimal) (s t : HourSums) : Prop where
  normal : s.normal ≤ t.normal
  tier1 : zero ≤ t₁ → s.tier1 ≤ t.tier1
  tier2 : s.tier2 ≤ t.tier2
  special : s.special ≤ t.special
  specialExtra : s.specialExtra ≤ t.specialExtra
  night : s.night ≤ t.night

theorem AtMost.refl (t₁ : Decimal) (s : HourSums) : s.AtMost t₁ s :=
  ⟨le_rfl, fun _ => le_rfl, le_rfl, le_rfl, le_rfl, le_rfl⟩

theorem AtMost.addsOrdinary (h : s.AtMost t₁ t) (hhours : hours ≤ hours')
    (hs : AddsOrdinary n₁ t₁ hours extra rest s s')
    (ht : AddsOrdinary n₁ t₁ hours' extra' rest' t t') : s'.AtMost t₁ t' := by
  rw [le_iff_toRat] at hhours
  have hextra := le_iff_toRat.1 (hs.fits_extra.mono ht.fits_extra (sub_min_mono hhours _))
  have hrest := le_iff_toRat.1 (hs.fits_rest.mono ht.fits_rest (sub_min_mono hextra _))
  rw [hs.others, ht.others]
  exact
    { h with
      normal := hs.normal.add_mono ht.normal h.normal (min_le_min hhours le_rfl)
      tier1 := fun hnonneg =>
        hs.tier1.add_mono ht.tier1 (h.tier1 hnonneg) (min_le_min hextra le_rfl)
      tier2 := hs.tier2.add_mono ht.tier2 h.tier2 hrest }

theorem AtMost.addsOrdinary_right (h : s.AtMost t₁ t) (hn : zero ≤ n₁) (hhours : zero ≤ hours)
    (ht : AddsOrdinary n₁ t₁ hours extra rest t t') : s.AtMost t₁ t' := by
  rw [zero_le_iff] at hn hhours
  have hextra := zero_le_iff.1 (ht.fits_extra.nonneg (sub_nonneg.2 (min_le_left _ _)))
  have hrest := zero_le_iff.1 (ht.fits_rest.nonneg (sub_nonneg.2 (min_le_left _ _)))
  rw [ht.others]
  exact
    { h with
      normal := ht.normal.le_add h.normal (le_min hhours hn)
      tier1 := fun hnonneg =>
        ht.tier1.le_add (h.tier1 hnonneg) (le_min hextra (zero_le_iff.1 hnonneg))
      tier2 := ht.tier2.le_add h.tier2 hrest }

theorem AtMost.addsSpecial {above above' : Decimal} (h : s.AtMost t₁ t) (hhours : hours ≤ hours')
    (hs : AddsSpecial n₁ hours above s s') (ht : AddsSpecial n₁ hours' above' t t') :
    s'.AtMost t₁ t' := by
  rw [le_iff_toRat] at hhours
  have habove := le_iff_toRat.1 (hs.fits_above.mono ht.fits_above (sub_le_sub_right hhours _))
  rw [hs.others, ht.others]
  exact
    { h with
      special := hs.special.add_mono ht.special h.special hhours
      specialExtra :=
        hs.specialExtra.add_mono ht.specialExtra h.specialExtra (max_le_max habove le_rfl) }

theorem AtMost.addsSpecial_right {above : Decimal} (h : s.AtMost t₁ t) (hhours : zero ≤ hours)
    (ht : AddsSpecial n₁ hours above t t') : s.AtMost t₁ t' := by
  rw [zero_le_iff] at hhours
  rw [ht.others]
  exact
    { h with
      special := ht.special.le_add h.special hhours
      specialExtra := ht.specialExtra.le_add h.specialExtra (le_max_right _ _) }

/-- A day with more hours adds more. -/
theorem AtMost.addDay (h : s.AtMost t₁ t) (hday : day.1 = day'.1 ∧ day.2.AtMost day'.2)
    (hs : addDay n₁ t₁ c s day = .ok s') : UnlessOverflow (s'.AtMost t₁) (addDay n₁ t₁ c t day') := by
  refine (addDay_unless n₁ t₁ c day' t).mono fun t' ⟨night', hnight', ht⟩ => ?_
  obtain ⟨night, hnight, hs⟩ := (addDay_unless n₁ t₁ c day s).of_eq_ok hs
  have hsums : AtMost t₁ { s with night } { t with night := night' } :=
    { h with night := hnight.add_mono hnight' h.night (le_iff_toRat.1 hday.2.night) }
  rw [← hday.1] at ht
  split at ht
  · next hdate =>
    rw [if_pos hdate] at hs
    obtain ⟨_, hs⟩ := hs
    obtain ⟨_, ht⟩ := ht
    exact hsums.addsSpecial hday.2.total hs ht
  · next hdate =>
    rw [if_neg hdate] at hs
    obtain ⟨_, _, hs⟩ := hs
    obtain ⟨_, _, ht⟩ := ht
    exact hsums.addsOrdinary hday.2.total hs ht

/-- A day more takes nothing away. -/
theorem AtMost.addDay_right (h : s.AtMost t₁ t) (hn : zero ≤ n₁)
    (hday : DailyHours.none.AtMost day.2) :
    UnlessOverflow (s.AtMost t₁) (HourSums.addDay n₁ t₁ c t day) := by
  refine (addDay_unless n₁ t₁ c day t).mono fun t' ⟨night, hnight, ht⟩ => ?_
  have hsums : AtMost t₁ s { t with night } :=
    { h with night := hnight.le_add h.night (zero_le_iff.1 hday.night) }
  split at ht
  · obtain ⟨_, ht⟩ := ht
    exact hsums.addsSpecial_right hday.total ht
  · obtain ⟨_, _, ht⟩ := ht
    exact hsums.addsOrdinary_right hn hday.total ht

/-- Under a limit that is not positive, the first tier does not get hours. -/
theorem tier1_le_zero_addDay (hs : s.tier1 ≤ zero) (ht : t₁ ≤ zero)
    (h : addDay n₁ t₁ c s day = .ok s') : s'.tier1 ≤ zero := by
  obtain ⟨night, -, h⟩ := (addDay_unless n₁ t₁ c day s).of_eq_ok h
  split at h
  · obtain ⟨_, h⟩ := h
    rw [h.others]
    exact hs
  · obtain ⟨extra, _, h⟩ := h
    rw [le_zero_iff] at hs ht
    refine h.tier1.mono (fits_toRat zero) ?_
    rw [toRat_zero]
    exact add_nonpos hs ((min_le_right _ _).trans ht)

end HourSums

/-! ## The breakdown -/

/-- Whether the hours of a breakdown are no more than those of another; of the first tier,
    and so of the total, only if its limit is not negative. -/
structure HourBreakdown.AtMost (t₁ : Decimal) (a b : HourBreakdown) : Prop where
  normal : a.normal ≤ b.normal
  overtimeTier1 : zero ≤ t₁ → a.overtimeTier1 ≤ b.overtimeTier1
  overtimeTier2 : a.overtimeTier2 ≤ b.overtimeTier2
  holidaySunday : a.holidaySunday ≤ b.holidaySunday
  holidaySundayExtra : a.holidaySundayExtra ≤ b.holidaySundayExtra
  night : a.night ≤ b.night
  total : zero ≤ t₁ → a.total ≤ b.total

theorem HourSums.AtMost.breakdown {t₁ : Decimal} {s t : HourSums} {b : HourBreakdown}
    (h : s.AtMost t₁ t) (hs : s.breakdown = .ok b) : UnlessOverflow (b.AtMost t₁) t.breakdown := by
  obtain ⟨u, hu, hs⟩ := bind_eq_ok.1 hs
  obtain ⟨v, hv, hs⟩ := bind_eq_ok.1 hs
  obtain ⟨w, hw, hs⟩ := bind_eq_ok.1 hs
  cases hs
  have hnormal := toHundredths_mono h.normal
  have htier2 := toHundredths_mono h.tier2
  have hspecial := toHundredths_mono h.special
  refine (add_unless _ _).bind fun u' hu' => ?_
  refine (add_unless _ _).bind fun v' hv' => ?_
  refine (add_unless _ _).bind fun w' hw' => .ok ?_
  refine ⟨hnormal, fun ht => toHundredths_mono (h.tier1 ht), htier2, hspecial,
    toHundredths_mono h.specialExtra, toHundredths_mono h.night, fun ht => ?_⟩
  have hsum := (fits_add hu).add_mono hu' hnormal (le_iff_toRat.1 (toHundredths_mono (h.tier1 ht)))
  have hsum' := (fits_add hv).add_mono hv' hsum (le_iff_toRat.1 htier2)
  exact (fits_add hw).add_mono hw' hsum' (le_iff_toRat.1 hspecial)

/-- Of more hours, no part is less. -/
theorem HourBreakdown.ofDaily_atMost {m m' : DailyHoursMap} {n₁ t₁ : Decimal} {c : WorkCalendar}
    {b : HourBreakdown} (h : m.AtMost m') (hn : zero ≤ n₁) (hb : ofDaily m n₁ t₁ c = .ok b) :
    UnlessOverflow (b.AtMost t₁) (ofDaily m' n₁ t₁ c) := by
  obtain ⟨sums, hsums, hb⟩ := bind_eq_ok.1 hb
  refine (UnlessOverflow.foldlM (R := HourSums.AtMost t₁) h.sublistForall₂_entries h.nonneg_entries
    (fun hst hday _ hs => hst.addDay hday hs) (fun hst hday => hst.addDay_right hn hday)
    (.refl t₁ .none) hsums).bind fun sums' hsums' => ?_
  exact hsums'.breakdown hb

/-- The tiers of a breakdown are the sums over the days, rounded. -/
theorem HourBreakdown.exists_sums {m : DailyHoursMap} {n₁ t₁ : Decimal} {c : WorkCalendar}
    {b : HourBreakdown} (h : ofDaily m n₁ t₁ c = .ok b) :
    ∃ sums, m.entries.foldlM (HourSums.addDay n₁ t₁ c) .none = .ok sums ∧
      b.overtimeTier1 = sums.tier1.toHundredths ∧ b.overtimeTier2 = sums.tier2.toHundredths := by
  obtain ⟨sums, hsums, h⟩ := bind_eq_ok.1 h
  obtain ⟨_, -, h⟩ := bind_eq_ok.1 h
  obtain ⟨_, -, h⟩ := bind_eq_ok.1 h
  obtain ⟨_, -, h⟩ := bind_eq_ok.1 h
  cases h
  exact ⟨sums, hsums, rfl, rfl⟩

/-- Only a limit that is not negative leaves hours in the first tier. -/
theorem HourBreakdown.limit_nonneg {m : DailyHoursMap} {n₁ t₁ : Decimal} {c : WorkCalendar}
    {b : HourBreakdown} (h : ofDaily m n₁ t₁ c = .ok b) (hpos : zero < b.overtimeTier1) :
    zero ≤ t₁ := by
  obtain ⟨sums, hsums, hb, -⟩ := exists_sums h
  by_contra ht
  have ht := (not_le_iff_lt.1 ht).le
  have htier1 : sums.tier1 ≤ zero := foldlM_invariant (P := fun s => s.tier1 ≤ zero) hsums le_rfl
    fun _ _ _ _ hs hday => HourSums.tier1_le_zero_addDay hs ht hday
  have hround := toHundredths_mono htier1
  rw [toHundredths_zero, ← hb] at hround
  exact hpos.not_ge hround

end FieldWages
