import FieldWages.HourBreakdown
import FieldWages.Proofs.Decimal.Hundredth
import FieldWages.Proofs.SameWork.Basic
import FieldWages.Proofs.SortedMap

/-!
# Hours of the same work

The hours of a day are those of its entries, added up one by one; if no addition
fails or drops a digit (`HoursAdd`), their number is the sum, whatever the order and
the spread of the entries. So lists that record the same work have the same days
with the same numbers, and the parts they are split into differ in their
digits at most.

* `DailyHoursMap.mem_keys_ofAttendance`: the days of a list are those worked;
* `DailyHoursMap.exists_foldlM_addEntry`: what the days of a list add up to;
* `SameWork.dailyHours`: the same work has the same days;
* `HourBreakdown.ofDaily_alike`: the same days are split alike.
-/

namespace FieldWages

/-- The night hours of a shift can always be given. -/
theorem exists_nightHours_eq_ok (start stop : TimeOfDay) (paidHours : Decimal) :
    ∃ n, nightHours start stop paidHours = .ok n := by
  have hnonneg : 0 ≤ (Decimal.ofUInt32 (.ofNat (nightMinutes start stop))).toRat :=
    Decimal.toRat_nonneg_iff.2 (Int.natCast_nonneg _)
  obtain ⟨q, hq⟩ := Decimal.exists_div_eq_ok (b := .sixty) hnonneg
    (Decimal.toRat_pos_iff.2 (by decide)) (Nat.le_refl 0)
  exact ⟨_, bind_eq_ok.2 ⟨q, hq, rfl⟩⟩

/-! ## The days of a list -/

/-- Whether two days have hours of the same numbers. -/
structure DailyHours.SameNumbers (a b : DailyHours) : Prop where
  total : a.total ≈ b.total
  night : a.night ≈ b.night

namespace DailyHoursMap

variable {p : Period} {daily daily' daily'' : DailyHoursMap} {e : AttendanceEntry}
  {as bs : List AttendanceEntry}

/-- The hours of a date, none if there are no entries. -/
def on (daily : DailyHoursMap) (d : Date) : DailyHours := (daily.get? d).getD .none

/-- Whether the hours of an entry and its night hours can be added to those of its day
    without a digit dropped. -/
def EntryAdds (p : Period) (daily : DailyHoursMap) (e : AttendanceEntry) : Prop :=
  p.contains e.workDate → ∀ hours ∈ e.paidHours, (daily.on e.workDate).total.Adds hours ∧
    ∀ night ∈ e.nightHours?, (daily.on e.workDate).night.Adds night

instance (daily : DailyHoursMap) (e : AttendanceEntry) : Decidable (EntryAdds p daily e) :=
  inferInstanceAs (Decidable (_ → _))

/-! ### Dates -/

/-- An entry adds its date if it is in the period and paid. -/
theorem mem_keys_addEntry (h : addEntry p daily e = .ok daily') (d : Date) :
    d ∈ daily'.keys ↔ d ∈ daily.keys ∨ p.contains d ∧ WorkedOn [e] d := by
  rw [workedOn_singleton]
  rw [addEntry] at h
  split at h
  · next hours hp hhours =>
    obtain ⟨day, -, h⟩ := bind_eq_ok.1 h
    cases h
    rw [SortedMap.mem_keys_insert, hhours]
    constructor
    · rintro (rfl | hd)
      · exact .inr ⟨hp, rfl, rfl⟩
      · exact .inl hd
    · rintro (hd | ⟨-, rfl, -⟩)
      · exact .inr hd
      · exact .inl rfl
  · next hnot =>
    cases h
    rw [or_iff_left]
    rintro ⟨hp, rfl, hpaid⟩
    obtain ⟨hours, hhours⟩ := Option.isSome_iff_exists.1 hpaid
    exact hnot hours hp hhours

theorem mem_keys_foldlM {es : List AttendanceEntry} (h : es.foldlM (addEntry p) daily = .ok daily')
    (d : Date) : d ∈ daily'.keys ↔ d ∈ daily.keys ∨ p.contains d ∧ WorkedOn es d := by
  induction es generalizing daily with
  | nil =>
    cases h
    exact ⟨.inl, fun h => h.resolve_right fun ⟨_, _, he, _⟩ => List.not_mem_nil he⟩
  | cons e es ih =>
    rw [List.foldlM_cons] at h
    obtain ⟨daily₁, h₁, h⟩ := bind_eq_ok.1 h
    have hworked : WorkedOn ([e] ++ es) d ↔ WorkedOn [e] d ∨ WorkedOn es d := workedOn_append
    rw [ih h, mem_keys_addEntry h₁, or_assoc, ← and_or_left, ← hworked]
    rfl

/-- The days of a list are the dates of the period that were worked. -/
theorem mem_keys_ofAttendance {es : List AttendanceEntry} (h : ofAttendance es p = .ok daily)
    {d : Date} : d ∈ daily.keys ↔ p.contains d ∧ WorkedOn es d := by
  rw [mem_keys_foldlM h, or_iff_right]
  exact List.not_mem_nil

/-! ### Hours -/

/-- Whether the days after some entries have the hours of the days before and those of
    the entries. -/
structure Records (p : Period) (daily : DailyHoursMap) (es : List AttendanceEntry)
    (daily' : DailyHoursMap) : Prop where
  hours : ∀ d, p.contains d → (daily'.on d).total.toRat = (daily.on d).total.toRat + hoursOn es d
  night : ∀ d, p.contains d → (daily'.on d).night.toRat = (daily.on d).night.toRat + nightOn es d

theorem Records.append (h : Records p daily as daily') (h' : Records p daily' bs daily'') :
    Records p daily (as ++ bs) daily'' where
  hours d hd := by rw [h'.hours d hd, h.hours d hd, hoursOn_append, add_assoc]
  night d hd := by rw [h'.night d hd, h.night d hd, nightOn_append, add_assoc]

/-- An entry that records nothing for the period leaves the days as they are. -/
theorem Records.of_unpaid (h : ∀ hours, p.contains e.workDate → e.paidHours ≠ some hours) :
    Records p daily [e] daily := by
  have hnone : ∀ d, p.contains d → e.workDate = d → e.paidHours = none := by
    rintro d hd rfl
    exact Option.eq_none_iff_forall_ne_some.2 fun hours => h hours hd
  refine ⟨fun d hd => ?_, fun d hd => ?_⟩
  · rw [hoursOn_singleton]
    split
    · next hed =>
      rw [AttendanceEntry.hours, hnone d hd hed, Option.map_none, Option.getD_none, add_zero]
    · rw [add_zero]
  · rw [nightOn_singleton]
    split
    · next hed =>
      rw [AttendanceEntry.night, AttendanceEntry.nightHours?, hnone d hd hed]
      exact (add_zero _).symm
    · rw [add_zero]

theorem on_insert (daily : DailyHoursMap) (d d' : Date) (day : DailyHours) :
    on (daily.insert d day) d' = if d = d' then day else daily.on d' := by
  rw [on, SortedMap.get?_insert]
  split <;> rfl

/-- An entry whose hours can be added is recorded with its day. -/
theorem exists_addEntry_eq_ok (h : EntryAdds p daily e) :
    ∃ daily', addEntry p daily e = .ok daily' ∧ Records p daily [e] daily' := by
  rw [addEntry]
  split
  · next hours hp hhours =>
    obtain ⟨⟨total, htotal, hsum⟩, hnight⟩ := h hp hours hhours
    -- The new hours of the day, and what they come to.
    obtain ⟨day, hday, hdaytotal, hdaynight⟩ : ∃ day,
        (daily.on e.workDate).addEntry hours e.shift? = .ok day ∧
        day.total.toRat = (daily.on e.workDate).total.toRat + e.hours ∧
        day.night.toRat = (daily.on e.workDate).night.toRat + e.night := by
      have hentry : e.hours = hours.toRat := by rw [AttendanceEntry.hours, hhours]; rfl
      rw [DailyHours.addEntry, htotal, hentry]
      cases hshift : e.shift? with
      | none =>
        refine ⟨⟨total, _⟩, rfl, hsum, ?_⟩
        rw [AttendanceEntry.night, AttendanceEntry.nightHours?, hhours, hshift]
        exact (add_zero _).symm
      | some times =>
        obtain ⟨n, hn⟩ := exists_nightHours_eq_ok times.1 times.2 hours
        have hfound : e.nightHours? = some n := by
          rw [AttendanceEntry.nightHours?, hhours, hshift]
          simp only [Option.bind_eq_bind, Option.bind_some, hn]
          rfl
        obtain ⟨night, hadd, hnumber⟩ := hnight n hfound
        refine ⟨⟨total, night⟩, ?_, hsum, ?_⟩
        · simp only [hn, bind, Except.bind, hadd]
          rfl
        · rw [AttendanceEntry.night, hfound]
          exact hnumber
    refine ⟨daily.insert e.workDate day, ?_, fun d hd => ?_, fun d hd => ?_⟩
    · exact bind_eq_ok.2 ⟨day, hday, rfl⟩
    · rw [on_insert, hoursOn_singleton]
      split
      · next hed => rw [hdaytotal, hed]
      · rw [add_zero]
    · rw [on_insert, nightOn_singleton]
      split
      · next hed => rw [hdaynight, hed]
      · rw [add_zero]
  · next hnot => exact ⟨daily, rfl, .of_unpaid hnot⟩

/-- Entries whose hours can be added are recorded with their days. -/
theorem exists_foldlM_addEntry {es : List AttendanceEntry} (daily : DailyHoursMap)
    (h : Along (addEntry p) (EntryAdds p) daily es) :
    ∃ daily', es.foldlM (addEntry p) daily = .ok daily' ∧ Records p daily es daily' := by
  induction es generalizing daily with
  | nil =>
    exact ⟨daily, rfl, fun d _ => (add_zero _).symm, fun d _ => (add_zero _).symm⟩
  | cons e es ih =>
    obtain ⟨hentry, hrest⟩ := h
    obtain ⟨daily₁, h₁, hrecords⟩ := exists_addEntry_eq_ok hentry
    obtain ⟨daily₂, h₂, hrecords'⟩ := ih daily₁ (hrest daily₁ h₁)
    refine ⟨daily₂, ?_, hrecords.append hrecords'⟩
    rw [List.foldlM_cons, h₁]
    exact h₂

end DailyHoursMap

/-- Whether the hours of a list of attendance are added up, day by day, without
    overflow and without a digit dropped. -/
def HoursAdd (p : Period) (es : List AttendanceEntry) : Prop :=
  Along (DailyHoursMap.addEntry p) (DailyHoursMap.EntryAdds p) .empty es

instance (p : Period) (es : List AttendanceEntry) : Decidable (HoursAdd p es) :=
  inferInstanceAs (Decidable (Along (DailyHoursMap.addEntry p) (DailyHoursMap.EntryAdds p) _ _))

/-- Whether two maps have the same days, with hours of the same numbers. -/
def DailyHoursMap.SameNumbers (m m' : DailyHoursMap) : Prop :=
  ∀ d, Option.Rel DailyHours.SameNumbers (m.get? d) (m'.get? d)

/-- The same work has the same days, with hours of the same numbers. -/
theorem SameWork.dailyHours {p : Period} {as bs : List AttendanceEntry} (h : SameWork p as bs)
    (ha : HoursAdd p as) (hb : HoursAdd p bs) :
    ∃ m m', DailyHoursMap.ofAttendance as p = .ok m ∧ DailyHoursMap.ofAttendance bs p = .ok m' ∧
      m.SameNumbers m' := by
  obtain ⟨m, hm, hrecords⟩ := DailyHoursMap.exists_foldlM_addEntry .empty ha
  obtain ⟨m', hm', hrecords'⟩ := DailyHoursMap.exists_foldlM_addEntry .empty hb
  refine ⟨m, m', hm, hm', fun d => ?_⟩
  have hkeys : (m.get? d).isSome = (m'.get? d).isSome := by
    rw [Bool.eq_iff_iff, SortedMap.isSome_get?, SortedMap.isSome_get?,
      DailyHoursMap.mem_keys_ofAttendance hm, DailyHoursMap.mem_keys_ofAttendance hm']
    exact and_congr_right (h.worked d)
  have hnumbers : p.contains d → (m.on d).SameNumbers (m'.on d) := fun hd =>
    ⟨(hrecords.hours d hd).trans ((congrArg _ (h.hours d hd)).trans (hrecords'.hours d hd).symm),
      (hrecords.night d hd).trans ((congrArg _ (h.night d hd)).trans (hrecords'.night d hd).symm)⟩
  have hcontains : (m.get? d).isSome → p.contains d := fun hsome =>
    ((DailyHoursMap.mem_keys_ofAttendance hm).1 (SortedMap.isSome_get?.1 hsome)).1
  rw [DailyHoursMap.on, DailyHoursMap.on] at hnumbers
  generalize m.get? d = x at hkeys hnumbers hcontains ⊢
  generalize m'.get? d = y at hkeys hnumbers hcontains ⊢
  cases x with
  | none =>
    cases y with
    | none => exact .none
    | some _ => cases hkeys
  | some _ =>
    cases y with
    | none => cases hkeys
    | some _ => exact .some (hnumbers (hcontains rfl))

/-! ## The parts of the hours -/

/-- Whether two sums of hours have parts of the same numbers. -/
structure HourSums.SameNumbers (s t : HourSums) : Prop where
  normal : s.normal ≈ t.normal
  tier1 : s.tier1 ≈ t.tier1
  tier2 : s.tier2 ≈ t.tier2
  special : s.special ≈ t.special
  specialExtra : s.specialExtra ≈ t.specialExtra
  night : s.night ≈ t.night

/-- Whether two breakdowns have parts of the same numbers. -/
structure HourBreakdown.SameNumbers (a b : HourBreakdown) : Prop where
  normal : a.normal ≈ b.normal
  overtimeTier1 : a.overtimeTier1 ≈ b.overtimeTier1
  overtimeTier2 : a.overtimeTier2 ≈ b.overtimeTier2
  holidaySunday : a.holidaySunday ≈ b.holidaySunday
  holidaySundayExtra : a.holidaySundayExtra ≈ b.holidaySundayExtra
  night : a.night ≈ b.night
  total : a.total ≈ b.total

namespace HourSums

open Decimal

variable {s t : HourSums} {hours hours' normalLimit tier1Limit : Decimal} {c : WorkCalendar}

theorem addSpecial_alike (h : s.SameNumbers t) (hhours : hours ≈ hours') :
    Alike SameNumbers (s.addSpecial hours normalLimit) (t.addSpecial hours' normalLimit) := by
  refine (add_alike h.special hhours).bind fun hspecial => ?_
  refine (sub_alike hhours (Setoid.refl _)).bind fun hextra => ?_
  refine (add_alike h.specialExtra (max_congr hextra (Setoid.refl _))).bind fun hspecialExtra => ?_
  exact .ok { h with special := hspecial, specialExtra := hspecialExtra }

theorem addOrdinary_alike (h : s.SameNumbers t) (hhours : hours ≈ hours') :
    Alike SameNumbers (s.addOrdinary hours normalLimit tier1Limit)
      (t.addOrdinary hours' normalLimit tier1Limit) := by
  have hnormal := min_congr hhours (Setoid.refl normalLimit)
  refine (sub_alike hhours hnormal).bind fun habove => ?_
  have hextra := max_congr habove (Setoid.refl zero)
  have htier1 := min_congr hextra (Setoid.refl tier1Limit)
  refine (add_alike h.normal hnormal).bind fun hnormal' => ?_
  refine (add_alike h.tier1 htier1).bind fun htier1' => ?_
  refine (sub_alike hextra htier1).bind fun hrest => ?_
  refine (add_alike h.tier2 hrest).bind fun htier2' => ?_
  exact .ok { h with normal := hnormal', tier1 := htier1', tier2 := htier2' }

theorem addDay_alike {day day' : Date × DailyHours} (h : s.SameNumbers t)
    (hday : day.1 = day'.1 ∧ day.2.SameNumbers day'.2) :
    Alike SameNumbers (addDay normalLimit tier1Limit c s day)
      (addDay normalLimit tier1Limit c t day') := by
  obtain ⟨hdate, hhours⟩ := hday
  refine (add_alike h.night hhours.night).bind fun hnight => ?_
  rw [hdate]
  split
  · exact addSpecial_alike { h with night := hnight } hhours.total
  · exact addOrdinary_alike { h with night := hnight } hhours.total

theorem breakdown_alike (h : s.SameNumbers t) :
    Alike HourBreakdown.SameNumbers s.breakdown t.breakdown := by
  have hnormal := toHundredths_congr h.normal
  have htier1 := toHundredths_congr h.tier1
  have htier2 := toHundredths_congr h.tier2
  have hspecial := toHundredths_congr h.special
  refine (add_alike hnormal htier1).bind fun htotal => ?_
  refine (add_alike htotal htier2).bind fun htotal => ?_
  refine (add_alike htotal hspecial).bind fun htotal => ?_
  exact .ok
    { normal := hnormal
      overtimeTier1 := htier1
      overtimeTier2 := htier2
      holidaySunday := hspecial
      holidaySundayExtra := toHundredths_congr h.specialExtra
      night := toHundredths_congr h.night
      total := htotal }

end HourSums

/-- The same days are split into parts of the same numbers. -/
theorem HourBreakdown.ofDaily_alike {m m' : DailyHoursMap} (h : m.SameNumbers m')
    (normalLimit tier1Limit : Decimal) (c : WorkCalendar) :
    Alike SameNumbers (ofDaily m normalLimit tier1Limit c)
      (ofDaily m' normalLimit tier1Limit c) := by
  have hzero := Setoid.refl Decimal.zero
  have hnone : HourSums.none.SameNumbers .none := ⟨hzero, hzero, hzero, hzero, hzero, hzero⟩
  exact (Alike.foldlM (SortedMap.forall₂_entries h) HourSums.addDay_alike hnone).bind
    HourSums.breakdown_alike

end FieldWages
