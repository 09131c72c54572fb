import FieldWages.DailyHours
import FieldWages.Proofs.FilterSum
import FieldWages.Proofs.Period.Weeks
import Mathlib.Data.List.Perm.Basic
import Mathlib.Data.Rat.Defs

/-!
# The same work

Attendance records the same work twice over if the two lists agree, date by date, on
what was done: whether the date was worked, the hours and night hours it adds up to,
the labors counted on it and their units. Before the period, it only matters whether
a date of its first week was worked. How the work is spread over entries, in which
order they come, and what they say of other dates makes no difference (`SameWork`).

* `SameWork.of_perm`: entries in another order;
* `SameWork.append`: entries replaced by others, in any part of a list;
* `SameWork.nil_of_outside`: entries before or behind the window of the period.
-/

namespace FieldWages

namespace AttendanceEntry

/-- The hours an entry is paid for, as a number. -/
def hours (e : AttendanceEntry) : ℚ := (e.paidHours.map Decimal.toRat).getD 0

/-- The night hours among the hours an entry is paid for. -/
def nightHours? (e : AttendanceEntry) : Option Decimal := do
  let hours ← e.paidHours
  let (start, stop) ← e.shift?
  (FieldWages.nightHours start stop hours).toOption

/-- The night hours of an entry, as a number. -/
def night (e : AttendanceEntry) : ℚ := (e.nightHours?.map Decimal.toRat).getD 0

/-- The units an entry counts. -/
def units (e : AttendanceEntry) : ℕ := (e.productivityCount.map UInt32.toNat).getD 0

end AttendanceEntry

/-! ## What was done on a date -/

/-- Whether a date was worked: an entry of it has hours to be paid. -/
def WorkedOn (es : List AttendanceEntry) (d : Date) : Prop :=
  ∃ e ∈ es, e.workDate = d ∧ e.paidHours.isSome

/-- The hours of a date. -/
def hoursOn (es : List AttendanceEntry) (d : Date) : ℚ :=
  ((es.filter fun e => e.workDate = d).map (·.hours)).sum

/-- The night hours of a date. -/
def nightOn (es : List AttendanceEntry) (d : Date) : ℚ :=
  ((es.filter fun e => e.workDate = d).map (·.night)).sum

/-- Whether an entry of a date counts units of a labor. -/
def CountedOn (es : List AttendanceEntry) (d : Date) (labor : String) : Prop :=
  ∃ e ∈ es, e.workDate = d ∧ e.laborId = some labor ∧ e.productivityCount.isSome

/-- The units of a labor that are counted on a date. -/
def unitsOn (es : List AttendanceEntry) (d : Date) (labor : String) : ℕ :=
  ((es.filter fun e => e.workDate = d ∧ e.laborId = some labor).map (·.units)).sum

section Lists

variable {as bs : List AttendanceEntry} {d : Date} {labor : String}

theorem workedOn_append : WorkedOn (as ++ bs) d ↔ WorkedOn as d ∨ WorkedOn bs d := by
  simp only [WorkedOn, List.mem_append, or_and_right, exists_or]

theorem hoursOn_append : hoursOn (as ++ bs) d = hoursOn as d + hoursOn bs d :=
  sum_filter_append _ _ as bs

theorem nightOn_append : nightOn (as ++ bs) d = nightOn as d + nightOn bs d :=
  sum_filter_append _ _ as bs

theorem countedOn_append :
    CountedOn (as ++ bs) d labor ↔ CountedOn as d labor ∨ CountedOn bs d labor := by
  simp only [CountedOn, List.mem_append, or_and_right, exists_or]

theorem unitsOn_append : unitsOn (as ++ bs) d labor = unitsOn as d labor + unitsOn bs d labor :=
  sum_filter_append _ _ as bs

theorem hoursOn_eq_zero (h : ∀ e ∈ as, e.workDate ≠ d) : hoursOn as d = 0 :=
  sum_filter_eq_zero _ _ fun e he hd => h e he (of_decide_eq_true hd)

theorem nightOn_eq_zero (h : ∀ e ∈ as, e.workDate ≠ d) : nightOn as d = 0 :=
  sum_filter_eq_zero _ _ fun e he hd => h e he (of_decide_eq_true hd)

theorem unitsOn_eq_zero (h : ∀ e ∈ as, e.workDate ≠ d) : unitsOn as d labor = 0 :=
  sum_filter_eq_zero _ _ fun e he hd => h e he (of_decide_eq_true hd).1

theorem workedOn_singleton (e : AttendanceEntry) (d : Date) :
    WorkedOn [e] d ↔ e.workDate = d ∧ e.paidHours.isSome := by
  simp only [WorkedOn, List.mem_singleton, exists_eq_left]

theorem hoursOn_singleton (e : AttendanceEntry) (d : Date) :
    hoursOn [e] d = if e.workDate = d then e.hours else 0 := by
  rw [hoursOn, sum_filter_singleton]
  simp only [decide_eq_true_eq]

theorem nightOn_singleton (e : AttendanceEntry) (d : Date) :
    nightOn [e] d = if e.workDate = d then e.night else 0 := by
  rw [nightOn, sum_filter_singleton]
  simp only [decide_eq_true_eq]

theorem countedOn_singleton (e : AttendanceEntry) (d : Date) (labor : String) :
    CountedOn [e] d labor ↔
      e.workDate = d ∧ e.laborId = some labor ∧ e.productivityCount.isSome := by
  simp only [CountedOn, List.mem_singleton, exists_eq_left]

theorem unitsOn_singleton (e : AttendanceEntry) (d : Date) (labor : String) :
    unitsOn [e] d labor = if e.workDate = d ∧ e.laborId = some labor then e.units else 0 := by
  rw [unitsOn, sum_filter_singleton]
  simp only [decide_eq_true_eq]

end Lists

/-! ## Lists that record the same work -/

/-- Whether two lists of attendance record the same work for a period. -/
structure SameWork (p : Period) (as bs : List AttendanceEntry) : Prop where
  worked : ∀ d, p.contains d → (WorkedOn as d ↔ WorkedOn bs d)
  hours : ∀ d, p.contains d → hoursOn as d = hoursOn bs d
  night : ∀ d, p.contains d → nightOn as d = nightOn bs d
  /-- Before the period, only that a date of its window was worked matters. -/
  before : ∀ first, p.windowStart = .ok first → ∀ d, first ≤ d → d < p.start →
    (WorkedOn as d ↔ WorkedOn bs d)
  counted : ∀ d, p.contains d → ∀ labor, CountedOn as d labor ↔ CountedOn bs d labor
  units : ∀ d, p.contains d → ∀ labor, unitsOn as d labor = unitsOn bs d labor

namespace SameWork

variable {p : Period} {as bs cs ds : List AttendanceEntry}

theorem refl (p : Period) (as : List AttendanceEntry) : SameWork p as as :=
  ⟨fun _ _ => .rfl, fun _ _ => rfl, fun _ _ => rfl, fun _ _ _ _ _ => .rfl, fun _ _ _ => .rfl,
    fun _ _ _ => rfl⟩

theorem symm (h : SameWork p as bs) : SameWork p bs as where
  worked d hd := (h.worked d hd).symm
  hours d hd := (h.hours d hd).symm
  night d hd := (h.night d hd).symm
  before first hfirst d hd hd' := (h.before first hfirst d hd hd').symm
  counted d hd labor := (h.counted d hd labor).symm
  units d hd labor := (h.units d hd labor).symm

theorem trans (h : SameWork p as bs) (h' : SameWork p bs cs) : SameWork p as cs where
  worked d hd := (h.worked d hd).trans (h'.worked d hd)
  hours d hd := (h.hours d hd).trans (h'.hours d hd)
  night d hd := (h.night d hd).trans (h'.night d hd)
  before first hfirst d hd hd' := (h.before first hfirst d hd hd').trans
    (h'.before first hfirst d hd hd')
  counted d hd labor := (h.counted d hd labor).trans (h'.counted d hd labor)
  units d hd labor := (h.units d hd labor).trans (h'.units d hd labor)

/-- The order of the entries does not matter. -/
theorem of_perm (p : Period) (h : as.Perm bs) : SameWork p as bs where
  worked _ _ := exists_congr fun _ => and_congr_left' h.mem_iff
  hours _ _ := sum_filter_perm _ _ h
  night _ _ := sum_filter_perm _ _ h
  before _ _ _ _ _ := exists_congr fun _ => and_congr_left' h.mem_iff
  counted _ _ _ := exists_congr fun _ => and_congr_left' h.mem_iff
  units _ _ _ := sum_filter_perm _ _ h

/-- A part of a list may be replaced by another one that records the same work. -/
theorem append (h : SameWork p as bs) (h' : SameWork p cs ds) :
    SameWork p (as ++ cs) (bs ++ ds) where
  worked d hd := by rw [workedOn_append, workedOn_append, h.worked d hd, h'.worked d hd]
  hours d hd := by rw [hoursOn_append, hoursOn_append, h.hours d hd, h'.hours d hd]
  night d hd := by rw [nightOn_append, nightOn_append, h.night d hd, h'.night d hd]
  before first hfirst d hd hd' := by
    rw [workedOn_append, workedOn_append, h.before first hfirst d hd hd',
      h'.before first hfirst d hd hd']
  counted d hd labor := by
    rw [countedOn_append, countedOn_append, h.counted d hd labor, h'.counted d hd labor]
  units d hd labor := by
    rw [unitsOn_append, unitsOn_append, h.units d hd labor, h'.units d hd labor]

/-- Entries without a date in the window record nothing. -/
theorem nil_of_outside (hp : p.start ≤ p.stop) {first : Date} (hfirst : p.windowStart = .ok first)
    (h : ∀ e ∈ as, e.workDate < first ∨ p.stop < e.workDate) : SameWork p [] as := by
  have hne : ∀ d, first ≤ d → d ≤ p.stop → ∀ e ∈ as, e.workDate ≠ d := by
    intro d hd hd' e he hed
    rw [← hed] at hd hd'
    rcases h e he with hlt | hlt
    · exact Std.not_le.2 hlt hd
    · exact Std.not_le.2 hlt hd'
  have hwindow : ∀ d, p.contains d → first ≤ d ∧ d ≤ p.stop := by
    intro d hd
    rw [Period.contains, Bool.and_eq_true, decide_eq_true_iff, decide_eq_true_iff] at hd
    exact ⟨Std.le_trans (Period.windowStart_le hfirst) hd.1, hd.2⟩
  have hworked : ∀ d, first ≤ d → d ≤ p.stop → (WorkedOn [] d ↔ WorkedOn as d) := fun d hd hd' =>
    ⟨fun ⟨_, he, _⟩ => absurd he List.not_mem_nil,
      fun ⟨e, he, hed, _⟩ => absurd hed (hne d hd hd' e he)⟩
  exact
    { worked := fun d hd => hworked d (hwindow d hd).1 (hwindow d hd).2
      hours := fun d hd => (hoursOn_eq_zero (hne d (hwindow d hd).1 (hwindow d hd).2)).symm
      night := fun d hd => (nightOn_eq_zero (hne d (hwindow d hd).1 (hwindow d hd).2)).symm
      before := fun first' hfirst' d hd hd' => by
        cases hfirst.symm.trans hfirst'
        exact hworked d hd (Std.le_trans (Std.le_of_lt hd') hp)
      counted := fun d hd labor =>
        ⟨fun ⟨_, he, _⟩ => absurd he List.not_mem_nil,
          fun ⟨e, he, hed, _⟩ => absurd hed (hne d (hwindow d hd).1 (hwindow d hd).2 e he)⟩
      units := fun d hd labor =>
        (unitsOn_eq_zero (hne d (hwindow d hd).1 (hwindow d hd).2)).symm }

end SameWork

end FieldWages
