import FieldWages.Proofs.Payroll

/-!
# Why an input is refused

An input is checked in a fixed order: the period, the measures of month and day, the salary,
and then the attendance entry by entry, first whose an entry is and then its hours. The
first check that fails tells why the input is refused (`Payroll.RefusedBy`), and no input
is refused that passes them all.

* `Payroll.refusal?_eq_some_iff`: the refusal of an input;
* `Payroll.exists_refusedBy_iff`: which inputs are refused;
* `Payroll.compute_eq_refused_iff`, `Payroll.compute_eq_faulted_iff`: refusals and faults of
  a calculation.
-/

namespace FieldWages

/-- Whether the period and the measures of some parameters make sense. -/
structure Parameters.Sound (q : Parameters) : Prop where
  period : ¬q.period.stop < q.period.start
  monthDays : q.monthDays ≠ 0
  dailyNormalHours : ¬q.dailyNormalHours ≤ .zero

namespace Payroll

variable {employee : Employee} {attendance : List AttendanceEntry} {q : Parameters} {r : Refusal}

/-- Whether an entry is one of the employee and has no negative hours. -/
def Acceptable (employee : Employee) (e : AttendanceEntry) : Prop :=
  e.employeeId = employee.id ∧ ∀ hours ∈ e.paidHours, ¬hours < .zero

/-- Why an entry is refused: whose it is comes before its hours. -/
inductive EntryRefusedBy (employee : Employee) (e : AttendanceEntry) : Refusal → Prop
  | foreign (h : e.employeeId ≠ employee.id) :
    EntryRefusedBy employee e (.invalidAttendance employee.id
      ("entry '" ++ e.id ++ "' belongs to employee '" ++ e.employeeId ++ "'"))
  | negative {hours : Decimal} (howner : e.employeeId = employee.id)
    (hhours : e.paidHours = some hours) (h : hours < .zero) :
    EntryRefusedBy employee e (.invalidAttendance employee.id
      ("entry '" ++ e.id ++ "' has negative paid hours"))

/-- Why an input is refused: the first check that fails, and of the attendance the first
    entry that is not acceptable. -/
inductive RefusedBy (employee : Employee) (attendance : List AttendanceEntry) (q : Parameters) :
    Refusal → Prop
  | period (h : q.period.stop < q.period.start) :
    RefusedBy employee attendance q (.invalidPeriod q.period.start q.period.stop)
  | monthDays (hperiod : ¬q.period.stop < q.period.start) (h : q.monthDays = 0) :
    RefusedBy employee attendance q
      (.invalidConfig "month_calculation_days must be greater than zero")
  | dailyHours (hperiod : ¬q.period.stop < q.period.start) (hmonth : q.monthDays ≠ 0)
    (h : q.dailyNormalHours ≤ .zero) :
    RefusedBy employee attendance q (.invalidConfig "daily_normal_hours must be positive")
  | salary {salary : Decimal} (hq : q.Sound) (hsalary : employee.monthlySalary = some salary)
    (h : salary < .zero) :
    RefusedBy employee attendance q (.invalidEmployee "monthly_salary" "cannot be negative")
  | entry {before after : List AttendanceEntry} {e : AttendanceEntry} {r : Refusal} (hq : q.Sound)
    (hsalary : ∀ salary ∈ employee.monthlySalary, ¬salary < .zero)
    (hattendance : attendance = before ++ e :: after)
    (hbefore : ∀ x ∈ before, Acceptable employee x) (h : EntryRefusedBy employee e r) :
    RefusedBy employee attendance q r

/-- Whether some check of an input fails, at whatever entry of the attendance. -/
def Unacceptable (employee : Employee) (attendance : List AttendanceEntry) (q : Parameters) :
    Prop :=
  q.period.stop < q.period.start ∨ q.monthDays = 0 ∨ q.dailyNormalHours ≤ .zero ∨
    (∃ salary ∈ employee.monthlySalary, salary < .zero) ∨
    ∃ e ∈ attendance, e.employeeId ≠ employee.id ∨ ∃ hours ∈ e.paidHours, hours < .zero

/-! ## Checks -/

theorem any_negative_iff {x : Option Decimal} :
    x.any (· < .zero) ↔ ∃ d ∈ x, d < .zero := by
  rw [Option.any_eq_true]
  exact exists_congr fun d => and_congr_right fun _ => decide_eq_true_iff

theorem entryRefusal?_eq_some_iff {e : AttendanceEntry} :
    entryRefusal? employee e = some r ↔ EntryRefusedBy employee e r := by
  rw [entryRefusal?]
  split
  · next hforeign =>
    constructor
    · rintro ⟨⟩
      exact .foreign hforeign
    · intro h
      cases h with
      | foreign => rfl
      | negative howner => exact absurd howner hforeign
  · next howner =>
    rw [not_not] at howner
    split
    · next hany =>
      obtain ⟨hours, hhours, hneg⟩ := any_negative_iff.1 hany
      constructor
      · rintro ⟨⟩
        exact .negative howner hhours hneg
      · intro h
        cases h with
        | foreign h => exact absurd howner h
        | negative => rfl
    · next hany =>
      constructor
      · rintro ⟨⟩
      · intro h
        cases h with
        | foreign h => exact absurd howner h
        | negative _ hhours hneg => exact absurd (any_negative_iff.2 ⟨_, hhours, hneg⟩) hany

theorem findSome?_entryRefusal?_iff : attendance.findSome? (entryRefusal? employee) = some r ↔
    ∃ before e after, attendance = before ++ e :: after ∧
      (∀ x ∈ before, Acceptable employee x) ∧ EntryRefusedBy employee e r := by
  rw [List.findSome?_eq_some_iff]
  constructor
  · rintro ⟨before, e, after, hattendance, he, hbefore⟩
    exact ⟨before, e, after, hattendance, fun x hx => entryRefusal?_eq_none_iff.1 (hbefore x hx),
      entryRefusal?_eq_some_iff.1 he⟩
  · rintro ⟨before, e, after, hattendance, hbefore, he⟩
    exact ⟨before, e, after, hattendance, entryRefusal?_eq_some_iff.2 he,
      fun x hx => entryRefusal?_eq_none_iff.2 (hbefore x hx)⟩

/-- An input is refused by the first check it does not pass. -/
theorem refusal?_eq_some_iff :
    refusal? employee attendance q = some r ↔ RefusedBy employee attendance q r := by
  rw [refusal?]
  constructor
  · intro h
    split_ifs at h with hperiod hmonth hhours hany
    · cases h
      exact .period hperiod
    · cases h
      exact .monthDays hperiod hmonth
    · cases h
      exact .dailyHours hperiod hmonth hhours
    · obtain ⟨salary, hsalary, hneg⟩ := any_negative_iff.1 hany
      cases h
      exact .salary ⟨hperiod, hmonth, hhours⟩ hsalary hneg
    · obtain ⟨before, e, after, hattendance, hbefore, he⟩ := findSome?_entryRefusal?_iff.1 h
      exact .entry ⟨hperiod, hmonth, hhours⟩
        (fun salary hsalary hneg => hany (any_negative_iff.2 ⟨salary, hsalary, hneg⟩)) hattendance
        hbefore he
  · intro h
    cases h with
    | period h => rw [if_pos h]
    | monthDays hperiod h =>
      rw [if_neg hperiod, if_pos h]
      rfl
    | dailyHours hperiod hmonth h =>
      rw [if_neg hperiod, if_neg hmonth, if_pos h]
      rfl
    | salary hq hsalary h =>
      rw [if_neg hq.period, if_neg hq.monthDays, if_neg hq.dailyNormalHours,
        if_pos (any_negative_iff.2 ⟨_, hsalary, h⟩)]
    | entry hq hsalary hattendance hbefore h =>
      have hany : ¬employee.monthlySalary.any (· < .zero) := fun hany =>
        (any_negative_iff.1 hany).elim fun salary h => hsalary salary h.1 h.2
      rw [if_neg hq.period, if_neg hq.monthDays, if_neg hq.dailyNormalHours, if_neg hany]
      exact findSome?_entryRefusal?_iff.2 ⟨_, _, _, hattendance, hbefore, h⟩

/-- An input is refused exactly if some check fails. -/
theorem exists_refusedBy_iff :
    (∃ r, RefusedBy employee attendance q r) ↔ Unacceptable employee attendance q := by
  have hentries : (∀ e ∈ attendance, entryRefusal? employee e = none) ↔
      ¬∃ e ∈ attendance, e.employeeId ≠ employee.id ∨ ∃ hours ∈ e.paidHours, hours < .zero := by
    push Not
    exact forall₂_congr fun e _ => entryRefusal?_eq_none_iff
  have hnone : (∃ r, RefusedBy employee attendance q r) ↔ refusal? employee attendance q ≠ none := by
    rw [Option.ne_none_iff_exists']
    exact exists_congr fun r => refusal?_eq_some_iff.symm
  have hsalary : (∀ salary ∈ employee.monthlySalary, ¬salary < .zero) ↔
      ¬∃ salary ∈ employee.monthlySalary, salary < .zero := by
    push Not
    rfl
  rw [hnone, Ne, refusal?_eq_none_iff, hentries, hsalary, Unacceptable]
  simp only [not_and_or, not_not, ne_eq]

/-! ## Calculations -/

variable {inputs : PayrollInputs} {registry : Registry}

/-- A calculation is refused for the reason its input is. -/
theorem compute_eq_refused_iff : compute employee attendance inputs registry = .error (.refused r) ↔
    RefusedBy employee attendance inputs.parameters r := by
  rw [← refusal?_eq_some_iff, compute]
  split
  · next r' h => rw [h, Except.error.injEq, Failure.refused.injEq, Option.some_inj]
  · next h =>
    rw [h]
    constructor
    · intro hlift
      cases hx : computeAccepted employee attendance inputs registry <;> rw [hx] at hlift <;>
        cases hlift
    · rintro ⟨⟩

/-- A calculation is faulted only behind all checks. -/
theorem compute_eq_faulted_iff {f : Fault} :
    compute employee attendance inputs registry = .error (.faulted f) ↔
      refusal? employee attendance inputs.parameters = none ∧
        computeAccepted employee attendance inputs registry = .error f := by
  rw [compute]
  split
  · next r' h =>
    rw [h]
    constructor
    · rintro ⟨⟩
    · rintro ⟨⟨⟩, -⟩
  · next h =>
    rw [h]
    cases computeAccepted employee attendance inputs registry with
    | ok d =>
      constructor
      · rintro ⟨⟩
      · rintro ⟨-, ⟨⟩⟩
    | error f' =>
      rw [Failure.lift, Except.error.injEq, Except.error.injEq, Failure.faulted.injEq]
      exact ⟨fun hf => ⟨rfl, hf⟩, fun hf => hf.2⟩

end Payroll

end FieldWages
