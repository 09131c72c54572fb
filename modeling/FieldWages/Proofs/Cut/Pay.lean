import FieldWages.Proofs.Cut.Days
import FieldWages.Proofs.Piecework.Excess
import FieldWages.Proofs.WorkedDates

/-!
# Pay of a cut period

What a date is paid, by the day or by the unit, does not depend on the other dates of the
period. The pay of excess units is given to the hundredth date by date, so it adds up. The
basic pay is given to the hundredth once in a period (`IsHundredthsOf`): the whole rounds
once what the parts round twice.

* `IsHundredthsOf.abs_sub_add_le`: how far three rounded amounts are off;
* `BasicPay.due_append`, `PieceworkSummary.totalExcessPay_cut`: the pay of dates and dates;
* `ConceptRun.foundIn_of_mem_lines`: what the lines of a run show.
-/

namespace FieldWages

/-! ## Amounts to the hundredth -/

/-- Whether a number is another one, given to the hundredth. -/
def IsHundredthsOf (x y : ℚ) : Prop := HasPlaces 2 x ∧ |x - y| ≤ 1 / 200

/-- Three amounts given to the hundredth are off a sum by a hundredth at most. -/
theorem IsHundredthsOf.abs_sub_add_le {x x₁ x₂ y₁ y₂ : ℚ} (h : IsHundredthsOf x (y₁ + y₂))
    (h₁ : IsHundredthsOf x₁ y₁) (h₂ : IsHundredthsOf x₂ y₂) : |x - (x₁ + x₂)| ≤ 1 / 100 := by
  have hle : |x - (x₁ + x₂)| ≤ 3 / 200 := by
    have hnear := h.2
    have hnear₁ := h₁.2
    have hnear₂ := h₂.2
    rw [abs_le] at hnear hnear₁ hnear₂ ⊢
    constructor <;> linarith
  -- The difference is a whole number of hundredths, and less than two of them.
  obtain ⟨n, hn⟩ := h.1.sub (h₁.1.add h₂.1)
  rw [hn, abs_div, abs_of_pos (by norm_num : (0 : ℚ) < 10 ^ 2)] at hle ⊢
  have hone : |n| ≤ 1 := by
    by_contra htwo
    have hcast : (2 : ℚ) ≤ |(n : ℚ)| := by exact_mod_cast (not_le.1 htwo : 2 ≤ |n|)
    linarith
  have hcast : |(n : ℚ)| ≤ 1 := by exact_mod_cast hone
  linarith

namespace Decimal

theorem isHundredthsOf_toHundredths (d : Decimal) : IsHundredthsOf d.toHundredths.toRat d.toRat :=
  ⟨hasPlaces_of_scale_le d.scale_toHundredths_le, d.abs_toHundredths_sub_le⟩

end Decimal

/-! ## Basic pay -/

namespace BasicPay

variable {dates dates₁ dates₂ : List Date} {rate : Decimal} {c : WorkCalendar}
  {pay pay₁ pay₂ : BasicPay}

theorem ofDates_eq_ok (h : ofDates dates rate c = .ok pay) :
    dates.mapM (payDay rate c) = .ok pay.days ∧
      ∃ total, Decimal.sum (pay.days.map (·.amount)) = .ok total ∧
        pay.amount = total.toHundredths := by
  obtain ⟨days, hdays, h⟩ := bind_eq_ok.1 h
  obtain ⟨total, htotal, h⟩ := bind_eq_ok.1 h
  cases h
  exact ⟨hdays, total, htotal, rfl⟩

/-- What the days are paid, before it is given to the hundredth. -/
def due (pay : BasicPay) : ℚ := (pay.days.map (·.amount.toRat)).sum

/-- Every date is paid the same, whatever others are worked. -/
theorem due_append (h : ofDates (dates₁ ++ dates₂) rate c = .ok pay)
    (h₁ : ofDates dates₁ rate c = .ok pay₁) (h₂ : ofDates dates₂ rate c = .ok pay₂) :
    pay.due = pay₁.due + pay₂.due := by
  have hdays := (ofDates_eq_ok h).1
  rw [List.mapM_append, (ofDates_eq_ok h₁).1, (ofDates_eq_ok h₂).1] at hdays
  have hdays : pay₁.days ++ pay₂.days = pay.days := Except.ok.inj hdays
  rw [due, ← hdays, List.map_append, List.sum_append, due, due]

theorem isHundredthsOf_amount (h : ofDates dates rate c = .ok pay)
    (hexact : Along Decimal.add Decimal.AddsExactly .zero (pay.days.map (·.amount))) :
    IsHundredthsOf pay.amount.toRat pay.due := by
  obtain ⟨-, total, htotal, hamount⟩ := ofDates_eq_ok h
  have hdue := Decimal.toRat_sum hexact htotal
  rw [List.map_map] at hdue
  rw [hamount, due, show (pay.days.map (·.amount.toRat)).sum = total.toRat from hdue.symm]
  exact total.isHundredthsOf_toHundredths

theorem due_of_dates_eq_nil (h : ofDates [] rate c = .ok pay) : pay.due = 0 := by
  cases h
  rfl

end BasicPay

/-! ## Piecework -/

namespace PieceworkSummary

variable {labors : LaborCatalog} {p a b : Period} {entries : List AttendanceEntry}
  {s first second : PieceworkSummary}

/-- The pay of a period is that of its parts. -/
theorem totalExcessPay_cut (hcut : p.Divided [a, b]) (h : ofAttendance entries labors p = .ok s)
    (h₁ : ofAttendance entries labors a = .ok first)
    (h₂ : ofAttendance entries labors b = .ok second)
    (hexact : ∀ x ∈ [s, first, second],
      Along Decimal.add Decimal.AddsExactly .zero (x.days.values.map (·.excessPay))) :
    s.totalExcessPay.toRat = first.totalExcessPay.toRat + second.totalExcessPay.toRat := by
  rw [toRat_totalExcessPay h (hexact s (by simp)),
    toRat_totalExcessPay h₁ (hexact first (by simp)),
    toRat_totalExcessPay h₂ (hexact second (by simp)), values_cut hcut h h₁ h₂, List.map_append,
    List.sum_append]

end PieceworkSummary

/-! ## Lines -/

namespace ConceptRun

variable {ctx : PayContext} {registry : Registry} {run : ConceptRun} {l : ConceptLine}

/-- Whether a line is what the calculator of its code finds in a context with the same
    basis. -/
def FoundIn (ctx : PayContext) (registry : Registry) (l : ConceptLine) : Prop :=
  ∃ c calculator ctx' o, ctx.SameBasis ctx' ∧ registry.get? l.code = some calculator ∧
    calculator ctx' c = .ok o ∧ l = lineOf c o

/-- All lines of a run are found in its context. -/
theorem foundIn_of_mem_lines (h : ofContext ctx registry = .ok run) (hl : l ∈ run.lines) :
    FoundIn ctx registry l := by
  refine (foldlM_invariant
    (P := fun run => ctx.SameBasis run.context ∧ ∀ l ∈ run.lines, FoundIn ctx registry l)
    h ⟨.refl ctx, fun _ hl => nomatch hl⟩ ?_).2 l hl
  rintro run c run' - ⟨hbasis, hlines⟩ hnext
  refine ⟨hbasis.trans (sameBasis_next hnext), fun l hl => ?_⟩
  rcases next_cases hnext with ⟨-, -, rfl⟩ | ⟨-, -, rfl⟩ | ⟨-, calculator, o, hget, ho, henter⟩
  · obtain ⟨g, b, hskip⟩ := run.skipRetirement_eq
    rw [hskip] at hl
    exact hlines l hl
  · exact hlines l hl
  · obtain ⟨after, g, -, rfl⟩ := enter_eq_ok henter
    rcases List.mem_append.1 hl with hl | hl
    · exact hlines l hl
    · rw [List.mem_singleton.1 hl]
      exact ⟨c, calculator, run.context, o, hbasis, hget, ho, rfl⟩

/-- The line of a standard code is what the calculator registered under it finds. -/
theorem FoundIn.of_mem_standard (h : FoundIn ctx .standard l) {code : String}
    {calculator : Calculator} (he : (code, calculator) ∈ Registry.standardEntries)
    (hcode : sameCode l.code code) :
    ∃ c ctx' o, ctx.SameBasis ctx' ∧ calculator ctx' c = .ok o ∧ l = lineOf c o := by
  obtain ⟨c, calculator', ctx', o, hbasis, hget, ho, hl⟩ := h
  cases (Registry.get?_standard he hcode).symm.trans hget
  exact ⟨c, ctx', o, hbasis, ho, hl⟩

theorem FoundIn.amount_pieceworkExcess (h : FoundIn ctx .standard l)
    (hcode : sameCode l.code "PIECEWORK_EXCESS") :
    l.amount = ctx.piecework.totalExcessPay.toHundredths := by
  have hmem : ("PIECEWORK_EXCESS", Calculator.pieceworkExcess) ∈ Registry.standardEntries :=
    List.mem_of_getElem? (i := 6) rfl
  obtain ⟨c, ctx', o, ⟨_, _, _, _, rfl⟩, ho, rfl⟩ := h.of_mem_standard hmem hcode
  obtain ⟨units, -, ho⟩ := bind_eq_ok.1 ho
  cases ho
  rfl

/-- The basic salary that is due in a context, before it is given to the hundredth; none
    without a salary. -/
def salaryDue (ctx : PayContext) : ℚ :=
  if ctx.employee.salaryOrZero ≤ .zero then 0 else ctx.basicPay.due

/-- The basic salary is what is due for the dates worked. -/
theorem FoundIn.amount_basicSalary (h : FoundIn ctx .standard l)
    (hcode : sameCode l.code "BASIC_SALARY") {rate : Decimal} {calendar : WorkCalendar}
    (hpay : BasicPay.ofDates ctx.workedDates rate calendar = .ok ctx.basicPay)
    (hexact : Along Decimal.add Decimal.AddsExactly .zero (ctx.basicPay.days.map (·.amount))) :
    IsHundredthsOf l.amount.toRat (salaryDue ctx) := by
  have hzero : IsHundredthsOf Decimal.zero.toHundredths.toRat 0 := by
    have := Decimal.zero.isHundredthsOf_toHundredths
    rwa [Decimal.toRat_zero] at this
  have hmem : ("BASIC_SALARY", Calculator.basicSalary) ∈ Registry.standardEntries :=
    List.mem_of_getElem? (i := 0) rfl
  obtain ⟨c, ctx', o, ⟨_, _, _, _, rfl⟩, ho, rfl⟩ := h.of_mem_standard hmem hcode
  rw [Calculator.basicSalary, Calculator.needSalary] at ho
  rw [salaryDue]
  split at ho
  · next hsalary =>
    cases ho
    rwa [if_pos hsalary]
  · next hsalary =>
    rw [if_neg hsalary]
    split at ho
    · next hnone =>
      cases ho
      rw [List.isEmpty_iff.1 hnone] at hpay
      rwa [BasicPay.due_of_dates_eq_nil hpay]
    · obtain ⟨units, -, ho⟩ := bind_eq_ok.1 ho
      cases ho
      have hamount := BasicPay.isHundredthsOf_amount hpay hexact
      rw [lineOf, Outcome.paid, Decimal.toRat_toHundredths hamount.1]
      exact hamount

end ConceptRun

end FieldWages
