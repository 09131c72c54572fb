import FieldWages.Proofs.BasicPay
import FieldWages.Proofs.ConceptRun.Degradation
import FieldWages.Proofs.Cut.Detail

/-!
# The allowance of a month

The allowance for dependents is agreed for a month, and each period of it is paid the share of
its working days. The share is multiplied out and divided before it is rounded, and every line
is rounded for itself. Still nothing is gained or lost on the way but by that rounding: the
division is near enough to the exact share to be on the same side of every tie. So a line never
shrinks as days are added, it is between nothing and the whole allowance, and the lines of
periods that make up the month are off the allowance by half a hundredth each, at most.

* `exists_share`: the share of an amount;
* `Calculator.exists_familyAllowance_eq_ok`: what the calculator finds;
* `Payroll.PaysAllowance.toRat_eq`: what a line of the allowance shows;
* `Payroll.allowance_shares`: the lines of periods that make up the month.
-/

namespace FieldWages

open Decimal

/-! ## Shares -/

/-- Whether an amount can be agreed as an allowance: it is in hundredths, not negative, and a
    million millions at most. -/
structure Decimal.IsAllowance (value : Decimal) : Prop where
  nonneg : 0 ≤ value.toRat
  places : HasPlaces 2 value.toRat
  le : value.toRat ≤ 10 ^ 12

section Shares

variable {value : Decimal} {days days' total : UInt32}

/-- The part of a month's amount that is due for some of its days; for all of them, or more, it
    is the amount. -/
def dueOf (value : ℚ) (days total : UInt32) : ℚ := value * min days.toNat total.toNat / total.toNat

/-- What is due, half up to the hundredth. -/
def shareOf (value : ℚ) (days total : UInt32) : ℚ := ⌊dueOf value days total * 100 + 1 / 2⌋ / 100

theorem cast_toNat_ne_zero (htotal : total ≠ 0) : (total.toNat : ℚ) ≠ 0 := by
  exact_mod_cast fun h : total.toNat = 0 => htotal (UInt32.toNat.inj h)

theorem dueOf_of_le (h : days ≤ total) :
    dueOf value.toRat days total = value.toRat * days.toNat / total.toNat := by
  have hmin : min days.toNat total.toNat = days.toNat := min_eq_left h
  rw [dueOf, hmin]

theorem dueOf_of_total_le (htotal : total ≠ 0) (h : total ≤ days) :
    dueOf value.toRat days total = value.toRat := by
  have hmin : min days.toNat total.toNat = total.toNat := min_eq_right h
  rw [dueOf, hmin, mul_div_cancel_right₀ _ (cast_toNat_ne_zero htotal)]

theorem shareOf_mono (h₀ : 0 ≤ value.toRat) (h : days ≤ days') :
    shareOf value.toRat days total ≤ shareOf value.toRat days' total := by
  have hle : days.toNat ≤ days'.toNat := h
  rw [shareOf, shareOf, dueOf, dueOf]
  gcongr

theorem shareOf_of_total_le (hv : value.IsAllowance) (htotal : total ≠ 0) (h : total ≤ days) :
    shareOf value.toRat days total = value.toRat := by
  obtain ⟨n, hn⟩ := hv.places
  norm_num at hn
  rw [shareOf, dueOf_of_total_le htotal h, hn, div_mul_cancel₀ _ (by norm_num), floor_add_half]

theorem shareOf_nonneg (h₀ : 0 ≤ value.toRat) : 0 ≤ shareOf value.toRat days total := by
  have hdue : 0 ≤ dueOf value.toRat days total := by
    rw [dueOf]
    positivity
  rw [shareOf]
  positivity

theorem shareOf_le (hv : value.IsAllowance) (htotal : total ≠ 0) :
    shareOf value.toRat days total ≤ value.toRat := by
  rcases UInt32.le_total days total with h | h
  · exact (shareOf_mono hv.nonneg h).trans_eq
      (shareOf_of_total_le hv htotal (UInt32.le_refl total))
  · exact (shareOf_of_total_le hv htotal h).le

theorem abs_shareOf_sub_le : |shareOf value.toRat days total - dueOf value.toRat days total| ≤
    5 / 1000 := by
  have h := abs_floor_add_half_sub_le 2 (dueOf value.toRat days total)
  norm_num at h ⊢
  rwa [shareOf]

/-- Amounts that are off what is due by so much each are off the sum by no more together. -/
theorem abs_sum_sub_sum_le {shares : List UInt32} {amounts : List Decimal} {due : UInt32 → ℚ}
    {e : ℚ} (h : List.Forall₂ (fun days amount => |toRat amount - due days| ≤ e) shares amounts) :
    |(amounts.map toRat).sum - (shares.map due).sum| ≤ amounts.length * e := by
  induction h with
  | nil => simp
  | @cons days amount shares amounts hfirst _ ih =>
    have hsplit : ((amount :: amounts).map toRat).sum - ((days :: shares).map due).sum =
        (amount.toRat - due days) + ((amounts.map toRat).sum - (shares.map due).sum) := by
      simp only [List.map_cons, List.sum_cons]
      ring
    rw [hsplit]
    refine (abs_add_le _ _).trans ((add_le_add hfirst ih).trans_eq ?_)
    push_cast [List.length_cons]
    ring

/-- What is due for days that make up the month is the whole amount. -/
theorem sum_dueOf {shares : List UInt32} (htotal : total ≠ 0)
    (hsum : (shares.map (·.toNat)).sum = total.toNat) :
    (shares.map fun days => dueOf value.toRat days total).sum = value.toRat := by
  have hdue : ∀ days ∈ shares,
      dueOf value.toRat days total = value.toRat / total.toNat * (days.toNat : ℕ) := by
    intro days hdays
    -- No part has more days than the month, so none is cut down to it.
    have hle : days.toNat ≤ total.toNat := by
      rw [← hsum]
      exact List.single_le_sum (fun _ _ => Nat.zero_le _) _ (List.mem_map_of_mem hdays)
    rw [dueOf_of_le hle]
    ring
  have hcast : (shares.map fun days => (days.toNat : ℚ)).sum = total.toNat := by
    rw [← hsum, Nat.cast_list_sum, List.map_map]
    rfl
  rw [List.map_congr_left hdue, List.sum_map_mul_left, hcast,
    div_mul_cancel₀ _ (cast_toNat_ne_zero htotal)]

/-- A product is exact, whatever zeros are written behind the hundredths. -/
theorem exists_mul_of_isAllowance (hv : value.IsAllowance) (days : UInt32) :
    ∃ product, value.mul (.ofUInt32 days) = .ok product ∧
      product.toRat = value.toRat * days.toNat := by
  -- With so many zeros the digits may not fit; without them they do, and the number decides.
  have hequiv : value.toHundredths ≈ value := toRat_toHundredths hv.places
  have hmantissa : value.toHundredths.mantissa.natAbs ≤ 10 ^ 14 := by
    have hfits := natAbs_mantissa_le value.scale_toHundredths_le
    rw [toRat_toHundredths hv.places, abs_of_nonneg hv.nonneg] at hfits
    have hle := hv.le
    have hbound : (value.toHundredths.mantissa.natAbs : ℚ) ≤ 10 ^ 14 := by
      norm_num at hle hfits ⊢
      linarith
    exact_mod_cast hbound
  have hroom : value.toHundredths.mantissa.natAbs * days.toNat ≤ maxMantissa :=
    (Nat.mul_le_mul hmantissa days.toNat_lt.le).trans (by decide)
  obtain ⟨product', hproduct', hvalue⟩ := exists_mul_ofUInt32_eq_ok hroom
  have halike := mul_alike hequiv (Setoid.refl (ofUInt32 days))
  rw [hproduct'] at halike
  obtain ⟨product, hproduct, hsame⟩ := halike.exists_right
  refine ⟨product, hproduct, ?_⟩
  rw [← equiv_iff.1 hsame, hvalue, toRat_toHundredths hv.places]

/-- A share is found, and it is rounded as the exact one. -/
theorem exists_share (hv : value.IsAllowance) (htotal : total ≠ 0) (hdays : days ≤ total) :
    ∃ product amount, value.mul (.ofUInt32 days) = .ok product ∧
      product.div (.ofUInt32 total) = .ok amount ∧
      amount.toHundredths.toRat = shareOf value.toRat days total := by
  obtain ⟨product, hproduct, hvalue⟩ := exists_mul_of_isAllowance hv days
  have hproduct₀ : 0 ≤ product.toRat := by
    have := hv.nonneg
    rw [hvalue]
    positivity
  have hplaces : HasPlaces 2 product.toRat := by
    obtain ⟨n, hn⟩ := hv.places
    refine ⟨n * days.toNat, ?_⟩
    rw [hvalue, hn]
    push_cast
    ring
  have hfits : product.toRat * 10 ^ (2 + 2) ≤ 10 ^ 27 := by
    have hlt : (days.toNat : ℚ) ≤ 2 ^ 32 := by exact_mod_cast days.toNat_lt.le
    have hmul := mul_le_mul hv.le hlt (Nat.cast_nonneg _) (by norm_num)
    rw [hvalue]
    norm_num at hmul ⊢
    linarith
  obtain ⟨amount, hamount, hamount₀, hfloor⟩ :=
    exists_div_floor_eq hplaces hproduct₀ htotal (by norm_num) hfits
  refine ⟨product, amount, hproduct, hamount, ?_⟩
  norm_num at hfloor
  rw [toRat_toHundredths_eq_floor hamount₀, hfloor, shareOf, dueOf_of_le hdays, ← hvalue]

end Shares

/-! ## Lines -/

variable {value : Decimal}

/-- An employee with dependents is paid the share of the period, and that is not remarked upon. -/
theorem Calculator.exists_familyAllowance_eq_ok {ctx : PayContext} {c : Concept}
    (hv : value.IsAllowance) (hvalue : c.value = some value)
    (hdependents : ctx.employee.hasDependents) (htotal : ctx.parameters.totalWorkingDays ≠ 0) :
    ∃ o, familyAllowance ctx c = .ok o ∧ o.diagnostic = none ∧
      o.amount.toHundredths.toRat =
        shareOf value.toRat ctx.parameters.workingDays ctx.parameters.totalWorkingDays := by
  rw [familyAllowance, hvalue]
  simp only [hdependents, Bool.not_true, Bool.false_eq_true, if_false]
  split
  · next hall =>
    have hle := hall.resolve_left htotal
    refine ⟨_, rfl, rfl, ?_⟩
    rw [shareOf_of_total_le hv htotal hle]
    exact toRat_toHundredths hv.places
  · next hpart =>
    have hlt : ¬ctx.parameters.totalWorkingDays ≤ ctx.parameters.workingDays :=
      fun h => hpart (.inr h)
    obtain ⟨product, amount, hproduct, hamount, hshare⟩ :=
      exists_share hv htotal (UInt32.le_of_lt (UInt32.not_le.1 hlt))
    exact ⟨_, bind_eq_ok.2 ⟨product, hproduct, bind_eq_ok.2 ⟨amount, hamount, rfl⟩⟩, rfl, hshare⟩

theorem Registry.familyAllowance_mem :
    ("FAMILY_ALLOWANCE", Calculator.familyAllowance) ∈ standardEntries :=
  List.mem_of_getElem? (i := 8) rfl

namespace ConceptRun

/-- A step that pays the allowance comes as far as the total it is posted to, and leaves one line
    and no remark. -/
theorem next_allowance {run : ConceptRun} {c : Concept} (hv : value.IsAllowance)
    (hcode : sameCode c.code "FAMILY_ALLOWANCE") (hvalue : c.value = some value)
    (hconcerns : c.Concerns run.context.employee)
    (hdependents : run.context.employee.hasDependents)
    (htotal : run.context.parameters.totalWorkingDays ≠ 0) :
    ∃ amount, amount.toRat = shareOf value.toRat run.context.parameters.workingDays
        run.context.parameters.totalWorkingDays ∧
      Alike (fun _ run' => run'.lines = run.lines ++ [⟨c.code, c.category, some value, amount⟩] ∧
          run'.context.diagnostics = run.context.diagnostics)
        ((run.context.total c.category.account).add amount) (next .standard run c) := by
  obtain ⟨o, ho, hdiagnostic, hshare⟩ :=
    Calculator.exists_familyAllowance_eq_ok hv hvalue hdependents htotal
  refine ⟨o.amount.toHundredths, hshare, ?_⟩
  rw [next_eq_enter hconcerns (Registry.get?_standard Registry.familyAllowance_mem hcode) ho,
    enter_eq]
  cases (run.context.total c.category.account).add o.amount.toHundredths with
  | error f => exact .error f
  | ok t =>
    refine .ok ⟨?_, ?_⟩
    · rw [entered, lineOf, hvalue]
    · rw [entered, hdiagnostic, Option.toList_none, List.append_nil]

theorem FoundIn.amount_familyAllowance {ctx : PayContext} {l : ConceptLine}
    (h : FoundIn ctx .standard l) (hv : value.IsAllowance)
    (hcode : sameCode l.code "FAMILY_ALLOWANCE") (hvalue : l.configuredValue = some value)
    (hdependents : ctx.employee.hasDependents) (htotal : ctx.parameters.totalWorkingDays ≠ 0) :
    l.amount.toRat =
      shareOf value.toRat ctx.parameters.workingDays ctx.parameters.totalWorkingDays := by
  obtain ⟨c, ctx', o, ⟨_, _, _, _, rfl⟩, ho, rfl⟩ :=
    h.of_mem_standard Registry.familyAllowance_mem hcode
  obtain ⟨o', ho', -, hshare⟩ :=
    Calculator.exists_familyAllowance_eq_ok (c := c) hv hvalue hdependents htotal
  cases ho.symm.trans ho'
  exact hshare

end ConceptRun

/-! ## Months -/

namespace Payroll

/-- Whether an amount is that of a line for the allowance of a month, in the detail of an employee
    with dependents for a period that has so many of the month's working days. -/
inductive PaysAllowance (value : Decimal) (total days : UInt32) : Decimal → Prop
  | line {employee : Employee} {attendance : List AttendanceEntry} {inputs : PayrollInputs}
    {detail : PayrollDetail} {l : ConceptLine} (hdependents : employee.hasDependents)
    (hdays : inputs.parameters.workingDays = days)
    (htotal : inputs.parameters.totalWorkingDays = total)
    (h : compute employee attendance inputs .standard = .ok detail) (hl : l ∈ detail.concepts)
    (hcode : sameCode l.code "FAMILY_ALLOWANCE") (hvalue : l.configuredValue = some value) :
    PaysAllowance value total days l.amount

variable {days total : UInt32} {amount : Decimal}

theorem PaysAllowance.toRat_eq (h : PaysAllowance value total days amount)
    (hv : value.IsAllowance) (htotal : total ≠ 0) :
    amount.toRat = shareOf value.toRat days total := by
  cases h with
  | line hdependents hdays htotal' h hl hcode hvalue =>
    obtain ⟨ctx, hctx, -⟩ := compute_spec h
    have hprepared := prepared_of_context hctx
    have hfound := (lines_of_compute h hctx).1 _ hl
    subst hdays
    subst htotal'
    rw [← hprepared.parameters_eq] at htotal ⊢
    exact hfound.amount_familyAllowance hv hcode hvalue
      (hprepared.employee_eq.symm ▸ hdependents) htotal

/-- An allowance is paid in every period for an employee with dependents, if only the total it is
    posted to stays in range. Each line is the exact share of the working days, half up to the
    hundredth; it is between nothing and the allowance, and not less for more days. And the
    lines of periods that make up the month are off it by half a hundredth each, at most. -/
theorem allowance_shares (hv : value.IsAllowance) (htotal : 1 ≤ total) :
    (∀ (run : ConceptRun) (c : Concept), sameCode c.code "FAMILY_ALLOWANCE" →
      c.value = some value → c.Concerns run.context.employee →
      run.context.employee.hasDependents → run.context.parameters.totalWorkingDays = total →
      ∃ amount, amount.toRat = shareOf value.toRat run.context.parameters.workingDays total ∧
        Alike (fun _ run' =>
            run'.lines = run.lines ++ [⟨c.code, c.category, some value, amount⟩] ∧
              run'.context.diagnostics = run.context.diagnostics)
          ((run.context.total c.category.account).add amount)
          (ConceptRun.next .standard run c)) ∧
    (∀ days amount, PaysAllowance value total days amount →
      (days ≤ total → amount.toRat =
        ⌊value.toRat * days.toNat / total.toNat * 100 + 1 / 2⌋ / 100) ∧
      0 ≤ amount.toRat ∧ amount.toRat ≤ value.toRat) ∧
    (∀ days days' amount amount', PaysAllowance value total days amount →
      PaysAllowance value total days' amount' → days ≤ days' → amount.toRat ≤ amount'.toRat) ∧
    ∀ shares amounts, List.Forall₂ (PaysAllowance value total) shares amounts →
      (shares.map (·.toNat)).sum = total.toNat →
      |(amounts.map toRat).sum - value.toRat| ≤ amounts.length * (5 / 1000) := by
  have htotal₀ : total ≠ 0 := by
    rintro rfl
    exact absurd htotal (by decide)
  refine ⟨fun run c hcode hvalue hconcerns hdependents hdays => ?_, fun days amount h => ?_,
    fun days days' amount amount' h h' hle => ?_, fun shares amounts h hsum => ?_⟩
  · subst hdays
    exact ConceptRun.next_allowance hv hcode hvalue hconcerns hdependents htotal₀
  · rw [h.toRat_eq hv htotal₀]
    refine ⟨fun hle => ?_, shareOf_nonneg hv.nonneg, shareOf_le hv htotal₀⟩
    rw [shareOf, dueOf_of_le hle]
  · rw [h.toRat_eq hv htotal₀, h'.toRat_eq hv htotal₀]
    exact shareOf_mono hv.nonneg hle
  · have hnear := abs_sum_sub_sum_le (h.imp fun days amount hpays => by
      rw [hpays.toRat_eq hv htotal₀]
      exact abs_shareOf_sub_le)
    rwa [sum_dueOf htotal₀ hsum] at hnear

/-- An allowance of a hundred, in a period that has so many of the twenty-six working days. -/
def allowancePlan (workingDays : UInt32) : PayrollInputs :=
  { PayrollInputs.plain (.between 0 3) workingDays with
    concepts := [.plain "Family_Allowance" .income (some .hundred)] }

theorem exists_paysAllowance (days : UInt32)
    (h : (compute { Employee.plain with dependents := 2 } [] (allowancePlan days) .standard).map
      (fun detail => detail.concepts.map ConceptRun.shapeOf) =
        .ok [("Family_Allowance", .income, some .hundred)]) :
    ∃ amount, PaysAllowance .hundred 26 days amount := by
  obtain ⟨detail, hdetail, hshapes⟩ := map_eq_ok.1 h
  obtain ⟨l, hl, hshape⟩ := List.map_eq_singleton_iff.1 hshapes
  obtain ⟨hcode, hrest⟩ := Prod.mk.inj hshape
  have hmem : l ∈ detail.concepts := hl ▸ List.mem_singleton_self l
  exact ⟨l.amount, .line (by decide) rfl rfl hdetail hmem (hcode ▸ by decide)
    (Prod.mk.inj hrest).2⟩

/-- Nine days, nine days and eight days are paid a hundredth more than the hundred. -/
theorem allowance_shares_thirds : ∃ first second third,
    List.Forall₂ (PaysAllowance .hundred 26) [9, 9, 8] [first, second, third] ∧
      [first, second, third].map toRat = [34.62, 34.62, 30.77] ∧
      |([first, second, third].map toRat).sum - hundred.toRat| ≤ 3 * (5 / 1000) := by
  have hhundred : hundred.toRat = 100 := by norm_num [toRat_eq, hundred]
  have hv : hundred.IsAllowance :=
    ⟨by norm_num [hhundred], hasPlaces_of_scale_le (by decide), by norm_num [hhundred]⟩
  obtain ⟨-, hlines, -, hmonths⟩ := allowance_shares hv (by decide : (1 : UInt32) ≤ 26)
  obtain ⟨nine, hnine⟩ := exists_paysAllowance 9 (by decide +kernel)
  obtain ⟨eight, height⟩ := exists_paysAllowance 8 (by decide +kernel)
  have hpays := List.Forall₂.cons hnine (.cons hnine (.cons height .nil))
  have hnine' : nine.toRat = ⌊(100 * (9 : ℕ) / (26 : ℕ) * 100 + 1 / 2 : ℚ)⌋ / 100 :=
    hhundred ▸ (hlines 9 nine hnine).1 (by decide)
  have height' : eight.toRat = ⌊(100 * (8 : ℕ) / (26 : ℕ) * 100 + 1 / 2 : ℚ)⌋ / 100 :=
    hhundred ▸ (hlines 8 eight height).1 (by decide)
  rw [Int.floor_eq_iff.2 (by norm_num : ((3462 : ℤ) : ℚ) ≤ _ ∧ _)] at hnine'
  rw [Int.floor_eq_iff.2 (by norm_num : ((3077 : ℤ) : ℚ) ≤ _ ∧ _)] at height'
  refine ⟨nine, nine, eight, hpays, ?_, hmonths _ _ hpays (by decide)⟩
  simp only [List.map_cons, List.map_nil, hnine', height']
  norm_num

end Payroll

end FieldWages
