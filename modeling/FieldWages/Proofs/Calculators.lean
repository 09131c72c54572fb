import FieldWages.Proofs.ConceptRun
import FieldWages.Proofs.Faults

/-!
# How calculators end

A calculator of the standard registry pays, or does without something and says so in a
diagnostic that is about no date; or else an amount or a count of the context is out of range
(`Calculator.Ends`). Nothing else stops it: what it divides by is never zero, and what
it lacks degrades the outcome. A registry whose calculators are stopped by nothing else is
*steady* (`Registry.Steady`); so is one whose calculators never give up.

* `Registry.ends_standard`: the calculators of the standard registry;
* `Registry.steady_standard`, `Registry.Total.steady`: steady registries.
-/

namespace FieldWages

/-- Whether the units that are paid for in a context fit their words. -/
structure PayContext.CountsFit (ctx : PayContext) : Prop where
  units : ∃ n, ctx.basicPay.units = .ok n
  excessUnits : ∃ n, ctx.piecework.excessUnits = .ok n

/-- How a calculator can end for a concept in a context. -/
inductive Calculator.Ends (ctx : PayContext) (c : Concept) : Except Fault Outcome → Prop
  | paid (amount : Decimal) (reasoning : String) : Ends ctx c (.ok (.paid amount reasoning))
  | degraded (code message : String) : Ends ctx c (.ok (.degraded code c.code message))
  | overflow {f : Fault} (h : f.IsOverflow) : Ends ctx c (.error f)
  | noRoom (h : ¬ctx.CountsFit) : Ends ctx c (.error .countOverflow)

/-- Whether a fault is due to an amount or a count of a context that is out of range. -/
def PayContext.OutOfRange (ctx : PayContext) (f : Fault) : Prop :=
  f.IsOverflow ∨ f = .countOverflow ∧ ¬ctx.CountsFit

namespace Calculator

variable {α : Type} {ctx : PayContext} {c : Concept} {x : Except Fault Outcome}

namespace Ends

theorem stopsBy (h : Ends ctx c x) : StopsBy ctx.OutOfRange x := by
  cases h with
  | paid => exact .ok _
  | degraded => exact .ok _
  | overflow h => exact .error (.inl h)
  | noRoom h => exact .error (.inr ⟨rfl, h⟩)

/-- No diagnostic of a calculator is about a date. -/
theorem date_eq_none (h : Ends ctx c x) {o : Outcome} (ho : x = .ok o) :
    ∀ d ∈ o.diagnostic, d.date = none := by
  cases h with
  | paid =>
    cases ho
    exact fun d hd => nomatch hd
  | degraded =>
    cases ho
    rintro _ ⟨⟩
    rfl
  | overflow => cases ho
  | noRoom => cases ho

theorem bind {y : Except Fault α} {next : α → Except Fault Outcome}
    (hy : StopsBy Fault.IsOverflow y) (hnext : ∀ a, y = .ok a → Ends ctx c (next a)) :
    Ends ctx c (y >>= next) := by
  cases y with
  | error f => exact .overflow (hy f rfl)
  | ok a => exact hnext a rfl

theorem needSalary (h : Ends ctx c x) : Ends ctx c (needSalary ctx c x) := by
  rw [Calculator.needSalary]
  split
  · exact .degraded _ _
  · exact h

end Ends

theorem ends_basicSalary : Ends ctx c (basicSalary ctx c) := by
  refine .needSalary ?_
  split
  · exact .degraded _ _
  · cases hunits : ctx.basicPay.units with
    | error f =>
      cases Count.word32_stopsBy _ f hunits
      exact .noRoom fun hfit => nomatch hunits ▸ hfit.units
    | ok units => exact .paid _ _

theorem ends_restDay : Ends ctx c (restDay ctx c) := .needSalary (.paid _ _)

theorem ends_surchargedHours {hours : PayContext → Decimal} {agreed : OvertimeRates → Decimal}
    {label : String} : Ends ctx c (surchargedHours hours agreed label ctx c) := by
  rw [surchargedHours]
  split
  · exact .paid _ _
  · refine .needSalary (.bind (Decimal.div_stopsBy _ (by decide)) fun share _ => ?_)
    refine .bind (Decimal.add_stopsBy _ _) fun factor _ => ?_
    refine .bind (Decimal.mul_stopsBy _ _) fun rate _ => ?_
    exact .bind (Decimal.mul_stopsBy _ _) fun amount _ => .paid _ _

theorem ends_nightSurcharge : Ends ctx c (nightSurcharge ctx c) := by
  rw [nightSurcharge]
  split
  · exact .paid _ _
  · refine .needSalary (.bind (Decimal.mul_stopsBy _ _) fun pay _ => ?_)
    refine .bind (Decimal.mul_stopsBy _ _) fun share _ => ?_
    exact .bind (Decimal.div_stopsBy _ (by decide)) fun amount _ => .paid _ _

theorem ends_pieceworkExcess : Ends ctx c (pieceworkExcess ctx c) := by
  rw [pieceworkExcess]
  cases hunits : ctx.piecework.excessUnits with
  | error f =>
    obtain ⟨rfl, -⟩ := Count.word64_stopsBy _ f hunits
    exact .noRoom fun hfit => nomatch hunits ▸ hfit.excessUnits
  | ok units => exact .paid _ _

theorem ends_productivityBonus : Ends ctx c (productivityBonus ctx c) := by
  rw [productivityBonus]
  split
  · exact .degraded _ _
  split
  · exact .degraded _ _
  split
  · exact .paid _ _
  · exact .paid _ _

theorem ends_familyAllowance : Ends ctx c (familyAllowance ctx c) := by
  rw [familyAllowance]
  split
  · exact .degraded _ _
  split
  · exact .paid _ _
  dsimp only
  split
  · exact .paid _ _
  · next hshare =>
    -- A month without working days is not divided by.
    obtain ⟨htotal, -⟩ := not_or.1 hshare
    refine .bind (Decimal.mul_stopsBy _ _) fun product _ => ?_
    refine .bind (Decimal.div_stopsBy _ (Decimal.mantissa_ofUInt32_ne_zero htotal)) ?_
    exact fun amount _ => .paid _ _

theorem ends_fixedAmount : Ends ctx c (fixedAmount ctx c) := by
  rw [fixedAmount]
  split
  · exact .degraded _ _
  · exact .paid _ _

theorem ends_percentageOfIncome : Ends ctx c (percentageOfIncome ctx c) := by
  rw [percentageOfIncome]
  split
  · exact .degraded _ _
  · refine .bind (Decimal.mul_stopsBy _ _) fun product _ => ?_
    exact .bind (Decimal.div_stopsBy _ (by decide)) fun amount _ => .paid _ _

theorem ends_healthPlan : Ends ctx c (healthPlan ctx c) := by
  rw [healthPlan]
  split
  · exact .degraded _ _
  · exact ends_percentageOfIncome

end Calculator

namespace Registry

open Calculator

variable {code : String} {calculator : Calculator}

/-- The calculators of the standard registry pay or degrade, unless something is out of range. -/
theorem ends_standard (h : standard.get? code = some calculator) (ctx : PayContext) (c : Concept) :
    Ends ctx c (calculator ctx c) := by
  have hentries : ∀ e ∈ standardEntries, ∀ ctx c, Ends ctx c (e.2 ctx c) := by
    rw [← List.forall_iff_forall_mem]
    simp only [standardEntries, List.Forall]
    exact ⟨fun _ _ => ends_basicSalary, fun _ _ => ends_restDay,
      fun _ _ => ends_surchargedHours, fun _ _ => ends_surchargedHours,
      fun _ _ => ends_surchargedHours, fun _ _ => ends_nightSurcharge,
      fun _ _ => ends_pieceworkExcess, fun _ _ => ends_productivityBonus,
      fun _ _ => ends_familyAllowance, fun _ _ => ends_fixedAmount,
      fun _ _ => ends_percentageOfIncome, fun _ _ => ends_percentageOfIncome,
      fun _ _ => ends_percentageOfIncome, fun _ _ => ends_percentageOfIncome,
      fun _ _ => ends_percentageOfIncome, fun _ _ => ends_percentageOfIncome,
      fun _ _ => ends_percentageOfIncome, fun _ _ => ends_healthPlan,
      fun _ _ => ends_fixedAmount, fun _ _ => ends_fixedAmount⟩
  obtain ⟨e, he, rfl⟩ := exists_of_get?_standard h
  exact hentries e he ctx c

/-- Whether nothing stops a calculator of a registry but amounts and counts that are out of
    range. -/
def Steady (r : Registry) : Prop :=
  ∀ code calculator, r.get? code = some calculator → ∀ ctx c,
    StopsBy ctx.OutOfRange (calculator ctx c)

theorem steady_standard : standard.Steady := fun _ _ h ctx c => (ends_standard h ctx c).stopsBy

/-- A registry whose calculators never give up is steady. -/
theorem Total.steady {r : Registry} (hr : r.Total) : r.Steady := by
  intro code calculator h ctx c
  obtain ⟨o, ho⟩ := hr code calculator h ctx c
  exact .of_eq_ok ho

end Registry

end FieldWages
