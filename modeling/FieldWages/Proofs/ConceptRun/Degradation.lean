import FieldWages.Proofs.Calculators
import FieldWages.Proofs.ConceptRun.Insertion
import FieldWages.Proofs.ConceptRun.Selection
import FieldWages.Proofs.Decimal.Numbers

/-!
# Degraded concepts

A standard calculator that lacks something pays nothing and says so. Its outcome can be
entered whatever the totals are, since a zero is added to them, so for want of something no
run stops: a line of nothing is written, the totals keep their numbers, and the one
diagnostic names the concept (`ConceptRun.Degrades`). A calculator of the standard registry
looks for what it needs before anything else, with one exception: those of hours look whether
there are any first.

* `ConceptRun.exists_enter_eq_ok`: an outcome of nothing can be entered;
* `Calculator.NeedsValue`, `Calculator.NeedsSalary`: what calculators need;
* `ConceptRun.LenientWith`, `ConceptRun.StopsUnremarked`: steps that lack something, and runs;
* `ConceptRun.next_degrades`: what is lacking does not stop a standard run.
-/

namespace FieldWages

/-! ## What calculators need -/

namespace Calculator

variable {ctx : PayContext} {c : Concept}

/-- Whether a calculator degrades for want of a configured value. -/
def NeedsValue (calculator : Calculator) : Prop :=
  ∀ (ctx : PayContext) (c : Concept), c.value = none →
    ∃ code text, calculator ctx c = .ok (.degraded code c.code text)

/-- Whether a calculator degrades for want of a salary, unless the hours it looks at first, if
    it looks at any, are none to pay. -/
def NeedsSalary (hours? : HourBreakdown → Option Decimal) (calculator : Calculator) : Prop :=
  ∀ (ctx : PayContext) (c : Concept), ctx.employee.salaryOrZero ≤ .zero →
    if (hours? ctx.hours).any (· ≤ .zero) then ∃ text, calculator ctx c = .ok (.paid .zero text)
    else ∃ text, calculator ctx c = .ok (.degraded Diagnostic.missingSalary c.code text)

theorem needsValue_percentageOfIncome : NeedsValue percentageOfIncome := fun ctx c h => by
  rw [percentageOfIncome, h]
  exact ⟨_, _, rfl⟩

theorem needsValue_healthPlan : NeedsValue healthPlan := fun ctx c h => by
  rw [healthPlan]
  split
  · exact ⟨_, _, rfl⟩
  · exact needsValue_percentageOfIncome ctx c h

theorem needsValue_productivityBonus : NeedsValue productivityBonus := fun ctx c h => by
  rw [productivityBonus, h]
  exact ⟨_, _, rfl⟩

theorem needsValue_familyAllowance : NeedsValue familyAllowance := fun ctx c h => by
  rw [familyAllowance, h]
  exact ⟨_, _, rfl⟩

theorem needsValue_fixedAmount : NeedsValue fixedAmount := fun ctx c h => by
  rw [fixedAmount, h]
  exact ⟨_, _, rfl⟩

theorem needSalary_eq (h : ctx.employee.salaryOrZero ≤ .zero) (next : Except Fault Outcome) :
    ∃ text, needSalary ctx c next = .ok (.degraded Diagnostic.missingSalary c.code text) :=
  ⟨_, if_pos h⟩

theorem needsSalary_basicSalary : NeedsSalary (fun _ => none) basicSalary :=
  fun _ _ h => needSalary_eq h _

theorem needsSalary_restDay : NeedsSalary (fun _ => none) restDay := fun _ _ h => needSalary_eq h _

theorem needsSalary_surchargedHours (hours : HourBreakdown → Decimal)
    (agreed : OvertimeRates → Decimal) (label : String) :
    NeedsSalary (some <| hours ·) (surchargedHours (hours ·.hours) agreed label) := by
  intro ctx c h
  rw [surchargedHours]
  by_cases hnone : hours ctx.hours ≤ .zero
  · simp only [Option.any_some, hnone, decide_true, if_true]
    exact ⟨_, rfl⟩
  · simp only [Option.any_some, hnone, decide_false, if_false, Bool.false_eq_true]
    exact needSalary_eq h _

theorem needsSalary_nightSurcharge : NeedsSalary (some ·.night) nightSurcharge := by
  intro ctx c h
  rw [nightSurcharge]
  by_cases hnone : ctx.hours.night ≤ .zero
  · simp only [Option.any_some, hnone, decide_true, if_true]
    exact ⟨_, rfl⟩
  · simp only [Option.any_some, hnone, decide_false, if_false, Bool.false_eq_true]
    exact needSalary_eq h _

end Calculator

namespace Registry

/-- The standard codes whose calculators pay by the configured value. -/
def valueCodes : List String :=
  ["PRODUCTIVITY_BONUS", "FAMILY_ALLOWANCE", "FIXED_INCOME", "ONP", "AFP_INTEGRA", "AFP_PRIMA",
    "AFP_PROFUTURO", "AFP_HABITAT", "INCOME_TAX", "ESSALUD", "HEALTH_PLAN", "ADVANCE",
    "JUDICIAL_RETENTION"]

/-- The standard codes whose calculators pay by salary, with the hours that each of them looks
    at first. -/
def salaryCodes : List (String × (HourBreakdown → Option Decimal)) :=
  [("BASIC_SALARY", fun _ => none), ("DOMINICAL", fun _ => none),
    ("OVERTIME_25", (some ·.overtimeTier1)), ("OVERTIME_35", (some ·.overtimeTier2)),
    ("HOLIDAY_OVERTIME", (some ·.holidaySundayExtra)), ("NIGHT_SURCHARGE", (some ·.night))]

open Calculator

theorem exists_of_mem_valueCodes {code : String} (h : code ∈ valueCodes) :
    ∃ calculator, (code, calculator) ∈ standardEntries ∧ calculator.NeedsValue := by
  -- They are the last ones of the registry.
  have hneeds : ∀ e ∈ standardEntries.drop 7, e.2.NeedsValue := by
    rw [← List.forall_iff_forall_mem]
    simp only [standardEntries, List.drop, List.Forall]
    exact ⟨needsValue_productivityBonus, needsValue_familyAllowance, needsValue_fixedAmount,
      needsValue_percentageOfIncome, needsValue_percentageOfIncome, needsValue_percentageOfIncome,
      needsValue_percentageOfIncome, needsValue_percentageOfIncome, needsValue_percentageOfIncome,
      needsValue_percentageOfIncome, needsValue_healthPlan, needsValue_fixedAmount,
      needsValue_fixedAmount⟩
  have hcodes : valueCodes = (standardEntries.drop 7).map (·.1) := rfl
  rw [hcodes] at h
  obtain ⟨e, he, rfl⟩ := List.mem_map.1 h
  exact ⟨e.2, List.mem_of_mem_drop he, hneeds e he⟩

theorem exists_of_mem_salaryCodes {x : String × (HourBreakdown → Option Decimal)}
    (h : x ∈ salaryCodes) :
    ∃ calculator, (x.1, calculator) ∈ standardEntries ∧ calculator.NeedsSalary x.2 := by
  revert x
  rw [← List.forall_iff_forall_mem]
  simp only [salaryCodes, List.Forall]
  exact ⟨⟨_, List.mem_of_getElem? (i := 0) rfl, needsSalary_basicSalary⟩,
    ⟨_, List.mem_of_getElem? (i := 1) rfl, needsSalary_restDay⟩,
    ⟨_, List.mem_of_getElem? (i := 2) rfl, needsSalary_surchargedHours _ _ _⟩,
    ⟨_, List.mem_of_getElem? (i := 3) rfl, needsSalary_surchargedHours _ _ _⟩,
    ⟨_, List.mem_of_getElem? (i := 4) rfl, needsSalary_surchargedHours _ _ _⟩,
    ⟨_, List.mem_of_getElem? (i := 5) rfl, needsSalary_nightSurcharge⟩⟩

end Registry

/-! ## Entering nothing -/

/-- Nothing can be added to any decimal. -/
theorem Decimal.exists_add_zero (d : Decimal) : ∃ t, d.add .zero = .ok t ∧ t ≈ d := by
  rw [add, addOr]
  split
  · next hd => exact ⟨.zero, rfl, toRat_zero.trans (toRat_eq_zero hd).symm⟩
  · exact ⟨d, if_pos rfl, Setoid.refl d⟩

namespace ConceptRun

variable {run run' : ConceptRun} {c : Concept} {o : Outcome} {d : Diagnostic}

/-- Whether a step pays nothing for a concept: it has a line that says so, and the totals keep
    their numbers. -/
structure PaysNothing (run : ConceptRun) (c : Concept) (run' : ConceptRun) : Prop where
  line : run'.lines = run.lines ++ [⟨c.code, c.category, c.value, .zero⟩]
  totals : ∀ k, run'.context.total k ≈ run.context.total k

/-- Whether a step degrades a concept: it pays nothing, with one diagnostic that names it. -/
structure Degrades (run : ConceptRun) (c : Concept) (d : Diagnostic) (run' : ConceptRun) : Prop
    extends PaysNothing run c run' where
  diagnostics : run'.context.diagnostics = run.context.diagnostics ++ [d]
  message : ∃ text, d.message = c.code ++ ": " ++ text

/-- An outcome of nothing can be entered, whatever the totals are. -/
theorem exists_enter_eq_ok (run : ConceptRun) (c : Concept) (h : o.amount = .zero) :
    ∃ run', run.enter c o = .ok run' ∧ run.PaysNothing c run' ∧
      run'.context.diagnostics = run.context.diagnostics ++ o.diagnostic.toList := by
  have hzero : o.amount.toHundredths = .zero := h ▸ Decimal.toHundredths_zero
  obtain ⟨t, ht, hequiv⟩ := Decimal.exists_add_zero (run.context.total c.category.account)
  refine ⟨run.entered c o t, ?_, ⟨?_, fun k => ?_⟩, rfl⟩
  · rw [enter_eq, hzero, ht]
    rfl
  · rw [entered, lineOf, hzero]
  · by_cases hk : c.category.account = k
    · subst hk
      rwa [total_entered]
    · rw [total_entered_of_ne hk]

/-- A degraded outcome can be entered, and its remark is all that is left of it. -/
theorem exists_enter_degraded (run : ConceptRun) (c : Concept) (code text : String) :
    ∃ run', run.enter c (.degraded code c.code text) = .ok run' ∧
      run.Degrades c ⟨code, c.code ++ ": " ++ text, none⟩ run' := by
  obtain ⟨run', henter, hnothing, hdiagnostics⟩ :=
    run.exists_enter_eq_ok c (o := .degraded code c.code text) rfl
  exact ⟨run', henter,
    { toPaysNothing := hnothing, diagnostics := hdiagnostics, message := ⟨text, rfl⟩ }⟩

/-! ## Steps that lack something -/

/-- A concept that concerns the employee comes to what its calculator finds. -/
theorem next_eq_enter {registry : Registry} {calculator : Calculator}
    (hconcerns : c.Concerns run.context.employee) (hget : registry.get? c.code = some calculator)
    (ho : calculator run.context c = .ok o) : next registry run c = run.enter c o := by
  rw [next, if_neg (Concept.concerns_iff.1 hconcerns)]
  simp only [hget]
  rw [ho]
  rfl

/-- What a standard calculator remarks upon does not stop the run. -/
theorem exists_next_degraded {calculator : Calculator}
    (hconcerns : c.Concerns run.context.employee)
    (hget : Registry.standard.get? c.code = some calculator)
    (ho : calculator run.context c = .ok o) (hd : o.diagnostic = some d) :
    ∃ run', next .standard run c = .ok run' ∧ run.Degrades c d run' := by
  rw [next_eq_enter hconcerns hget ho]
  have hends := Registry.ends_standard hget run.context c
  rw [ho] at hends
  cases hends with
  | paid => cases hd
  | degraded code text =>
    cases hd
    exact run.exists_enter_degraded c code text

/-- Whether a standard run is lenient with a concept: what the concept lacks does not stop
    it, but neither is anything paid without it. -/
structure LenientWith (run : ConceptRun) (c : Concept) : Prop where
  /-- A step that leaves a remark pays nothing. -/
  noted : ∀ run', next .standard run c = .ok run' →
    run'.context.diagnostics ≠ run.context.diagnostics → ∃ d, run.Degrades c d run'
  /-- Whatever the calculator remarks upon, the run goes on. -/
  remarked : ∀ calculator o d, Registry.standard.get? c.code = some calculator →
    calculator run.context c = .ok o → o.diagnostic = some d →
      ∃ run', next .standard run c = .ok run' ∧ run.Degrades c d run'
  /-- No value is made up. -/
  value : c.value = none → (∃ code ∈ Registry.valueCodes, sameCode c.code code) →
    ∃ run' d, next .standard run c = .ok run' ∧ run.Degrades c d run'
  /-- Without a salary nothing is paid; that is remarked upon where there was something
      to pay. -/
  salary : run.context.employee.salaryOrZero ≤ .zero →
    ∀ x ∈ Registry.salaryCodes, sameCode c.code x.1 →
      if (x.2 run.context.hours).any (· ≤ .zero) then
        ∃ run', next .standard run c = .ok run' ∧ run.PaysNothing c run' ∧
          run'.context.diagnostics = run.context.diagnostics
      else
        ∃ run' d, next .standard run c = .ok run' ∧ run.Degrades c d run' ∧
          d.code = Diagnostic.missingSalary

theorem lenientWith (hline : c.HasLine run.context.employee .standard) : run.LenientWith c where
  noted run' h hdiagnostics := by
    rcases next_cases h with ⟨hc, hpays, -⟩ | ⟨-, hget, -⟩ | ⟨-, calculator, o, hget, ho, henter⟩
    · exact absurd (hline.1 hc) hpays
    · have hcontains := hline.2
      rw [Registry.contains, hget] at hcontains
      cases hcontains
    · rw [enter_diagnostics henter] at hdiagnostics
      cases hd : o.diagnostic with
      | none =>
        rw [hd, Option.toList_none, List.append_nil] at hdiagnostics
        exact absurd rfl hdiagnostics
      | some d =>
        obtain ⟨_, hnext, hdegrades⟩ := exists_next_degraded hline.1 hget ho hd
        cases hnext.symm.trans h
        exact ⟨d, hdegrades⟩
  remarked _ _ _ hget ho hd := exists_next_degraded hline.1 hget ho hd
  value hnone hcode := by
    obtain ⟨code, hmem, hsame⟩ := hcode
    obtain ⟨calculator, hentry, hneeds⟩ := Registry.exists_of_mem_valueCodes hmem
    obtain ⟨_, _, ho⟩ := hneeds run.context c hnone
    obtain ⟨run', h⟩ :=
      exists_next_degraded hline.1 (Registry.get?_standard hentry hsame) ho rfl
    exact ⟨run', _, h⟩
  salary hsalary x hmem hsame := by
    obtain ⟨calculator, hentry, hneeds⟩ := Registry.exists_of_mem_salaryCodes hmem
    have hget := Registry.get?_standard hentry hsame
    have ho := hneeds run.context c hsalary
    split at ho
    · next hnone =>
      obtain ⟨text, ho⟩ := ho
      obtain ⟨run', henter, hnothing, hdiagnostics⟩ :=
        run.exists_enter_eq_ok c (o := .paid .zero text) rfl
      rw [if_pos hnone, next_eq_enter hline.1 hget ho]
      exact ⟨run', henter, hnothing, hdiagnostics.trans (List.append_nil _)⟩
    · next hsome =>
      obtain ⟨text, ho⟩ := ho
      obtain ⟨run', hnext, hdegrades⟩ := exists_next_degraded hline.1 hget ho rfl
      rw [if_neg hsome]
      exact ⟨run', _, hnext, hdegrades, rfl⟩

/-! ## Runs -/

/-- Whether a fault stops a standard run at a concept that lacks nothing: if its calculator
    finds anything, it has no remark on it. -/
def StopsUnremarked (ctx : PayContext) (f : Fault) : Prop :=
  ∃ before c after run, ctx.concepts = before ++ c :: after ∧
    before.foldlM (next .standard) (start ctx) = .ok run ∧ next .standard run c = .error f ∧
    ∀ calculator o, Registry.standard.get? c.code = some calculator →
      calculator run.context c = .ok o → o.diagnostic = none

theorem stopsUnremarked_of_eq_error {ctx : PayContext} {f : Fault}
    (h : ofContext ctx .standard = .error f) : StopsUnremarked ctx f := by
  obtain ⟨before, c, after, run, hconcepts, hrun, hc⟩ := foldlM_eq_error h
  refine ⟨before, c, after, run, hconcepts, hrun, hc, fun calculator o hget ho => ?_⟩
  have hconcerns : c.Concerns run.context.employee := by
    by_contra hnot
    rw [next, if_pos (not_not.1 (mt Concept.concerns_iff.2 hnot))] at hc
    cases hc
  cases hd : o.diagnostic with
  | none => rfl
  | some d =>
    obtain ⟨_, hnext, -⟩ := exists_next_degraded hconcerns hget ho hd
    cases hnext.symm.trans hc

/-- For want of something a standard calculator pays nothing and remarks upon it, once, and
    in no run does that stop it: not for want of the configured value, and not for want of a
    salary, which is remarked upon unless there are no hours to pay. -/
theorem next_degrades :
    (∀ (run : ConceptRun) (c : Concept), c.HasLine run.context.employee .standard →
      run.LenientWith c) ∧
    ∀ (ctx : PayContext) (f : Fault), ofContext ctx .standard = .error f →
      StopsUnremarked ctx f :=
  ⟨fun _ _ => lenientWith, fun _ _ => stopsUnremarked_of_eq_error⟩

/-- A context with an advance of no amount, between two amounts that are too large to be
    added. -/
def overflowingContext : PayContext :=
  { bonusContext with
    concepts :=
      [.plain "FIXED_INCOME" .deduction fiftyOctillions, .plain "ADVANCE" .deduction none,
       retention fiftyOctillions] }

/-- An employee without salary is paid nothing for the days worked, which is remarked upon,
    and for no overtime, which is not. A fund that has no percentage withholds nothing. And
    what stops a run is the amount that is too large, not the one that is missing. -/
theorem next_degrades_unpaid :
    let basic : Concept := .plain "basic_salary" .deduction (some .hundred)
    let overtime : Concept := .plain "OVERTIME_35" .income none
    let fund : Concept := .plain "Afp_Prima" .income none
    (∃ run' d, next .standard (start bonusContext) basic = .ok run' ∧
      (start bonusContext).Degrades basic d run' ∧ d.code = Diagnostic.missingSalary) ∧
    (∃ run', next .standard (start bonusContext) overtime = .ok run' ∧
      (start bonusContext).PaysNothing overtime run' ∧
      run'.context.diagnostics = bonusContext.diagnostics) ∧
    (∃ run' d, next .standard (start bonusContext) fund = .ok run' ∧
      (start bonusContext).Degrades fund d run') ∧
    ofContext overflowingContext .standard = .error .additionOverflow ∧
    StopsUnremarked overflowingContext .additionOverflow := by
  intro basic overtime fund
  have hbasic := next_degrades.1 (start bonusContext) basic (by decide +kernel)
  have hovertime := next_degrades.1 (start bonusContext) overtime (by decide +kernel)
  have hfund := next_degrades.1 (start bonusContext) fund (by decide +kernel)
  have hunpaid := hbasic.salary (by decide) _ (List.mem_of_getElem? (i := 0) rfl) (by decide)
  have hnone := hovertime.salary (by decide) _ (List.mem_of_getElem? (i := 3) rfl) (by decide)
  rw [if_neg (by decide)] at hunpaid
  rw [if_pos (by decide)] at hnone
  have hstops : (ofContext overflowingContext .standard).map (·.lines) =
      .error .additionOverflow := by decide +kernel
  rw [map_eq_error] at hstops
  exact ⟨hunpaid, hnone, hfund.value rfl ⟨"AFP_PRIMA", by decide, by decide⟩, hstops,
    next_degrades.2 _ _ hstops⟩

end ConceptRun

end FieldWages
