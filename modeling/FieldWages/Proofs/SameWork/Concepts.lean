import FieldWages.Proofs.ConceptRun
import FieldWages.Proofs.SameWork.Context

/-!
# Concepts of the same work

The calculators of the standard registry read the hours and totals of a context as
numbers: in contexts of the same numbers they find amounts of the same number, with the
same reasoning, since it shows numbers without trailing zeros
(`Registry.respects_standard`). So the concepts of such contexts run side by
side, and leave lines and steps that differ in digits at most.

* `Calculator.respects_surchargedHours`, `Calculator.respects_percentageOfIncome`: the
  calculators that read numbers;
* `ConceptRun.next_alike`: one concept;
* `ConceptRun.ofContext_alike`: all concepts of a context.
-/

namespace FieldWages

open Decimal

/-! ## Calculators -/

/-- Whether two outcomes are the same but for the digits of the amount. -/
structure Outcome.SameNumbers (o o' : Outcome) : Prop where
  amount : o.amount ≈ o'.amount
  reasoning : o.reasoning = o'.reasoning
  diagnostic : o.diagnostic = o'.diagnostic

theorem Outcome.SameNumbers.refl (o : Outcome) : o.SameNumbers o := ⟨Setoid.refl _, rfl, rfl⟩

namespace PayContext.SameNumbers

variable {a b : PayContext}

theorem employee_eq (h : a.SameNumbers b) : b.employee = a.employee :=
  (congrArg PayContext.employee h.basis :)

theorem parameters_eq (h : a.SameNumbers b) : b.parameters = a.parameters :=
  (congrArg PayContext.parameters h.basis :)

theorem hourlyRate_eq (h : a.SameNumbers b) : b.hourlyRate = a.hourlyRate :=
  (congrArg PayContext.hourlyRate h.basis :)

end PayContext.SameNumbers

/-- Whether a calculator finds outcomes of the same numbers in contexts of the same
    numbers. -/
def Calculator.Respects (calculator : Calculator) : Prop :=
  ∀ {a b : PayContext} (c : Concept), a.SameNumbers b →
    Alike Outcome.SameNumbers (calculator a c) (calculator b c)

namespace Calculator

/-- A calculator that reads neither hours nor totals has nothing to tell contexts of
    the same numbers apart by. -/
theorem Respects.of_basis {calculator : Calculator}
    (h : ∀ (ctx : PayContext) daily hours i d e g c, calculator
      { ctx with
        dailyHours := daily
        hours := hours
        totalIncome := i
        totalDeductions := d
        totalEmployerContributions := e
        diagnostics := g } c = calculator ctx c) : calculator.Respects := by
  intro a b c hab
  have hb := (congrArg (calculator · c) hab.basis).trans (h a _ _ _ _ _ _ c)
  exact .of_eq hb.symm .refl

theorem respects_surchargedHours {hours : PayContext → Decimal}
    (hhours : ∀ {a b : PayContext}, a.SameNumbers b → hours a ≈ hours b)
    (agreed : OvertimeRates → Decimal) (label : String) :
    Respects (surchargedHours hours agreed label) := by
  intro a b c h
  have hle : hours a ≤ zero ↔ hours b ≤ zero := le_congr (hhours h) (Setoid.refl zero)
  simp only [surchargedHours, needSalary, h.employee_eq, h.parameters_eq, h.hourlyRate_eq, hle,
    plainText_congr (hhours h)]
  split
  · exact .ok (.refl _)
  split
  · exact .ok (.refl _)
  refine Alike.bind_same fun share _ => Alike.bind_same fun factor _ => ?_
  refine Alike.bind_same fun rate _ => ?_
  refine (mul_alike (hhours h) (Setoid.refl rate)).bind fun hamount => ?_
  rw [plainText_congr hamount]
  exact .ok ⟨hamount, rfl, rfl⟩

theorem respects_nightSurcharge : Respects nightSurcharge := by
  intro a b c h
  have hnight := h.hours.night
  have hle : a.hours.night ≤ zero ↔ b.hours.night ≤ zero := le_congr hnight (Setoid.refl zero)
  simp only [nightSurcharge, needSalary, h.employee_eq, h.parameters_eq, h.hourlyRate_eq, hle,
    plainText_congr hnight]
  split
  · exact .ok (.refl _)
  split
  · exact .ok (.refl _)
  refine (mul_alike hnight (Setoid.refl _)).bind fun hpay => ?_
  refine (mul_alike hpay (Setoid.refl _)).bind fun hshare => ?_
  refine (div_hundred_alike hshare).bind fun hamount => ?_
  rw [plainText_congr hamount]
  exact .ok ⟨hamount, rfl, rfl⟩

theorem respects_percentageOfIncome : Respects percentageOfIncome := by
  intro a b c h
  rw [percentageOfIncome, percentageOfIncome, plainText_congr h.totalIncome]
  split
  · exact .ok (.refl _)
  · next percent hpercent =>
    refine (mul_alike h.totalIncome (Setoid.refl percent)).bind fun hproduct => ?_
    refine (div_hundred_alike hproduct).bind fun hamount => ?_
    rw [plainText_congr hamount]
    exact .ok ⟨hamount, rfl, rfl⟩

theorem respects_healthPlan : Respects healthPlan := by
  intro a b c h
  rw [healthPlan, healthPlan, h.employee_eq]
  split
  · exact .ok (.refl _)
  · exact respects_percentageOfIncome c h

end Calculator

/-- Whether every calculator of a registry finds outcomes of the same numbers in
    contexts of the same numbers. -/
def Registry.Respects (r : Registry) : Prop :=
  ∀ code calculator, r.get? code = some calculator → calculator.Respects

namespace Registry

/-- The calculators of the standard registry read numbers. -/
theorem respects_standard : standard.Respects := by
  have hbasis := @Calculator.Respects.of_basis
  have hpercentage := @Calculator.respects_percentageOfIncome
  have hentries : ∀ e ∈ standardEntries, e.2.Respects := by
    simp only [standardEntries, List.forall_mem_cons]
    -- Those without a lemma of their own read neither hours nor totals.
    exact
      ⟨hbasis fun _ _ _ _ _ _ _ _ => rfl, hbasis fun _ _ _ _ _ _ _ _ => rfl,
        Calculator.respects_surchargedHours (fun h => h.hours.overtimeTier1) _ _,
        Calculator.respects_surchargedHours (fun h => h.hours.overtimeTier2) _ _,
        Calculator.respects_surchargedHours (fun h => h.hours.holidaySundayExtra) _ _,
        Calculator.respects_nightSurcharge, hbasis fun _ _ _ _ _ _ _ _ => rfl,
        hbasis fun _ _ _ _ _ _ _ _ => rfl, hbasis fun _ _ _ _ _ _ _ _ => rfl,
        hbasis fun _ _ _ _ _ _ _ _ => rfl, hpercentage, hpercentage, hpercentage,
        hpercentage, hpercentage, hpercentage, hpercentage, Calculator.respects_healthPlan,
        hbasis fun _ _ _ _ _ _ _ _ => rfl, hbasis fun _ _ _ _ _ _ _ _ => rfl,
        List.forall_mem_nil _⟩
  intro code calculator h
  obtain ⟨e, he, rfl⟩ := exists_of_get?_standard h
  exact hentries e he

end Registry

/-! ## Lines and steps -/

/-- Whether two lines are the same but for the digits of the amount. -/
structure ConceptLine.SameNumbers (l l' : ConceptLine) : Prop where
  code : l.code = l'.code
  category : l.category = l'.category
  configuredValue : l.configuredValue = l'.configuredValue
  amount : l.amount ≈ l'.amount

/-- Whether two JSON values are the same, or show decimals of the same number. -/
def Json.SameShown (v w : Json) : Prop :=
  v = w ∨ ∃ a b : Decimal, a ≈ b ∧ v = .str a.toText ∧ w = .str b.toText

/-- Whether two objects have the same members, but for the digits of decimals. -/
def Json.SameMembers (v w : Json) : Prop :=
  ∃ xs ys, v = .obj xs ∧ w = .obj ys ∧
    List.Forall₂ (fun x y => x.1 = y.1 ∧ x.2.SameShown y.2) xs ys

/-- Whether two steps are the same but for the digits of what they show. -/
structure AuditStep.SameNumbers (s s' : AuditStep) : Prop where
  number : s.number = s'.number
  conceptCode : s.conceptCode = s'.conceptCode
  category : s.category = s'.category
  input : s.input.SameMembers s'.input
  output : s.output.SameMembers s'.output
  reasoning : s.reasoning = s'.reasoning

namespace ConceptRun

variable {a b : PayContext} {amount amount' : Decimal} {run run' : ConceptRun} {c : Concept}
  {registry : Registry}

theorem shown_sameShown (h : amount ≈ amount') : (shown amount).SameShown (shown amount') :=
  .inr ⟨amount, amount', h, rfl, rfl⟩

theorem stepInput_sameMembers (h : a.SameNumbers b) (c : Concept) :
    (stepInput a c).SameMembers (stepInput b c) :=
  ⟨_, _, rfl, rfl, .cons ⟨rfl, .inl rfl⟩ (.cons ⟨rfl, shown_sameShown h.totalDeductions⟩
    (.cons ⟨rfl, shown_sameShown h.totalIncome⟩ .nil))⟩

theorem stepOutput_sameMembers (h : a.SameNumbers b) (hamount : amount ≈ amount') :
    (stepOutput a amount).SameMembers (stepOutput b amount') :=
  ⟨_, _, rfl, rfl, .cons ⟨rfl, shown_sameShown hamount⟩
    (.cons ⟨rfl, shown_sameShown h.totalDeductions⟩
      (.cons ⟨rfl, shown_sameShown h.totalEmployerContributions⟩
        (.cons ⟨rfl, shown_sameShown h.totalIncome⟩ .nil)))⟩

end ConceptRun

/-! ## Runs -/

theorem PayContext.SameNumbers.note {a b : PayContext} (h : a.SameNumbers b) (d : Diagnostic) :
    (a.note d).SameNumbers (b.note d) where
  basis := by
    conv_lhs => rw [h.basis]
    rfl
  dailyHours := h.dailyHours
  hours := h.hours
  totalIncome := h.totalIncome
  totalDeductions := h.totalDeductions
  totalEmployerContributions := h.totalEmployerContributions
  diagnostics := h.diagnostics.concat d

theorem PayContext.SameNumbers.accumulate {a b : PayContext} (h : a.SameNumbers b)
    (category : Category) {amount amount' : Decimal} (hamount : amount ≈ amount') :
    Alike PayContext.SameNumbers (a.accumulate category amount)
      (b.accumulate category amount') := by
  cases category
  case income =>
    refine (add_alike h.totalIncome hamount).bind fun htotal => ?_
    exact .ok { h with basis := by conv_lhs => rw [h.basis], totalIncome := htotal }
  case employerContribution =>
    refine (add_alike h.totalEmployerContributions hamount).bind fun htotal => ?_
    exact .ok { h with basis := by conv_lhs => rw [h.basis], totalEmployerContributions := htotal }
  all_goals
    refine (add_alike h.totalDeductions hamount).bind fun htotal => ?_
    exact .ok { h with basis := by conv_lhs => rw [h.basis], totalDeductions := htotal }

namespace ConceptRun

variable {run run' : ConceptRun} {c : Concept} {registry : Registry}

/-- Whether two runs over concepts are the same but for digits and remarks on labors. -/
structure SameNumbers (run run' : ConceptRun) : Prop where
  context : run.context.SameNumbers run'.context
  lines : List.Forall₂ ConceptLine.SameNumbers run.lines run'.lines
  steps : List.Forall₂ AuditStep.SameNumbers run.steps run'.steps
  schemeNoted : run.schemeNoted = run'.schemeNoted

theorem SameNumbers.skipRetirement (h : run.SameNumbers run') :
    run.skipRetirement.SameNumbers run'.skipRetirement := by
  rw [ConceptRun.skipRetirement, ConceptRun.skipRetirement, h.context.employee_eq, h.schemeNoted]
  split
  · exact ⟨h.context.note _, h.lines, h.steps, rfl⟩
  · exact h

theorem enter_alike (h : run.SameNumbers run') {o o' : Outcome} (ho : o.SameNumbers o') :
    Alike SameNumbers (run.enter c o) (run'.enter c o') := by
  have hamount := toHundredths_congr ho.amount
  have hnoted : ((o.diagnostic.map run.context.note).getD run.context).SameNumbers
      ((o'.diagnostic.map run'.context.note).getD run'.context) := by
    rw [ho.diagnostic]
    cases o'.diagnostic with
    | none => exact h.context
    | some d => exact h.context.note d
  refine (hnoted.accumulate c.category hamount).bind fun hafter => ?_
  refine .ok ⟨hafter, ?_, ?_, h.schemeNoted⟩
  · exact List.rel_append h.lines (.cons ⟨rfl, rfl, rfl, hamount⟩ .nil)
  · refine List.rel_append h.steps (.cons ?_ .nil)
    exact
      { number := by rw [h.steps.length_eq]
        conceptCode := rfl
        category := rfl
        input := stepInput_sameMembers h.context c
        output := stepOutput_sameMembers hafter hamount
        reasoning := ho.reasoning }

/-- A concept is calculated alike in runs of the same numbers. -/
theorem next_alike (hr : registry.Respects) (h : run.SameNumbers run') :
    Alike SameNumbers (next registry run c) (next registry run' c) := by
  rw [next, next, h.context.employee_eq]
  split
  · exact .ok h.skipRetirement
  split
  · exact .ok ⟨h.context.note _, h.lines, h.steps, h.schemeNoted⟩
  · next calculator hget =>
    exact (hr c.code calculator hget c h.context).bind fun ho => enter_alike h ho

/-- The concepts of contexts of the same numbers are calculated alike. -/
theorem ofContext_alike (hr : registry.Respects) {a b : PayContext} (h : a.SameNumbers b) :
    Alike SameNumbers (ofContext a registry) (ofContext b registry) := by
  have hconcepts : b.concepts = a.concepts :=
    (congrArg PayContext.concepts h.basis :)
  have hstart : (start a).SameNumbers (start b) := ⟨h, .nil, .nil, rfl⟩
  rw [ofContext, ofContext, hconcepts]
  exact .foldlM_same (f := next registry) (g := next registry) a.concepts (next_alike hr) hstart

end ConceptRun

end FieldWages
