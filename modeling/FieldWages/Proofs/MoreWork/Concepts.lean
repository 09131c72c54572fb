import FieldWages.Proofs.ConceptRun
import FieldWages.Proofs.MoreWork.Context

/-!
# Concepts of more work

No calculator of the standard registry finds less in a context that has at least the
work, the pay and the income of another, as long as neither surcharges nor configured
values are negative (`Registry.grows_standard`): hours are paid at the same rate, a share of
the income grows with it, and all else is the same. So the concepts of the two contexts
run side by side, each line of the one with no less than its line in the other, until a
decimal gets out of range.

* `Calculator.grows_surchargedHours`, `Calculator.grows_nightSurcharge`: hours;
* `Calculator.grows_percentageOfIncome`: shares;
* `ConceptRun.AtMost.next`: one concept;
* `ConceptRun.ofContext_atMost`: all concepts of a context.
-/

namespace FieldWages

open Decimal

namespace PayContext.AtMost

variable {a b : PayContext}

theorem employee_eq (h : a.AtMost b) : b.employee = a.employee :=
  (congrArg PayContext.employee h.basis :)

theorem parameters_eq (h : a.AtMost b) : b.parameters = a.parameters :=
  (congrArg PayContext.parameters h.basis :)

theorem hourlyRate_eq (h : a.AtMost b) : b.hourlyRate = a.hourlyRate :=
  (congrArg PayContext.hourlyRate h.basis :)

theorem overtimeTier1 (h : a.AtMost b) (hpos : zero < a.hours.overtimeTier1) :
    a.hours.overtimeTier1 ≤ b.hours.overtimeTier1 :=
  h.hours.overtimeTier1 (h.limit hpos)

end PayContext.AtMost

/-! ## Calculators -/

/-- Whether the configured value of a concept, if it has one, is not negative. -/
def Concept.ValueNonneg (c : Concept) : Prop := ∀ value ∈ c.value, zero ≤ value

instance (c : Concept) : Decidable c.ValueNonneg :=
  inferInstanceAs (Decidable (∀ value ∈ c.value, zero ≤ value))

/-- Whether a calculator finds no less in a context that has no less. -/
def Calculator.Grows (calculator : Calculator) : Prop :=
  ∀ {a b : PayContext} {c : Concept} {o : Outcome}, a.AtMost b → c.ValueNonneg →
    calculator a c = .ok o → UnlessOverflow (fun o' => o.amount ≤ o'.amount) (calculator b c)

namespace Calculator

/-- A calculator that reads nothing that depends on the work finds the same. -/
theorem Grows.of_basis {calculator : Calculator}
    (h : ∀ (ctx : PayContext) dates daily hours pay rest i d e g c, calculator
      { ctx with
        workedDates := dates
        dailyHours := daily
        hours := hours
        basicPay := pay
        restDays := rest
        totalIncome := i
        totalDeductions := d
        totalEmployerContributions := e
        diagnostics := g } c = calculator ctx c) : calculator.Grows := by
  intro a b c o hab _ ho
  have hb := (congrArg (calculator · c) hab.basis).trans (h a _ _ _ _ _ _ _ _ _ c)
  rw [hb.trans ho]
  exact .ok le_rfl

/-- Contexts of one employee have a salary to pay by, or lack it, alike. -/
theorem needSalary_grows {a b : PayContext} {c : Concept} {o : Outcome} {x y : Except Fault Outcome}
    (hab : a.AtMost b) (ho : needSalary a c x = .ok o)
    (h : x = .ok o → UnlessOverflow (fun o' => o.amount ≤ o'.amount) y) :
    UnlessOverflow (fun o' => o.amount ≤ o'.amount) (needSalary b c y) := by
  rw [needSalary] at ho ⊢
  rw [hab.employee_eq]
  split at ho
  · next hnone =>
    cases ho
    rw [if_pos hnone]
    exact .ok le_rfl
  · next hsome =>
    rw [if_neg hsome]
    exact h ho

theorem needSalary_nonneg {b : PayContext} {c : Concept} {y : Except Fault Outcome}
    (h : UnlessOverflow (fun o => zero ≤ o.amount) y) :
    UnlessOverflow (fun o => zero ≤ o.amount) (needSalary b c y) := by
  rw [needSalary]
  split
  · exact .ok le_rfl
  · exact h

theorem grows_basicSalary : Grows basicSalary := by
  intro a b c o h _ ho
  obtain ⟨units, hunits⟩ := h.units
  refine needSalary_grows h ho fun ho => ?_
  split at ho
  · cases ho
    split
    · exact .ok le_rfl
    · exact .bind_ok hunits (.ok h.basicPay_nonneg)
  · next ha =>
    have hb : ¬b.workedDates.isEmpty := by
      rw [List.isEmpty_iff] at ha ⊢
      exact fun hb => ha (List.sublist_nil.1 (hb ▸ h.workedDates))
    obtain ⟨_, -, ho⟩ := bind_eq_ok.1 ho
    cases ho
    rw [if_neg hb]
    exact .bind_ok hunits (.ok h.basicPay)

theorem grows_restDay : Grows restDay := by
  intro a b c o h _ ho
  refine needSalary_grows h ho fun ho => ?_
  cases ho
  exact .ok h.bonus

/-- A surcharge is not negative, be it the configured or the agreed one. -/
theorem surcharge_nonneg {c : Concept} (hc : c.ValueNonneg) {agreed : Decimal}
    (hagreed : zero ≤ agreed) : zero ≤ c.value.getD agreed := by
  cases hvalue : c.value with
  | none => exact hagreed
  | some value => exact hc value hvalue

section Surcharges

variable {hours : PayContext → Decimal} {agreed : OvertimeRates → Decimal} {label : String}
  {b : PayContext} {c : Concept}

/-- Hours are not paid less than nothing. -/
theorem surchargedHours_nonneg (hhourly : zero ≤ b.hourlyRate)
    (hsurcharge : zero ≤ c.value.getD (agreed b.parameters.overtime)) :
    UnlessOverflow (fun o => zero ≤ o.amount) (surchargedHours hours agreed label b c) := by
  rw [surchargedHours]
  dsimp only
  split
  · exact .ok le_rfl
  · next hpos =>
    have hpos := (not_le_iff_lt.1 hpos).le
    obtain ⟨share, hshare, hshare₀⟩ := exists_div_hundred_nonneg hsurcharge
    have hone : zero ≤ one := by decide
    refine needSalary_nonneg (.bind_ok hshare ((le_add hone hshare₀).bind fun factor hfactor => ?_))
    refine (zero_le_mul hhourly hfactor).bind fun rate hrate => ?_
    exact (zero_le_mul hpos hrate).bind fun amount hamount => .ok hamount

theorem grows_surchargedHours
    (hhours : ∀ {a b : PayContext}, a.AtMost b → zero < hours a → hours a ≤ hours b)
    (hagreed : ∀ {r : OvertimeRates}, r.SurchargesNonneg → zero ≤ agreed r) (label : String) :
    Grows (surchargedHours hours agreed label) := by
  intro a b c o h hc ho
  have hsurcharge := surcharge_nonneg hc (hagreed h.surcharges)
  rw [surchargedHours] at ho
  dsimp only at ho
  split at ho
  · cases ho
    exact surchargedHours_nonneg h.hourlyRate hsurcharge
  · next hpos =>
    have hpos := not_le_iff_lt.1 hpos
    have hle := hhours h hpos
    have hhourly := h.hourlyRate
    rw [surchargedHours]
    dsimp only
    rw [h.parameters_eq] at hsurcharge ⊢
    rw [h.hourlyRate_eq] at hhourly ⊢
    rw [if_neg (not_le_iff_lt.2 (hpos.trans_le hle))]
    refine needSalary_grows h ho fun ho => ?_
    -- The rate is the same in both contexts, and not negative.
    obtain ⟨share, hshare, ho⟩ := bind_eq_ok.1 ho
    obtain ⟨factor, hfactor, ho⟩ := bind_eq_ok.1 ho
    obtain ⟨rate, hrate, ho⟩ := bind_eq_ok.1 ho
    obtain ⟨amount, hamount, ho⟩ := bind_eq_ok.1 ho
    cases ho
    have hrate₀ : zero ≤ rate := by
      obtain ⟨share', hshare', hshare₀⟩ := exists_div_hundred_nonneg hsurcharge
      cases hshare.symm.trans hshare'
      have hone : zero ≤ one := by decide
      exact (zero_le_mul hhourly ((le_add hone hshare₀).of_eq_ok hfactor)).of_eq_ok hrate
    refine .bind_ok hshare (.bind_ok hfactor (.bind_ok hrate ?_))
    exact (mul_mono hamount hle hrate₀).bind fun amount' hamount' => .ok hamount'

theorem nightSurcharge_nonneg (hhourly : zero ≤ b.hourlyRate)
    (hsurcharge : zero ≤ c.value.getD b.parameters.overtime.nightSurcharge) :
    UnlessOverflow (fun o => zero ≤ o.amount) (nightSurcharge b c) := by
  rw [nightSurcharge]
  dsimp only
  split
  · exact .ok le_rfl
  · next hpos =>
    have hpos := (not_le_iff_lt.1 hpos).le
    refine needSalary_nonneg ((zero_le_mul hpos hhourly).bind fun pay hpay => ?_)
    refine (zero_le_mul hpay hsurcharge).bind fun share hshare => ?_
    obtain ⟨amount, hamount, hamount₀⟩ := exists_div_hundred_nonneg hshare
    exact .bind_ok hamount (.ok hamount₀)

theorem grows_nightSurcharge : Grows nightSurcharge := by
  intro a b c o h hc ho
  have hsurcharge := surcharge_nonneg hc h.surcharges.night
  rw [nightSurcharge] at ho
  dsimp only at ho
  split at ho
  · cases ho
    exact nightSurcharge_nonneg h.hourlyRate hsurcharge
  · next hpos =>
    have hpos := not_le_iff_lt.1 hpos
    have hle := h.hours.night
    have hhourly := h.hourlyRate
    rw [nightSurcharge]
    dsimp only
    rw [h.parameters_eq] at hsurcharge ⊢
    rw [h.hourlyRate_eq] at hhourly ⊢
    rw [if_neg (not_le_iff_lt.2 (hpos.trans_le hle))]
    refine needSalary_grows h ho fun ho => ?_
    obtain ⟨pay, hpay, ho⟩ := bind_eq_ok.1 ho
    obtain ⟨share, hshare, ho⟩ := bind_eq_ok.1 ho
    obtain ⟨amount, hamount, ho⟩ := bind_eq_ok.1 ho
    cases ho
    refine (mul_mono hpay hle hhourly).bind fun pay' hpay' => ?_
    refine (mul_mono hshare hpay' hsurcharge).bind fun share' hshare' => ?_
    obtain ⟨amount', hamount', hle'⟩ := div_hundred_mono hamount hshare'
    exact .bind_ok hamount' (.ok hle')

end Surcharges

theorem grows_percentageOfIncome : Grows percentageOfIncome := by
  intro a b c o h hc ho
  rw [percentageOfIncome] at ho ⊢
  split at ho
  · cases ho
    exact .ok le_rfl
  · next percent hpercent =>
    obtain ⟨product, hproduct, ho⟩ := bind_eq_ok.1 ho
    obtain ⟨amount, hamount, ho⟩ := bind_eq_ok.1 ho
    cases ho
    refine (mul_mono hproduct h.totalIncome (hc percent hpercent)).bind fun product' hproduct' => ?_
    obtain ⟨amount', hamount', hle⟩ := div_hundred_mono hamount hproduct'
    exact .bind_ok hamount' (.ok hle)

theorem grows_healthPlan : Grows healthPlan := by
  intro a b c o h hc ho
  rw [healthPlan] at ho ⊢
  rw [h.employee_eq]
  split at ho
  · cases ho
    exact .ok le_rfl
  · exact grows_percentageOfIncome h hc ho

end Calculator

/-- Whether no calculator of a registry finds less in a context that has no less. -/
def Registry.Grows (r : Registry) : Prop :=
  ∀ code calculator, r.get? code = some calculator → calculator.Grows

namespace Registry

theorem grows_standard : standard.Grows := by
  have hbasis := @Calculator.Grows.of_basis
  have hpercentage := @Calculator.grows_percentageOfIncome
  have hentries : ∀ e ∈ standardEntries, e.2.Grows := by
    simp only [standardEntries, List.forall_mem_cons]
    -- Those without a lemma of their own read neither the work nor the totals.
    exact
      ⟨Calculator.grows_basicSalary, Calculator.grows_restDay,
        Calculator.grows_surchargedHours (fun h => h.overtimeTier1) (fun h => h.tier1) _,
        Calculator.grows_surchargedHours (fun h _ => h.hours.overtimeTier2) (fun h => h.tier2) _,
        Calculator.grows_surchargedHours (fun h _ => h.hours.holidaySundayExtra)
          (fun h => h.holiday) _,
        Calculator.grows_nightSurcharge, hbasis fun _ _ _ _ _ _ _ _ _ _ _ => rfl,
        hbasis fun _ _ _ _ _ _ _ _ _ _ _ => rfl, hbasis fun _ _ _ _ _ _ _ _ _ _ _ => rfl,
        hbasis fun _ _ _ _ _ _ _ _ _ _ _ => rfl, hpercentage, hpercentage, hpercentage,
        hpercentage, hpercentage, hpercentage, hpercentage, Calculator.grows_healthPlan,
        hbasis fun _ _ _ _ _ _ _ _ _ _ _ => rfl, hbasis fun _ _ _ _ _ _ _ _ _ _ _ => rfl,
        List.forall_mem_nil _⟩
  intro code calculator h
  obtain ⟨e, he, rfl⟩ := exists_of_get?_standard h
  exact hentries e he

end Registry

/-! ## Runs -/

namespace PayContext.AtMost

variable {a b a' : PayContext}

/-- Remarks are not compared. -/
theorem withDiagnostics (h : a.AtMost b) (g g' : List Diagnostic) :
    AtMost { a with diagnostics := g } { b with diagnostics := g' } :=
  { h with basis := by conv_lhs => rw [h.basis] }

/-- A greater amount is posted to a greater total. -/
theorem accumulate (h : a.AtMost b) {category : Category} {amount amount' : Decimal}
    (hamount : amount ≤ amount') (ha : a.accumulate category amount = .ok a') :
    UnlessOverflow a'.AtMost (b.accumulate category amount') := by
  cases category <;> obtain ⟨total, htotal, ha⟩ := bind_eq_ok.1 ha <;> cases ha
  case income =>
    refine (add_mono htotal h.totalIncome hamount).bind fun total' htotal' => .ok ?_
    exact { h with basis := by conv_lhs => rw [h.basis], totalIncome := htotal' }
  case employerContribution =>
    refine (add_mono htotal h.totalEmployerContributions hamount).bind fun total' htotal' => .ok ?_
    exact { h with basis := by conv_lhs => rw [h.basis], totalEmployerContributions := htotal' }
  all_goals
    refine (add_mono htotal h.totalDeductions hamount).bind fun total' htotal' => .ok ?_
    exact { h with basis := by conv_lhs => rw [h.basis], totalDeductions := htotal' }

end PayContext.AtMost

/-- Whether two lines are of the same concept, and one has no greater amount. -/
structure ConceptLine.AtMost (l l' : ConceptLine) : Prop where
  code : l.code = l'.code
  category : l.category = l'.category
  configuredValue : l.configuredValue = l'.configuredValue
  amount : l.amount ≤ l'.amount

namespace ConceptRun

variable {run run' run₁ : ConceptRun} {c : Concept} {registry : Registry} {a b : PayContext}

/-- Whether the lines and totals of a run are no greater than those of another. -/
structure AtMost (run run' : ConceptRun) : Prop where
  context : run.context.AtMost run'.context
  lines : List.Forall₂ ConceptLine.AtMost run.lines run'.lines

theorem AtMost.skipRetirement (h : run.AtMost run') :
    run.skipRetirement.AtMost run'.skipRetirement := by
  obtain ⟨g, _, heq⟩ := run.skipRetirement_eq
  obtain ⟨g', _, heq'⟩ := run'.skipRetirement_eq
  rw [heq, heq']
  exact ⟨h.context.withDiagnostics g g', h.lines⟩

theorem AtMost.enter (h : run.AtMost run') {o o' : Outcome} (ho : o.amount ≤ o'.amount)
    (henter : run.enter c o = .ok run₁) : UnlessOverflow run₁.AtMost (run'.enter c o') := by
  obtain ⟨after, hafter, henter⟩ := bind_eq_ok.1 henter
  cases henter
  rw [PayContext.noted_eq] at hafter
  rw [ConceptRun.enter, PayContext.noted_eq]
  have hamount := toHundredths_mono ho
  refine ((h.context.withDiagnostics _ _).accumulate hamount hafter).bind fun after' hafter' => ?_
  refine .ok ⟨hafter', List.rel_append h.lines (.cons ?_ .nil)⟩
  exact ⟨rfl, rfl, rfl, hamount⟩

/-- A concept with a value that is not negative adds no less to the greater run. -/
theorem AtMost.next (h : run.AtMost run') (hr : registry.Grows) (hc : c.ValueNonneg)
    (hnext : next registry run c = .ok run₁) :
    UnlessOverflow run₁.AtMost (ConceptRun.next registry run' c) := by
  rw [ConceptRun.next, h.context.employee_eq]
  rcases next_cases hnext with ⟨hcategory, hnot, rfl⟩ | ⟨hpays, hget, rfl⟩ |
    ⟨hpays, calculator, o, hget, ho, henter⟩
  · rw [if_pos ⟨hcategory, by rw [Bool.not_eq_true', ← Bool.not_eq_true]; exact hnot⟩]
    exact .ok h.skipRetirement
  · rw [if_neg hpays, hget]
    exact .ok ⟨h.context.withDiagnostics _ _, h.lines⟩
  · rw [if_neg hpays, hget]
    exact (hr _ _ hget h.context hc ho).bind fun o' ho' => h.enter ho' henter

/-- The concepts of a context that has no less have no smaller lines and totals. -/
theorem ofContext_atMost (h : a.AtMost b) (hr : registry.Grows)
    (hconcepts : ∀ c ∈ a.concepts, c.ValueNonneg) (hrun : ofContext a registry = .ok run) :
    UnlessOverflow run.AtMost (ofContext b registry) := by
  have hb : b.concepts = a.concepts := (congrArg PayContext.concepts h.basis :)
  rw [ofContext, hb]
  exact UnlessOverflow.foldlM_same (R := AtMost) hconcepts
    (fun hst hc hnext => hst.next hr hc hnext) ⟨h, .nil⟩ hrun

end ConceptRun

end FieldWages
