import FieldWages.Proofs.Configuration
import FieldWages.Proofs.ConceptRun.Insertion

/-!
# Concepts spelled in two ways

Codes are compared in three places: a retirement concept is held against the scheme of the
employee, a code is looked up in the registry, and the codes of a plan against each other. None
of them tells codes apart that are equal but for case. So two plans that differ only in that
(`Respelling`) run side by side: the concepts have the same fates, and what a calculator finds is
the same up to the code that its message names (`Calculator.FollowsSpelling`). What is written on
the way names each concept as its plan does, and is the same otherwise.

* `Registry.followsSpelling_standard`: the calculators of the standard registry;
* `Respelling.next_alike`: one concept;
* `Respelling.ofContext_alike`: all concepts of a context.
-/

namespace FieldWages

/-! ## Comparisons -/

instance (a b : String) : Decidable (EqualCodes a b) :=
  decidable_of_iff (foldCode a = foldCode b) foldCode_eq_iff

theorem Registry.get?_congr {code code' : String} (h : EqualCodes code code') (r : Registry) :
    r.get? code = r.get? code' := by
  rw [get?, get?, foldCode_eq_iff.2 h]

theorem isNone_congr {x y : Option String} (h : Option.Rel EqualCodes x y) :
    x.isNone = y.isNone := by
  cases h <;> rfl

/-- Whether an employee pays into a concept does not depend on how either spells the scheme. -/
theorem Employee.contributesTo_congr {e e' : Employee} {code code' : String}
    (hscheme : Option.Rel EqualCodes e.retirementScheme e'.retirementScheme)
    (hcode : EqualCodes code code') : e.contributesTo code = e'.contributesTo code' := by
  rw [contributesTo, contributesTo]
  generalize e.retirementScheme = x at hscheme ⊢
  generalize e'.retirementScheme = y at hscheme ⊢
  cases hscheme with
  | none => rfl
  | some hscheme =>
    rw [Option.any_some, Option.any_some, sameCode, sameCode, foldCode_eq_iff.2 hscheme,
      foldCode_eq_iff.2 hcode]

/-! ## Calculators -/

/-- Whether two outcomes are the same but for the code that a message names. -/
inductive Outcome.Renamed (code code' : String) : Outcome → Outcome → Prop
  | paid (amount : Decimal) (reasoning : String) :
    Renamed code code' (.paid amount reasoning) (.paid amount reasoning)
  | degraded (kind message : String) :
    Renamed code code' (.degraded kind code message) (.degraded kind code' message)

namespace Calculator

/-- Whether a calculator reads nothing of a concept but its value, and the code to name it by. -/
def ReadsValue (calculator : Calculator) : Prop :=
  ∀ (ctx : PayContext) (c c' : Concept), c.value = c'.value →
    Alike (Outcome.Renamed c.code c'.code) (calculator ctx c) (calculator ctx c')

/-- Whether a calculator does not read the scheme of the employee, nor the list of concepts, nor
    the diagnostics. -/
def IgnoresScheme (calculator : Calculator) : Prop :=
  ∀ (ctx : PayContext) scheme cs g c, calculator
    { ctx with
      employee := { ctx.employee with retirementScheme := scheme }
      concepts := cs
      diagnostics := g } c = calculator ctx c

/-- Whether spelling is nothing to a calculator but the names in its messages. -/
structure FollowsSpelling (calculator : Calculator) : Prop where
  readsValue : calculator.ReadsValue
  ignoresScheme : calculator.IgnoresScheme

variable {ctx : PayContext} {c c' : Concept}

theorem needSalary_renamed {x x' : Except Fault Outcome}
    (h : Alike (Outcome.Renamed c.code c'.code) x x') :
    Alike (Outcome.Renamed c.code c'.code) (needSalary ctx c x) (needSalary ctx c' x') := by
  rw [needSalary, needSalary]
  split
  · exact .ok (.degraded _ _)
  · exact h

theorem readsValue_basicSalary : ReadsValue basicSalary := by
  intro ctx c c' _
  refine needSalary_renamed ?_
  split
  · exact .ok (.degraded _ _)
  · exact Alike.bind_same fun units _ => .ok (.paid _ _)

theorem readsValue_restDay : ReadsValue restDay := fun _ _ _ _ =>
  needSalary_renamed (.ok (.paid _ _))

theorem readsValue_surchargedHours (hours : PayContext → Decimal)
    (agreed : OvertimeRates → Decimal) (label : String) :
    ReadsValue (surchargedHours hours agreed label) := by
  intro ctx c c' hvalue
  rw [surchargedHours, surchargedHours, hvalue]
  split
  · exact .ok (.paid _ _)
  · refine needSalary_renamed ?_
    refine Alike.bind_same fun share _ => Alike.bind_same fun factor _ => ?_
    exact Alike.bind_same fun rate _ => Alike.bind_same fun amount _ => .ok (.paid _ _)

theorem readsValue_nightSurcharge : ReadsValue nightSurcharge := by
  intro ctx c c' hvalue
  rw [nightSurcharge, nightSurcharge, hvalue]
  split
  · exact .ok (.paid _ _)
  · refine needSalary_renamed (Alike.bind_same fun pay _ => ?_)
    exact Alike.bind_same fun share _ => Alike.bind_same fun amount _ => .ok (.paid _ _)

theorem readsValue_pieceworkExcess : ReadsValue pieceworkExcess := fun _ _ _ _ =>
  Alike.bind_same fun _ _ => .ok (.paid _ _)

theorem readsValue_productivityBonus : ReadsValue productivityBonus := by
  intro ctx c c' hvalue
  rw [productivityBonus, productivityBonus, hvalue]
  cases c'.value with
  | none => exact .ok (.degraded _ _)
  | some value =>
    dsimp only
    split
    · exact .ok (.degraded _ _)
    split
    · exact .ok (.paid _ _)
    · exact .ok (.paid _ _)

theorem readsValue_familyAllowance : ReadsValue familyAllowance := by
  intro ctx c c' hvalue
  rw [familyAllowance, familyAllowance, hvalue]
  cases c'.value with
  | none => exact .ok (.degraded _ _)
  | some value =>
    dsimp only
    split
    · exact .ok (.paid _ _)
    split
    · exact .ok (.paid _ _)
    · exact Alike.bind_same fun product _ => Alike.bind_same fun amount _ => .ok (.paid _ _)

theorem readsValue_fixedAmount : ReadsValue fixedAmount := by
  intro ctx c c' hvalue
  rw [fixedAmount, fixedAmount, hvalue]
  cases c'.value with
  | none => exact .ok (.degraded _ _)
  | some value => exact .ok (.paid _ _)

theorem readsValue_percentageOfIncome : ReadsValue percentageOfIncome := by
  intro ctx c c' hvalue
  rw [percentageOfIncome, percentageOfIncome, hvalue]
  cases c'.value with
  | none => exact .ok (.degraded _ _)
  | some percent =>
    exact Alike.bind_same fun product _ => Alike.bind_same fun amount _ => .ok (.paid _ _)

theorem readsValue_healthPlan : ReadsValue healthPlan := by
  intro ctx c c' hvalue
  rw [healthPlan, healthPlan]
  cases ctx.employee.healthScheme with
  | none => exact .ok (.degraded _ _)
  | some _ => exact readsValue_percentageOfIncome ctx c c' hvalue

end Calculator

namespace Registry

/-- Whether spelling is nothing to the calculators of a registry but the names in messages. -/
def FollowsSpelling (r : Registry) : Prop :=
  ∀ code calculator, r.get? code = some calculator → calculator.FollowsSpelling

open Calculator

theorem followsSpelling_standard : standard.FollowsSpelling := by
  have hignores : ∀ e ∈ standardEntries, e.2.IgnoresScheme := by
    rw [← List.forall_iff_forall_mem]
    simp only [standardEntries, List.Forall]
    and_intros <;> exact fun _ _ _ _ _ => rfl
  have hreads : ∀ e ∈ standardEntries, e.2.ReadsValue := by
    rw [← List.forall_iff_forall_mem]
    simp only [standardEntries, List.Forall]
    exact ⟨readsValue_basicSalary, readsValue_restDay, readsValue_surchargedHours _ _ _,
      readsValue_surchargedHours _ _ _, readsValue_surchargedHours _ _ _,
      readsValue_nightSurcharge, readsValue_pieceworkExcess, readsValue_productivityBonus,
      readsValue_familyAllowance, readsValue_fixedAmount, readsValue_percentageOfIncome,
      readsValue_percentageOfIncome, readsValue_percentageOfIncome,
      readsValue_percentageOfIncome, readsValue_percentageOfIncome,
      readsValue_percentageOfIncome, readsValue_percentageOfIncome, readsValue_healthPlan,
      readsValue_fixedAmount, readsValue_fixedAmount⟩
  intro code calculator h
  obtain ⟨e, he, rfl⟩ := exists_of_get?_standard h
  exact ⟨hreads e he, hignores e he⟩

end Registry

/-! ## Spellings -/

/-- Whether two concepts are the same to a calculation, and their codes equal but for case. -/
structure Concept.SameButCase (c c' : Concept) : Prop where
  code : EqualCodes c.code c'.code
  category : c.category = c'.category
  value : c.value = c'.value

instance (c c' : Concept) : Decidable (c.SameButCase c') :=
  decidable_of_iff (EqualCodes c.code c'.code ∧ c.category = c'.category ∧ c.value = c'.value)
    ⟨fun h => ⟨h.1, h.2.1, h.2.2⟩, fun h => ⟨h.code, h.category, h.value⟩⟩

/-- A plan of concepts, and the same plan with codes spelled in other cases. -/
structure Respelling where
  plan : List Concept
  respelled : List Concept
  sameButCase : List.Forall₂ Concept.SameButCase plan respelled

namespace Respelling

variable {r : Respelling}

/-- Whether two concepts have the same place in the two plans. -/
def Pairs (r : Respelling) (c c' : Concept) : Prop := (c, c') ∈ r.plan.zip r.respelled

theorem Pairs.sameButCase {c c' : Concept} (h : r.Pairs c c') : c.SameButCase c' :=
  (List.forall₂_iff_zip.1 r.sameButCase).2 h

theorem forall₂_pairs (r : Respelling) : List.Forall₂ r.Pairs r.plan r.respelled :=
  List.forall₂_iff_zip.2 ⟨r.sameButCase.length_eq, fun h => h⟩

/-- Whether two texts are the same, or name one concept each as its plan does in the same
    words. -/
inductive Texts (r : Respelling) : String → String → Prop
  | same (text : String) : Texts r text text
  | named {c c' : Concept} (h : r.Pairs c c') (before after : String) :
    Texts r (before ++ c.code ++ after) (before ++ c'.code ++ after)

/-- Whether two diagnostics are the same but for the name of a concept. -/
inductive Diagnostics (r : Respelling) : Diagnostic → Diagnostic → Prop
  | diagnostic {message message' : String} (h : r.Texts message message') (code : String)
    (date : Option Date) : Diagnostics r ⟨code, message, date⟩ ⟨code, message', date⟩

/-- Whether two lines are the same but for the name of their concept. -/
inductive Lines (r : Respelling) : ConceptLine → ConceptLine → Prop
  | line {c c' : Concept} (h : r.Pairs c c') (category : Category) (value : Option Decimal)
    (amount : Decimal) : Lines r ⟨c.code, category, value, amount⟩ ⟨c'.code, category, value, amount⟩

/-- Whether two steps are the same but for the name of their concept. -/
inductive Steps (r : Respelling) : AuditStep → AuditStep → Prop
  | step {c c' : Concept} (h : r.Pairs c c') {reasoning reasoning' : String}
    (htext : r.Texts reasoning reasoning') (number : UInt32) (category : Category)
    (input output : Json) : Steps r ⟨number, c.code, category, input, output, reasoning⟩
      ⟨number, c'.code, category, input, output, reasoning'⟩

theorem Diagnostics.refl (r : Respelling) (d : Diagnostic) : r.Diagnostics d d :=
  .diagnostic (.same _) _ _

/-- Whether two contexts are the same but for the scheme of the employee, the plan, and names in
    diagnostics. -/
structure Contexts (r : Respelling) (a b : PayContext) : Prop where
  /-- All else is the same. -/
  basis : b =
    { a with
      employee := { a.employee with retirementScheme := b.employee.retirementScheme }
      concepts := b.concepts
      diagnostics := b.diagnostics }
  scheme : Option.Rel EqualCodes a.employee.retirementScheme b.employee.retirementScheme
  diagnostics : List.Forall₂ r.Diagnostics a.diagnostics b.diagnostics

/-- Whether two runs are the same but for the names of concepts. -/
structure Runs (r : Respelling) (run run' : ConceptRun) : Prop where
  context : r.Contexts run.context run'.context
  lines : List.Forall₂ r.Lines run.lines run'.lines
  steps : List.Forall₂ r.Steps run.steps run'.steps
  schemeNoted : run.schemeNoted = run'.schemeNoted

/-! ## Runs -/

variable {a b : PayContext} {run run' : ConceptRun} {c c' : Concept} {o o' : Outcome}

theorem Contexts.diagnosed (h : r.Contexts a b) {ds ds' : List Diagnostic}
    (hds : List.Forall₂ r.Diagnostics ds ds') :
    r.Contexts { a with diagnostics := ds } { b with diagnostics := ds' } where
  basis := by
    conv_lhs => rw [h.basis]
  scheme := h.scheme
  diagnostics := hds

theorem Contexts.note (h : r.Contexts a b) {d d' : Diagnostic} (hd : r.Diagnostics d d') :
    r.Contexts (a.note d) (b.note d') :=
  h.diagnosed (List.rel_append h.diagnostics (.cons hd .nil))

theorem Contexts.total_eq (h : r.Contexts a b) (k : Account) : b.total k = a.total k := by
  rw [h.basis]
  cases k <;> rfl

theorem Contexts.totalIncome_eq (h : r.Contexts a b) : b.totalIncome = a.totalIncome :=
  h.total_eq .income

theorem Contexts.totalDeductions_eq (h : r.Contexts a b) :
    b.totalDeductions = a.totalDeductions :=
  h.total_eq .deductions

theorem Contexts.totalEmployerContributions_eq (h : r.Contexts a b) :
    b.totalEmployerContributions = a.totalEmployerContributions :=
  h.total_eq .contributions

theorem Contexts.setTotal (h : r.Contexts a b) (k : Account) (t : Decimal) :
    r.Contexts (a.setTotal k t) (b.setTotal k t) where
  basis := by
    conv_lhs => rw [h.basis]
    cases k <;> rfl
  scheme := by
    have hscheme := h.scheme
    cases k <;> exact hscheme
  diagnostics := by
    have hdiagnostics := h.diagnostics
    cases k <;> exact hdiagnostics

theorem Runs.skipRetirement (h : r.Runs run run') :
    r.Runs run.skipRetirement run'.skipRetirement := by
  rw [ConceptRun.skipRetirement, ConceptRun.skipRetirement, isNone_congr h.context.scheme,
    h.schemeNoted]
  split
  · exact ⟨h.context.note (.refl r _), h.lines, h.steps, rfl⟩
  · exact h

theorem Runs.skipUnknown (h : r.Runs run run') (hc : r.Pairs c c') :
    r.Runs (run.skipUnknown c) (run'.skipUnknown c') :=
  ⟨h.context.note (.diagnostic (.named hc _ _) _ _), h.lines, h.steps, h.schemeNoted⟩

/-- What a degraded concept is remarked upon with begins with its name. -/
theorem texts_degraded (hc : r.Pairs c c') (message : String) :
    r.Texts (c.code ++ ": " ++ message) (c'.code ++ ": " ++ message) := by
  have h : r.Texts ("" ++ c.code ++ (": " ++ message)) ("" ++ c'.code ++ (": " ++ message)) :=
    .named hc _ _
  rwa [String.empty_append, String.empty_append, ← String.append_assoc, ← String.append_assoc] at h

theorem outcome_of_renamed (hc : r.Pairs c c') (ho : Outcome.Renamed c.code c'.code o o') :
    o.amount = o'.amount ∧ r.Texts o.reasoning o'.reasoning ∧
      List.Forall₂ r.Diagnostics o.diagnostic.toList o'.diagnostic.toList := by
  cases ho with
  | paid amount reasoning => exact ⟨rfl, .same _, .nil⟩
  | degraded kind message =>
    have htext := texts_degraded hc message
    exact ⟨rfl, htext, .cons (.diagnostic htext _ _) .nil⟩

theorem steps_stepOf (hab : r.Contexts a b) {after after' : PayContext}
    (hafter : r.Contexts after after') (hc : r.Pairs c c') (hamount : o.amount = o'.amount)
    (htext : r.Texts o.reasoning o'.reasoning) (n : Nat) :
    r.Steps (ConceptRun.stepOf a after n c o) (ConceptRun.stepOf b after' n c' o') := by
  have hsame := hc.sameButCase
  have hinput : ConceptRun.stepInput b c' = ConceptRun.stepInput a c := by
    rw [ConceptRun.stepInput, ConceptRun.stepInput, hsame.value, hab.totalIncome_eq,
      hab.totalDeductions_eq]
  have houtput : ConceptRun.stepOutput after' o'.amount.toHundredths =
      ConceptRun.stepOutput after o.amount.toHundredths := by
    rw [ConceptRun.stepOutput, ConceptRun.stepOutput, hamount, hafter.totalIncome_eq,
      hafter.totalDeductions_eq, hafter.totalEmployerContributions_eq]
  rw [ConceptRun.stepOf, ConceptRun.stepOf, hinput, houtput, ← hsame.category]
  exact .step hc htext _ _ _ _

theorem Runs.enter_alike (h : r.Runs run run') (hc : r.Pairs c c')
    (ho : Outcome.Renamed c.code c'.code o o') :
    Alike r.Runs (run.enter c o) (run'.enter c' o') := by
  obtain ⟨hamount, htext, hdiagnostics⟩ := outcome_of_renamed hc ho
  have hsame := hc.sameButCase
  rw [ConceptRun.enter_eq, ConceptRun.enter_eq, ← hsame.category, h.context.total_eq, ← hamount]
  refine Alike.bind_same fun t _ => .ok ?_
  have hafter := h.context.setTotal c.category.account t
  refine ⟨?_, List.rel_append h.lines (.cons ?_ .nil), List.rel_append h.steps (.cons ?_ .nil),
    h.schemeNoted⟩
  · rw [ConceptRun.entered, ConceptRun.entered, ← hsame.category]
    exact hafter.diagnosed (List.rel_append h.context.diagnostics hdiagnostics)
  · rw [ConceptRun.lineOf, ConceptRun.lineOf, ← hsame.category, ← hsame.value, ← hamount]
    exact .line hc _ _ _
  · rw [← h.steps.length_eq, ← hsame.category]
    exact steps_stepOf h.context hafter hc hamount htext _

/-- A concept is calculated alike, however it is spelled. -/
theorem next_alike {registry : Registry} (hr : registry.FollowsSpelling) (h : r.Runs run run')
    (hc : r.Pairs c c') :
    Alike r.Runs (ConceptRun.next registry run c) (ConceptRun.next registry run' c') := by
  have hsame := hc.sameButCase
  -- Category, scheme and look-up decide the same about both spellings.
  rw [ConceptRun.next, ConceptRun.next, ← hsame.category, ← Registry.get?_congr hsame.code,
    ← Employee.contributesTo_congr h.context.scheme hsame.code]
  split
  · exact .ok h.skipRetirement
  cases hget : registry.get? c.code with
  | none => exact .ok (h.skipUnknown hc)
  | some calculator =>
    have hfollows := hr _ _ hget
    have hcontext : calculator run'.context c' = calculator run.context c' := by
      rw [h.context.basis]
      exact hfollows.ignoresScheme _ _ _ _ _
    dsimp only
    rw [hcontext]
    exact (hfollows.readsValue _ c c' hsame.value).bind fun ho => h.enter_alike hc ho

/-- The plans are run alike, from contexts that are the same but for the spelling. -/
theorem ofContext_alike {registry : Registry} (hr : registry.FollowsSpelling)
    (h : r.Contexts a b) (ha : a.concepts = r.plan) (hb : b.concepts = r.respelled) :
    Alike r.Runs (ConceptRun.ofContext a registry) (ConceptRun.ofContext b registry) := by
  have hstart : r.Runs (ConceptRun.start a) (ConceptRun.start b) := ⟨h, .nil, .nil, rfl⟩
  rw [ConceptRun.ofContext, ConceptRun.ofContext, ha, hb]
  exact Alike.foldlM r.forall₂_pairs (fun hrun hc => next_alike hr hrun hc) hstart

end Respelling

end FieldWages
