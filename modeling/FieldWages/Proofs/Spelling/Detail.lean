import FieldWages.Proofs.Configuration.Accepted
import FieldWages.Proofs.Sample
import FieldWages.Proofs.Spelling.Concepts

/-!
# Details of a plan spelled in two ways

How the codes of a plan and the scheme of an employee are spelled is for the payslip alone. Of
two spellings one makes a configuration if the other does, and an employee comes to the same
detail under either, or fails in the same way: the lines have the same amounts, the totals are
the same, and the same is remarked upon. Only the names differ, and each is as its plan has it
(`Respelling.Details`).

* `Respelling.configProblem?_eq_none_iff`: plans that make configurations;
* `Respelling.Details.samePay`: what details of the two spellings have in common;
* `Payroll.compute_respelled`: the details of the two spellings.
-/

namespace FieldWages

/-- Whether two details pay the same: line by line, in total, and with the same remarks. -/
structure PayrollDetail.SamePay (a b : PayrollDetail) : Prop where
  lines : a.concepts.map (fun l => (l.category, l.configuredValue, l.amount)) =
    b.concepts.map fun l => (l.category, l.configuredValue, l.amount)
  totalIncome : a.totalIncome = b.totalIncome
  totalDeductions : a.totalDeductions = b.totalDeductions
  totalEmployerContributions : a.totalEmployerContributions = b.totalEmployerContributions
  netPay : a.netPay = b.netPay
  diagnostics : a.diagnostics.map (fun d => (d.code, d.date)) =
    b.diagnostics.map fun d => (d.code, d.date)

namespace Respelling

variable {r : Respelling}

/-! ## Configurations -/

theorem map_foldCode (r : Respelling) :
    r.plan.map (foldCode ·.code) = r.respelled.map (foldCode ·.code) := by
  rw [← List.forall₂_eq_eq_eq, List.forall₂_map_left_iff, List.forall₂_map_right_iff]
  exact r.sameButCase.imp fun _ _ h => foldCode_eq_iff.2 h.code

/-- One spelling of a plan makes a configuration if the other does. -/
theorem configProblem?_eq_none_iff (r : Respelling) (settings : Settings) :
    configProblem? settings r.plan = none ↔ configProblem? settings r.respelled = none := by
  -- That no code repeats another can be told from the folded codes.
  have hcodes : DistinctCodes r.plan ↔ DistinctCodes r.respelled := by
    rw [← repeatedCode?_nil_eq_none_iff, ← repeatedCode?_nil_eq_none_iff, repeatedCode?_eq_none_iff,
      repeatedCode?_eq_none_iff, r.map_foldCode]
    simp only [List.not_mem_nil, not_false_eq_true, implies_true]
  have hplanned : r.plan ≠ [] ↔ r.respelled ≠ [] := by
    rw [← List.length_pos_iff, ← List.length_pos_iff, r.sameButCase.length_eq]
  rw [Configuration.configProblem?_eq_none_iff, Configuration.configProblem?_eq_none_iff]
  constructor
  · intro h
    exact { h with planned := hplanned.1 h.planned, codes := hcodes.1 h.codes }
  · intro h
    exact { h with planned := hplanned.2 h.planned, codes := hcodes.2 h.codes }

/-! ## Details -/

/-- Whether two details are the same but for the names of concepts. -/
structure Details (r : Respelling) (a b : PayrollDetail) : Prop where
  /-- All else is the same. -/
  basis : b =
    { a with
      concepts := b.concepts
      steps := b.steps
      diagnostics := b.diagnostics }
  lines : List.Forall₂ r.Lines a.concepts b.concepts
  steps : List.Forall₂ r.Steps a.steps b.steps
  diagnostics : List.Forall₂ r.Diagnostics a.diagnostics b.diagnostics

/-- Details of the two spellings pay the same. -/
theorem Details.samePay {a b : PayrollDetail} (h : r.Details a b) : a.SamePay b where
  lines := by
    rw [← List.forall₂_eq_eq_eq, List.forall₂_map_left_iff, List.forall₂_map_right_iff]
    refine h.lines.imp fun _ _ hl => ?_
    cases hl
    rfl
  totalIncome := (congrArg PayrollDetail.totalIncome h.basis.symm :)
  totalDeductions := (congrArg PayrollDetail.totalDeductions h.basis.symm :)
  totalEmployerContributions := (congrArg PayrollDetail.totalEmployerContributions h.basis.symm :)
  netPay := (congrArg PayrollDetail.netPay h.basis.symm :)
  diagnostics := by
    rw [← List.forall₂_eq_eq_eq, List.forall₂_map_left_iff, List.forall₂_map_right_iff]
    refine h.diagnostics.imp fun _ _ hd => ?_
    cases hd
    rfl

theorem assemble_alike {run run' : ConceptRun} (h : r.Runs run run') :
    Alike r.Details (PayrollDetail.assemble run.context run.lines run.steps)
      (PayrollDetail.assemble run'.context run'.lines run'.steps) := by
  have hnet : run'.context.netPay = run.context.netPay := by
    rw [PayContext.netPay, PayContext.netPay, h.context.totalIncome_eq,
      h.context.totalDeductions_eq]
  rw [PayrollDetail.assemble, PayrollDetail.assemble, hnet]
  refine Alike.bind_same fun net _ => .ok ⟨?_, h.lines, h.steps, h.context.diagnostics⟩
  conv_lhs => rw [h.context.basis]
  rfl

end Respelling

namespace Payroll

variable {r : Respelling} {employee : Employee} {scheme : Option String}

/-- No stage before the concepts looks at the scheme of the employee, nor at the plan. -/
theorem context_respelled (hscheme : Option.Rel EqualCodes employee.retirementScheme scheme)
    (attendance : List AttendanceEntry) (inputs : PayrollInputs) :
    Alike (fun a b => r.Contexts a b ∧ a.concepts = r.plan ∧ b.concepts = r.respelled)
      (context employee attendance { inputs with concepts := r.plan })
      (context { employee with retirementScheme := scheme } attendance
        { inputs with concepts := r.respelled }) := by
  refine Alike.bind_same fun daily _ => Alike.bind_same fun hours _ => ?_
  refine Alike.bind_same fun piecework _ => Alike.bind_same fun rate _ => ?_
  refine Alike.bind_same fun hourly _ => Alike.bind_same fun basicPay _ => ?_
  refine Alike.bind_same fun first _ => Alike.bind_same fun restDays _ => ?_
  refine .ok ⟨⟨rfl, hscheme, ?_⟩, rfl, rfl⟩
  exact List.forall₂_same.2 fun d _ => .refl r d

/-- Of two spellings of a plan one makes a configuration if the other does. However the codes of
    the plan and the scheme of the employee are spelled, the detail pays the same, or fails in the
    same way; it names the concepts as its plan does, and is the same otherwise. -/
theorem compute_respelled (r : Respelling)
    (hscheme : Option.Rel EqualCodes employee.retirementScheme scheme)
    (attendance : List AttendanceEntry) (inputs : PayrollInputs) :
    (∀ settings,
      configProblem? settings r.plan = none ↔ configProblem? settings r.respelled = none) ∧
    Alike (fun detail detail' => r.Details detail detail' ∧ detail.SamePay detail')
      (compute employee attendance { inputs with concepts := r.plan } .standard)
      (compute { employee with retirementScheme := scheme } attendance
        { inputs with concepts := r.respelled } .standard) := by
  refine ⟨r.configProblem?_eq_none_iff, ?_⟩
  have hrefusal : refusal? { employee with retirementScheme := scheme } attendance
      inputs.parameters = refusal? employee attendance inputs.parameters := rfl
  rw [compute, compute, hrefusal]
  cases refusal? employee attendance inputs.parameters with
  | some refusal => exact .error _
  | none =>
    refine Failure.lift_alike ((context_respelled hscheme attendance inputs).bind fun h => ?_)
    obtain ⟨hcontext, hplan, hrespelled⟩ := h
    refine (Respelling.ofContext_alike Registry.followsSpelling_standard hcontext hplan
      hrespelled).bind fun hrun => ?_
    exact (Respelling.assemble_alike hrun).mono fun h => ⟨h, h.samePay⟩

/-- A plan of a salary, two retirement schemes and a concept that has no calculator, spelled in
    two ways. -/
def mixedCase : Respelling where
  plan :=
    [.plain "BASIC_SALARY" .income none, .plain "ONP" .retirement (some .hundred),
     .plain "AFP_PRIMA" .retirement (some .hundred), .plain "LUNCH" .income none]
  respelled :=
    [.plain "Basic_Salary" .income none, .plain "onp" .retirement (some .hundred),
     .plain "Afp_Prima" .retirement (some .hundred), .plain "Lunch" .income none]
  sameButCase := by decide

/-- Under a third spelling of the scheme the same scheme is paid into. -/
theorem compute_respelled_mixedCase :
    let employee :=
      { Employee.plain with
        monthlySalary := some (.ofUInt32 3000)
        retirementScheme := some "AFP_PRIMA" }
    let inputs (plan : List Concept) :=
      { PayrollInputs.plain (.between 4 10) 6 with concepts := plan }
    ∃ detail detail',
      compute employee [.ofHours 5 800] (inputs mixedCase.plan) .standard = .ok detail ∧
      compute { employee with retirementScheme := some "afp_prima" } [.ofHours 5 800]
        (inputs mixedCase.respelled) .standard = .ok detail' ∧
      detail.concepts.map (·.code) = ["BASIC_SALARY", "AFP_PRIMA"] ∧
      detail'.concepts.map (·.code) = ["Basic_Salary", "Afp_Prima"] ∧
      mixedCase.Details detail detail' ∧ detail.SamePay detail' := by
  intro employee inputs
  have hcodes : (compute employee [.ofHours 5 800] (inputs mixedCase.plan) .standard).map
      (fun detail => detail.concepts.map (·.code)) = .ok ["BASIC_SALARY", "AFP_PRIMA"] := by
    decide +kernel
  have hcodes' : (compute { employee with retirementScheme := some "afp_prima" } [.ofHours 5 800]
      (inputs mixedCase.respelled) .standard).map (fun detail => detail.concepts.map (·.code)) =
        .ok ["Basic_Salary", "Afp_Prima"] := by
    decide +kernel
  obtain ⟨detail, hdetail, hnames⟩ := map_eq_ok.1 hcodes
  obtain ⟨detail', hdetail', hnames'⟩ := map_eq_ok.1 hcodes'
  have hscheme : Option.Rel EqualCodes employee.retirementScheme (some "afp_prima") :=
    .some (by decide)
  have halike :=
    (compute_respelled mixedCase hscheme [.ofHours 5 800] (.plain (.between 4 10) 6)).2
  rw [show compute employee _ _ _ = _ from hdetail, show compute _ _ _ _ = _ from hdetail'] at halike
  cases halike with
  | ok h => exact ⟨detail, detail', hdetail, hdetail', hnames, hnames', h.1, h.2⟩

end Payroll

end FieldWages
