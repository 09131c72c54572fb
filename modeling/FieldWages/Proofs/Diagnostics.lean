import FieldWages.Proofs.Alike
import FieldWages.Proofs.ConceptRun

/-!
# Diagnostics and pay

The concepts of a context add to its diagnostics, but no calculator of the standard
registry reads them. So two contexts that differ in nothing else come to the same
lines, steps and totals (`ConceptRun.ofContext_sameButDiagnostics`).
-/

namespace FieldWages

/-- Whether two contexts are the same but for their diagnostics. -/
def PayContext.SameButDiagnostics (a b : PayContext) : Prop := ∃ g, b = { a with diagnostics := g }

/-- Whether two details are the same but for their diagnostics. -/
def PayrollDetail.SameButDiagnostics (a b : PayrollDetail) : Prop :=
  ∃ g, b = { a with diagnostics := g }

/-- Whether a calculator finds the same whatever the diagnostics are. -/
def Calculator.IgnoresDiagnostics (calculator : Calculator) : Prop :=
  ∀ (ctx : PayContext) g c, calculator { ctx with diagnostics := g } c = calculator ctx c

/-- Whether all calculators of a registry find the same whatever the diagnostics are. -/
def Registry.IgnoresDiagnostics (r : Registry) : Prop :=
  ∀ code calculator, r.get? code = some calculator → calculator.IgnoresDiagnostics

theorem Registry.ignoresDiagnostics_standard : standard.IgnoresDiagnostics := by
  have hentries : ∀ e ∈ standardEntries, e.2.IgnoresDiagnostics := by
    rw [← List.forall_iff_forall_mem]
    simp only [standardEntries, List.Forall]
    and_intros <;> exact fun _ _ _ => rfl
  intro code calculator h
  obtain ⟨e, he, rfl⟩ := exists_of_get?_standard h
  exact hentries e he

/-! ## Runs -/

namespace PayContext

variable {a b : PayContext}

theorem SameButDiagnostics.note (h : a.SameButDiagnostics b) (d : Diagnostic) :
    (a.note d).SameButDiagnostics (b.note d) := by
  obtain ⟨g, rfl⟩ := h
  exact ⟨g ++ [d], rfl⟩

theorem SameButDiagnostics.accumulate (h : a.SameButDiagnostics b) (category : Category)
    (amount : Decimal) : Alike SameButDiagnostics (a.accumulate category amount)
      (b.accumulate category amount) := by
  obtain ⟨g, rfl⟩ := h
  cases category <;> exact Alike.bind_same fun total _ => .ok ⟨g, rfl⟩

end PayContext

namespace ConceptRun

variable {run run' : ConceptRun} {c : Concept} {registry : Registry}

/-- Whether two runs are the same but for the diagnostics of their contexts. -/
def SameButDiagnostics (run run' : ConceptRun) : Prop :=
  ∃ ctx, run.context.SameButDiagnostics ctx ∧ run' = { run with context := ctx }

theorem SameButDiagnostics.skipRetirement (h : run.SameButDiagnostics run') :
    run.skipRetirement.SameButDiagnostics run'.skipRetirement := by
  obtain ⟨_, ⟨g, rfl⟩, rfl⟩ := h
  rw [ConceptRun.skipRetirement, ConceptRun.skipRetirement]
  dsimp only
  split
  · exact ⟨_, ⟨_, rfl⟩, rfl⟩
  · exact ⟨_, ⟨g, rfl⟩, rfl⟩

theorem SameButDiagnostics.enter (h : run.SameButDiagnostics run') (c : Concept) (o : Outcome) :
    Alike SameButDiagnostics (run.enter c o) (run'.enter c o) := by
  obtain ⟨ctx, hctx, rfl⟩ := h
  have hnoted : ((o.diagnostic.map run.context.note).getD run.context).SameButDiagnostics
      ((o.diagnostic.map ctx.note).getD ctx) := by
    cases o.diagnostic with
    | none => exact hctx
    | some d => exact hctx.note d
  obtain ⟨g, rfl⟩ := hctx
  refine (hnoted.accumulate c.category o.amount.toHundredths).bind fun hafter => ?_
  obtain ⟨g', rfl⟩ := hafter
  exact .ok ⟨_, ⟨g', rfl⟩, rfl⟩

/-- A concept comes to the same whatever the diagnostics are. -/
theorem SameButDiagnostics.next (hr : registry.IgnoresDiagnostics)
    (h : run.SameButDiagnostics run') (c : Concept) :
    Alike SameButDiagnostics (next registry run c) (next registry run' c) := by
  obtain ⟨ctx, hctx, rfl⟩ := h
  have hemployee : ctx.employee = run.context.employee := by
    obtain ⟨g, rfl⟩ := hctx
    rfl
  rw [ConceptRun.next, ConceptRun.next]
  dsimp only
  rw [hemployee]
  split
  · exact .ok (SameButDiagnostics.skipRetirement ⟨ctx, hctx, rfl⟩)
  split
  · exact .ok ⟨_, hctx.note _, rfl⟩
  · next calculator hget =>
    have hcalculator : calculator ctx c = calculator run.context c := by
      obtain ⟨g, rfl⟩ := hctx
      exact hr c.code calculator hget run.context g c
    rw [hcalculator]
    exact Alike.bind_same fun o _ => SameButDiagnostics.enter ⟨ctx, hctx, rfl⟩ c o

/-- The concepts of a context come to the same whatever its diagnostics are. -/
theorem ofContext_sameButDiagnostics (hr : registry.IgnoresDiagnostics) {a b : PayContext}
    (h : a.SameButDiagnostics b) :
    Alike SameButDiagnostics (ofContext a registry) (ofContext b registry) := by
  obtain ⟨g, rfl⟩ := h
  rw [ofContext, ofContext]
  exact .foldlM_same (f := ConceptRun.next registry) (g := ConceptRun.next registry) a.concepts
    (fun h => h.next hr _) ⟨_, ⟨g, rfl⟩, rfl⟩

end ConceptRun

/-- Runs that are the same but for diagnostics are assembled to details that are. -/
theorem PayrollDetail.assemble_sameButDiagnostics {run run' : ConceptRun}
    (h : run.SameButDiagnostics run') :
    Alike SameButDiagnostics (assemble run.context run.lines run.steps)
      (assemble run'.context run'.lines run'.steps) := by
  obtain ⟨_, ⟨g, rfl⟩, rfl⟩ := h
  exact Alike.bind_same fun net _ => .ok ⟨g, rfl⟩

end FieldWages
