import FieldWages.Proofs.Configuration
import FieldWages.Proofs.Payroll
import FieldWages.Proofs.Sample

/-!
# Which concepts have lines

A run does one of three things with a concept: it passes over a retirement concept
that does not concern the employee, it passes over one without calculator, or it
enters the outcome of the calculator (`Fate`). The first two leave no line and at most
one remark. The log of a run tells which it was for each concept in turn, and lines
and diagnostics can be read off it (`ConceptRun.Tells`).

* `ConceptRun.Tells.next`, `ConceptRun.exists_log`: what a step adds to the log, and the
  log of a whole run;
* `ConceptRun.lines_selected`: the concepts with lines, the remarks on the others, and
  what a sound configuration adds to that.
-/

namespace FieldWages

namespace Concept

/-- Whether a concept concerns an employee: it does unless it is a retirement concept
    that the employee does not pay into. -/
def Concerns (c : Concept) (employee : Employee) : Prop :=
  c.category = .retirement → employee.contributesTo c.code

instance (c : Concept) (employee : Employee) : Decidable (c.Concerns employee) :=
  inferInstanceAs (Decidable (_ → _))

/-- Whether a concept is given a line: it concerns the employee and has a calculator. -/
def HasLine (c : Concept) (employee : Employee) (registry : Registry) : Prop :=
  c.Concerns employee ∧ registry.contains c.code

instance (c : Concept) (employee : Employee) (registry : Registry) :
    Decidable (c.HasLine employee registry) :=
  inferInstanceAs (Decidable (_ ∧ _))

theorem concerns_iff {c : Concept} {employee : Employee} :
    c.Concerns employee ↔ ¬(c.category = .retirement ∧ !employee.contributesTo c.code) := by
  rw [Concerns, not_and, Bool.not_eq_true', Bool.not_eq_false]

end Concept

/-! ## Fates -/

/-- What becomes of a concept in a run. -/
inductive Fate where
  /-- It does not concern the employee; perhaps the want of a scheme is noted. -/
  | passedOver (noted : Bool)
  /-- It has no calculator. -/
  | unknown
  /-- What its calculator finds is entered. -/
  | entered (o : Outcome)
deriving DecidableEq

namespace Fate

/-- The remark that an employee has no retirement scheme. -/
def schemeRemark : Diagnostic :=
  ⟨Diagnostic.noRetirementScheme, "employee has no retirement scheme; retirement concepts skipped",
    none⟩

/-- The remark that a concept has no calculator. -/
def unknownRemark (c : Concept) : Diagnostic :=
  ⟨Diagnostic.unknownConcept, "no calculator registered for concept '" ++ c.code ++ "'", none⟩

/-- The line that a concept of the given fate has, if it has one. -/
def line? : Concept × Fate → Option ConceptLine
  | (c, entered o) => some (ConceptRun.lineOf c o)
  | _ => none

/-- The remarks on a concept of the given fate. -/
def remarks : Concept × Fate → List Diagnostic
  | (_, passedOver noted) => if noted then [schemeRemark] else []
  | (c, unknown) => [unknownRemark c]
  | (_, entered o) => o.diagnostic.toList

/-- Whether a fate is the right one for a concept. -/
def Meets (registry : Registry) (employee : Employee) : Concept × Fate → Prop
  | (c, passedOver _) => ¬c.Concerns employee
  | (c, unknown) => c.Concerns employee ∧ registry.get? c.code = none
  | (c, entered o) => c.Concerns employee ∧
      ∃ calculator ctx, registry.get? c.code = some calculator ∧ calculator ctx c = .ok o

variable {registry : Registry} {employee : Employee} {x : Concept × Fate}

theorem isSome_line?_iff (h : Meets registry employee x) :
    (line? x).isSome ↔ x.1.HasLine employee registry := by
  rw [Concept.HasLine, Registry.contains]
  obtain ⟨c, _ | _ | o⟩ := x
  · exact ⟨nofun, fun hline => absurd hline.1 h⟩
  · refine ⟨nofun, fun hline => ?_⟩
    rw [h.2] at hline
    cases hline.2
  · obtain ⟨hconcerns, calculator, -, hget, -⟩ := h
    exact ⟨fun _ => ⟨hconcerns, by rw [hget]; rfl⟩, fun _ => rfl⟩

theorem shape_of_line? {l : ConceptLine} (h : line? x = some l) :
    (l.code, l.category, l.configuredValue) = (x.1.code, x.1.category, x.1.value) := by
  obtain ⟨c, _ | _ | o⟩ := x <;> cases h
  rfl

end Fate

/-! ## Logs -/

namespace ConceptRun

variable {ctx : PayContext} {registry : Registry} {run run' : ConceptRun} {c : Concept}
  {log : List (Concept × Fate)}

/-- Whether a log tells of a run from its start: each concept has met its fate, and lines
    and diagnostics are what the fates left. The want of a scheme is noted once, when
    the first retirement concept is met. -/
structure Tells (ctx : PayContext) (registry : Registry) (log : List (Concept × Fate))
    (run : ConceptRun) : Prop where
  basis : ctx.SameBasis run.context
  met : ∀ x ∈ log, Fate.Meets registry ctx.employee x
  lines : run.lines = log.filterMap Fate.line?
  diagnostics : run.context.diagnostics = ctx.diagnostics ++ log.flatMap Fate.remarks
  noted : log.countP (·.2 = .passedOver true) = if run.schemeNoted then 1 else 0
  schemeNoted : run.schemeNoted ↔ ctx.employee.retirementScheme = none ∧
    ∃ x ∈ log, x.1.category = .retirement

theorem tells_start (ctx : PayContext) (registry : Registry) : Tells ctx registry [] (start ctx) where
  basis := .refl ctx
  met _ hx := nomatch hx
  lines := rfl
  diagnostics := (List.append_nil _).symm
  noted := rfl
  schemeNoted := ⟨nofun, fun ⟨_, _, hx, _⟩ => nomatch hx⟩

theorem enter_diagnostics {o : Outcome} (h : run.enter c o = .ok run') :
    run'.context.diagnostics = run.context.diagnostics ++ o.diagnostic.toList := by
  obtain ⟨after, hafter, h⟩ := bind_eq_ok.1 h
  cases h
  rw [PayContext.noted_eq] at hafter
  obtain ⟨_, _, _, -, -, -, rfl⟩ := PayContext.accumulate_eq_ok hafter
  rfl

/-- Whether a step with the given fate keeps count of the want of a scheme: it is noted
    where it is met for the first time, and nowhere else. -/
def NotesScheme (run run' : ConceptRun) (c : Concept) (fate : Fate) : Prop :=
  let wanting := run.context.employee.retirementScheme = none ∧ c.category = .retirement
  if fate = .passedOver true then wanting ∧ ¬run.schemeNoted ∧ run'.schemeNoted
  else run'.schemeNoted = run.schemeNoted ∧ (wanting → run.schemeNoted)

theorem Tells.employee_eq (ht : Tells ctx registry log run) :
    run.context.employee = ctx.employee := by
  obtain ⟨_, _, _, _, he⟩ := ht.basis
  rw [he]

/-- A log goes on with a concept if line, remarks and note are those of its fate. -/
theorem Tells.concat (ht : Tells ctx registry log run) {fate : Fate}
    (hbasis : run.context.SameBasis run'.context)
    (hmet : Fate.Meets registry run.context.employee (c, fate))
    (hlines : run'.lines = run.lines ++ (Fate.line? (c, fate)).toList)
    (hdiagnostics : run'.context.diagnostics = run.context.diagnostics ++ Fate.remarks (c, fate))
    (hscheme : NotesScheme run run' c fate) : Tells ctx registry (log ++ [(c, fate)]) run' := by
  rw [NotesScheme, ht.employee_eq] at hscheme
  have hretirement : (∃ x ∈ log ++ [(c, fate)], x.1.category = .retirement) ↔
      (∃ x ∈ log, x.1.category = .retirement) ∨ c.category = .retirement := by
    simp only [List.mem_append, List.mem_singleton, or_and_right, exists_or, exists_eq_left]
  refine ⟨ht.basis.trans hbasis, fun x hx => ?_, ?_, ?_, ?_, ?_⟩
  · rcases List.mem_append.1 hx with hx | hx
    · exact ht.met x hx
    · exact List.mem_singleton.1 hx ▸ ht.employee_eq ▸ hmet
  · rw [hlines, ht.lines, List.filterMap_append]
    cases hline : Fate.line? (c, fate) <;> simp [hline]
  · rw [hdiagnostics, ht.diagnostics, List.flatMap_append, List.flatMap_singleton, List.append_assoc]
  · rw [List.countP_append, ht.noted]
    split at hscheme
    · next hfate => simp [hfate, hscheme.2.1, hscheme.2.2]
    · next hfate => simp [hfate, hscheme.1]
  · rw [hretirement]
    split at hscheme
    · obtain ⟨⟨hnone, hc⟩, -, hnoted⟩ := hscheme
      exact ⟨fun _ => ⟨hnone, .inr hc⟩, fun _ => hnoted⟩
    · obtain ⟨hsame, hwanting⟩ := hscheme
      rw [hsame, ht.schemeNoted, and_congr_right_iff]
      exact fun hnone => ⟨.inl, Or.rec id fun hc => (ht.schemeNoted.1 (hwanting ⟨hnone, hc⟩)).2⟩

/-- A concept that concerns the employee is no retirement concept if there is no scheme. -/
theorem notesScheme_of_concerns (hconcerns : c.Concerns run.context.employee) {fate : Fate}
    (hfate : fate ≠ .passedOver true) (hnoted : run'.schemeNoted = run.schemeNoted) :
    NotesScheme run run' c fate := by
  rw [NotesScheme, if_neg hfate]
  refine ⟨hnoted, fun ⟨hnone, hc⟩ => ?_⟩
  have hpays := hconcerns hc
  rw [Employee.contributesTo, hnone] at hpays
  cases hpays

/-- A step adds the fate of its concept to the log. -/
theorem Tells.next (ht : Tells ctx registry log run) (h : next registry run c = .ok run') :
    ∃ fate, Tells ctx registry (log ++ [(c, fate)]) run' := by
  have hbasis := sameBasis_next h
  rcases next_cases h with ⟨hc, hpays, rfl⟩ | ⟨hconcerns, hget, rfl⟩ |
    ⟨hconcerns, calculator, o, hget, ho, h⟩
  · have hnot : ¬c.Concerns run.context.employee := fun hconcerns => hpays (hconcerns hc)
    rw [skipRetirement] at hbasis ⊢
    split
    · next hnote =>
      rw [if_pos hnote] at hbasis
      rw [Bool.and_eq_true, Option.isNone_iff_eq_none, Bool.not_eq_true'] at hnote
      refine ⟨.passedOver true, ht.concat hbasis hnot (List.append_nil _).symm rfl ?_⟩
      rw [NotesScheme, if_pos rfl, hnote.2]
      exact ⟨⟨hnote.1, hc⟩, Bool.false_ne_true, rfl⟩
    · next hnote =>
      refine ⟨.passedOver false, ht.concat (.refl _) hnot (List.append_nil _).symm
        (List.append_nil _).symm ?_⟩
      rw [NotesScheme, if_neg (by decide)]
      -- Nothing is noted although there is no scheme, so it has been noted before.
      refine ⟨rfl, fun hnone => ?_⟩
      rwa [hnone.1, Option.isNone_none, Bool.true_and, Bool.not_eq_true', Bool.not_eq_false] at hnote
  all_goals rw [← Concept.concerns_iff] at hconcerns
  · exact ⟨.unknown, ht.concat hbasis ⟨hconcerns, hget⟩ (List.append_nil _).symm rfl
      (notesScheme_of_concerns hconcerns Fate.noConfusion rfl)⟩
  · have hdiagnostics := enter_diagnostics h
    obtain ⟨after, g, -, rfl⟩ := enter_eq_ok h
    exact ⟨.entered o, ht.concat hbasis ⟨hconcerns, calculator, _, hget, ho⟩ rfl hdiagnostics
      (notesScheme_of_concerns hconcerns Fate.noConfusion rfl)⟩

/-- A run over concepts goes on with the log by their fates. -/
theorem Tells.foldlM {cs : List Concept} (ht : Tells ctx registry log run)
    (h : cs.foldlM (ConceptRun.next registry) run = .ok run') :
    ∃ log', log'.map (·.1) = cs ∧ Tells ctx registry (log ++ log') run' := by
  induction cs generalizing run log with
  | nil =>
    rw [List.foldlM_nil, pure_eq_ok] at h
    exact ⟨[], rfl, by rwa [List.append_nil, ← h]⟩
  | cons c cs ih =>
    rw [List.foldlM_cons] at h
    obtain ⟨run₁, hrun₁, h⟩ := bind_eq_ok.1 h
    obtain ⟨fate, ht₁⟩ := ht.next hrun₁
    obtain ⟨log', hlog', ht'⟩ := ih ht₁ h
    refine ⟨(c, fate) :: log', by rw [List.map_cons, hlog'], ?_⟩
    rwa [List.append_assoc, List.singleton_append] at ht'

/-- Every run has a log of the concepts of its context. -/
theorem exists_log (h : ofContext ctx registry = .ok run) :
    ∃ log, log.map (·.1) = ctx.concepts ∧ Tells ctx registry log run :=
  (tells_start ctx registry).foldlM h

/-! ## Lines -/

/-- What a line takes over from its concept. -/
def shapeOf (l : ConceptLine) : String × Category × Option Decimal :=
  (l.code, l.category, l.configuredValue)

/-- The lines of a run are those of the concepts that have one, in their order. -/
theorem Tells.map_shapeOf_lines (ht : Tells ctx registry log run) :
    run.lines.map shapeOf = ((log.map (·.1)).filter (·.HasLine ctx.employee registry)).map
      fun c => (c.code, c.category, c.value) := by
  rw [ht.lines]
  have hmet := ht.met
  clear ht
  induction log with
  | nil => rfl
  | cons x log ih =>
    obtain ⟨hx, hlog⟩ := List.forall_mem_cons.1 hmet
    have hline := Fate.isSome_line?_iff hx
    rw [List.map_cons, List.filter_cons, List.filterMap_cons]
    cases hl : Fate.line? x with
    | none =>
      rw [hl] at hline
      rw [if_neg (by simpa using hline)]
      exact ih hlog
    | some l =>
      rw [hl] at hline
      rw [if_pos (by simpa using hline), List.map_cons, List.map_cons, ih hlog]
      exact congrArg (· :: _) (Fate.shape_of_line? hl)

/-- Among concepts whose codes differ, the lines have different codes, and at most one of
    them is of a retirement concept: that of the scheme the employee pays into. -/
theorem Tells.lines_distinct (ht : Tells ctx registry log run)
    (hcodes : ((log.map (·.1)).map (foldCode ·.code)).Nodup) :
    (run.lines.filter (·.category = .retirement)).length ≤ 1 ∧
      run.lines.Pairwise fun l l' => ¬sameCode l.code l'.code := by
  have hlines : (run.lines.map (foldCode ·.code)).Nodup := by
    have hshape := congrArg (List.map fun x => foldCode x.1) ht.map_shapeOf_lines
    rw [List.map_map, List.map_map] at hshape
    rw [show run.lines.map (foldCode ·.code) = _ from hshape]
    exact hcodes.sublist (List.filter_sublist.map _)
  -- The code of every retirement line is that of the scheme.
  have hscheme : ∀ l ∈ run.lines, l.category = .retirement →
      ctx.employee.retirementScheme.map foldCode = some (foldCode l.code) := by
    intro l hl hc
    rw [ht.lines] at hl
    obtain ⟨x, hx, hline⟩ := List.mem_filterMap.1 hl
    obtain ⟨hconcerns, -⟩ := (Fate.isSome_line?_iff (ht.met x hx)).1 (by rw [hline]; rfl)
    have hshape := Fate.shape_of_line? hline
    rw [Prod.mk.injEq, Prod.mk.injEq] at hshape
    have hpays := hconcerns (hshape.2.1 ▸ hc)
    rw [Employee.contributesTo, Option.any_eq_true] at hpays
    obtain ⟨scheme, hsome, hsame⟩ := hpays
    rw [hsome, Option.map_some, hshape.1, eq_of_beq hsame]
  have hdistinct : run.lines.Pairwise fun l l' => ¬sameCode l.code l'.code :=
    (List.pairwise_map.1 hlines).imp fun hne hsame => hne (eq_of_beq hsame)
  refine ⟨?_, hdistinct⟩
  have hretirement := hdistinct.sublist (List.filter_sublist (p := (·.category = .retirement)))
  have hmem : ∀ l ∈ run.lines.filter (·.category = .retirement),
      ctx.employee.retirementScheme.map foldCode = some (foldCode l.code) := fun l hl =>
    hscheme l (List.mem_filter.1 hl).1 (of_decide_eq_true (List.mem_filter.1 hl).2)
  generalize run.lines.filter (·.category = .retirement) = ls at hretirement hmem ⊢
  match ls with
  | [] => exact Nat.zero_le 1
  | [_] => exact le_rfl
  | l :: l' :: ls =>
    obtain ⟨hl, hl', -⟩ := List.forall_mem_cons.1 hmem |>.imp_right List.forall_mem_cons.1
    have hne := (List.pairwise_cons.1 hretirement).1 l' List.mem_cons_self
    exact absurd (beq_iff_eq.2 (Option.some.inj (hl.symm.trans hl'))) hne

/-! ## Whole runs -/

/-- Whether a run stops at a concept that would have a line: its calculator gives up, or
    its amount does not fit its total. -/
def StopsAtLine (ctx : PayContext) (registry : Registry) : Prop :=
  ∃ before c after run f, ctx.concepts = before ++ c :: after ∧
    before.foldlM (next registry) (start ctx) = .ok run ∧ c.HasLine ctx.employee registry ∧
    next registry run c = .error f ∧ ofContext ctx registry = .error f

/-- To pass over a concept does not stop a run. -/
theorem stopsAtLine_of_eq_error {f : Fault} (h : ofContext ctx registry = .error f) :
    StopsAtLine ctx registry := by
  obtain ⟨before, c, after, run, hconcepts, hrun, hc⟩ := foldlM_eq_error h
  refine ⟨before, c, after, run, f, hconcepts, hrun, ?_, hc, h⟩
  obtain ⟨log, -, ht⟩ := (tells_start ctx registry).foldlM hrun
  rw [next] at hc
  split at hc
  · cases hc
  next hconcerns =>
  rw [← Concept.concerns_iff, ht.employee_eq] at hconcerns
  split at hc
  · cases hc
  · next hget => exact ⟨hconcerns, by rw [Registry.contains, hget]; rfl⟩

/-- The log tells of every concept whether it is unknown. -/
theorem Tells.eq_unknown_iff (ht : Tells ctx registry log run) {x : Concept × Fate} (hx : x ∈ log) :
    x.2 = .unknown ↔ x.1.Concerns ctx.employee ∧ ¬registry.contains x.1.code := by
  have hmet := ht.met x hx
  rw [Registry.contains]
  obtain ⟨c, _ | _ | o⟩ := x
  · exact ⟨nofun, fun h => absurd h.1 hmet⟩
  · exact ⟨fun _ => ⟨hmet.1, by rw [hmet.2]; exact Bool.false_ne_true⟩, fun _ => rfl⟩
  · obtain ⟨-, _, -, hget, -⟩ := hmet
    exact ⟨nofun, fun h => absurd (by rw [hget]; rfl) h.2⟩

/-- The want of a scheme is noted once if there is none and some retirement concept is
    configured, and else not at all. -/
theorem Tells.countP_noted (ht : Tells ctx registry log run)
    (hlog : log.map (·.1) = ctx.concepts) : log.countP (·.2 = .passedOver true) =
      if ctx.employee.retirementScheme = none ∧ ∃ c ∈ ctx.concepts, c.category = .retirement
      then 1 else 0 := by
  rw [ht.noted, ← hlog]
  simp only [ht.schemeNoted, List.mem_map, exists_exists_and_eq_and]

/-- The lines of a run are, in order and with code, category and value, those of the
    concepts that concern the employee and have a calculator. Of the others, one that
    concerns the employee has its remark for being unknown, and the want of a scheme is
    noted once if there is any retirement concept; no other concept stops the run. Under a
    sound configuration the lines of a detail have different codes, and one of them at most
    is of a retirement concept. -/
theorem lines_selected :
    (∀ (ctx : PayContext) (registry : Registry),
      (∃ run log, ofContext ctx registry = .ok run ∧ log.map (·.1) = ctx.concepts ∧
        Tells ctx registry log run ∧
        run.lines.map shapeOf = (ctx.concepts.filter (·.HasLine ctx.employee registry)).map
          (fun c => (c.code, c.category, c.value)) ∧
        (∀ x ∈ log, x.2 = .unknown ↔
          x.1.Concerns ctx.employee ∧ ¬registry.contains x.1.code) ∧
        log.countP (·.2 = .passedOver true) =
          if ctx.employee.retirementScheme = none ∧ ∃ c ∈ ctx.concepts, c.category = .retirement
          then 1 else 0) ∨
      StopsAtLine ctx registry) ∧
    ∀ (config : Configuration) (employee : Employee) (attendance : List AttendanceEntry)
      (inputs : PayrollInputs) (registry : Registry) (detail : PayrollDetail),
      inputs.concepts = config.concepts →
      Payroll.compute employee attendance inputs registry = .ok detail →
      (detail.concepts.filter (·.category = .retirement)).length ≤ 1 ∧
        detail.concepts.Pairwise fun l l' => ¬sameCode l.code l'.code := by
  refine ⟨fun ctx registry => ?_, fun config employee attendance inputs registry detail hplan h => ?_⟩
  · cases h : ofContext ctx registry with
    | error f => exact .inr (stopsAtLine_of_eq_error h)
    | ok run =>
      obtain ⟨log, hlog, ht⟩ := exists_log h
      exact .inl ⟨run, log, rfl, hlog, ht, hlog ▸ ht.map_shapeOf_lines,
        fun x hx => ht.eq_unknown_iff hx, ht.countP_noted hlog⟩
  · obtain ⟨-, ctx, run, hctx, hrun, h⟩ := Payroll.compute_eq_ok_iff.1 h
    obtain ⟨log, hlog, ht⟩ := exists_log hrun
    rw [(Payroll.prepared_of_context hctx).concepts_eq, hplan] at hlog
    obtain ⟨net, -, h⟩ := bind_eq_ok.1 h
    rw [pure_eq_ok] at h
    subst h
    exact ht.lines_distinct (hlog ▸ config.nodup_codes)

/-- Of the five retirement concepts of the standard plan only that of the scheme has a
    line, however the scheme is spelled. -/
theorem lines_selected_pension :
    let employee := { Employee.plain with retirementScheme := some "onp" }
    let inputs := Configuration.standard.payrollInputs (.plain (.between 0 6) 6) ⟨.empty⟩ []
    ∃ detail, inputs.concepts = Configuration.standard.concepts ∧
      Payroll.compute employee [.ofHours 0 900] inputs .standard = .ok detail ∧
      (detail.concepts.filter (·.category = .retirement)).map (·.code) = ["ONP"] ∧
      (detail.concepts.filter (·.category = .retirement)).length ≤ 1 ∧
      detail.concepts.Pairwise fun l l' => ¬sameCode l.code l'.code := by
  intro employee inputs
  have hcodes : (Payroll.compute employee [.ofHours 0 900] inputs .standard).map
      (fun d => (d.concepts.filter (·.category = .retirement)).map (·.code)) = .ok ["ONP"] := by
    decide +kernel
  obtain ⟨detail, hdetail, hcodes⟩ := map_eq_ok.1 hcodes
  exact ⟨detail, rfl, hdetail, hcodes,
    lines_selected.2 .standard employee [.ofHours 0 900] inputs .standard detail rfl hdetail⟩

end ConceptRun

end FieldWages
