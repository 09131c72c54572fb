import FieldWages.Proofs.Payroll
import FieldWages.Proofs.Period.Weeks
import FieldWages.Proofs.Sample

/-!
# Rest days of divided periods

How a week is evaluated depends on which of its own days were worked, and the
window of attendance of the period that owns the week reaches over all of them.
So a week is evaluated alike in whatever period it is in, and if a period is
divided, each of its weeks is evaluated in one of the parts, as it is in the
whole.

* `RestDayWeek.ofWeek_congr`: only the days of the week count;
* `Payroll.restDayWeeks_eq_map`: the weeks of a period, evaluated by all of the
  attendance there is;
* `Payroll.restDayWeeks_divided`: the weeks that are paid, when a period is divided.
-/

namespace FieldWages

/-- Two lists that agree on the days of a week evaluate it alike. -/
theorem RestDayWeek.ofWeek_congr {w : Week} {worked worked' : List Date} (c : WorkCalendar)
    (h : ∀ d ∈ w.days, d ∈ worked ↔ d ∈ worked') : ofWeek w worked c = ofWeek w worked' c := by
  have hmissing : ((w.days.filter c.isWorkingDay).filter fun d => !worked.contains d) =
      (w.days.filter c.isWorkingDay).filter fun d => !worked'.contains d := by
    refine List.filter_congr fun d hd => ?_
    have := h d (List.mem_of_mem_filter hd)
    rw [List.contains_eq_mem, List.contains_eq_mem, decide_eq_decide.2 this]
  simp only [ofWeek, hmissing]

/-- A complete week stays complete with more dates worked. -/
theorem RestDayWeek.complete_mono {w : Week} {worked worked' : List Date} {c : WorkCalendar}
    (h : ∀ d ∈ worked, d ∈ worked') (hw : (ofWeek w worked c).complete) :
    (ofWeek w worked' c).complete := by
  simp only [ofWeek, Bool.and_eq_true, List.isEmpty_iff, List.filter_eq_nil_iff,
    List.contains_eq_mem, Bool.not_eq_true', decide_eq_false_iff_not, not_not] at hw ⊢
  exact ⟨hw.1, fun d hd => h d (hw.2 d hd)⟩

theorem RestDaySummary.ofPeriod_eq_ok {p : Period} {worked : List Date} {c : WorkCalendar}
    {rate : Decimal} {s : RestDaySummary} (h : ofPeriod p worked c rate = .ok s) :
    ∃ ws, p.weeks = .ok ws ∧ s.weeks = ws.map (RestDayWeek.ofWeek · worked c) ∧
      s.completeWeeks = .ofNat (s.weeks.countP (·.complete)) := by
  obtain ⟨ws, hws, h⟩ := bind_eq_ok.1 h
  obtain ⟨bonus, -, h⟩ := bind_eq_ok.1 h
  rw [pure_eq_ok] at h
  subst h
  exact ⟨ws, hws, rfl, rfl⟩

/-- The same inputs for another period. -/
def PayrollInputs.over (inputs : PayrollInputs) (p : Period) : PayrollInputs :=
  { inputs with parameters := { inputs.parameters with period := p } }

namespace Payroll

variable {employee : Employee} {attendance : List AttendanceEntry} {inputs : PayrollInputs}
  {registry : Registry} {ctx : PayContext} {p : Period} {ws : List Week}

/-- The dates with paid attendance. -/
def paidDates (attendance : List AttendanceEntry) : List Date :=
  (attendance.filter (·.paidHours.isSome)).map (·.workDate)

/-- How a week is attended by the whole of the attendance. -/
def attended (attendance : List AttendanceEntry) (c : WorkCalendar) (w : Week) : RestDayWeek :=
  .ofWeek w (paidDates attendance) c

theorem mem_attendedDates {first last d : Date} :
    d ∈ attendedDates attendance first last ↔
      d ∈ paidDates attendance ∧ first ≤ d ∧ d ≤ last := by
  rw [attendedDates, ← paidDates, List.mem_filter, Bool.and_eq_true, decide_eq_true_iff,
    decide_eq_true_iff]

/-- A period evaluates each of its weeks as the whole of the attendance does. -/
theorem restDayWeeks_eq_map (h : context employee attendance (inputs.over p) = .ok ctx)
    (hws : p.weeks = .ok ws) :
    ctx.restDays.weeks = ws.map (attended attendance inputs.calendar) := by
  obtain ⟨first, hfirst, h⟩ := (prepared_of_context h).restDays
  obtain ⟨ws', hws', h, -⟩ := RestDaySummary.ofPeriod_eq_ok h
  cases hws.symm.trans hws'
  rw [h]
  refine List.map_congr_left fun w hw => RestDayWeek.ofWeek_congr _ fun d hd => ?_
  rw [mem_attendedDates]
  exact ⟨fun h => h.1, fun h => ⟨h, Period.mem_window hws hfirst hw hd⟩⟩

/-- A detail counts the complete weeks of its period, without a carry lost. -/
theorem restDayWeeks_eq_countP {detail : PayrollDetail}
    (h : compute employee attendance (inputs.over p) registry = .ok detail)
    (hws : p.weeks = .ok ws) :
    detail.restDayWeeks.toNat =
      ws.countP fun w => (attended attendance inputs.calendar w).complete := by
  obtain ⟨ctx, hctx, -, hd, -⟩ := compute_spec h
  have hweeks := restDayWeeks_eq_map hctx hws
  obtain ⟨_, _, hctx⟩ := (prepared_of_context hctx).restDays
  obtain ⟨_, _, _, hcomplete⟩ := RestDaySummary.ofPeriod_eq_ok hctx
  rw [hd, hcomplete, hweeks, List.countP_map, UInt32.toNat_ofNat_of_lt']
  · rfl
  · -- The word the weeks are counted in has room for them.
    exact lt_of_le_of_lt List.countP_le_length (Period.length_weeks_lt hws)

/-- The details of several periods count the complete weeks of them all. -/
theorem sum_restDayWeeks {ps : List Period} {weeks : Period → List Week}
    {details : List PayrollDetail} (hws : ∀ p ∈ ps, p.weeks = .ok (weeks p))
    (h : List.Forall₂ (fun p d => compute employee attendance (inputs.over p) registry = .ok d)
      ps details) :
    (details.map (·.restDayWeeks.toNat)).sum = (ps.flatMap weeks).countP fun w =>
      (attended attendance inputs.calendar w).complete := by
  induction h with
  | nil => rfl
  | cons hd _ ih =>
    rw [List.forall_mem_cons] at hws
    rw [List.map_cons, List.sum_cons, List.flatMap_cons, List.countP_append, ih hws.2,
      restDayWeeks_eq_countP hd hws.1]

/-- Whether an input is refused is the same for every period that is not empty. -/
theorem refusal?_over {q : Period} (hp : p.start ≤ p.stop) (hq : q.start ≤ q.stop) :
    refusal? employee attendance (inputs.over p).parameters =
      refusal? employee attendance (inputs.over q).parameters := by
  have hp : ¬(inputs.over p).parameters.period.stop < (inputs.over p).parameters.period.start :=
    Int.not_lt.2 hp
  have hq : ¬(inputs.over q).parameters.period.stop < (inputs.over q).parameters.period.start :=
    Int.not_lt.2 hq
  rw [refusal?, refusal?, if_neg hp, if_neg hq]
  rfl

/-- How the weeks of a period, and their evaluations, are divided among the periods
    it is made up of. -/
structure WeeksDivided (employee : Employee) (attendance : List AttendanceEntry)
    (inputs : PayrollInputs) (whole : Period) (ps : List Period)
    (weeks : Period → List Week) : Prop where
  /-- The weeks of the periods are these. -/
  found : ∀ p ∈ whole :: ps, p.weeks = .ok (weeks p)
  /-- None is lost, none repeated, and they stay in order. -/
  joined : weeks whole = ps.flatMap weeks
  one : ∀ w ∈ weeks whole, ∃! p, p ∈ ps ∧ w ∈ weeks p
  /-- The period of a week is the one with its Saturday. -/
  owner : ∀ w ∈ weeks whole, ∀ p ∈ ps, w ∈ weeks p ↔ p.contains w.saturday
  /-- The periods evaluate their weeks by one and the same function of the week. -/
  evaluated : ∀ p ∈ whole :: ps, ∀ ctx, context employee attendance (inputs.over p) = .ok ctx →
    ctx.restDays.weeks = (weeks p).map (attended attendance inputs.calendar)

/-- If a period is divided, the parts are accepted if the whole is, every week is
    evaluated in one of the parts, and as many weeks are paid as in the whole. -/
theorem restDayWeeks_divided (employee : Employee) (attendance : List AttendanceEntry)
    (inputs : PayrollInputs) (registry : Registry) {whole : Period} {ps : List Period}
    (hdivided : whole.Divided ps) (hinner : whole.IsInner) :
    (∀ p ∈ ps, refusal? employee attendance (inputs.over p).parameters =
        refusal? employee attendance (inputs.over whole).parameters) ∧
      (∃ weeks, WeeksDivided employee attendance inputs whole ps weeks) ∧
      ∀ detail details,
        compute employee attendance (inputs.over whole) registry = .ok detail →
        List.Forall₂ (fun p d => compute employee attendance (inputs.over p) registry = .ok d)
          ps details →
        detail.restDayWeeks.toNat = (details.map (·.restDayWeeks.toNat)).sum := by
  have hfound : ∀ p ∈ whole :: ps, ∃ ws, p.weeks = .ok ws := by
    refine List.forall_mem_cons.2 ⟨Period.exists_weeks_eq_ok hinner, fun p hp => ?_⟩
    exact Period.exists_weeks_eq_ok (hdivided.isInner hinner hp)
  -- From here on `weeks p` are the weeks of the period `p`.
  choose! weeks hweeks using hfound
  obtain ⟨hwhole, hps⟩ := List.forall_mem_cons.1 hweeks
  have hjoined := hdivided.weeks_eq_flatMap hwhole hps
  refine ⟨fun p hp => ?_, ⟨weeks, hweeks, hjoined, ?_, ?_, ?_⟩, ?_⟩
  · exact refusal?_over (hdivided.start_le_stop_of_mem hp) hdivided.start_le_stop
  · exact fun w hw => hdivided.existsUnique_period hwhole hps hw
  · intro w hw p hp
    obtain ⟨hcal, -⟩ := (Period.mem_weeks hwhole).1 hw
    rw [Period.mem_weeks (hps p hp), Period.contains, Bool.and_eq_true, decide_eq_true_iff,
      decide_eq_true_iff]
    exact ⟨fun h => h.2, fun h => ⟨hcal, h⟩⟩
  · exact fun p hp ctx hctx => restDayWeeks_eq_map hctx (hweeks p hp)
  · intro detail details hdetail hdetails
    rw [restDayWeeks_eq_countP hdetail hwhole, hjoined, sum_restDayWeeks hps hdetails]

/-- Eight hours on each day of two weeks but the second Saturday and the Sundays. -/
def twoWeeksAttendance : List AttendanceEntry :=
  [0, 1, 2, 3, 4, 5, 7, 8, 9, 10, 11].map (AttendanceEntry.ofHours · 800)

/-- Two weeks cut on a Wednesday and on the Wednesday after it: the first week is
    paid once, by the second part, and the second week is not. -/
theorem restDayWeeks_divided_twoWeeks :
    let inputs := PayrollInputs.plain (.between 0 13) 12
    let compute p := compute .plain twoWeeksAttendance (inputs.over p) .empty
    ∃ whole a b c,
      compute (.between 0 13) = .ok whole ∧ compute (.between 0 2) = .ok a ∧
      compute (.between 3 9) = .ok b ∧ compute (.between 10 13) = .ok c ∧
      whole.restDayWeeks = 1 ∧
      whole.restDayWeeks.toNat = ([a, b, c].map (·.restDayWeeks.toNat)).sum := by
  intro inputs compute
  have hdivided : (Period.between 0 13).Divided [.between 0 2, .between 3 9, .between 10 13] :=
    .cut (p := .between 0 2) (q := .between 3 13) (by decide) (by decide)
      (.cut (p := .between 3 9) (q := .between 10 13) (by decide) (by decide)
        (.whole (by decide)))
  have hinner : (Period.between 0 13).IsInner := ⟨by decide, by decide, by decide⟩
  have hwhole : (compute (.between 0 13)).map (·.restDayWeeks) = .ok 1 := by decide +kernel
  have ha : (compute (.between 0 2)).map (·.restDayWeeks) = .ok 0 := by decide +kernel
  have hb : (compute (.between 3 9)).map (·.restDayWeeks) = .ok 1 := by decide +kernel
  have hc : (compute (.between 10 13)).map (·.restDayWeeks) = .ok 0 := by decide +kernel
  obtain ⟨whole, hwhole, hone⟩ := map_eq_ok.1 hwhole
  obtain ⟨a, ha, -⟩ := map_eq_ok.1 ha
  obtain ⟨b, hb, -⟩ := map_eq_ok.1 hb
  obtain ⟨c, hc, -⟩ := map_eq_ok.1 hc
  exact ⟨whole, a, b, c, hwhole, ha, hb, hc, hone,
    (restDayWeeks_divided _ _ _ _ hdivided hinner).2.2 whole [a, b, c] hwhole
      (.cons ha (.cons hb (.cons hc .nil)))⟩

end Payroll

end FieldWages
