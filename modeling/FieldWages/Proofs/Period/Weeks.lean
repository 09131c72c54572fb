import FieldWages.Period
import FieldWages.Proofs.Run
import Mathlib.Data.List.Sort
import Mathlib.Tactic

/-!
# The weeks of a period

A period owns the calendar weeks whose Saturday it contains, each of them once
and in order, and its window of attendance reaches back over all their days. If
periods follow one another without a gap (`Period.Divided`), the weeks of the
period they make up are their weeks, one period after the other.

* `Period.mem_weeks`, `Period.pairwise_weeks`: these weeks and no others, in order;
* `Period.map_saturday_weeks`: there is one for each Saturday of the period;
* `Period.exists_weeks_eq_ok`: they are found, unless the period comes close to
  the first or the last date;
* `Period.mem_window`: the days of a week of the period lie in its window;
* `Period.Divided.weeks_eq_flatMap`, `Period.Divided.existsUnique_period`: how the
  weeks are divided among the periods.
-/

namespace FieldWages

theorem Date.serial_earlier {d e : Date} {days : Nat} (h : d.earlier days = .ok e) :
    e.serial = d.serial - days := by
  rw [Date.earlier] at h
  split at h
  · cases h; exact Date.serial_of_ofSerial? ‹_›
  · contradiction

theorem Date.exists_later_eq_ok (d : Date) (days : Nat) (h : d.serial + days ≤ 95745398) :
    ∃ e, d.later days = .ok e := by
  have := d.first_le
  exact ⟨⟨d.serial + days, by omega, h⟩, by rw [Date.later, Date.ofSerial?, dif_pos ⟨by omega, h⟩]⟩

theorem Date.exists_earlier_eq_ok (d : Date) (days : Nat) (h : -95746130 ≤ d.serial - days) :
    ∃ e, d.earlier days = .ok e := by
  have := d.le_last
  refine ⟨⟨d.serial - days, h, by omega⟩, ?_⟩
  rw [Date.earlier, Date.ofSerial?, dif_pos ⟨h, by omega⟩]

/-- There are no more different dates than the range has. -/
theorem Date.length_le_of_nodup {ds : List Date} (h : ds.Nodup) : ds.length ≤ 191491529 := by
  have hserial : (ds.map Date.serial).Nodup := h.map fun _ _ => Date.ext
  have hsub : (ds.map Date.serial).toFinset ⊆ Finset.Icc (-95746130) 95745398 := by
    intro n hn
    obtain ⟨d, -, rfl⟩ := List.mem_map.1 (List.mem_toFinset.1 hn)
    exact Finset.mem_Icc.2 ⟨d.first_le, d.le_last⟩
  have hcard := Finset.card_le_card hsub
  rwa [List.toFinset_card_of_nodup hserial, List.length_map, Int.card_Icc] at hcard

theorem Date.weekday_eq_saturday_iff {d : Date} : d.weekday = .saturday ↔ d.serial % 7 = 5 := by
  have h₀ := Int.emod_nonneg d.serial (b := 7) (by decide)
  have h₁ := Int.emod_lt_of_pos d.serial (b := 7) (by decide)
  simp only [weekday, daysFromMonday]
  generalize d.serial % 7 = n at *
  interval_cases n <;> simp

theorem Date.isSunday_iff {d : Date} : d.isSunday ↔ d.serial % 7 = 6 := by
  have h₀ := Int.emod_nonneg d.serial (b := 7) (by decide)
  have h₁ := Int.emod_lt_of_pos d.serial (b := 7) (by decide)
  simp only [isSunday, weekday, daysFromMonday, beq_iff_eq]
  generalize d.serial % 7 = n at *
  interval_cases n <;> simp

/-- Whether a week runs from a Monday to the Saturday after it. -/
def Week.IsCalendarWeek (w : Week) : Prop :=
  w.saturday.serial % 7 = 5 ∧ w.monday.serial + 5 = w.saturday.serial

theorem Week.length_days_le {w : Week} (h : w.IsCalendarWeek) : w.days.length ≤ 6 := by
  have hlen := List.length_filterMap_le (fun k : ℕ => Date.ofSerial? (w.monday.serial + k))
    (List.range (w.saturday.serial + 1 - w.monday.serial).toNat)
  rw [List.length_range] at hlen
  have := h.2
  rw [days, Date.through]
  omega

theorem Week.isSunday_eq_false {w : Week} {d : Date} (h : w.IsCalendarWeek) (hd : d ∈ w.days) :
    d.isSunday = false := by
  obtain ⟨h₁, h₂⟩ := Date.mem_through.1 hd
  obtain ⟨hs, hm⟩ := h
  rw [Date.le_iff] at h₁ h₂
  rw [Bool.eq_false_iff, ne_eq, Date.isSunday_iff]
  omega

namespace Period

variable {p : Period} {w : Week} {ws : List Week}

/-! ## Which weeks a period owns -/

theorem mem_weeksFrom {s : Date} {n : Nat} (h : weeksFrom s n = .ok ws) :
    w ∈ ws ↔ w.monday.serial + 5 = w.saturday.serial ∧
      ∃ k < n, w.saturday.serial = s.serial + 7 * (k : Int) := by
  induction n generalizing s ws with
  | zero =>
    cases h
    simp
  | succ n ih =>
    obtain ⟨monday, hm, h⟩ := bind_eq_ok.1 h
    obtain ⟨next, hn, h⟩ := bind_eq_ok.1 h
    obtain ⟨rest, hr, h⟩ := bind_eq_ok.1 h
    cases h
    have hm' := Date.serial_earlier hm
    have hn' := Date.serial_later hn
    -- The first week has the Saturday given, the others have those seven days on.
    rw [List.mem_cons, ih hr]
    constructor
    · rintro (rfl | ⟨hw, k, hk, hs⟩)
      · exact ⟨by simp only [hm']; omega, 0, by omega, by simp⟩
      · exact ⟨hw, k + 1, by omega, by push_cast; omega⟩
    · rintro ⟨hw, k, hk, hs⟩
      cases k with
      | zero =>
        obtain ⟨m, t⟩ := w
        have ht : t = s := Date.ext (by simp only at hs; omega)
        have hmon : m = monday := Date.ext (by simp only at hw hs; omega)
        exact .inl (by rw [ht, hmon])
      | succ k => exact .inr ⟨hw, k, by omega, by push_cast at hs; omega⟩

theorem pairwise_weeksFrom {s : Date} {n : Nat} (h : weeksFrom s n = .ok ws) :
    ws.Pairwise fun v w => v.saturday < w.saturday := by
  induction n generalizing s ws with
  | zero =>
    cases h
    exact .nil
  | succ n ih =>
    obtain ⟨monday, hm, h⟩ := bind_eq_ok.1 h
    obtain ⟨next, hn, h⟩ := bind_eq_ok.1 h
    obtain ⟨rest, hr, h⟩ := bind_eq_ok.1 h
    cases h
    have hn' := Date.serial_later hn
    refine List.pairwise_cons.2 ⟨fun w hw => ?_, ih hr⟩
    obtain ⟨-, k, -, hs⟩ := (mem_weeksFrom hr).1 hw
    rw [Date.lt_iff]
    simp only
    omega

theorem mem_weeks (h : p.weeks = .ok ws) :
    w ∈ ws ↔ w.IsCalendarWeek ∧ p.start ≤ w.saturday ∧ w.saturday ≤ p.stop := by
  obtain ⟨s, hs, h⟩ := bind_eq_ok.1 h
  have hs' := Date.serial_later hs
  simp only [daysToSaturday, Date.daysFromMonday] at hs'
  -- The Saturdays are the numbers that leave five when divided by seven, the
  -- first of them less than a week from the start.
  rw [mem_weeksFrom h, Week.IsCalendarWeek, Date.le_iff, Date.le_iff]
  constructor
  · rintro ⟨hm, k, hk, hw⟩
    exact ⟨⟨by omega, hm⟩, by omega, by omega⟩
  · rintro ⟨⟨hw, hm⟩, h₁, h₂⟩
    exact ⟨hm, ((w.saturday.serial - s.serial) / 7).toNat, by omega, by omega⟩

theorem pairwise_weeks (h : p.weeks = .ok ws) :
    ws.Pairwise fun v w => v.saturday < w.saturday := by
  obtain ⟨s, -, h⟩ := bind_eq_ok.1 h
  exact pairwise_weeksFrom h

theorem exists_weeksFrom_eq_ok {s : Date} {n : Nat} (h₁ : -95746130 + 5 ≤ s.serial)
    (h₂ : s.serial + 7 * (n : Int) ≤ 95745398) : ∃ ws, weeksFrom s n = .ok ws := by
  induction n generalizing s with
  | zero => exact ⟨[], rfl⟩
  | succ n ih =>
    obtain ⟨monday, hm⟩ := Date.exists_earlier_eq_ok s 5 (by omega)
    obtain ⟨next, hn⟩ := Date.exists_later_eq_ok s 7 (by omega)
    have hn' := Date.serial_later hn
    obtain ⟨rest, hr⟩ := ih (s := next) (by omega) (by omega)
    exact ⟨⟨monday, s⟩ :: rest,
      bind_eq_ok.2 ⟨monday, hm, bind_eq_ok.2 ⟨next, hn, bind_eq_ok.2 ⟨rest, hr, rfl⟩⟩⟩⟩

/-- Whether both ends of a period are at least seven days away from the first and
    the last date. -/
def IsInner (p : Period) : Prop :=
  -95746130 + 7 ≤ p.start.serial ∧ p.start.serial + 7 ≤ 95745398 ∧
    p.stop.serial + 7 ≤ 95745398

theorem exists_weeks_eq_ok (h : p.IsInner) : ∃ ws, p.weeks = .ok ws := by
  obtain ⟨h₁, h₂, h₃⟩ := h
  have hd : p.daysToSaturday < 7 := Nat.mod_lt _ (by decide)
  obtain ⟨s, hs⟩ := Date.exists_later_eq_ok p.start p.daysToSaturday (by omega)
  have hs' := Date.serial_later hs
  -- The Saturday behind the last week is no more than seven days behind the end.
  obtain ⟨ws, hws⟩ := exists_weeksFrom_eq_ok (s := s)
    (n := ((p.stop.serial - s.serial + 7) / 7).toNat) (by omega) (by omega)
  exact ⟨ws, bind_eq_ok.2 ⟨s, hs, hws⟩⟩

/-- No period has as many weeks as a word of 32 bits can count. -/
theorem length_weeks_lt (h : p.weeks = .ok ws) : ws.length < UInt32.size := by
  -- The Saturdays are as many different dates.
  have hnodup : (ws.map (·.saturday)).Nodup := by
    refine List.pairwise_map.2 ((pairwise_weeks h).imp fun hvw heq => ?_)
    exact Std.lt_irrefl (heq ▸ hvw)
  have hle := Date.length_le_of_nodup hnodup
  rw [List.length_map] at hle
  exact lt_of_le_of_lt hle (by decide)

/-- The Saturdays of the period, in order. -/
def saturdays (p : Period) : List Date := p.days.filter (·.weekday = .saturday)

/-- A period that is not too close to the first date owns the week of each of its
    Saturdays. -/
theorem map_saturday_weeks (hp : p.IsInner)
    (h : p.weeks = .ok ws) : ws.map (·.saturday) = p.saturdays := by
  have : Std.Irrefl (α := Date) (· < ·) := ⟨fun d => Int.lt_irrefl _⟩
  have : Std.Antisymm (α := Date) (· < ·) :=
    ⟨fun d e hde hed => absurd hde (Int.not_lt.2 (Int.le_of_lt hed))⟩
  refine List.Pairwise.eq_of_mem_iff (r := (· < ·)) ?_ ?_ fun d => ?_
  · exact List.pairwise_map.2 (pairwise_weeks h)
  · exact Date.pairwise_through.filter _
  · rw [List.mem_map, saturdays, List.mem_filter, decide_eq_true_iff, days, Date.mem_through,
      Date.weekday_eq_saturday_iff]
    constructor
    · rintro ⟨w, hw, rfl⟩
      obtain ⟨hcal, hin⟩ := (mem_weeks h).1 hw
      exact ⟨hin, hcal.1⟩
    · rintro ⟨hin, hd⟩
      obtain ⟨hfirst, -⟩ := hp
      have hin' := hin.1
      have hlast := d.le_last
      rw [Date.le_iff] at hin'
      exact ⟨⟨⟨d.serial - 5, by omega, by omega⟩, d⟩,
        (mem_weeks h).2 ⟨⟨hd, Int.sub_add_cancel ..⟩, hin⟩, rfl⟩

/-! ## The window of attendance -/

/-- The window of attendance of a period does not begin behind it. -/
theorem windowStart_le {first : Date} (hf : p.windowStart = .ok first) : first ≤ p.start := by
  obtain ⟨ws, -, hf⟩ := bind_eq_ok.1 hf
  rw [pure_eq_ok] at hf
  subst hf
  cases ws with
  | nil => exact Int.le_refl _
  | cons w ws =>
    simp only [Date.min, Date.le_iff, Date.lt_iff]
    split <;> omega

/-- The window of attendance of a period reaches over all days of its weeks. -/
theorem mem_window {first d : Date} (h : p.weeks = .ok ws) (hf : p.windowStart = .ok first)
    (hw : w ∈ ws) (hd : d ∈ w.days) : first ≤ d ∧ d ≤ p.stop := by
  obtain ⟨hm, hs⟩ := Date.mem_through.1 hd
  obtain ⟨hcal, -, hstop⟩ := (mem_weeks h).1 hw
  refine ⟨?_, Int.le_trans hs hstop⟩
  obtain ⟨ws', h', hf⟩ := bind_eq_ok.1 hf
  cases h.symm.trans h'
  rw [pure_eq_ok] at hf
  cases ws with
  | nil => cases hw
  | cons v ws =>
    have hv : first ≤ v.monday := by
      rw [← hf, Date.le_iff]
      simp only [Date.min, Date.lt_iff]
      split <;> omega
    refine Int.le_trans hv (Int.le_trans ?_ hm)
    -- The first week has the first Saturday, hence the first Monday.
    rcases List.mem_cons.1 hw with rfl | hw
    · exact Int.le_refl _
    · obtain ⟨hvcal, -⟩ := (mem_weeks h).1 List.mem_cons_self
      have hvw : v.saturday < w.saturday := List.rel_of_pairwise_cons (pairwise_weeks h) hw
      rw [Date.lt_iff] at hvw
      obtain ⟨-, hvm⟩ := hvcal
      obtain ⟨-, hwm⟩ := hcal
      omega

/-! ## Periods that follow one another -/

/-- Whether a period is made up of the given ones: none of them is empty, and each
    begins on the day after the one before. -/
inductive Divided : Period → List Period → Prop
  | whole {p : Period} (h : p.start ≤ p.stop) : Divided p [p]
  | cut {p q : Period} {ps : List Period} (h : p.start ≤ p.stop)
      (next : q.start.serial = p.stop.serial + 1) (rest : Divided q ps) :
      Divided ⟨p.start, q.stop⟩ (p :: ps)

namespace Divided

variable {ps : List Period}

theorem start_le_stop (h : Divided p ps) : p.start ≤ p.stop := by
  induction h with
  | whole h => exact h
  | cut h next _ ih =>
    simp only [Date.le_iff] at *
    omega

theorem start_le_stop_of_mem (h : Divided p ps) {q : Period} (hq : q ∈ ps) :
    q.start ≤ q.stop := by
  induction h with
  | whole h => exact List.mem_singleton.1 hq ▸ h
  | cut h _ _ ih =>
    rcases List.mem_cons.1 hq with rfl | hq
    · exact h
    · exact ih hq

theorem within (h : Divided p ps) {q : Period} (hq : q ∈ ps) :
    p.start ≤ q.start ∧ q.stop ≤ p.stop := by
  induction h with
  | whole _ =>
    rw [List.mem_singleton.1 hq]
    exact ⟨Int.le_refl _, Int.le_refl _⟩
  | cut h next rest ih =>
    have hrest := rest.start_le_stop
    simp only [Date.le_iff] at *
    rcases List.mem_cons.1 hq with rfl | hq
    · exact ⟨by omega, by omega⟩
    · have := ih hq
      exact ⟨by omega, by omega⟩

/-- Each of the periods ends before those behind it begin. -/
theorem pairwise (h : Divided p ps) : ps.Pairwise fun q r => q.stop < r.start := by
  induction h with
  | whole _ => exact List.pairwise_singleton ..
  | cut _ next rest ih =>
    refine List.pairwise_cons.2 ⟨fun r hr => ?_, ih⟩
    have := (rest.within hr).1
    rw [Date.le_iff] at this
    rw [Date.lt_iff]
    omega

/-- Every date of the whole is in one of the periods. -/
theorem exists_mem (h : Divided p ps) {d : Date} (h₁ : p.start ≤ d) (h₂ : d ≤ p.stop) :
    ∃ q ∈ ps, q.start ≤ d ∧ d ≤ q.stop := by
  induction h with
  | whole _ => exact ⟨_, List.mem_singleton_self _, h₁, h₂⟩
  | @cut p q ps _ next _ ih =>
    by_cases hd : d ≤ p.stop
    · exact ⟨p, List.mem_cons_self, h₁, hd⟩
    · -- A date behind the first period is in the rest.
      have hq : q.start ≤ d := by
        rw [Date.le_iff] at *
        omega
      obtain ⟨r, hr, hrd⟩ := ih hq h₂
      exact ⟨r, List.mem_cons_of_mem _ hr, hrd⟩

/-- No date is in two of the periods. -/
theorem eq_of_mem (h : Divided p ps) {q r : Period} {d : Date} (hq : q ∈ ps) (hr : r ∈ ps)
    (hqd : q.start ≤ d ∧ d ≤ q.stop) (hrd : r.start ≤ d ∧ d ≤ r.stop) : q = r := by
  have hlt : ∀ {q r : Period}, q.stop < r.start → d ≤ q.stop → ¬r.start ≤ d := by
    intro q r hqr hdq hrd
    exact Int.lt_irrefl _ (Int.lt_of_lt_of_le hqr (Int.le_trans hrd hdq))
  refine List.Pairwise.forall_of_forall_of_flip (l := ps)
    (R := fun q r => q.start ≤ d ∧ d ≤ q.stop → r.start ≤ d ∧ d ≤ r.stop → q = r)
    (fun _ _ _ _ => rfl) ?_ ?_ hq hr hqd hrd
  · exact h.pairwise.imp fun hqr hq hr => absurd hr.1 (hlt hqr hq.2)
  · exact h.pairwise.imp fun hqr hr hq => absurd hr.1 (hlt hqr hq.2)

theorem isInner (h : Divided p ps) (hp : p.IsInner) {q : Period} (hq : q ∈ ps) : q.IsInner := by
  obtain ⟨h₁, h₂⟩ := h.within hq
  have hle := h.start_le_stop_of_mem hq
  obtain ⟨hp₁, -, hp₃⟩ := hp
  rw [Date.le_iff] at *
  exact ⟨by omega, by omega, by omega⟩

variable {weeks : Period → List Week}

/-- The weeks of the whole are those of the periods, one period after the other. -/
theorem weeks_eq_flatMap (h : Divided p ps) (hp : p.weeks = .ok (weeks p))
    (hps : ∀ q ∈ ps, q.weeks = .ok (weeks q)) : weeks p = ps.flatMap weeks := by
  -- Both lists ascend, so it is enough that they have the same members.
  let R : Week → Week → Prop := fun v w => v.saturday < w.saturday
  have : Std.Irrefl R := ⟨fun w => Int.lt_irrefl _⟩
  have : Std.Antisymm R := ⟨fun v w hvw hwv => absurd hvw (Int.not_lt.2 (Int.le_of_lt hwv))⟩
  refine List.Pairwise.eq_of_mem_iff (r := R) (pairwise_weeks hp) ?_ fun w => ?_
  · refine List.pairwise_flatMap.2 ⟨fun q hq => pairwise_weeks (hps q hq), ?_⟩
    refine h.pairwise.imp_of_mem fun {q r} hq hr hqr v hv w hw => ?_
    obtain ⟨-, -, hvq⟩ := (mem_weeks (hps q hq)).1 hv
    obtain ⟨-, hwr, -⟩ := (mem_weeks (hps r hr)).1 hw
    exact Int.lt_of_le_of_lt hvq (Int.lt_of_lt_of_le hqr hwr)
  · rw [mem_weeks hp, List.mem_flatMap]
    constructor
    · rintro ⟨hcal, h₁, h₂⟩
      obtain ⟨q, hq, hqw⟩ := h.exists_mem h₁ h₂
      exact ⟨q, hq, (mem_weeks (hps q hq)).2 ⟨hcal, hqw⟩⟩
    · rintro ⟨q, hq, hqw⟩
      obtain ⟨hcal, h₁, h₂⟩ := (mem_weeks (hps q hq)).1 hqw
      obtain ⟨hstart, hstop⟩ := h.within hq
      exact ⟨hcal, Int.le_trans hstart h₁, Int.le_trans h₂ hstop⟩

/-- Every week of the whole is a week of exactly one of the periods. -/
theorem existsUnique_period (h : Divided p ps) (hp : p.weeks = .ok (weeks p))
    (hps : ∀ q ∈ ps, q.weeks = .ok (weeks q)) (hw : w ∈ weeks p) :
    ∃! q, q ∈ ps ∧ w ∈ weeks q := by
  obtain ⟨hcal, h₁, h₂⟩ := (mem_weeks hp).1 hw
  obtain ⟨q, hq, hqw⟩ := h.exists_mem h₁ h₂
  refine ⟨q, ⟨hq, (mem_weeks (hps q hq)).2 ⟨hcal, hqw⟩⟩, ?_⟩
  rintro r ⟨hr, hwr⟩
  obtain ⟨-, hrw⟩ := (mem_weeks (hps r hr)).1 hwr
  exact h.eq_of_mem hr hq hrw hqw

end Divided

end Period

end FieldWages
