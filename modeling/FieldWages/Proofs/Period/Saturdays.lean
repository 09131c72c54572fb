import FieldWages.Date.Civil
import FieldWages.Proofs.Period.Weeks

/-!
# From Saturday to Saturday

The weeks of a period are met on a walk from its first Saturday to the next one, and on by seven
days, until the period is over (`Period.Walk`). How many of them there are can be told before, so
the walk has an end, and away from the first and the last date no step of it leaves the range.
What it finds are the Saturdays of the period, each with the Monday before it.

* `Period.walk_weeksFrom`, `Period.Walk.unique`: the walk comes to the weeks counted before, or
  to the fault of its first step out of range, and to nothing else;
* `Period.windowStart_eq_ok`, `Period.lt_windowStart_add`: where the window of attendance begins;
* `Period.weeks_laidOut`: how weeks and window of a period lie.
-/

namespace FieldWages

theorem Date.weekday_eq_monday_iff {d : Date} : d.weekday = .monday ↔ d.serial % 7 = 0 := by
  have h₀ := Int.emod_nonneg d.serial (b := 7) (by decide)
  have h₁ := Int.emod_lt_of_pos d.serial (b := 7) (by decide)
  simp only [weekday, daysFromMonday]
  generalize d.serial % 7 = n at *
  interval_cases n <;> simp

namespace Period

variable {p : Period} {ws : List Week} {stop s first : Date}

/-! ## The walk -/

/-- A walk from one Saturday to the next until it is behind `stop`, and what it comes to: a week
    for each Saturday it meets, or the fault of the first step that leaves the range. -/
inductive Walk (stop : Date) : Date → Except Fault (List Week) → Prop
  | behind {s : Date} (h : stop < s) : Walk stop s (.ok [])
  | week {s monday next : Date} {rest : Except Fault (List Week)} (h : s ≤ stop)
    (hmonday : s.earlier 5 = .ok monday) (hnext : s.later 7 = .ok next)
    (hrest : Walk stop next rest) : Walk stop s (rest.map (⟨monday, s⟩ :: ·))
  | noMonday {s : Date} {f : Fault} (h : s ≤ stop) (hmonday : s.earlier 5 = .error f) :
    Walk stop s (.error f)
  | noNext {s monday : Date} {f : Fault} (h : s ≤ stop) (hmonday : s.earlier 5 = .ok monday)
    (hnext : s.later 7 = .error f) : Walk stop s (.error f)

/-- How many Saturdays a walk to `stop` meets, the first of them `s`. -/
def weeksTo (stop s : Date) : Nat := ((stop.serial - s.serial + 7) / 7).toNat

/-- The weeks counted before are those that the walk meets. -/
theorem walk_weeksFrom (stop s : Date) : Walk stop s (weeksFrom s (weeksTo stop s)) := by
  generalize hn : weeksTo stop s = n
  induction n generalizing s with
  | zero =>
    have hlt : stop < s := by
      rw [weeksTo] at hn
      rw [Date.lt_iff]
      omega
    exact .behind hlt
  | succ n ih =>
    have hle : s ≤ stop := by
      rw [weeksTo] at hn
      rw [Date.le_iff]
      omega
    rw [weeksFrom]
    cases hmonday : s.earlier 5 with
    | error f => exact .noMonday hle hmonday
    | ok monday =>
      cases hnext : s.later 7 with
      | error f => exact .noNext hle hmonday hnext
      | ok next =>
        -- Seven days on there is one Saturday less to be met.
        have hfewer : weeksTo stop next = n := by
          have := Date.serial_later hnext
          rw [weeksTo] at hn ⊢
          omega
        exact .week hle hmonday hnext (ih next hfewer)

/-- A walk comes to one thing only. -/
theorem Walk.unique {x y : Except Fault (List Week)} (hx : Walk stop s x) (hy : Walk stop s y) :
    x = y := by
  induction hx generalizing y with
  | behind hlt =>
    cases hy with
    | behind _ => rfl
    | week hle _ _ _ => exact absurd hle (Std.not_le.2 hlt)
    | noMonday hle _ => exact absurd hle (Std.not_le.2 hlt)
    | noNext hle _ _ => exact absurd hle (Std.not_le.2 hlt)
  | week hle hmonday hnext _ ih =>
    cases hy with
    | behind hlt => exact absurd hle (Std.not_le.2 hlt)
    | week _ hmonday' hnext' hrest =>
      cases hmonday.symm.trans hmonday'
      cases hnext.symm.trans hnext'
      rw [ih hrest]
    | noMonday _ hmonday' => cases hmonday.symm.trans hmonday'
    | noNext _ _ hnext' => cases hnext.symm.trans hnext'
  | noMonday hle hmonday =>
    cases hy with
    | behind hlt => exact absurd hle (Std.not_le.2 hlt)
    | week _ hmonday' _ _ => cases hmonday.symm.trans hmonday'
    | noMonday _ hmonday' => cases hmonday.symm.trans hmonday'; rfl
    | noNext _ hmonday' _ => cases hmonday.symm.trans hmonday'
  | noNext hle hmonday hnext =>
    cases hy with
    | behind hlt => exact absurd hle (Std.not_le.2 hlt)
    | week _ _ hnext' _ => cases hnext.symm.trans hnext'
    | noMonday _ hmonday' => cases hmonday.symm.trans hmonday'
    | noNext _ _ hnext' => cases hnext.symm.trans hnext'; rfl

/-- The weeks of a period are what the walk from its first Saturday comes to. -/
theorem walk_iff_of_weeks (h : p.weeks = .ok ws) :
    ∃ saturday, p.start.later p.daysToSaturday = .ok saturday ∧
      ∀ x, Walk p.stop saturday x ↔ x = .ok ws := by
  obtain ⟨saturday, hsaturday, h⟩ := bind_eq_ok.1 h
  have hwalk := walk_weeksFrom p.stop saturday
  rw [weeksTo, h] at hwalk
  exact ⟨saturday, hsaturday, fun x => ⟨fun hx => hx.unique hwalk, fun hx => hx ▸ hwalk⟩⟩

/-! ## Weeks and window -/

theorem isChain_weeksFrom {n : Nat} (h : weeksFrom s n = .ok ws) :
    ws.IsChain (fun v w => w.saturday.serial = v.saturday.serial + 7) ∧
      ∀ w ∈ ws.head?, w.saturday = s := by
  induction n generalizing s ws with
  | zero =>
    cases h
    exact ⟨.nil, fun w hw => by cases hw⟩
  | succ n ih =>
    obtain ⟨monday, -, h⟩ := bind_eq_ok.1 h
    obtain ⟨next, hnext, h⟩ := bind_eq_ok.1 h
    obtain ⟨rest, hrest, h⟩ := bind_eq_ok.1 h
    cases h
    obtain ⟨hchain, hhead⟩ := ih hrest
    refine ⟨List.isChain_cons.2 ⟨fun w hw => ?_, hchain⟩, fun w hw => by cases hw; rfl⟩
    have hserial := Date.serial_later hnext
    rw [hhead w hw, hserial]
    rfl

theorem isChain_weeks (h : p.weeks = .ok ws) :
    ws.IsChain fun v w => w.saturday.serial = v.saturday.serial + 7 := by
  obtain ⟨saturday, -, h⟩ := bind_eq_ok.1 h
  exact (isChain_weeksFrom h).1

theorem windowStart_eq_ok (h : p.weeks = .ok ws) (hfirst : p.windowStart = .ok first) :
    first = p.start ∨ ∃ w ∈ ws.head?, first = w.monday := by
  obtain ⟨ws', h', hfirst⟩ := bind_eq_ok.1 hfirst
  cases h.symm.trans h'
  rw [pure_eq_ok] at hfirst
  subst hfirst
  cases ws with
  | nil => exact .inl rfl
  | cons w ws =>
    dsimp only [Date.min]
    split
    · exact .inl rfl
    · exact .inr ⟨w, rfl, rfl⟩

/-- The window of attendance begins less than six days before the period. -/
theorem lt_windowStart_add (h : p.weeks = .ok ws) (hfirst : p.windowStart = .ok first) :
    p.start.serial < first.serial + 6 := by
  rcases windowStart_eq_ok h hfirst with rfl | ⟨w, hw, rfl⟩
  · omega
  · -- The Saturday of the first week is in the period.
    obtain ⟨⟨-, hmonday⟩, hstart, -⟩ := (mem_weeks h).1 (List.mem_of_mem_head? hw)
    rw [Date.le_iff] at hstart
    omega

/-- How weeks and window of a period lie. -/
structure LaidOut (p : Period) (ws : List Week) (first : Date) : Prop where
  /-- The Saturdays of the weeks are those of the period. -/
  saturdays : ∀ d, d ∈ ws.map (·.saturday) ↔ p.start ≤ d ∧ d ≤ p.stop ∧ d.weekday = .saturday
  ascending : (ws.map (·.saturday)).Pairwise (· < ·)
  weekly : ws.IsChain fun v w => w.saturday.serial = v.saturday.serial + 7
  mondays : ∀ w ∈ ws, w.monday.weekday = .monday ∧ w.monday.serial + 5 = w.saturday.serial
  none_of_inverted : p.stop < p.start → ws = []
  first_le : first ≤ p.start
  lt_first_add : p.start.serial < first.serial + 6
  first_eq : first = p.start ∨ ∃ w ∈ ws.head?, first = w.monday
  /-- The days of the weeks are in the window, and none is a Sunday. -/
  days : ∀ w ∈ ws, ∀ d ∈ w.days, first ≤ d ∧ d ≤ p.stop ∧ d.weekday ≠ .sunday

theorem laidOut (hp : p.IsInner) (h : p.weeks = .ok ws) (hfirst : p.windowStart = .ok first) :
    p.LaidOut ws first where
  saturdays d := by
    rw [map_saturday_weeks hp h, saturdays, List.mem_filter, decide_eq_true_iff, Period.days,
      Date.mem_through, and_assoc]
  ascending := List.pairwise_map.2 (pairwise_weeks h)
  weekly := isChain_weeks h
  mondays w hw := by
    obtain ⟨⟨hsaturday, hmonday⟩, -⟩ := (mem_weeks h).1 hw
    rw [Date.weekday_eq_monday_iff]
    exact ⟨by omega, hmonday⟩
  none_of_inverted hlt := by
    refine List.eq_nil_iff_forall_not_mem.2 fun w hw => ?_
    obtain ⟨-, hstart, hstop⟩ := (mem_weeks h).1 hw
    exact Std.not_le.2 hlt (Std.le_trans hstart hstop)
  first_le := windowStart_le hfirst
  lt_first_add := lt_windowStart_add h hfirst
  first_eq := windowStart_eq_ok h hfirst
  days w hw d hd := by
    obtain ⟨hlow, hhigh⟩ := mem_window h hfirst hw hd
    have hsunday := Week.isSunday_eq_false ((mem_weeks h).1 hw).1 hd
    rw [Date.isSunday, beq_eq_false_iff_ne] at hsunday
    exact ⟨hlow, hhigh, hsunday⟩

/-- Away from the first and the last date, the walk from the first Saturday of a period comes to
    its weeks, without a step out of range and whether or not the period is inverted: they have
    the Saturdays of the period, seven days apart, and the window of attendance reaches over
    all their days. -/
theorem weeks_laidOut (hp : p.IsInner) :
    ∃ saturday ws first, p.start.later p.daysToSaturday = .ok saturday ∧
      (∀ x, Walk p.stop saturday x ↔ x = .ok ws) ∧ p.weeks = .ok ws ∧
      p.windowStart = .ok first ∧ p.LaidOut ws first := by
  obtain ⟨ws, hws⟩ := exists_weeks_eq_ok hp
  obtain ⟨saturday, hsaturday, hwalk⟩ := walk_iff_of_weeks hws
  obtain ⟨first, hfirst⟩ : ∃ first, p.windowStart = .ok first :=
    ⟨_, bind_eq_ok.2 ⟨ws, hws, rfl⟩⟩
  exact ⟨saturday, ws, first, hsaturday, hwalk, hws, hfirst, laidOut hp hws hfirst⟩

/-- From a Wednesday before a leap day there are two Saturdays to a Wednesday in March, and the
    week of the first begins on a Monday before the period. -/
theorem weeks_laidOut_leapDay :
    let p : Period := ⟨{ serial := 738943 }, { serial := 738957 }⟩
    p.start.civil = ⟨2024, 2, 28⟩ ∧ p.stop.civil = ⟨2024, 3, 13⟩ ∧ p.IsInner ∧
      ∃ ws first, p.weeks = .ok ws ∧ p.windowStart = .ok first ∧ p.LaidOut ws first ∧
        ws.map (fun w => (w.monday.civil, w.saturday.civil)) =
          [(⟨2024, 2, 26⟩, ⟨2024, 3, 2⟩), (⟨2024, 3, 4⟩, ⟨2024, 3, 9⟩)] ∧
        first.civil = ⟨2024, 2, 26⟩ := by
  intro p
  have hinner : p.IsInner := ⟨by decide, by decide, by decide⟩
  have hfound : p.weeks.map (fun ws => ws.map fun w => (w.monday.civil, w.saturday.civil)) =
      .ok [(⟨2024, 2, 26⟩, ⟨2024, 3, 2⟩), (⟨2024, 3, 4⟩, ⟨2024, 3, 9⟩)] := by decide +kernel
  have hwindow : p.windowStart.map (·.civil) = .ok ⟨2024, 2, 26⟩ := by decide +kernel
  obtain ⟨-, ws, first, -, -, hws, hfirst, hlaid⟩ := weeks_laidOut hinner
  rw [hws] at hfound
  rw [hfirst] at hwindow
  exact ⟨by decide +kernel, by decide +kernel, hinner, ws, first, hws, hfirst, hlaid,
    Except.ok.inj hfound, Except.ok.inj hwindow⟩

end Period

end FieldWages
