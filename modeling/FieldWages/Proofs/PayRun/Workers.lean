import FieldWages.PayRun
import Mathlib.Data.List.Perm.Basic
import Mathlib.Logic.Relation

/-!
# Workers

A run under way has employees who wait, employees who are being calculated, each
in one of the places the run has for workers, employees who are calculated, and
employees whose results are in. A free place is given to the next employee who
waits. It is free again as soon as the calculation is over, which may be long
before the result comes in, and later results may overtake it. So with a place at
all, such a run always comes to its end, and the results come in once for each
employee, in any order whatever, with one place as with many.

* `Workers.Step.perm`, `Workers.Step.remaining_lt`: what a step does;
* `Workers.exists_atEnd`: a run can be brought to its end from wherever it is;
* `completes_iff`: the orders in which results can come in.
-/

namespace FieldWages.PayRun

open Relation

/-- The employees of a run under way. -/
structure Workers where
  /-- Those nobody has begun with, in order. -/
  waiting : List EmployeeInput
  /-- Those that are being calculated. -/
  active : List EmployeeInput
  /-- Those that are calculated, but whose results are not in. -/
  finished : List EmployeeInput
  /-- Those whose results are in, in the order they came in. -/
  completed : List EmployeeInput

namespace Workers

/-- The employees of a run that has not begun. -/
def atStart (inputs : List EmployeeInput) : Workers := ⟨inputs, [], [], []⟩

/-- The employees of a run that is over. -/
def atEnd (order : List EmployeeInput) : Workers := ⟨[], [], [], order⟩

/-- All employees of a run. -/
def everyone (w : Workers) : List EmployeeInput :=
  w.waiting ++ (w.active ++ (w.finished ++ w.completed))

/-- How many steps a run still takes: three for each employee who waits, two for each
    who is being calculated, and one for each result that is not in. -/
def remaining (w : Workers) : Nat :=
  3 * w.waiting.length + 2 * w.active.length + w.finished.length

/-- What can happen next in a run with so many places. -/
inductive Step (places : Nat) : Workers → Workers → Prop
  /-- A free place is given to the next employee. -/
  | take {i : EmployeeInput} {waiting active finished completed : List EmployeeInput}
    (free : active.length < places) :
    Step places ⟨i :: waiting, active, finished, completed⟩
      ⟨waiting, active ++ [i], finished, completed⟩
  /-- The calculation of an employee is over, whichever it is. -/
  | finish {i : EmployeeInput} {waiting before after finished completed : List EmployeeInput} :
    Step places ⟨waiting, before ++ i :: after, finished, completed⟩
      ⟨waiting, before ++ after, finished ++ [i], completed⟩
  /-- A result comes in, whichever it is. -/
  | deliver {i : EmployeeInput} {waiting active before after completed : List EmployeeInput} :
    Step places ⟨waiting, active, before ++ i :: after, completed⟩
      ⟨waiting, active, before ++ after, completed ++ [i]⟩

variable {places : Nat} {v w : Workers}

/-- An employee who goes from one list to the end of the next is still there once. -/
theorem perm_move (i : EmployeeInput) (before after next rest : List EmployeeInput) :
    (before ++ after ++ (next ++ [i] ++ rest)).Perm (before ++ i :: after ++ (next ++ rest)) := by
  simp only [List.append_assoc, List.cons_append, List.nil_append]
  refine .append_left before ?_
  rw [← List.append_assoc after, ← List.append_assoc after]
  exact List.perm_middle

/-- A step loses nobody, and calculates nobody twice. -/
theorem Step.perm (h : Step places v w) : w.everyone.Perm v.everyone := by
  cases h with
  | @take i waiting active finished completed => exact perm_move i [] waiting active _
  | @finish i waiting before after finished completed =>
    exact .append_left waiting (perm_move i before after finished completed)
  | @deliver i waiting active before after completed =>
    refine .append_left waiting (.append_left active ?_)
    have hmove := perm_move i before after completed []
    rwa [List.append_nil, List.append_nil] at hmove

theorem Step.remaining_lt (h : Step places v w) : w.remaining < v.remaining := by
  cases h <;> simp only [remaining, List.length_cons, List.length_append, List.length_nil] <;> omega

/-- With a place at all, a run that is not over goes on. -/
theorem exists_step (hplaces : 0 < places) (hw : 0 < w.remaining) : ∃ u, Step places w u := by
  obtain ⟨waiting, active, finished, completed⟩ := w
  cases finished with
  | cons i finished => exact ⟨_, @Step.deliver _ i waiting active [] finished completed⟩
  | nil =>
    cases active with
    | cons i active => exact ⟨_, @Step.finish _ i waiting [] active [] completed⟩
    | nil =>
      cases waiting with
      | cons i waiting => exact ⟨_, .take hplaces⟩
      | nil => cases hw

/-- Wherever a run is, it can be brought to its end. -/
theorem exists_atEnd (hplaces : 0 < places) (w : Workers) :
    ∃ order, ReflTransGen (Step places) w (atEnd order) := by
  induction hn : w.remaining using Nat.strongRecOn generalizing w with
  | ind n ih =>
    rcases Nat.eq_zero_or_pos n with rfl | hpos
    · obtain ⟨waiting, active, finished, completed⟩ := w
      simp only [remaining] at hn
      obtain rfl : waiting = [] := List.length_eq_zero_iff.1 (by omega)
      obtain rfl : active = [] := List.length_eq_zero_iff.1 (by omega)
      obtain rfl : finished = [] := List.length_eq_zero_iff.1 (by omega)
      exact ⟨completed, .refl⟩
    · obtain ⟨u, hu⟩ := exists_step hplaces (hn ▸ hpos)
      obtain ⟨order, horder⟩ := ih u.remaining (hn ▸ hu.remaining_lt) u rfl
      exact ⟨order, .head hu horder⟩

/-- Results that are not in can come in in any order. -/
theorem deliver_perm {order finished : List EmployeeInput} (h : order.Perm finished)
    (done : List EmployeeInput) :
    ReflTransGen (Step places) ⟨[], [], finished, done⟩ (atEnd (done ++ order)) := by
  induction order generalizing finished done with
  | nil =>
    rw [← h.nil_eq, List.append_nil]
    exact .refl
  | cons i order ih =>
    obtain ⟨before, after, rfl⟩ := List.append_of_mem (h.subset List.mem_cons_self)
    have hrest : order.Perm (before ++ after) := (List.perm_cons i).1 (h.trans List.perm_middle)
    have hover := ih hrest (done ++ [i])
    rw [List.append_assoc, List.singleton_append] at hover
    exact .head .deliver hover

end Workers

open Workers

variable {places : Nat} {inputs order : List EmployeeInput}

/-- Whether the results of a run with so many places can come in in this order. -/
def Completes (places : Nat) (inputs order : List EmployeeInput) : Prop :=
  ReflTransGen (Step places) (atStart inputs) (atEnd order)

/-- There is one result for each employee, however the run goes. -/
theorem Completes.perm (h : Completes places inputs order) : order.Perm inputs := by
  suffices ∀ w, ReflTransGen (Step places) (atStart inputs) w → w.everyone.Perm inputs from
    this _ h
  intro w hw
  induction hw with
  | refl => rw [everyone, atStart, List.nil_append, List.nil_append, List.append_nil]
  | tail _ hstep ih => exact hstep.perm.trans ih

/-- With any number of places, the results can come in in every order. -/
theorem completes_iff (hplaces : 0 < places) :
    Completes places inputs order ↔ order.Perm inputs := by
  refine ⟨Completes.perm, fun h => ?_⟩
  -- One place is enough: the employees are calculated one by one before any result comes in.
  suffices ∀ waiting finished, finished ++ waiting = inputs →
      ReflTransGen (Step places) ⟨waiting, [], finished, []⟩ (atEnd order) from this inputs [] rfl
  intro waiting
  induction waiting with
  | nil =>
    rintro finished rfl
    rw [List.append_nil] at h
    exact deliver_perm h []
  | cons i waiting ih =>
    rintro finished rfl
    refine .head (.take hplaces) (.head (@Step.finish _ i waiting [] [] finished []) ?_)
    exact ih (finished ++ [i]) (by rw [List.append_assoc, List.singleton_append])

end FieldWages.PayRun
