import FieldWages.Payroll
import FieldWages.Proofs.Piecework.Room
import FieldWages.Proofs.SameWork.Piecework

/-!
# Erased data

Much of what is known of an employee, their attendance, the labors, the calendar and the
plan is optional, and can be erased. What is left of an entry counts for the same piece as
before or for none, so the pieces that are left are some of those there were: fewer units are
counted on a date, of fewer labors, and no more of them are above the minimums. There is room
for these counts if there was room for the ones before.

* `LaborCatalog.ErasesTo.sublist_piecesOf`: the pieces that are left;
* `PieceworkTally.sum_values_le`: what is counted on a date only goes down;
* `PieceworkSummary.ofAttendance_stopsBy_of_erasesTo`,
  `PieceworkSummary.exists_excessUnits_of_erasesTo`: the piecework that is left has room.
-/

namespace FieldWages

/-- Whether an optional datum is kept or erased. -/
def KeptOrErased {α : Type} (x x' : Option α) : Prop := x' = x ∨ x' = none

theorem KeptOrErased.mem {α : Type} {x x' : Option α} (h : KeptOrErased x x') {a : α}
    (ha : a ∈ x') : a ∈ x := by
  rcases h with rfl | rfl
  · exact ha
  · cases ha

/-- Whether an employee is the same but for data that are erased. -/
structure Employee.ErasesTo (e e' : Employee) : Prop where
  monthlySalary : KeptOrErased e.monthlySalary e'.monthlySalary
  retirementScheme : KeptOrErased e.retirementScheme e'.retirementScheme
  healthScheme : KeptOrErased e.healthScheme e'.healthScheme
  others : e' =
    { e with
      monthlySalary := e'.monthlySalary
      retirementScheme := e'.retirementScheme
      healthScheme := e'.healthScheme }

/-- Whether an entry is the same but for data that are erased. -/
structure AttendanceEntry.ErasesTo (e e' : AttendanceEntry) : Prop where
  startTime : KeptOrErased e.startTime e'.startTime
  endTime : KeptOrErased e.endTime e'.endTime
  paidHours : KeptOrErased e.paidHours e'.paidHours
  productivityCount : KeptOrErased e.productivityCount e'.productivityCount
  laborId : KeptOrErased e.laborId e'.laborId
  others : e' =
    { e with
      startTime := e'.startTime
      endTime := e'.endTime
      paidHours := e'.paidHours
      productivityCount := e'.productivityCount
      laborId := e'.laborId }

/-- Whether a labor is the same but for data that are erased. -/
structure Labor.ErasesTo (l l' : Labor) : Prop where
  minTaskRequirement : KeptOrErased l.minTaskRequirement l'.minTaskRequirement
  basePrice : KeptOrErased l.basePrice l'.basePrice
  others : l' = { l with minTaskRequirement := l'.minTaskRequirement, basePrice := l'.basePrice }

/-- Whether a catalogue has some of the labors of another one, with data that are erased. -/
def LaborCatalog.ErasesTo (c c' : LaborCatalog) : Prop :=
  ∀ id, ∀ l' ∈ c'.find? id, ∃ l ∈ c.find? id, l.ErasesTo l'

/-- Whether a calendar mentions some of the days of another one. -/
def WorkCalendar.ErasesTo (c c' : WorkCalendar) : Prop :=
  ∀ d, KeptOrErased (c.day? d) (c'.day? d)

/-- Whether a concept is the same but for data that are erased. -/
structure Concept.ErasesTo (c c' : Concept) : Prop where
  value : KeptOrErased c.value c'.value
  description : KeptOrErased c.description c'.description
  others : c' = { c with value := c'.value, description := c'.description }

/-- Whether inputs are the same but for data that are erased. -/
structure PayrollInputs.ErasesTo (i i' : PayrollInputs) : Prop where
  parameters : i'.parameters = i.parameters
  calendar : i.calendar.ErasesTo i'.calendar
  labors : i.labors.ErasesTo i'.labors
  concepts : List.Forall₂ Concept.ErasesTo i.concepts i'.concepts

/-! ## Pieces -/

theorem Labor.ErasesTo.terms?_eq_some {l l' : Labor} (h : l.ErasesTo l') {terms : PieceworkTerms}
    (hterms : l'.terms? = some terms) : l.terms? = some terms := by
  rw [Labor.terms?] at hterms ⊢
  split at hterms
  · next minimum price hpiecework hminimum hprice =>
    have hpiecework' : l'.isPiecework = l.isPiecework := (congrArg Labor.isPiecework h.others :)
    rw [← hpiecework', hpiecework, h.minTaskRequirement.mem hminimum, h.basePrice.mem hprice]
    exact hterms
  · cases hterms

variable {labors labors' : LaborCatalog} {p : Period} {es es' : List AttendanceEntry}

namespace LaborCatalog.ErasesTo

variable (hl : labors.ErasesTo labors')

include hl

/-- A labor that still has terms has the ones it had. -/
theorem terms?_eq_some {id : String} {terms : PieceworkTerms}
    (hterms : labors'.terms? id = some terms) : labors.terms? id = some terms := by
  obtain ⟨labor', hlabor', hterms⟩ := Option.bind_eq_some_iff.1 hterms
  obtain ⟨labor, hlabor, herases⟩ := hl id labor' hlabor'
  exact Option.bind_eq_some_iff.2 ⟨labor, hlabor, herases.terms?_eq_some hterms⟩

/-- An entry that still counts for a piece has counted for the same one. -/
theorem piece?_eq_some {e e' : AttendanceEntry} (he : e.ErasesTo e') {x : Piece}
    (hx : e'.piece? labors' p = some x) : e.piece? labors p = some x := by
  have hdate : e'.workDate = e.workDate := (congrArg AttendanceEntry.workDate he.others :)
  obtain ⟨hp, hd, hid, hunits, hterms⟩ := Piece.piece?_eq_some_iff.1 hx
  rw [hdate] at hp hd
  exact Piece.piece?_eq_some_iff.2
    ⟨hp, hd, he.laborId.mem hid, he.productivityCount.mem hunits, hl.terms?_eq_some hterms⟩

/-- The pieces that are left are some of those there were. -/
theorem sublist_piecesOf (hes : List.Forall₂ AttendanceEntry.ErasesTo es es') :
    (piecesOf labors' p es').Sublist (piecesOf labors p es) := by
  induction hes with
  | nil => exact .slnil
  | @cons e e' es es' he _ ih =>
    rw [piecesOf_cons, piecesOf_cons]
    refine .append ?_ ih
    cases hx : e'.piece? labors' p with
    | none => exact List.nil_sublist _
    | some x => rw [hl.piece?_eq_some he hx]

end LaborCatalog.ErasesTo

/-! ## Counts -/

namespace Piece

variable {xs ys : List Piece} {d : Date}

theorem laborsOn_subset (h : ys.Sublist xs) (d : Date) : laborsOn ys d ⊆ laborsOn xs d := by
  intro id hid
  obtain ⟨x, hx, hxd⟩ := mem_laborsOn.1 hid
  exact mem_laborsOn.2 ⟨x, h.subset hx, hxd⟩

theorem unitsOf_le (h : ys.Sublist xs) (d : Date) (id : String) :
    unitsOf ys d id ≤ unitsOf xs d id :=
  ((h.filter _).map _).sum_le_sum fun _ _ => Nat.zero_le _

end Piece

open Piece PieceworkTally

variable {d : Date} (hl : labors.ErasesTo labors')
  (hes : List.Forall₂ AttendanceEntry.ErasesTo es es')

include hl hes

/-- Of a labor that is still counted on a date there are no more units, by the same terms. -/
theorem PieceworkTally.exists_lookup_of_erasesTo {id : String} {labor : Nat × PieceworkTerms}
    (h : lookup (tallyOf (piecesOf labors' p es')) d id = some labor) :
    ∃ n, lookup (tallyOf (piecesOf labors p es)) d id = some (n, labor.2) ∧ labor.1 ≤ n := by
  have hsub := hl.sublist_piecesOf (p := p) hes
  rw [lookup_tallyOf, Option.map_eq_some_iff] at h
  obtain ⟨terms, hterms, rfl⟩ := h
  have hid : id ∈ laborsOn (piecesOf labors' p es') d := isSome_termsOf?.1 (by rw [hterms]; rfl)
  have hid' := laborsOn_subset hsub d hid
  -- The terms of a labor are those of its catalogue, whatever pieces it is counted with.
  rw [termsOf?_piecesOf hid] at hterms
  refine ⟨unitsOf (piecesOf labors p es) d id, ?_, unitsOf_le hsub d id⟩
  rw [lookup_tallyOf, termsOf?_piecesOf hid', hl.terms?_eq_some hterms]
  rfl

/-- What the units of labors come to on a date only goes down, if fewer units do not come to
    more. -/
theorem PieceworkTally.sum_values_le {counts counts' : LaborCounts}
    (h : (tallyOf (piecesOf labors p es)).get? d = some counts)
    (h' : (tallyOf (piecesOf labors' p es')).get? d = some counts')
    {f : Nat × PieceworkTerms → Nat} (hf : ∀ terms, Monotone fun n => f (n, terms)) :
    (counts'.values.map f).sum ≤ (counts.values.map f).sum := by
  refine SortedMap.sum_values_le fun e he => ?_
  have hlookup : lookup (tallyOf (piecesOf labors' p es')) d e.1 = some e.2 := by
    rw [lookup, h', Option.bind_some, SortedMap.get?_of_mem he]
  obtain ⟨n, hn, hle⟩ := exists_lookup_of_erasesTo hl hes hlookup
  rw [lookup, h, Option.bind_some] at hn
  exact ⟨_, hn, hf e.2.2 hle⟩

/-! ## Room -/

namespace PieceworkDay

variable {day : PieceworkDay} {counts counts' : LaborCounts}

/-- The excess of a date only goes down. -/
theorem sum_laborExcess_le_of_erasesTo
    (h : (tallyOf (piecesOf labors p es)).get? d = some counts)
    (h' : (tallyOf (piecesOf labors' p es')).get? d = some counts') :
    (counts'.values.map laborExcess).sum ≤ (counts.values.map laborExcess).sum :=
  PieceworkTally.sum_values_le hl hes h h' fun _ _ _ hle => Nat.sub_le_sub_right hle _

/-- A date that was judged is stopped by decimals only with data erased. -/
theorem ofCounts_stopsBy_of_erasesTo (h : (tallyOf (piecesOf labors p es)).get? d = some counts)
    (h' : (tallyOf (piecesOf labors' p es')).get? d = some counts')
    (hday : ofCounts d counts = .ok day) : StopsBy Fault.IsOverflow (ofCounts d counts') := by
  obtain ⟨-, hcount, hminimum, -⟩ := ofCounts_eq_ok hday
  obtain ⟨hexcess, -⟩ := excess_ofCounts hday
  -- A sum has room below one that was found.
  have hroom : ∀ {m n : Nat} {w : UInt64}, m ≤ n → w.toNat = n →
      StopsBy Fault.IsOverflow (Count.word64 m) := by
    intro m n w hle hw
    obtain ⟨v, hv⟩ := Count.exists_word64_of_le hle (Count.word64_eq_ok_iff.2 hw)
    exact .of_eq_ok hv
  refine ofCounts_stopsBy_of_sums (fun _ hf => hf) ?_ ?_ fun n hn => ?_
  · exact hroom (PieceworkTally.sum_values_le hl hes h h' fun _ _ _ hle => hle) hcount
  · exact hroom (PieceworkTally.sum_values_le hl hes h h' fun _ _ _ _ => le_rfl) hminimum
  · exact hroom (hn.trans (sum_laborExcess_le_of_erasesTo hl hes h h')) hexcess

end PieceworkDay

namespace PieceworkSummary

variable {s s' : PieceworkSummary}

/-- A date that is still counted on has been judged. -/
theorem exists_day_of_erasesTo (h : ofAttendance es labors p = .ok s) {counts' : LaborCounts}
    (h' : (tallyOf (piecesOf labors' p es')).get? d = some counts') :
    ∃ counts day, (tallyOf (piecesOf labors p es)).get? d = some counts ∧
      s.days.get? d = some day ∧ PieceworkDay.ofCounts d counts = .ok day := by
  obtain ⟨x, hx, hd⟩ := mem_keys_tallyOf.1 (SortedMap.isSome_get?.1 (by rw [h']; rfl))
  have hqualifies : Qualifies (piecesOf labors p es) d :=
    ⟨x, (hl.sublist_piecesOf hes).subset hx, hd⟩
  obtain ⟨day, hday⟩ := Option.isSome_iff_exists.1 ((isSome_get?_days h).2 hqualifies)
  obtain ⟨counts, hcounts, hofCounts⟩ := exists_counts_of_get? h hday
  exact ⟨counts, day, hcounts, hday, hofCounts⟩

/-- Piecework that was found is stopped by decimals only with data erased. -/
theorem ofAttendance_stopsBy_of_erasesTo (h : ofAttendance es labors p = .ok s) :
    StopsBy Fault.IsOverflow (ofAttendance es' labors' p) := by
  have hcounts : (es'.foldl (addEntry labors' p) .none).counts = tallyOf (piecesOf labors' p es') :=
    counts_foldl labors' p es' .none
  refine .bind (.mapM fun e he => ?_) fun days _ => .bind (Decimal.sum_stopsBy _) fun _ _ => .ok _
  rw [hcounts] at he
  have hget' := SortedMap.get?_of_mem he
  obtain ⟨counts, day, hget, -, hday⟩ := exists_day_of_erasesTo hl hes h hget'
  exact PieceworkDay.ofCounts_stopsBy_of_erasesTo hl hes hget hget' hday

/-- The units above the minimums have room with data erased if they had it before. -/
theorem exists_excessUnits_of_erasesTo (h : ofAttendance es labors p = .ok s)
    (h' : ofAttendance es' labors' p = .ok s') (hunits : ∃ n, s.excessUnits = .ok n) :
    ∃ n, s'.excessUnits = .ok n := by
  obtain ⟨n, hunits⟩ := hunits
  refine Count.exists_word64_of_le ?_ hunits
  rw [Count.total_eq_sum, Count.total_eq_sum]
  refine SortedMap.sum_values_le fun e he => ?_
  obtain ⟨counts', hget', hofCounts'⟩ := exists_counts_of_get? h' (SortedMap.get?_of_mem he)
  obtain ⟨counts, day, hget, hday, hofCounts⟩ := exists_day_of_erasesTo hl hes h hget'
  refine ⟨day, hday, ?_⟩
  rw [(PieceworkDay.excess_ofCounts hofCounts).1, (PieceworkDay.excess_ofCounts hofCounts').1]
  exact PieceworkDay.sum_laborExcess_le_of_erasesTo hl hes hget hget'

end PieceworkSummary

end FieldWages
