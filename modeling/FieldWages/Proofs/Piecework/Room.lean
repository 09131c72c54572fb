import FieldWages.Proofs.Faults
import FieldWages.Proofs.Piecework.Score

/-!
# Room for counts

Units are counted in words of 64 bits. An entry has fewer than `2 ^ 32` units and a labor a
minimum below that, so there is room for what `2 ^ 32` entries add up to: on a date, and
over all dates together. With no more entries than that, only a decimal can get out of range
in the piecework of a period.

* `Piece.sum_countOn_le`: the units of all dates;
* `PieceworkSummary.ofAttendance_stopsBy`: what stops the piecework;
* `PieceworkSummary.exists_excessUnits_eq_ok`: the units that are paid have room.
-/

namespace FieldWages

open Piece PieceworkTally

/-- Whether a fault is that of a decimal out of range, or of a count that more than `2 ^ 32` of
    `n` entries add up to. -/
def Fault.IsOverflowOf (n : Nat) (f : Fault) : Prop :=
  f.IsOverflow ∨ f = .countOverflow ∧ 2 ^ 32 < n

/-- Fewer units than `2 ^ 32` for each of `n` entries have room in a word. -/
theorem Count.word64_stopsBy_of_le {m n : Nat} (h : m ≤ (2 ^ 32 - 1) * n) :
    StopsBy (Fault.IsOverflowOf n) (word64 m) := by
  refine (word64_stopsBy m).mono fun f hf => .inr ⟨hf.1, ?_⟩
  have hsize : 2 ^ 64 ≤ m := hf.2
  by_contra hn
  have : (2 ^ 32 - 1) * n ≤ (2 ^ 32 - 1) * 2 ^ 32 := Nat.mul_le_mul_left _ (Nat.not_lt.1 hn)
  omega

namespace Piece

variable {xs : List Piece}

theorem sum_units_le (xs : List Piece) :
    (xs.map (·.units.toNat)).sum ≤ (2 ^ 32 - 1) * xs.length := by
  rw [← Count.total_eq_sum]
  exact Count.total_le fun x _ => Nat.le_sub_one_of_lt x.units.toNat_lt

/-- The units of different dates are no more than all units. -/
theorem sum_countOn_le (xs : List Piece) (ds : Finset Date) :
    ∑ d ∈ ds, countOn xs d ≤ (xs.map (·.units.toNat)).sum := by
  induction xs using List.reverseRecOn with
  | nil => exact (Finset.sum_eq_zero fun _ _ => rfl).le
  | append_singleton xs x ih =>
    simp only [countOn_concat, Finset.sum_add_distrib, Finset.sum_ite_eq, List.map_append,
      List.sum_append, List.map_singleton, List.sum_singleton]
    refine Nat.add_le_add ih ?_
    split
    · exact le_rfl
    · exact Nat.zero_le _

theorem countOn_le (xs : List Piece) (d : Date) : countOn xs d ≤ (2 ^ 32 - 1) * xs.length := by
  have hle := sum_countOn_le xs {d}
  rw [Finset.sum_singleton] at hle
  exact hle.trans (sum_units_le xs)

theorem card_laborsOn_le (xs : List Piece) (d : Date) : (laborsOn xs d).card ≤ xs.length := by
  refine (List.toFinset_card_le _).trans ?_
  rw [List.length_map]
  exact List.length_filter_le _ _

theorem length_piecesOf_le (labors : LaborCatalog) (p : Period) (es : List AttendanceEntry) :
    (piecesOf labors p es).length ≤ es.length := List.length_filterMap_le _ _

end Piece

namespace PieceworkDay

variable {xs : List Piece} {d : Date} {labors : LaborCounts}

/-- No more units are above the minimums than are counted. -/
theorem sum_laborExcess_le (h : (tallyOf xs).get? d = some labors) :
    (labors.values.map laborExcess).sum ≤ countOn xs d := by
  rw [← sum_values_units h]
  exact List.sum_le_sum fun labor _ => Nat.sub_le _ _

/-- The minimums of a date have room if its entries do. -/
theorem sum_minimum_le (h : (tallyOf xs).get? d = some labors) :
    (labors.values.map (·.2.minimum.toNat)).sum ≤ (2 ^ 32 - 1) * xs.length := by
  rw [sum_values h]
  refine (Finset.sum_le_card_nsmul _ _ (2 ^ 32 - 1) fun id _ => ?_).trans ?_
  · cases termsOf? xs d id with
    | none => exact Nat.zero_le _
    | some terms => exact Nat.le_sub_one_of_lt terms.minimum.toNat_lt
  · rw [smul_eq_mul, Nat.mul_comm]
    exact Nat.mul_le_mul_left _ (card_laborsOn_le xs d)

theorem piecePercent_stopsBy {K : Fault → Prop} (c m : UInt64) : StopsBy K (piecePercent c m) := by
  by_cases hm : m = 0
  · rw [piecePercent, if_pos hm]
    exact .ok _
  · obtain ⟨q, hq, -⟩ := piecePercent_spec c hm
    exact .of_eq_ok hq

/-- What the counts of a date are stopped by, beside decimals, is what stops their sums. -/
theorem ofCounts_stopsBy_of_sums {K : Fault → Prop} (hoverflow : ∀ f : Fault, f.IsOverflow → K f)
    (hcount : StopsBy K (Count.word64 (labors.values.map (·.1)).sum))
    (hminimum : StopsBy K (Count.word64 (labors.values.map (·.2.minimum.toNat)).sum))
    (hexcess : ∀ n ≤ (labors.values.map laborExcess).sum, StopsBy K (Count.word64 n)) :
    StopsBy K (ofCounts d labors) := by
  rw [ofCounts]
  simp only [Count.total_eq_sum]
  refine hcount.bind fun count _ => hminimum.bind fun minimum _ => ?_
  refine (hexcess _ le_rfl).bind fun units _ => ?_
  refine .bind (.foldlM fun _ labor hlabor sum _ => ?_) fun pay _ => ?_
  · -- The excess of one labor is part of that of the date.
    have hle : laborExcess labor ≤ (labors.values.map laborExcess).sum :=
      List.single_le_sum (fun _ _ => Nat.zero_le _) _ (List.mem_map_of_mem hlabor)
    refine .bind (hexcess _ hle) fun units _ => ?_
    refine .bind ((Decimal.mul_stopsBy _ _).mono hoverflow) fun pay _ => ?_
    exact (Decimal.add_stopsBy _ _).mono hoverflow
  · exact .bind (piecePercent_stopsBy _ _) fun percent _ => .ok _

/-- The piecework of a date is stopped by decimals only, unless it has too many entries. -/
theorem ofCounts_stopsBy {n : Nat} (h : (tallyOf xs).get? d = some labors) (hn : xs.length ≤ n) :
    StopsBy (Fault.IsOverflowOf n) (ofCounts d labors) := by
  have hroom : (2 ^ 32 - 1) * xs.length ≤ (2 ^ 32 - 1) * n := Nat.mul_le_mul_left _ hn
  have hcount := (countOn_le xs d).trans hroom
  have hexcess := (sum_laborExcess_le h).trans hcount
  refine ofCounts_stopsBy_of_sums (fun _ => .inl) ?_ ?_ fun m hm => ?_
  · rw [sum_values_units h]
    exact Count.word64_stopsBy_of_le hcount
  · exact Count.word64_stopsBy_of_le ((sum_minimum_le h).trans hroom)
  · exact Count.word64_stopsBy_of_le (hm.trans hexcess)

theorem excessUnits_le {day : PieceworkDay} (h : (tallyOf xs).get? d = some labors)
    (hday : ofCounts d labors = .ok day) : day.excessUnits.toNat ≤ countOn xs d :=
  (excess_ofCounts hday).1.trans_le (sum_laborExcess_le h)

end PieceworkDay

namespace PieceworkSummary

variable {es : List AttendanceEntry} {labors : LaborCatalog} {p : Period} {s : PieceworkSummary}

/-- The piecework of a period is stopped by decimals only, unless it has too many entries. -/
theorem ofAttendance_stopsBy (es : List AttendanceEntry) (labors : LaborCatalog) (p : Period) :
    StopsBy (Fault.IsOverflowOf es.length) (ofAttendance es labors p) := by
  have hcounts : (es.foldl (addEntry labors p) .none).counts = tallyOf (piecesOf labors p es) :=
    counts_foldl labors p es .none
  refine .bind (.mapM fun e he => ?_) fun days _ => ?_
  · rw [hcounts] at he
    exact PieceworkDay.ofCounts_stopsBy (SortedMap.get?_of_mem he) (length_piecesOf_le labors p es)
  · exact .bind ((Decimal.sum_stopsBy _).mono fun _ => .inl) fun total _ => .ok _

/-- A date of a summary pays for no more units than are counted on it. -/
theorem excessUnits_le_of_mem (h : ofAttendance es labors p = .ok s) {e : Date × PieceworkDay}
    (he : e ∈ s.days.entries) : e.2.excessUnits.toNat ≤ countOn (piecesOf labors p es) e.1 := by
  obtain ⟨counts, hcounted, hofCounts⟩ := exists_counts_of_get? h (SortedMap.get?_of_mem he)
  exact PieceworkDay.excessUnits_le hcounted hofCounts

/-- The units that are paid have room, unless there are too many entries. -/
theorem exists_excessUnits_eq_ok (h : ofAttendance es labors p = .ok s)
    (hlength : es.length ≤ 2 ^ 32) : ∃ n, s.excessUnits = .ok n := by
  have hle : (s.days.values.map (·.excessUnits.toNat)).sum ≤
      (2 ^ 32 - 1) * es.length := by
    calc (s.days.values.map (·.excessUnits.toNat)).sum
        = (s.days.entries.map (·.2.excessUnits.toNat)).sum := by
          rw [SortedMap.values, List.map_map]
          rfl
      _ ≤ (s.days.entries.map fun e => countOn (piecesOf labors p es) e.1).sum :=
          List.sum_le_sum fun e he => excessUnits_le_of_mem h he
      _ = ∑ d ∈ s.days.keys.toFinset, countOn (piecesOf labors p es) d := by
          rw [List.sum_toFinset _ s.days.nodup_keys, SortedMap.keys, List.map_map]
          rfl
      _ ≤ (2 ^ 32 - 1) * (piecesOf labors p es).length :=
          (sum_countOn_le _ _).trans (sum_units_le _)
      _ ≤ (2 ^ 32 - 1) * es.length := Nat.mul_le_mul_left _ (length_piecesOf_le labors p es)
  rw [← Count.total_eq_sum] at hle
  cases hunits : s.excessUnits with
  | ok n => exact ⟨n, rfl⟩
  | error f =>
    rcases Count.word64_stopsBy_of_le hle f hunits with hoverflow | ⟨-, hlt⟩
    · obtain ⟨rfl, -⟩ := Count.word64_stopsBy _ f hunits
      cases hoverflow
    · exact absurd hlt (Nat.not_lt.2 hlength)

end PieceworkSummary

end FieldWages
