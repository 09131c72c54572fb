import FieldWages.Proofs.Decimal.Sum
import FieldWages.Proofs.Piecework.Room
import FieldWages.Proofs.SameWork.Piecework

/-!
# Units above the minimum

Each labor of a date has its own minimum, and only the units above that are paid, at the
price of the labor; a labor that falls short takes nothing from another. What the labors of
a date come to is given to the hundredth, and the dates are added up from there. All of it
is found from the pieces of the attendance by date and labor, in whatever order they come.

* `Piece.excessOn`, `Piece.excessPayOn`: the units above the minimums, and their pay;
* `PieceworkDay.toRat_foldlM_addPay`: the pay of the labors of a date;
* `PieceworkSummary.accounts_of_ofAttendance`: what a summary shows of each date;
* `PieceworkSummary.ofAttendance_accounts`: the piecework of a period, with room for all of
  its counts.
-/

namespace FieldWages

namespace Piece

/-- The units of a date above the minimums, labor by labor. -/
def excessOn (labors : LaborCatalog) (xs : List Piece) (d : Date) : ℕ :=
  ∑ id ∈ laborsOn xs d,
    ((labors.terms? id).map fun terms => unitsOf xs d id - terms.minimum.toNat).getD 0

/-- What they are paid, each at the price of its labor. -/
def excessPayOn (labors : LaborCatalog) (xs : List Piece) (d : Date) : ℚ :=
  ∑ id ∈ laborsOn xs d, ((labors.terms? id).map fun terms =>
    ((unitsOf xs d id - terms.minimum.toNat : ℕ) : ℚ) * terms.price.toRat).getD 0

end Piece

open Piece PieceworkTally

variable {es : List AttendanceEntry} {labors : LaborCatalog} {p : Period} {d : Date}

/-- A date has pieces if an entry of it has a count, and of a labor with terms. -/
theorem qualifies_piecesOf_iff : Qualifies (piecesOf labors p es) d ↔
    p.contains d ∧ ∃ e ∈ es, e.workDate = d ∧ e.productivityCount.isSome ∧
      ∃ id ∈ e.laborId, (labors.terms? id).isSome := by
  constructor
  · rintro ⟨x, hx, rfl⟩
    obtain ⟨e, he, hpiece⟩ := List.mem_filterMap.1 hx
    obtain ⟨hp, hd, hlabor, hunits, hterms⟩ := piece?_eq_some_iff.1 hpiece
    rw [hd]
    exact ⟨hp, e, he, rfl, by rw [hunits]; rfl, x.laborId, hlabor, by rw [hterms]; rfl⟩
  · rintro ⟨hp, e, he, rfl, hunits, id, hlabor, hterms⟩
    obtain ⟨units, hunits⟩ := Option.isSome_iff_exists.1 hunits
    obtain ⟨terms, hterms⟩ := Option.isSome_iff_exists.1 hterms
    have hpiece : e.piece? labors p = some ⟨e.workDate, id, units, terms⟩ :=
      piece?_eq_some_iff.2 ⟨hp, rfl, hlabor, hunits, hterms⟩
    exact ⟨_, List.mem_filterMap.2 ⟨e, he, hpiece⟩, rfl⟩

/-! ## The pay of a date -/

namespace PieceworkDay

/-- Whether the pay of a labor is found and added to a sum without a digit dropped. -/
def PayExact (sum : Decimal) (labor : Nat × PieceworkTerms) : Prop :=
  ∀ units, Count.word64 (laborExcess labor) = .ok units →
    (Decimal.ofUInt64 units).MultipliesExactly labor.2.price ∧
      ∀ pay, (Decimal.ofUInt64 units).mul labor.2.price = .ok pay → sum.AddsExactly pay

instance (sum : Decimal) (labor : Nat × PieceworkTerms) : Decidable (PayExact sum labor) :=
  inferInstanceAs (Decidable (∀ _, _ → _ ∧ ∀ _, _ → _))

/-- A labor is paid its units above the minimum, each at its price. -/
theorem toRat_addPay {sum sum' : Decimal} {labor : Nat × PieceworkTerms}
    (hexact : PayExact sum labor) (h : addPay sum labor = .ok sum') :
    sum'.toRat = sum.toRat + laborExcess labor * labor.2.price.toRat := by
  obtain ⟨units, hunits, h⟩ := bind_eq_ok.1 h
  obtain ⟨pay, hpay, h⟩ := bind_eq_ok.1 h
  obtain ⟨hproduct, hsum⟩ := hexact units hunits
  rw [hsum pay hpay sum' h, hproduct pay hpay, Decimal.toRat_ofUInt64,
    Count.word64_eq_ok_iff.1 hunits]

/-- The labors of a date are paid one by one. -/
theorem toRat_foldlM_addPay {counts : LaborCounts} {pay : Decimal}
    (hexact : Along addPay PayExact .zero counts.values)
    (h : counts.values.foldlM addPay .zero = .ok pay) :
    pay.toRat = (counts.values.map fun labor =>
      (laborExcess labor : ℚ) * labor.2.price.toRat).sum := by
  have hsum := foldlM_eq_add_sum (μ := Decimal.toRat) h hexact fun _ _ _ => toRat_addPay
  rwa [Decimal.toRat_zero, zero_add] at hsum

end PieceworkDay

/-! ## The pay of a period -/

namespace PieceworkSummary

variable {s : PieceworkSummary}

theorem scale_excessPay_le (h : ofAttendance es labors p = .ok s) :
    ∀ day ∈ s.days.values, day.excessPay.scale ≤ 2 := by
  intro day hday
  obtain ⟨e, -, hday⟩ := (mem_of_mapM_eq_ok (ofAttendance_spec h).1).1 hday
  obtain ⟨-, pay, -, hpay⟩ := PieceworkDay.excess_ofCounts hday
  rw [hpay]
  exact pay.scale_toHundredths_le

/-- The pay of the days is in hundredths, and so is their sum. -/
theorem scale_totalExcessPay_le (h : ofAttendance es labors p = .ok s) :
    s.totalExcessPay.scale ≤ 2 :=
  Decimal.scale_foldlM_add_le (Nat.zero_le 2)
    (List.forall_mem_map.2 (scale_excessPay_le h)) (ofAttendance_spec h).2.2.2

theorem toRat_totalExcessPay (h : ofAttendance es labors p = .ok s)
    (hexact : Along Decimal.add Decimal.AddsExactly .zero (s.days.values.map (·.excessPay))) :
    s.totalExcessPay.toRat = (s.days.values.map (·.excessPay.toRat)).sum := by
  rw [Decimal.toRat_sum hexact (ofAttendance_spec h).2.2.2, List.map_map]
  rfl

/-- Whether the units of a period are paid without a digit dropped: those of each labor, of
    the labors of a date, and of the dates. -/
structure PaysExactly (es : List AttendanceEntry) (labors : LaborCatalog) (p : Period) : Prop where
  days : ∀ counts ∈ (es.foldl (PieceworkTally.addEntry labors p) .none).counts.values,
    Along PieceworkDay.addPay PieceworkDay.PayExact .zero counts.values
  total : ∀ s, ofAttendance es labors p = .ok s →
    Along Decimal.add Decimal.AddsExactly .zero (s.days.values.map (·.excessPay))

/-- Whether a summary accounts for the attendance of a period: its dates are those on which
    units of labors with terms are counted, and each has its units, the minimums of its
    labors, and what is above them, with the pay for it. -/
structure Accounts (es : List AttendanceEntry) (labors : LaborCatalog) (p : Period)
    (s : PieceworkSummary) : Prop where
  mem_keys : ∀ d, d ∈ s.days.keys ↔
    p.contains d ∧ ∃ e ∈ es, e.workDate = d ∧ e.productivityCount.isSome ∧
      ∃ id ∈ e.laborId, (labors.terms? id).isSome
  date : ∀ d day, s.days.get? d = some day → day.date = d
  count : ∀ d day, s.days.get? d = some day → day.count.toNat = countOn (piecesOf labors p es) d
  minimum : ∀ d day, s.days.get? d = some day →
    day.minimum.toNat = minimumOn labors (piecesOf labors p es) d
  excessUnits : ∀ d day, s.days.get? d = some day →
    day.excessUnits.toNat = excessOn labors (piecesOf labors p es) d
  excessPay : ∀ d day, s.days.get? d = some day →
    day.excessPay.toRat = nearestHundredth (excessPayOn labors (piecesOf labors p es) d)
  totalExcessPay : s.totalExcessPay.toRat = (s.days.values.map (·.excessPay.toRat)).sum

/-- What is found of a date is what is above the minimums of its labors, and the pay for it. -/
theorem excess_of_get?_days {day : PieceworkDay} (h : ofAttendance es labors p = .ok s)
    (hexact : PaysExactly es labors p) (hday : s.days.get? d = some day) :
    day.excessUnits.toNat = excessOn labors (piecesOf labors p es) d ∧
      day.excessPay.toRat = nearestHundredth (excessPayOn labors (piecesOf labors p es) d) := by
  obtain ⟨counts, hget, hcounts⟩ := exists_counts_of_get? h hday
  obtain ⟨hunits, pay, hpay, hrounded⟩ := PieceworkDay.excess_ofCounts hcounts
  have hcounted : counts ∈ (es.foldl (PieceworkTally.addEntry labors p) .none).counts.values := by
    rw [counts_foldl]
    exact SortedMap.mem_values_of_get? hget
  refine ⟨hunits.trans (sum_values_piecesOf hget _), ?_⟩
  rw [hrounded, Decimal.toRat_toHundredths_eq,
    PieceworkDay.toRat_foldlM_addPay (hexact.days counts hcounted) hpay, sum_values_piecesOf hget]
  rfl

theorem accounts_of_ofAttendance (h : ofAttendance es labors p = .ok s)
    (hexact : PaysExactly es labors p) : s.Accounts es labors p where
  mem_keys d := by
    rw [← SortedMap.isSome_get?, isSome_get?_days h]
    exact qualifies_piecesOf_iff
  date d day hday := by
    obtain ⟨counts, -, hcounts⟩ := exists_counts_of_get? h hday
    exact (PieceworkDay.ofCounts_eq_ok hcounts).1
  count d day hday := (numbers_of_get?_days h hday).1
  minimum d day hday := (numbers_of_get?_days h hday).2
  excessUnits d day hday := (excess_of_get?_days h hexact hday).1
  excessPay d day hday := (excess_of_get?_days h hexact hday).2
  totalExcessPay := toRat_totalExcessPay h (hexact.total s h)

/-- With no more than `2 ^ 32` entries, the piecework of a period accounts for its attendance,
    unless a decimal gets out of range: no count does, neither here nor where the units of
    all dates are added up to be paid. The order of the entries makes no difference but to
    the remarks on labors. -/
theorem ofAttendance_accounts (hlength : es.length ≤ 2 ^ 32)
    (hexact : PaysExactly es labors p) :
    UnlessOverflow
      (fun s => s.Accounts es labors p ∧
        (∃ units, s.excessUnits = .ok units ∧
          units.toNat = (s.days.values.map (·.excessUnits.toNat)).sum) ∧
        (∀ ctx c, ctx.piecework.days = s.days → ∃ o, Calculator.pieceworkExcess ctx c = .ok o ∧
          o.amount = ctx.piecework.totalExcessPay) ∧
        ∀ es', es.Perm es' → ∃ s', ofAttendance es' labors p = .ok s' ∧ s.SameButRemarks s')
      (ofAttendance es labors p) := by
  refine .intro (fun s h => ?_) fun f hf => ?_
  · obtain ⟨units, hunits⟩ := exists_excessUnits_eq_ok h hlength
    have hsum := Count.word64_eq_ok_iff.1 hunits
    rw [Count.total_eq_sum] at hsum
    refine ⟨accounts_of_ofAttendance h hexact, ⟨units, hunits, hsum⟩, fun ctx c hctx => ?_,
      fun es' hperm => ?_⟩
    · have hctxUnits : ctx.piecework.excessUnits = .ok units := by
        rw [excessUnits, hctx]
        exact hunits
      rw [Calculator.pieceworkExcess, hctxUnits]
      exact ⟨_, rfl, rfl⟩
    · have halike := (SameWork.of_perm p hperm).piecework labors
      rw [h] at halike
      exact halike.exists_right
  · rcases ofAttendance_stopsBy es labors p f hf with hoverflow | ⟨-, hmany⟩
    · exact hoverflow
    · -- Only with more entries than that can a count have no room.
      exact absurd hmany (Nat.not_lt.2 hlength)

/-- A day in the rows and in the orchard. -/
def rowsAndOrchard : List AttendanceEntry :=
  [.ofUnits 0 20 "PICKING", .ofUnits 0 8 "PRUNING", .ofUnits 0 10 "PICKING"]

/-- Picking, with a minimum of twenty-five, and pruning, with one of ten. -/
def rowsAndOrchardLabors : LaborCatalog :=
  [("PICKING", ⟨"PICKING", "Picking", true, some 25, Decimal.ofParts? 1505 3⟩),
    ("PRUNING", ⟨"PRUNING", "Pruning", true, some 10, Decimal.ofParts? 75 2⟩)]

/-- Five units above the minimum of the one labor are paid, though the other falls short by
    two; half a cent of their pay is rounded up. -/
theorem ofAttendance_accounts_rowsAndOrchard : ∃ s,
    ofAttendance rowsAndOrchard rowsAndOrchardLabors (.between 0 0) = .ok s ∧
      rowsAndOrchard.length ≤ 2 ^ 32 ∧
      PaysExactly rowsAndOrchard rowsAndOrchardLabors (.between 0 0) ∧
      s.Accounts rowsAndOrchard rowsAndOrchardLabors (.between 0 0) ∧
      excessOn rowsAndOrchardLabors (piecesOf rowsAndOrchardLabors (.between 0 0) rowsAndOrchard)
        (.onDay 0) = 5 ∧
      s.totalExcessPay = { mantissa := 753, scale := 2 } := by
  have htotal : (ofAttendance rowsAndOrchard rowsAndOrchardLabors (.between 0 0)).map
      (·.totalExcessPay) = .ok { mantissa := 753, scale := 2 } := by
    decide +kernel
  obtain ⟨s, hs, htotal⟩ := map_eq_ok.1 htotal
  have hlength : rowsAndOrchard.length ≤ 2 ^ 32 := by decide
  have hexact : PaysExactly rowsAndOrchard rowsAndOrchardLabors (.between 0 0) :=
    ⟨by decide +kernel, by decide +kernel⟩
  obtain ⟨haccounts, -⟩ := (ofAttendance_accounts hlength hexact).of_eq_ok hs
  exact ⟨s, hs, hlength, hexact, haccounts, by decide +kernel, htotal⟩

end PieceworkSummary

end FieldWages
