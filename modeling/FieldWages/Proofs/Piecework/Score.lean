import FieldWages.Calculator.Income
import FieldWages.Proofs.Piecework.Percent
import FieldWages.Proofs.Piecework.Tally
import FieldWages.Proofs.Sample

/-!
# The score of a period

Each date with pieces is judged by its count in percent of its minimum. As the
percentage is rounded to the hundredth before it is compared to a hundred, a
date passes if it lacks no more than a twenty-thousandth of its minimum, and the
score is full if all of them pass. So the score is that of the counts and the
minimums unless every date that missed its minimum missed it by as little.

* `PieceworkSummary.ofAttendance_eq_ok`, `PieceworkSummary.ofAttendance_spec`: what a summary
  is made of;
* `PieceworkSummary.score_eq_full_iff`, `PieceworkSummary.score_eq_zero_iff`: what
  the score says of the counts;
* `PieceworkSummary.scoredByMinimum_iff`: when it is that of the minimums.
-/

namespace FieldWages

open Piece PieceworkTally

theorem Count.total_eq_sum {α : Type} (f : α → Nat) (xs : List α) :
    total f xs = (xs.map f).sum := by
  induction xs with
  | nil => rfl
  | cons x xs ih => rw [total_cons, ih, List.map_cons, List.sum_cons]

/-! ## The minimum of a date -/

theorem Labor.minimum_pos {l : Labor} {terms : PieceworkTerms} (h : l.terms? = some terms) :
    0 < terms.minimum.toNat := by
  rw [Labor.terms?] at h
  split at h
  · split at h
    · next hpos =>
      cases h
      exact hpos.1
    · cases h
  · cases h

/-- Whether a piece is counted on a date. -/
def Qualifies (xs : List Piece) (d : Date) : Prop := ∃ x ∈ xs, x.date = d

variable {entries : List AttendanceEntry} {labors : LaborCatalog} {p : Period} {d : Date}

theorem minimumOn_pos (h : Qualifies (piecesOf labors p entries) d) :
    0 < minimumOn labors (piecesOf labors p entries) d := by
  obtain ⟨x, hx, hd⟩ := h
  have hterms := terms?_of_mem hx
  obtain ⟨labor, -, hlabor⟩ := Option.bind_eq_some_iff.1 hterms
  refine lt_of_lt_of_le (Labor.minimum_pos hlabor) ?_
  have hle := Finset.single_le_sum
    (f := fun id => ((labors.terms? id).map (·.minimum.toNat)).getD 0) (fun _ _ => Nat.zero_le _)
    (mem_laborsOn.2 ⟨x, hx, hd, rfl⟩)
  rw [hterms] at hle
  exact hle

/-! ## Judged dates -/

namespace PieceworkDay

theorem ofCounts_eq_ok {counts : LaborCounts} {day : PieceworkDay}
    (h : ofCounts d counts = .ok day) :
    day.date = d ∧ day.count.toNat = (counts.values.map (·.1)).sum ∧
      day.minimum.toNat = (counts.values.map (·.2.minimum.toNat)).sum ∧
      piecePercent day.count day.minimum = .ok day.percent := by
  obtain ⟨count, hcount, h⟩ := bind_eq_ok.1 h
  obtain ⟨minimum, hminimum, h⟩ := bind_eq_ok.1 h
  obtain ⟨units, -, h⟩ := bind_eq_ok.1 h
  obtain ⟨pay, -, h⟩ := bind_eq_ok.1 h
  obtain ⟨percent, hpercent, h⟩ := bind_eq_ok.1 h
  rw [pure_eq_ok] at h
  subst h
  rw [Count.word64_eq_ok_iff, Count.total_eq_sum] at hcount hminimum
  exact ⟨rfl, hcount, hminimum, hpercent⟩

/-- The units above the minimums, and their pay in hundredths. -/
theorem excess_ofCounts {counts : LaborCounts} {day : PieceworkDay}
    (h : ofCounts d counts = .ok day) :
    day.excessUnits.toNat = (counts.values.map laborExcess).sum ∧
      ∃ pay, counts.values.foldlM addPay .zero = .ok pay ∧
        day.excessPay = pay.toHundredths := by
  obtain ⟨count, -, h⟩ := bind_eq_ok.1 h
  obtain ⟨minimum, -, h⟩ := bind_eq_ok.1 h
  obtain ⟨units, hunits, h⟩ := bind_eq_ok.1 h
  obtain ⟨pay, hpay, h⟩ := bind_eq_ok.1 h
  obtain ⟨percent, -, h⟩ := bind_eq_ok.1 h
  rw [pure_eq_ok] at h
  subst h
  rw [Count.word64_eq_ok_iff, Count.total_eq_sum] at hunits
  exact ⟨hunits, pay, hpay, rfl⟩

end PieceworkDay

namespace PieceworkSummary

variable {s : PieceworkSummary}

/-- The dates that are judged are those of the tally of the pieces; score and pay are found
    from what they come to. -/
theorem ofAttendance_eq_ok (h : ofAttendance entries labors p = .ok s) :
    ∃ days, (tallyOf (piecesOf labors p entries)).entries.mapM
        (fun e => PieceworkDay.ofCounts e.1 e.2) = .ok days ∧
      s.days = .ofList (days.map fun day => (day.date, day)) ∧ s.score = scoreOf days ∧
      Decimal.sum (days.map (·.excessPay)) = .ok s.totalExcessPay := by
  obtain ⟨days, hdays, h⟩ := bind_eq_ok.1 h
  obtain ⟨total, htotal, h⟩ := bind_eq_ok.1 h
  rw [pure_eq_ok] at h
  subst h
  have hcounts : (entries.foldl (addEntry labors p) .none).counts =
      tallyOf (piecesOf labors p entries) := counts_foldl labors p entries .none
  rw [hcounts] at hdays
  exact ⟨days, hdays, rfl, rfl, htotal⟩

/-- The days of a summary are those of the tally, and score and pay are those of the days. -/
theorem ofAttendance_spec (h : ofAttendance entries labors p = .ok s) :
    (tallyOf (piecesOf labors p entries)).entries.mapM
        (fun e => PieceworkDay.ofCounts e.1 e.2) = .ok s.days.values ∧
      s.days.entries = s.days.values.map (fun day => (day.date, day)) ∧
      s.score = scoreOf s.days.values ∧
      Decimal.sum (s.days.values.map (·.excessPay)) = .ok s.totalExcessPay := by
  obtain ⟨days, hdays, hmap, hscore, htotal⟩ := ofAttendance_eq_ok h
  have hdates : days.map (·.date) = (tallyOf (piecesOf labors p entries)).keys :=
    map_eq_of_mapM_eq_ok hdays fun e _ day hday => (PieceworkDay.ofCounts_eq_ok hday).1
  have hsorted : (days.map fun day => (day.date, day)).Pairwise fun a b => a.1 < b.1 := by
    have hkeys := List.pairwise_map.2 (tallyOf (piecesOf labors p entries)).sorted
    rw [← SortedMap.keys, ← hdates, List.pairwise_map] at hkeys
    exact List.pairwise_map.2 hkeys
  -- The dates ascend already, so the map has the days as they are.
  have hentries : s.days.entries = days.map fun day => (day.date, day) := by
    rw [hmap, SortedMap.entries_ofList hsorted]
  have hvalues : s.days.values = days := by
    rw [SortedMap.values, hentries, List.map_map]
    exact List.map_id _
  rw [hvalues]
  exact ⟨hdays, hentries, hscore, htotal⟩

/-- The dates of a summary are those of the tally. -/
theorem keys_days (h : ofAttendance entries labors p = .ok s) :
    s.days.keys = (tallyOf (piecesOf labors p entries)).keys := by
  obtain ⟨hdays, hentries, -, -⟩ := ofAttendance_spec h
  rw [SortedMap.keys, hentries, List.map_map]
  exact map_eq_of_mapM_eq_ok hdays fun e _ day hday => (PieceworkDay.ofCounts_eq_ok hday).1

/-- The dates of a summary are those with pieces. -/
theorem isSome_get?_days (h : ofAttendance entries labors p = .ok s) :
    (s.days.get? d).isSome ↔ Qualifies (piecesOf labors p entries) d := by
  rw [SortedMap.isSome_get?, keys_days h]
  exact mem_keys_tallyOf

/-- What is found of a date is found from its counts. -/
theorem exists_counts_of_get? {day : PieceworkDay} (h : ofAttendance entries labors p = .ok s)
    (hday : s.days.get? d = some day) :
    ∃ counts, (tallyOf (piecesOf labors p entries)).get? d = some counts ∧
      PieceworkDay.ofCounts d counts = .ok day := by
  obtain ⟨hdays, hentries, -, -⟩ := ofAttendance_spec h
  obtain ⟨e, hfind, rfl⟩ := Option.map_eq_some_iff.1 hday
  have hdate := List.find?_some hfind
  rw [decide_eq_true_iff] at hdate
  have hmem := List.mem_of_find?_eq_some hfind
  rw [hentries] at hmem
  obtain ⟨day, hvalue, rfl⟩ := List.mem_map.1 hmem
  obtain ⟨counted, hcounted, hofCounts⟩ := (mem_of_mapM_eq_ok hdays).1 hvalue
  rw [← hdate, (PieceworkDay.ofCounts_eq_ok hofCounts).1]
  exact ⟨counted.2, SortedMap.get?_of_mem hcounted, hofCounts⟩

/-- A date of a summary has the units and the minimums of its labors. -/
theorem numbers_of_get?_days {day : PieceworkDay} (h : ofAttendance entries labors p = .ok s)
    (hday : s.days.get? d = some day) :
    day.count.toNat = countOn (piecesOf labors p entries) d ∧
      day.minimum.toNat = minimumOn labors (piecesOf labors p entries) d := by
  obtain ⟨counts, hget, hcounts⟩ := exists_counts_of_get? h hday
  obtain ⟨-, hcount, hminimum, -⟩ := PieceworkDay.ofCounts_eq_ok hcounts
  exact ⟨hcount.trans (sum_values_units hget), hminimum.trans (sum_values_minimum hget)⟩

theorem get?_days_of_mem {day : PieceworkDay} (h : ofAttendance entries labors p = .ok s)
    (hday : day ∈ s.days.values) : s.days.get? day.date = some day := by
  have hmem : (day.date, day) ∈ s.days.entries := by
    rw [(ofAttendance_spec h).2.1]
    exact List.mem_map_of_mem hday
  exact SortedMap.get?_of_mem hmem

/-- Each date with pieces is judged by its count and its minimum. -/
theorem exists_days (h : ofAttendance entries labors p = .ok s) :
    ∃ days, s.score = scoreOf days ∧
      (∀ d, Qualifies (piecesOf labors p entries) d ↔ ∃ day ∈ days, day.date = d) ∧
      ∀ day ∈ days, fullScore ≤ day.percent ↔
        19999 * minimumOn labors (piecesOf labors p entries) day.date ≤
          20000 * countOn (piecesOf labors p entries) day.date := by
  have hdates : ∀ d, Qualifies (piecesOf labors p entries) d ↔
      ∃ day ∈ s.days.values, day.date = d := by
    intro d
    rw [← isSome_get?_days h, SortedMap.isSome_get?, SortedMap.keys, (ofAttendance_spec h).2.1,
      List.map_map, List.mem_map]
    rfl
  refine ⟨s.days.values, (ofAttendance_spec h).2.2.1, hdates, fun day hday => ?_⟩
  have hget := get?_days_of_mem h hday
  obtain ⟨hcount, hminimum⟩ := numbers_of_get?_days h hget
  obtain ⟨counts, -, hcounts⟩ := exists_counts_of_get? h hget
  obtain ⟨-, -, -, hpercent⟩ := PieceworkDay.ofCounts_eq_ok hcounts
  -- A minimum of zero would pass for a missed one, but terms exclude it.
  have hne : day.minimum ≠ 0 := by
    intro hzero
    rw [hzero] at hminimum
    exact (minimumOn_pos ((hdates day.date).2 ⟨day, hday, rfl⟩)).ne hminimum
  rw [fullScore_le_piecePercent_iff hne hpercent, hcount, hminimum]

theorem scoreOf_eq_none_iff {days : List PieceworkDay} : scoreOf days = .none ↔ days = [] := by
  cases days with
  | nil => exact iff_of_true rfl rfl
  | cons day days =>
    refine iff_of_false ?_ (List.cons_ne_nil _ _)
    rw [scoreOf]
    simp only [List.isEmpty_cons, Bool.false_eq_true, if_false]
    split <;> exact Option.some_ne_none _

theorem scoreOf_of_ne_nil {days : List PieceworkDay} (h : days ≠ []) :
    scoreOf days =
      some (if ∀ day ∈ days, fullScore ≤ day.percent then fullScore else .zero) := by
  rw [scoreOf, if_neg (by simpa using h)]
  by_cases hall : ∀ day ∈ days, fullScore ≤ day.percent
  · rw [if_pos (by simpa using hall), if_pos hall]
  · rw [if_neg (by simpa using hall), if_neg hall]

theorem scoreOf_eq_some_iff {days : List PieceworkDay} {d : Decimal} :
    scoreOf days = some d ↔ days ≠ [] ∧
      ((d = fullScore ∧ ∀ day ∈ days, fullScore ≤ day.percent) ∨
        (d = .zero ∧ ∃ day ∈ days, ¬fullScore ≤ day.percent)) := by
  by_cases hnil : days = []
  · rw [hnil]
    exact iff_of_false nofun fun h => h.1 rfl
  rw [scoreOf_of_ne_nil hnil, Option.some_inj]
  by_cases hall : ∀ day ∈ days, fullScore ≤ day.percent
  · rw [if_pos hall]
    constructor
    · rintro rfl
      exact ⟨hnil, .inl ⟨rfl, hall⟩⟩
    · rintro ⟨-, ⟨rfl, -⟩ | ⟨-, x, hx, hlt⟩⟩
      · rfl
      · exact absurd (hall x hx) hlt
  · rw [if_neg hall]
    constructor
    · rintro rfl
      push Not at hall
      exact ⟨hnil, .inr ⟨rfl, hall⟩⟩
    · rintro ⟨-, ⟨-, h⟩ | ⟨rfl, -⟩⟩
      · exact absurd h hall
      · rfl

theorem score_eq_none_iff (h : ofAttendance entries labors p = .ok s) :
    s.score = .none ↔ ∀ d, ¬Qualifies (piecesOf labors p entries) d := by
  obtain ⟨days, hscore, hdates, -⟩ := exists_days h
  rw [hscore, scoreOf_eq_none_iff, List.eq_nil_iff_forall_not_mem]
  constructor
  · intro hnil d hd
    obtain ⟨day, hday, -⟩ := (hdates d).1 hd
    exact hnil day hday
  · intro hnone day hday
    exact hnone day.date ((hdates day.date).2 ⟨day, hday, rfl⟩)

/-- The score is full if no date lacks more than a twenty-thousandth of its minimum. -/
theorem score_eq_full_iff (h : ofAttendance entries labors p = .ok s) :
    s.score = some fullScore ↔ (∃ d, Qualifies (piecesOf labors p entries) d) ∧
      ∀ d, Qualifies (piecesOf labors p entries) d →
        19999 * minimumOn labors (piecesOf labors p entries) d ≤
          20000 * countOn (piecesOf labors p entries) d := by
  obtain ⟨days, hscore, hdates, hfull⟩ := exists_days h
  rw [hscore, scoreOf_eq_some_iff]
  constructor
  · rintro ⟨hne, ⟨-, hall⟩ | ⟨hzero, -⟩⟩
    · obtain ⟨day, hday⟩ := List.exists_mem_of_ne_nil days hne
      refine ⟨⟨day.date, (hdates _).2 ⟨day, hday, rfl⟩⟩, fun d hd => ?_⟩
      obtain ⟨x, hx, rfl⟩ := (hdates d).1 hd
      exact (hfull x hx).1 (hall x hx)
    · cases hzero
  · rintro ⟨⟨d, hd⟩, hall⟩
    obtain ⟨day, hday, -⟩ := (hdates d).1 hd
    refine ⟨List.ne_nil_of_mem hday, .inl ⟨rfl, fun x hx => (hfull x hx).2 ?_⟩⟩
    exact hall x.date ((hdates _).2 ⟨x, hx, rfl⟩)

/-- The score is zero if some date lacks more than a twenty-thousandth of its minimum. -/
theorem score_eq_zero_iff (h : ofAttendance entries labors p = .ok s) :
    s.score = some .zero ↔ ∃ d, Qualifies (piecesOf labors p entries) d ∧
      20000 * countOn (piecesOf labors p entries) d <
        19999 * minimumOn labors (piecesOf labors p entries) d := by
  obtain ⟨days, hscore, hdates, hfull⟩ := exists_days h
  rw [hscore, scoreOf_eq_some_iff]
  constructor
  · rintro ⟨-, ⟨hone, -⟩ | ⟨-, x, hx, hlt⟩⟩
    · cases hone
    · rw [hfull x hx, not_le] at hlt
      exact ⟨x.date, (hdates _).2 ⟨x, hx, rfl⟩, hlt⟩
  · rintro ⟨d, hd, hlt⟩
    obtain ⟨day, hday, rfl⟩ := (hdates d).1 hd
    refine ⟨List.ne_nil_of_mem hday, .inr ⟨rfl, day, hday, ?_⟩⟩
    rw [hfull day hday]
    exact not_le.2 hlt

/-! ## Missed minimums -/

/-- Whether a score is that of the minimums: there is one if a date qualifies, and it
    is full if no date missed its minimum and zero if one did. -/
structure ScoredByMinimum (labors : LaborCatalog) (xs : List Piece) (score : Option Decimal) :
    Prop where
  none_iff : score = .none ↔ ∀ d, ¬Qualifies xs d
  full_iff : score = some fullScore ↔
    (∃ d, Qualifies xs d) ∧ ∀ d, Qualifies xs d → minimumOn labors xs d ≤ countOn xs d
  zero_iff : score = some .zero ↔ ∃ d, Qualifies xs d ∧ countOn xs d < minimumOn labors xs d

/-- A bonus is paid only for a full score. -/
theorem score_of_productivityBonus {ctx : PayContext} {c : Concept} {o : Outcome}
    (hs : ofAttendance entries labors p = .ok s) (hscore : ctx.piecework.score = s.score)
    (h : Calculator.productivityBonus ctx c = .ok o) (hpaid : o.amount ≠ .zero) :
    s.score = some fullScore := by
  obtain ⟨days, hdays, -⟩ := exists_days hs
  rw [Calculator.productivityBonus, hscore] at h
  cases hvalue : c.value with
  | none =>
    rw [hvalue] at h
    cases h
    exact absurd rfl hpaid
  | some value =>
    rw [hvalue] at h
    cases hs : s.score with
    | none =>
      rw [hs] at h
      cases h
      exact absurd rfl hpaid
    | some score =>
      -- A score is full or zero, and for a zero nothing is paid.
      rw [hs] at h
      obtain ⟨-, ⟨rfl, -⟩ | ⟨rfl, -⟩⟩ := scoreOf_eq_some_iff.1 (hdays.symm.trans hs)
      · rfl
      · cases h
        exact absurd rfl hpaid

/-- The score is that of the minimums exactly if, with any date that missed its
    minimum, some date lacks more than a twenty-thousandth of it. A count is judged to
    be a hundred percent of a minimum exactly if it lacks no more than that, and a bonus
    is paid only if the counts of all dates are. -/
theorem scoredByMinimum_iff (h : ofAttendance entries labors p = .ok s) :
    let xs := piecesOf labors p entries
    (ScoredByMinimum labors xs s.score ↔
      ((∃ d, Qualifies xs d ∧ countOn xs d < minimumOn labors xs d) →
        ∃ d, Qualifies xs d ∧ 20000 * countOn xs d < 19999 * minimumOn labors xs d)) ∧
    (∀ c m : UInt64, m ≠ 0 → ∃ q, piecePercent c m = .ok q ∧
      (fullScore ≤ q ↔ 19999 * m.toNat ≤ 20000 * c.toNat)) ∧
    ∀ ctx c o, ctx.piecework.score = s.score → Calculator.productivityBonus ctx c = .ok o →
      o.amount ≠ .zero →
      ∀ d, Qualifies xs d → 19999 * minimumOn labors xs d ≤ 20000 * countOn xs d := by
  dsimp only
  refine ⟨?_, fun c m hm => ?_, fun ctx c o hctx ho hpaid => ?_⟩
  · constructor
    · intro hscored hmissed
      exact (score_eq_zero_iff h).1 (hscored.zero_iff.2 hmissed)
    · intro hcond
      refine ⟨score_eq_none_iff h, ?_, ?_⟩
      · rw [score_eq_full_iff h]
        refine and_congr_right fun _ => ⟨fun hall d hd => ?_, fun hall d hd => ?_⟩
        · -- No date lacks more than a twenty-thousandth, so none missed its minimum.
          by_contra hlt
          obtain ⟨d', hd', hshort⟩ := hcond ⟨d, hd, not_le.1 hlt⟩
          exact absurd (hall d' hd') (not_le.2 hshort)
        · have := hall d hd
          omega
      · rw [score_eq_zero_iff h]
        refine ⟨fun ⟨d, hd, hshort⟩ => ⟨d, hd, ?_⟩, hcond⟩
        omega
  · obtain ⟨q, hq, -⟩ := piecePercent_spec c hm
    exact ⟨q, hq, fullScore_le_piecePercent_iff hm hq⟩
  · exact ((score_eq_full_iff h).1 (score_of_productivityBonus h hctx ho hpaid)).2

/-- A day on which so many vines are pruned. -/
def pruning (vines : UInt32) : List AttendanceEntry := [.ofUnits 0 vines "PRUNING"]

/-- Pruning, with a minimum of twenty thousand vines a day. -/
def pruningLabors : LaborCatalog :=
  [("PRUNING", ⟨"PRUNING", "Pruning", true, some 20000, Decimal.ofParts? 50 2⟩)]

/-- Two vines too few are two vines too few. -/
theorem scoredByMinimum_pruning : ∃ s,
    ofAttendance (pruning 19998) pruningLabors (.between 0 0) = .ok s ∧
      s.score = some .zero ∧
      ScoredByMinimum pruningLabors (piecesOf pruningLabors (.between 0 0) (pruning 19998))
        s.score := by
  have hscore : (ofAttendance (pruning 19998) pruningLabors (.between 0 0)).map (·.score) =
      .ok (some .zero) := by
    decide +kernel
  obtain ⟨s, hs, hzero⟩ := map_eq_ok.1 hscore
  exact ⟨s, hs, hzero, (scoredByMinimum_iff hs).1.2 fun _ => (score_eq_zero_iff hs).1 hzero⟩

/-- One vine too few is none: the score is full, though the minimum is missed. -/
theorem not_scoredByMinimum_pruning : ∃ s,
    ofAttendance (pruning 19999) pruningLabors (.between 0 0) = .ok s ∧
      s.score = some fullScore ∧
      ¬ScoredByMinimum pruningLabors (piecesOf pruningLabors (.between 0 0) (pruning 19999))
        s.score := by
  have hscore : (ofAttendance (pruning 19999) pruningLabors (.between 0 0)).map (·.score) =
      .ok (some fullScore) := by
    decide +kernel
  obtain ⟨s, hs, hfull⟩ := map_eq_ok.1 hscore
  refine ⟨s, hs, hfull, fun hscored => ?_⟩
  have hmissed : ¬minimumOn pruningLabors (piecesOf pruningLabors (.between 0 0) (pruning 19999))
        (.onDay 0) ≤
      countOn (piecesOf pruningLabors (.between 0 0) (pruning 19999)) (.onDay 0) := by
    decide +kernel
  exact hmissed ((hscored.full_iff.1 hfull).2 _ (by unfold Qualifies; decide +kernel))

end PieceworkSummary

end FieldWages
