import FieldWages.DailyHours
import FieldWages.Proofs.Period.Weeks
import FieldWages.Proofs.Piecework.Score
import FieldWages.Proofs.SameWork.Hours
import FieldWages.Proofs.SortedMap

/-!
# Days of a cut period

If a period is cut in two, each of its dates is in one of the parts, and all dates of the
first are before those of the second. What is recorded of a date is found from the entries
of that date alone, whatever period it is looked up in, so the days of the whole are those
of the first part and, behind them, those of the second.

* `Period.Divided.entries_eq_append_iff`: maps of a period and of its parts;
* `DailyHoursMap.get?_ofAttendance`, `PieceworkTally.get?_tallyOf_piecesOf`: what is recorded
  of a date, in any period;
* `DailyHoursMap.entries_cut`, `PieceworkSummary.entries_cut`: the days with hours and those
  with piecework;
* `PieceworkSummary.score_cut`: the score is the smaller of those of the parts.
-/

namespace FieldWages

namespace Period

variable {p a b : Period}

theorem Divided.contains_cut (h : p.Divided [a, b]) (d : Date) :
    p.contains d ↔ a.contains d ∨ b.contains d := by
  simp only [contains, Bool.and_eq_true, decide_eq_true_iff]
  constructor
  · rintro ⟨h₁, h₂⟩
    obtain ⟨q, hq, hqd⟩ := h.exists_mem h₁ h₂
    rcases List.mem_pair.1 hq with rfl | rfl
    · exact .inl hqd
    · exact .inr hqd
  · have ha := h.within (List.mem_cons_self : a ∈ [a, b])
    have hb := h.within (List.mem_cons_of_mem a List.mem_cons_self : b ∈ [a, b])
    simp only [Date.le_iff] at *
    omega

theorem Divided.lt_of_contains (h : p.Divided [a, b]) {d e : Date} (hd : a.contains d)
    (he : b.contains e) : d < e := by
  have hlt : a.stop < b.start := List.rel_of_pairwise_cons h.pairwise List.mem_cons_self
  simp only [contains, Bool.and_eq_true, decide_eq_true_iff, Date.le_iff, Date.lt_iff] at *
  omega

variable {α : Type} {m m₁ m₂ : SortedMap Date α}

/-- A map of a period consists of maps of its parts exactly if it agrees with each of them
    where it lies. -/
theorem Divided.entries_eq_append_iff (h : p.Divided [a, b]) (hm : ∀ d ∈ m.keys, p.contains d)
    (hm₁ : ∀ d ∈ m₁.keys, a.contains d) (hm₂ : ∀ d ∈ m₂.keys, b.contains d) :
    m.entries = m₁.entries ++ m₂.entries ↔
      (∀ d, a.contains d → m.get? d = m₁.get? d) ∧ ∀ d, b.contains d → m.get? d = m₂.get? d := by
  have hnone : ∀ {q : Period} {x : SortedMap Date α} {d : Date}, (∀ d ∈ x.keys, q.contains d) →
      ¬q.contains d → x.get? d = none := fun {q x d} hx hd => by
    rw [← Option.not_isSome_iff_eq_none, SortedMap.isSome_get?]
    exact mt (hx d) hd
  have hapart : ∀ {d}, a.contains d → ¬b.contains d := fun ha hb =>
    Int.lt_irrefl _ (h.lt_of_contains ha hb)
  rw [SortedMap.entries_eq_append_iff fun d hd e he => h.lt_of_contains (hm₁ d hd) (hm₂ e he)]
  constructor
  · refine fun heq => ⟨fun d ha => ?_, fun d hb => ?_⟩
    · rw [heq, hnone hm₂ (hapart ha), Option.or_none]
    · rw [heq, hnone hm₁ fun ha => hapart ha hb, Option.none_or]
  · rintro ⟨h₁, h₂⟩ d
    by_cases ha : a.contains d
    · rw [h₁ d ha, hnone hm₂ (hapart ha), Option.or_none]
    by_cases hb : b.contains d
    · rw [h₂ d hb, hnone hm₁ ha, Option.none_or]
    · rw [hnone hm fun hd => ((h.contains_cut d).1 hd).elim ha hb, hnone hm₁ ha, hnone hm₂ hb]
      rfl

end Period

/-! ## Daily hours -/

namespace DailyHours

/-- The day of a date with one more entry, if it is paid and of that date. -/
def addOn (d : Date) (day : Option DailyHours) (e : AttendanceEntry) :
    Except Fault (Option DailyHours) :=
  if e.workDate = d then
    match e.paidHours with
    | .none => .ok day
    | some hours => ((day.getD .none).addEntry hours e.shift?).map some
  else .ok day

end DailyHours

namespace DailyHoursMap

variable {p q : Period} {daily daily' : DailyHoursMap} {e : AttendanceEntry}
  {entries : List AttendanceEntry} {d : Date}

theorem get?_addEntry (h : addEntry p daily e = .ok daily') (hd : p.contains d) :
    DailyHours.addOn d (daily.get? d) e = .ok (daily'.get? d) := by
  rw [addEntry] at h
  rw [DailyHours.addOn]
  split at h
  · next hours hp hhours =>
    obtain ⟨day, hday, h⟩ := bind_eq_ok.1 h
    cases h
    rw [SortedMap.get?_insert]
    split
    · next hwork =>
      rw [hhours]
      rw [hwork] at hday
      simp only [hday, Except.map]
    · rfl
  · next hnot =>
    cases h
    split
    · next hwork =>
      cases hhours : e.paidHours with
      | none => rfl
      | some hours => exact absurd hhours (hnot hours (hwork ▸ hd))
    · rfl

theorem get?_foldlM (h : entries.foldlM (addEntry p) daily = .ok daily') (hd : p.contains d) :
    entries.foldlM (DailyHours.addOn d) (daily.get? d) = .ok (daily'.get? d) := by
  induction entries generalizing daily with
  | nil =>
    rw [List.foldlM_nil, pure_eq_ok] at h
    rw [List.foldlM_nil, h]
    rfl
  | cons e es ih =>
    rw [List.foldlM_cons] at h
    obtain ⟨next, hnext, h⟩ := bind_eq_ok.1 h
    rw [List.foldlM_cons, get?_addEntry hnext hd]
    exact ih h

/-- The day of a date is found by the entries alone, whatever period it is in. -/
theorem get?_ofAttendance (h : ofAttendance entries p = .ok daily)
    (h' : ofAttendance entries q = .ok daily') (hp : p.contains d) (hq : q.contains d) :
    daily.get? d = daily'.get? d :=
  Except.ok.inj ((get?_foldlM h hp).symm.trans (get?_foldlM h' hq))

/-- The days of a period are those of its parts. -/
theorem entries_cut {a b : Period} {first second : DailyHoursMap} (hcut : p.Divided [a, b])
    (h : ofAttendance entries p = .ok daily) (h₁ : ofAttendance entries a = .ok first)
    (h₂ : ofAttendance entries b = .ok second) :
    daily.entries = first.entries ++ second.entries := by
  have hkeys : ∀ {q : Period} {daily : DailyHoursMap}, ofAttendance entries q = .ok daily →
      ∀ d ∈ daily.keys, q.contains d := fun h d hd => ((mem_keys_ofAttendance h).1 hd).1
  exact (hcut.entries_eq_append_iff (hkeys h) (hkeys h₁) (hkeys h₂)).2
    ⟨fun d hd => get?_ofAttendance h h₁ ((hcut.contains_cut d).2 (.inl hd)) hd,
      fun d hd => get?_ofAttendance h h₂ ((hcut.contains_cut d).2 (.inr hd)) hd⟩

end DailyHoursMap

/-! ## Piecework -/

namespace PieceworkTally

variable {labors : LaborCatalog} {p q : Period} {entries : List AttendanceEntry} {d : Date}

/-- The counts of a date are those of its pieces. -/
theorem get?_tallyOf (xs : List Piece) (d : Date) :
    (tallyOf xs).get? d = (tallyOf (xs.filter (·.date = d))).get? d := by
  induction xs using List.reverseRecOn with
  | nil => rfl
  | append_singleton xs x ih =>
    rw [List.filter_append, tallyOf, tallyOf, List.foldl_append, List.foldl_append, ← tallyOf,
      ← tallyOf]
    by_cases hx : x.date = d
    · rw [List.filter_cons_of_pos (by simpa using hx)]
      change (countPiece (tallyOf xs) x).get? d = (countPiece (tallyOf _) x).get? d
      simp only [countPiece, count, SortedMap.get?_insert, hx, ih]
    · rw [List.filter_cons_of_neg (by simpa using hx)]
      change (countPiece (tallyOf xs) x).get? d = _
      simp only [countPiece, count, SortedMap.get?_insert, hx, if_false, ih]
      rfl

/-- The pieces of a date are the same in whatever period it is. -/
theorem filter_piecesOf (hp : p.contains d) (hq : q.contains d) :
    (piecesOf labors p entries).filter (·.date = d) =
      (piecesOf labors q entries).filter (·.date = d) := by
  rw [piecesOf, piecesOf, List.filter_filterMap, List.filter_filterMap]
  refine List.filterMap_congr fun e _ => ?_
  by_cases hd : e.workDate = d
  · rw [AttendanceEntry.piece?, AttendanceEntry.piece?, hd, hp, hq]
  · -- A piece of another date is no piece of `d`.
    have hnone : ∀ r, (e.piece? labors r).filter (·.date = d) = .none := fun r => by
      rw [Option.filter_eq_none_iff]
      intro x hx hxd
      exact hd ((Piece.piece?_eq_some_iff.1 hx).2.1 ▸ of_decide_eq_true hxd)
    rw [hnone, hnone]

/-- The counts of a date are found by the entries alone, whatever period it is in. -/
theorem get?_tallyOf_piecesOf (hp : p.contains d) (hq : q.contains d) :
    (tallyOf (piecesOf labors p entries)).get? d =
      (tallyOf (piecesOf labors q entries)).get? d := by
  rw [get?_tallyOf, filter_piecesOf hp hq, ← get?_tallyOf]

theorem contains_of_mem_keys (hd : d ∈ (tallyOf (piecesOf labors p entries)).keys) :
    p.contains d := by
  obtain ⟨x, hx, rfl⟩ := mem_keys_tallyOf.1 hd
  obtain ⟨e, -, he⟩ := List.mem_filterMap.1 hx
  obtain ⟨hcontains, hdate, -⟩ := Piece.piece?_eq_some_iff.1 he
  rwa [hdate]

/-- The counts of a period are those of its parts. -/
theorem entries_cut {a b : Period} (hcut : p.Divided [a, b]) :
    (tallyOf (piecesOf labors p entries)).entries =
      (tallyOf (piecesOf labors a entries)).entries ++
        (tallyOf (piecesOf labors b entries)).entries :=
  (hcut.entries_eq_append_iff (fun _ => contains_of_mem_keys) (fun _ => contains_of_mem_keys)
    fun _ => contains_of_mem_keys).2
    ⟨fun d hd => get?_tallyOf_piecesOf ((hcut.contains_cut d).2 (.inl hd)) hd,
      fun d hd => get?_tallyOf_piecesOf ((hcut.contains_cut d).2 (.inr hd)) hd⟩

end PieceworkTally

namespace PieceworkSummary

variable {labors : LaborCatalog} {p a b : Period} {entries : List AttendanceEntry}
  {s first second : PieceworkSummary}

/-- The dates with piecework lie in the period. -/
theorem contains_of_mem_keys {d : Date} (h : ofAttendance entries labors p = .ok s)
    (hd : d ∈ s.days.keys) : p.contains d :=
  PieceworkTally.contains_of_mem_keys (keys_days h ▸ hd)

/-- The days of a period are those of its parts. -/
theorem values_cut (hcut : p.Divided [a, b]) (h : ofAttendance entries labors p = .ok s)
    (h₁ : ofAttendance entries labors a = .ok first)
    (h₂ : ofAttendance entries labors b = .ok second) :
    s.days.values = first.days.values ++ second.days.values := by
  have hdays := (ofAttendance_spec h).1
  rw [PieceworkTally.entries_cut hcut, List.mapM_append, (ofAttendance_spec h₁).1,
    (ofAttendance_spec h₂).1] at hdays
  exact (Except.ok.inj hdays).symm

theorem entries_cut (hcut : p.Divided [a, b]) (h : ofAttendance entries labors p = .ok s)
    (h₁ : ofAttendance entries labors a = .ok first)
    (h₂ : ofAttendance entries labors b = .ok second) :
    s.days.entries = first.days.entries ++ second.days.entries := by
  rw [(ofAttendance_spec h).2.1, (ofAttendance_spec h₁).2.1, (ofAttendance_spec h₂).2.1,
    values_cut hcut h h₁ h₂, List.map_append]

/-- The score of days and days is the smaller of their scores, if both have one. -/
theorem scoreOf_append (xs ys : List PieceworkDay) :
    scoreOf (xs ++ ys) = Option.merge Decimal.min (scoreOf xs) (scoreOf ys) := by
  by_cases hxs : xs = []
  · rw [hxs, List.nil_append]
    exact Option.merge_none_left.symm
  by_cases hys : ys = []
  · rw [hys, List.append_nil]
    exact Option.merge_none_right.symm
  rw [scoreOf_of_ne_nil hxs, scoreOf_of_ne_nil hys, scoreOf_of_ne_nil (by simp [hxs])]
  simp only [List.forall_mem_append, Option.merge_some_some]
  by_cases hx : ∀ day ∈ xs, fullScore ≤ day.percent <;>
    by_cases hy : ∀ day ∈ ys, fullScore ≤ day.percent
  · rw [if_pos ⟨hx, hy⟩, if_pos hx, if_pos hy]
    decide
  · rw [if_neg fun h => hy h.2, if_pos hx, if_neg hy]
    decide
  · rw [if_neg fun h => hx h.1, if_neg hx, if_pos hy]
    decide
  · rw [if_neg fun h => hx h.1, if_neg hx, if_neg hy]
    decide

theorem score_cut (hcut : p.Divided [a, b]) (h : ofAttendance entries labors p = .ok s)
    (h₁ : ofAttendance entries labors a = .ok first)
    (h₂ : ofAttendance entries labors b = .ok second) :
    s.score = Option.merge Decimal.min first.score second.score := by
  rw [(ofAttendance_spec h).2.2.1, (ofAttendance_spec h₁).2.2.1, (ofAttendance_spec h₂).2.2.1,
    values_cut hcut h h₁ h₂, scoreOf_append]

end PieceworkSummary

end FieldWages
