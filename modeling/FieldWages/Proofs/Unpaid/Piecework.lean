import FieldWages.Proofs.Piecework.Score
import FieldWages.Proofs.SameWork.Piecework

/-!
# Unpaid pieces

Piecework counts the units of an entry whether or not the entry has hours to be paid.
So the piecework of a period is that of its paid entries exactly if the other ones
count nothing beyond it: no units, and no labor that a paid entry of the date does
not count as well (`PiecesPaid`).

* `PiecesPaid.tallyOf_eq`: pieces that are paid are all that is counted;
* `PieceworkSummary.sameButDiagnostics_iff`: when the piecework is that of the paid
  entries.
-/

namespace FieldWages

open Piece PieceworkTally

/-- The entries that have hours to be paid. -/
def paidPart (es : List AttendanceEntry) : List AttendanceEntry :=
  es.filter (·.paidHours.isSome)

/-- The entries that have none. -/
def unpaidPart (es : List AttendanceEntry) : List AttendanceEntry :=
  es.filter fun e => !e.paidHours.isSome

/-- Whether an entry counts units of a labor in a period. -/
def AttendanceEntry.CountsIn (p : Period) (e : AttendanceEntry) : Prop :=
  p.contains e.workDate ∧ e.laborId.isSome ∧ e.productivityCount.isSome

theorem perm_paidPart_append (es : List AttendanceEntry) : es.Perm (paidPart es ++ unpaidPart es) :=
  (List.filter_append_perm _ es).symm

/-- Whether unpaid entries count no units, and only labors that a paid entry of the
    date counts as well. -/
def PiecesPaid (labors : LaborCatalog) (p : Period) (es : List AttendanceEntry) : Prop :=
  ∀ x ∈ piecesOf labors p (unpaidPart es), x.units = 0 ∧
    ∃ y ∈ piecesOf labors p (paidPart es), y.date = x.date ∧ y.laborId = x.laborId

instance (labors : LaborCatalog) (p : Period) (es : List AttendanceEntry) :
    Decidable (PiecesPaid labors p es) :=
  inferInstanceAs (Decidable (∀ x ∈ piecesOf labors p (unpaidPart es), _))

/-! ## Pieces in two parts -/

section Parts

variable {xs ys zs : List Piece} (h : xs.Perm (ys ++ zs)) (d : Date) (id : String)

include h

theorem Piece.unitsOf_of_perm_append : unitsOf xs d id = unitsOf ys d id + unitsOf zs d id := by
  rw [← unitsOf_append]
  exact sum_filter_perm _ _ h

theorem Piece.countOn_of_perm_append : countOn xs d = countOn ys d + countOn zs d := by
  rw [countOn, sum_filter_perm _ _ h, sum_filter_append, countOn, countOn]

theorem Piece.laborsOn_of_perm_append : laborsOn xs d = laborsOn ys d ∪ laborsOn zs d := by
  ext id
  rw [Finset.mem_union, mem_laborsOn, mem_laborsOn, mem_laborsOn]
  simp only [h.mem_iff, List.mem_append, or_and_right, exists_or]

end Parts

variable {labors : LaborCatalog} {p : Period} {es : List AttendanceEntry}

theorem perm_piecesOf (labors : LaborCatalog) (p : Period) (es : List AttendanceEntry) :
    (piecesOf labors p es).Perm (piecesOf labors p (paidPart es) ++
      piecesOf labors p (unpaidPart es)) := by
  rw [piecesOf, piecesOf, piecesOf, ← List.filterMap_append]
  exact (perm_paidPart_append es).filterMap _

/-- Pieces that are paid are all that is counted. -/
theorem PiecesPaid.tallyOf_eq (h : PiecesPaid labors p es) :
    tallyOf (piecesOf labors p es) = tallyOf (piecesOf labors p (paidPart es)) := by
  refine tallyOf_eq_of_lookup fun d id => ?_
  have hlabors : laborsOn (piecesOf labors p es) d =
      laborsOn (piecesOf labors p (paidPart es)) d := by
    rw [laborsOn_of_perm_append (perm_piecesOf labors p es), Finset.union_eq_left]
    intro id hid
    obtain ⟨x, hx, rfl, rfl⟩ := mem_laborsOn.1 hid
    exact mem_laborsOn.2 (h x hx).2
  have hunits : unitsOf (piecesOf labors p es) d id =
      unitsOf (piecesOf labors p (paidPart es)) d id := by
    rw [unitsOf_of_perm_append (perm_piecesOf labors p es), Nat.add_eq_left, unitsOf,
      List.sum_eq_zero_iff]
    rintro _ hn
    obtain ⟨x, hx, rfl⟩ := List.mem_map.1 hn
    rw [(h x (List.mem_filter.1 hx).1).1]
    rfl
  rw [lookup_tallyOf_piecesOf, lookup_tallyOf_piecesOf, hlabors]
  split
  · next hid =>
    obtain ⟨hd, ht, -⟩ := mem_laborsOn_piecesOf.1 hid
    rw [← unitsOf_piecesOf hd ht, ← unitsOf_piecesOf hd ht, hunits]
  · rfl

/-- A paid piece is of a date that was worked. -/
theorem workedOn_of_mem_piecesOf {x : Piece} (h : x ∈ piecesOf labors p (paidPart es)) :
    WorkedOn es x.date := by
  obtain ⟨e, he, hx⟩ := List.mem_filterMap.1 h
  obtain ⟨-, hd, -⟩ := piece?_eq_some_iff.1 hx
  obtain ⟨he, hpaid⟩ := List.mem_filter.1 he
  exact ⟨e, he, hd.symm, hpaid⟩

/-- The dates with pieces were worked exactly if those with unpaid ones were. -/
theorem qualifies_imp_worked_iff :
    (∀ d, Qualifies (piecesOf labors p es) d → p.contains d ∧ WorkedOn es d) ↔
      ∀ x ∈ piecesOf labors p (unpaidPart es), WorkedOn es x.date := by
  constructor
  · intro h x hx
    exact (h x.date ⟨x, (perm_piecesOf labors p es).mem_iff.2 (List.mem_append_right _ hx), rfl⟩).2
  · rintro h _ ⟨x, hx, rfl⟩
    obtain ⟨e, -, he⟩ := List.mem_filterMap.1 hx
    obtain ⟨hp, hd, -⟩ := piece?_eq_some_iff.1 he
    refine ⟨hd ▸ hp, ?_⟩
    rcases List.mem_append.1 ((perm_piecesOf labors p es).mem_iff.1 hx) with hx | hx
    · exact workedOn_of_mem_piecesOf hx
    · exact h x hx

/-! ## The piecework of a period -/

namespace PieceworkSummary

variable {s s' : PieceworkSummary}

/-- Whether two summaries are the same but for their diagnostics. -/
def SameButDiagnostics (s t : PieceworkSummary) : Prop := ∃ g, t = { s with diagnostics := g }

/-- Unpaid entries make no difference to the piecework if the pieces are paid. -/
theorem ofAttendance_paidPart (h : PiecesPaid labors p es) :
    Alike SameButDiagnostics (ofAttendance es labors p) (ofAttendance (paidPart es) labors p) := by
  have hcounts : (es.foldl (addEntry labors p) .none).counts =
      ((paidPart es).foldl (addEntry labors p) .none).counts := by
    rw [counts_foldl, counts_foldl]
    exact h.tallyOf_eq
  rw [ofAttendance, ofAttendance]
  simp only [hcounts]
  refine Alike.bind_same fun days _ => Alike.bind_same fun total _ => ?_
  exact .ok ⟨_, rfl⟩

/-- Unpaid entries that count no units make no difference at all. -/
theorem ofAttendance_paidPart_eq (h : ∀ e ∈ unpaidPart es, ¬e.CountsIn p) :
    ofAttendance (paidPart es) labors p = ofAttendance es labors p := by
  have htally : (paidPart es).foldl (addEntry labors p) .none =
      es.foldl (addEntry labors p) .none := by
    rw [paidPart, List.foldl_filter]
    refine List.foldl_ext _ _ _ fun t e he => ?_
    split
    · rfl
    · next hpaid =>
      rw [addEntry]
      split
      · next id units hp hl hu =>
        have hunpaid : e ∈ unpaidPart es := List.mem_filter.2 ⟨he, by simpa using hpaid⟩
        exact absurd ⟨hp, by rw [hl]; rfl, by rw [hu]; rfl⟩ (h e hunpaid)
      · rfl
  rw [ofAttendance, ofAttendance, htally]

/-- The piecework of a list is that of its paid entries exactly if its pieces are paid. -/
theorem sameButDiagnostics_iff (h : ofAttendance es labors p = .ok s)
    (h' : ofAttendance (paidPart es) labors p = .ok s') :
    s.SameButDiagnostics s' ↔ PiecesPaid labors p es := by
  constructor
  · rintro ⟨g, hg⟩ x hx
    have hdays : s'.days = s.days := by rw [hg]
    have hxs : x ∈ piecesOf labors p es :=
      (perm_piecesOf labors p es).mem_iff.2 (List.mem_append_right _ hx)
    obtain ⟨day, hday⟩ := Option.isSome_iff_exists.1 ((isSome_get?_days h).2 ⟨x, hxs, rfl⟩)
    obtain ⟨hcount, hminimum⟩ := numbers_of_get?_days h hday
    obtain ⟨hcount', hminimum'⟩ := numbers_of_get?_days h' (hdays ▸ hday)
    constructor
    · -- The paid entries count all units of the date, so nothing is left for the others.
      have hzero : countOn (piecesOf labors p (unpaidPart es)) x.date = 0 := by
        have hparts := countOn_of_perm_append (perm_piecesOf labors p es) x.date
        omega
      rw [countOn, List.sum_eq_zero_iff] at hzero
      refine UInt32.toNat_inj.1 (hzero _ (List.mem_map_of_mem (List.mem_filter.2 ⟨hx, ?_⟩)))
      exact decide_eq_true rfl
    · -- A labor more would raise the minimum of the date, for no minimum is zero.
      rw [← mem_laborsOn]
      by_contra hnot
      refine absurd (hminimum'.symm.trans hminimum) (Nat.ne_of_lt ?_)
      have hsubset : laborsOn (piecesOf labors p (paidPart es)) x.date ⊆
          laborsOn (piecesOf labors p es) x.date := by
        rw [laborsOn_of_perm_append (perm_piecesOf labors p es) x.date]
        exact Finset.subset_union_left
      refine Finset.sum_lt_sum_of_subset hsubset (mem_laborsOn.2 ⟨x, hxs, rfl, rfl⟩) hnot ?_
        fun _ _ _ => Nat.zero_le _
      have hterms := terms?_of_mem hx
      obtain ⟨labor, -, hlabor⟩ := Option.bind_eq_some_iff.1 hterms
      rw [hterms]
      exact Labor.minimum_pos hlabor
  · intro hpaid
    have halike := ofAttendance_paidPart hpaid
    rw [h, h'] at halike
    cases halike with
    | ok hsame => exact hsame

end PieceworkSummary

end FieldWages
