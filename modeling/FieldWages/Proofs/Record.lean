import FieldWages.Proofs.Clock.Text
import FieldWages.Proofs.Decimal.Text
import FieldWages.Proofs.Json
import FieldWages.Record.Form

/-!
# Records read back

The form of a value is *read as* another value of its type if reading it gives that
one (`JsonForm.ReadAs`). Texts, counts, dates and times are read as they were
written; a decimal is read with its mantissa and its scale, but a zero without a minus
sign. What is optional and what is a list is read by its parts.

A record is read field by field. A reader *finds* a value in an object if it gives
that value and leaves the object (`Record.Finds`); the members it passes on the way
are named one after the other.

* `Record.finds_field`, `Record.finds_fieldOr`, `Record.finds_field?`, `Record.Finds.bind`:
  the steps of a reader;
* the lemmas `JsonForm.readAs_*` and `JsonForm.within_*`: the forms that records are
  made of are read back, and are not nested.
-/

namespace FieldWages

namespace JsonForm

variable {α : Type} [JsonForm α] {f : α → α} {d : ℕ}

/-- Whether the form of every value is read as the image of the value. -/
def ReadAs (f : α → α) : Prop := ∀ a, ofJson? (toJson a) = some (f a)

/-! ## Values that are not nested -/

theorem readAs_json : ReadAs (@id Json) := fun _ => rfl

theorem readAs_string : ReadAs (@id String) := fun _ => rfl

theorem readAs_bool : ReadAs (@id Bool) := fun _ => rfl

theorem readAs_uint32 : ReadAs (@id UInt32) := fun n => by
  have hlt : n.toNat < 4294967296 := n.toNat_lt
  have hn : (0 : ℤ) ≤ n.toNat ∧ (n.toNat : ℤ) < 4294967296 := by omega
  change ofJson? (toJson n) = some n
  exact (if_pos hn).trans (by rw [Int.toNat_natCast, UInt32.ofNat_toNat])

theorem readAs_uint64 : ReadAs (@id UInt64) := fun n => by
  have hlt : n.toNat < 18446744073709551616 := n.toNat_lt
  have hn : (0 : ℤ) ≤ n.toNat ∧ (n.toNat : ℤ) < 18446744073709551616 := by omega
  change ofJson? (toJson n) = some n
  exact (if_pos hn).trans (by rw [Int.toNat_natCast, UInt64.ofNat_toNat])

theorem readAs_decimal : ReadAs Decimal.unsignZero := Decimal.ofText?_toText

omit [JsonForm α] in
theorem textOf?_str (read? : String → Option α) (s : String) : textOf? read? (.str s) = read? s :=
  rfl

theorem readAs_date : ReadAs (@id Date) := fun a =>
  (textOf?_str ..).trans a.ofText?_toText

theorem readAs_timeOfDay : ReadAs (@id TimeOfDay) := fun t =>
  (textOf?_str ..).trans t.ofText?_toText

theorem readAs_dateTime : ReadAs (@id DateTime) := fun t =>
  (textOf?_str ..).trans t.ofText?_toText

theorem readAs_weekday : ReadAs (@id Weekday) := fun w =>
  (textOf?_str ..).trans w.ofText?_toText

theorem readAs_category : ReadAs (@id Category) := Category.ofName?_name

@[simp]
theorem within_string (s : String) : (toJson s).Within d := .str s

@[simp]
theorem within_bool (b : Bool) : (toJson b).Within d := .bool b

@[simp]
theorem within_uint32 (n : UInt32) : (toJson n).Within d :=
  .int (by have := n.toNat_lt; simp only [Shortest.maxWord]; omega)

@[simp]
theorem within_uint64 (n : UInt64) : (toJson n).Within d :=
  .int (by have := n.toNat_lt; simp only [Shortest.maxWord]; omega)

@[simp]
theorem within_decimal (a : Decimal) : (toJson a).Within d := .str _

@[simp]
theorem within_date (a : Date) : (toJson a).Within d := .str _

@[simp]
theorem within_timeOfDay (t : TimeOfDay) : (toJson t).Within d := .str _

@[simp]
theorem within_dateTime (t : DateTime) : (toJson t).Within d := .str _

@[simp]
theorem within_weekday (w : Weekday) : (toJson w).Within d := .str _

@[simp]
theorem within_category (c : Category) : (toJson c).Within d := .str _

/-! ## What is optional, and lists -/

/-- What is there is told from what is not, as no value is written as null. -/
theorem ReadAs.option (h : ReadAs f) (hnull : ∀ a : α, toJson a ≠ .null) :
    ReadAs (Option.map f) := by
  rintro (_ | a)
  · rfl
  · have hsome : ofJson? (α := Option α) (toJson a) = (ofJson? (toJson a)).map some := by
      simp only [ofJson?]
      split
      · next heq => exact absurd heq (hnull a)
      · rfl
    exact hsome.trans (by rw [h a]; rfl)

theorem ReadAs.option_id (h : ReadAs (@id α)) (hnull : ∀ a : α, toJson a ≠ .null) :
    ReadAs (@id (Option α)) := Option.map_id ▸ h.option hnull

theorem ReadAs.list (h : ReadAs f) : ReadAs (List.map f) := fun as => by
  simp only [ofJson?, toJson]
  induction as with
  | nil => rfl
  | cons a as ih => 
    rw [List.map_cons, List.mapM_cons, h a]
    simp only [Option.bind_eq_bind, Option.bind_some, ih]
    rfl

theorem ReadAs.list_id (h : ReadAs (@id α)) : ReadAs (@id (List α)) := List.map_id_fun ▸ h.list

@[simp]
theorem within_option (h : ∀ a : α, (toJson a).Within d) (o : Option α) :
    (toJson o).Within d := by
  cases o with
  | none => exact .null
  | some a => exact h a

theorem within_list {as : List α} (h : ∀ a ∈ as, (toJson a).Within d) :
    (toJson as).Within (d + 1) :=
  .arr (List.forall_mem_map.2 h)

end JsonForm

/-! ## Readers -/

namespace Record

open JsonForm

variable {α β : Type} {ms : List (String × Json)} {r : FieldReader Json α} {a : α}

/-- The members of an object as fields. -/
def fieldsOf (ms : List (String × Json)) : Fields Json :=
  .named fun name => (Json.member? ms name).toList

/-- Whether a reader gives a value from the members of an object. -/
def Finds (r : FieldReader Json α) (ms : List (String × Json)) (a : α) : Prop :=
  r (fieldsOf ms) = some (a, fieldsOf ms)

theorem finds_pure (a : α) : Finds (pure a) ms a := rfl

theorem Finds.bind {k : α → FieldReader Json β} {b : β} (hr : Finds r ms a)
    (hk : Finds (k a) ms b) : Finds (r >>= k) ms b := by
  change (r (fieldsOf ms)).bind (fun p => k p.1 p.2) = _
  rw [hr]
  exact hk

theorem Finds.ofJson?_obj (h : Finds r ms a) : Record.ofJson? r (.obj ms) = some a := by
  change read? r (fieldsOf ms) = _
  rw [read?, h]
  rfl

section

variable [JsonForm α] {f : α → α} {name : String}

theorem finds_field (hname : Json.member? ms name = some (toJson a)) (h : ReadAs f) :
    Finds (field name) ms (f a) := by
  simp only [Finds, field, fieldsOf, hname, Option.toList_some, ReadFrom.read?, h a,
    Option.map_some]

/-- The default of a field that is written does not count. -/
theorem finds_fieldOr (b : α) (hname : Json.member? ms name = some (toJson a)) (h : ReadAs f) :
    Finds (fieldOr name b) ms (f a) := by
  have hfield := finds_field hname h
  simp only [Finds, fieldsOf, fieldOr, hname, Option.toList_some] at hfield ⊢
  exact hfield

theorem finds_field? {f : Option α → Option α} {a : Option α}
    (hname : Json.member? ms name = some (toJson a)) (h : ReadAs f) :
    Finds (field? name) ms (f a) := finds_fieldOr none hname h

end

end Record

end FieldWages
