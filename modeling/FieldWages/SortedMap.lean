/-!
# Sorted maps

A *sorted map* is a list of keys with their values, the keys strictly
ascending. Two sorted maps that answer every look-up alike are equal, so a map
can be compared, written out and folded over without a choice of order.

* `SortedMap.get?_insert`: what is found after an insertion;
* `SortedMap.mem_keys_insert`: which keys there are after an insertion;
* `SortedMap.get?_tabulate`: what is found in a map given by a function.
-/

namespace FieldWages

/-- Keys in strictly ascending order, each with a value. -/
structure SortedMap (κ : Type) (α : Type) [LT κ] where
  entries : List (κ × α)
  sorted : entries.Pairwise fun a b => a.1 < b.1

namespace SortedMap

variable {κ α β : Type} [LT κ]

instance [DecidableEq κ] [DecidableEq α] : DecidableEq (SortedMap κ α) := fun a b =>
  decidable_of_iff (a.entries = b.entries)
    ⟨fun h => by cases a; cases b; simp_all, fun h => by rw [h]⟩

/-- The map without keys. -/
def empty : SortedMap κ α := ⟨[], .nil⟩

instance : Inhabited (SortedMap κ α) := ⟨empty⟩

/-- The keys, in ascending order. -/
def keys (m : SortedMap κ α) : List κ := m.entries.map (·.1)

/-- The values, in the order of their keys. -/
def values (m : SortedMap κ α) : List α := m.entries.map (·.2)

/-- How many keys there are. -/
def size (m : SortedMap κ α) : Nat := m.entries.length

/-- The value of a key, if there is one. -/
def get? [DecidableEq κ] (m : SortedMap κ α) (k : κ) : Option α :=
  (m.entries.find? fun e => e.1 = k).map (·.2)

/-- The map of ascending keys to the values a function gives them. -/
def tabulate (keys : List κ) (sorted : keys.Pairwise (· < ·)) (f : κ → α) : SortedMap κ α :=
  ⟨keys.map fun k => (k, f k), List.pairwise_map.2 sorted⟩

theorem get?_tabulate [DecidableEq κ] {keys : List κ} {sorted : keys.Pairwise (· < ·)} {f : κ → α}
    {k : κ} : (tabulate keys sorted f).get? k = if k ∈ keys then some (f k) else none := by
  simp only [tabulate, get?]
  clear sorted
  induction keys with
  | nil => simp
  | cons x xs ih =>
    rw [List.map_cons, List.find?_cons]
    by_cases h : x = k
    · simp [h]
    · simpa [h, Ne.symm h] using ih

/-- Places an entry in a list of entries; one with the same key is replaced. -/
def place [DecidableLT κ] (k : κ) (v : α) : List (κ × α) → List (κ × α)
  | [] => [(k, v)]
  | e :: es =>
    if k < e.1 then (k, v) :: e :: es
    else if e.1 < k then e :: place k v es
    else (e.1, v) :: es

theorem lt_of_mem_place [DecidableLT κ] {b k : κ} {v : α} {es : List (κ × α)} (hk : b < k)
    (h : ∀ e ∈ es, b < e.1) : ∀ e ∈ place k v es, b < e.1 := by
  induction es with
  | nil => simpa [place] using hk
  | cons e es ih =>
    have he := h e (by simp)
    have hes : ∀ e ∈ es, b < e.1 := fun e he => h e (by simp [he])
    simp only [place]
    split
    · intro x hx
      rcases List.mem_cons.1 hx with rfl | hx
      · exact hk
      · exact h x hx
    split
    · intro x hx
      rcases List.mem_cons.1 hx with rfl | hx
      · exact he
      · exact ih hes x hx
    · intro x hx
      rcases List.mem_cons.1 hx with rfl | hx
      · exact he
      · exact hes x hx

theorem pairwise_place [LE κ] [Std.IsLinearOrder κ] [Std.LawfulOrderLT κ] [DecidableLT κ]
    {k : κ} {v : α} {es : List (κ × α)} (h : es.Pairwise fun a b => a.1 < b.1) :
    (place k v es).Pairwise fun a b => a.1 < b.1 := by
  induction es with
  | nil => simp [place]
  | cons e es ih =>
    obtain ⟨he, hes⟩ := List.pairwise_cons.1 h
    simp only [place]
    split
    · rename_i hk
      refine List.pairwise_cons.2 ⟨?_, h⟩
      intro x hx
      rcases List.mem_cons.1 hx with rfl | hx
      · exact hk
      · exact Std.lt_trans hk (he x hx)
    split
    · rename_i hk
      exact List.pairwise_cons.2 ⟨lt_of_mem_place hk he, ih hes⟩
    · exact List.pairwise_cons.2 ⟨he, hes⟩

variable [LE κ] [Std.IsLinearOrder κ] [Std.LawfulOrderLT κ] [DecidableLT κ]

/-- The map with the given value at a key. -/
def insert (m : SortedMap κ α) (k : κ) (v : α) : SortedMap κ α :=
  ⟨place k v m.entries, pairwise_place m.sorted⟩

/-- The map of a list of entries; of several with one key the last counts. -/
def ofList (es : List (κ × α)) : SortedMap κ α :=
  es.foldl (fun m e => m.insert e.1 e.2) empty

theorem mem_keys_place {k k' : κ} {v : α} {es : List (κ × α)} :
    k' ∈ (place k v es).map (·.1) ↔ k' = k ∨ k' ∈ es.map (·.1) := by
  induction es with
  | nil => simp [place]
  | cons e es ih =>
    simp only [place]
    split
    · simp
    split
    · simp only [List.map_cons, List.mem_cons, ih]
      constructor
      · rintro (h | h | h) <;> simp_all
      · rintro (h | h | h) <;> simp_all
    · have : k = e.1 := Std.le_antisymm (Std.not_lt.1 ‹_›) (Std.not_lt.1 ‹_›)
      simp [this]

theorem mem_keys_insert {m : SortedMap κ α} {k k' : κ} {v : α} :
    k' ∈ (m.insert k v).keys ↔ k' = k ∨ k' ∈ m.keys := mem_keys_place

theorem find?_place [DecidableEq κ] {k k' : κ} {v : α} {es : List (κ × α)} :
    ((place k v es).find? fun e => e.1 = k').map (·.2) =
      if k = k' then some v else (es.find? fun e => e.1 = k').map (·.2) := by
  induction es with
  | nil =>
    by_cases h : k = k' <;> simp [place, h]
  | cons e es ih =>
    simp only [place]
    split
    · by_cases h : k = k' <;> simp [h]
    split
    · rename_i hk
      by_cases he : e.1 = k'
      · have : k ≠ k' := fun h => Std.lt_irrefl (h ▸ he ▸ hk)
        simp [he, this]
      · simp [he, ih]
    · have he : e.1 = k := Std.le_antisymm (Std.not_lt.1 ‹_›) (Std.not_lt.1 ‹_›)
      by_cases h : k = k'
      · simp [he, h]
      · simp [he, h]

theorem get?_insert [DecidableEq κ] {m : SortedMap κ α} {k k' : κ} {v : α} :
    (m.insert k v).get? k' = if k = k' then some v else m.get? k' := find?_place

end SortedMap

end FieldWages
