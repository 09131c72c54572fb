import FieldWages.Date.Text
import FieldWages.Proofs.Text.Digits

/-!
# Dates read back

A date that was written is read as the same date, whatever follows it as long as
it is no digit: a year from 0 to 9999 has no sign and exactly four digits, and any
other is read by its sign to its last digit.

* `Date.read?_chars`, `Date.ofText?_toText`, `Weekday.ofText?_toText`.
-/

namespace FieldWages

open Text

theorem Civil.ofSerial_bounds (n : ℤ) :
    (1 ≤ (ofSerial n).month ∧ (ofSerial n).month ≤ 12) ∧
      1 ≤ (ofSerial n).day ∧ (ofSerial n).day ≤ 31 := by
  have h₀ : 0 ≤ (n + 306) % 146097 := by omega
  have h₁ : (n + 306) % 146097 < 146097 := by omega
  obtain ⟨-, hd₀, hd₁⟩ := yearOfEra_bounds h₀ h₁
  simp only [ofSerial, daysBeforeMonth]
  generalize (n + 306) % 146097 - daysBeforeYear (yearOfEra ((n + 306) % 146097)) = day at *
  split <;> omega

namespace Date

variable {cs ds rest : List Char} {n : ℕ}

theorem skipBlanks_cons {c : Char} (h : isBlank c = false) :
    skipBlanks (c :: cs) = c :: cs :=
  List.dropWhile_cons_of_neg (by rw [h]; decide)

theorem readNumber?_append (hds : ∀ c ∈ ds, c.isDigit) (hne : ds ≠ []) (hn : ds.length ≤ n)
    (hrest : EndsDigits rest) : readNumber? n (ds ++ rest) = some (valueOf ds, rest) := by
  rw [readNumber?, skipBlanks_digits hds hne, takeDigits_append hds hrest hn]
  exact if_neg hne

/-- A number that was filled up to two digits is read as such. -/
theorem readNumber?_two (hn : n < 100) (hrest : EndsDigits rest) :
    readNumber? 2 (padded 2 n ++ rest) = some (n, rest) := by
  rw [readNumber?_append (fun _ => isDigit_of_mem_padded) (padded_ne_nil 2 n)
    (length_padded (by decide) hn).le hrest, valueOf_padded]

theorem readSignedYear?_append (width : ℕ) (hrest : EndsDigits rest) :
    readSignedYear? (padded width n ++ rest) = some (n, rest) := by
  rw [readSignedYear?, takeDigits_append (fun _ => isDigit_of_mem_padded) hrest
    (by rw [List.length_append]; exact Nat.le_add_right ..)]
  exact (if_neg (padded_ne_nil width n)).trans (by rw [valueOf_padded])

theorem readYear?_yearChars (year : ℤ) (hrest : EndsDigits rest) :
    readYear? (Civil.yearChars year ++ rest) = some (year, rest) := by
  rw [Civil.yearChars]
  split
  · next hyear =>
    have hvalue : ((year.toNat : ℕ) : ℤ) = year := Int.toNat_of_nonneg hyear.1
    have hdigits : ∀ c ∈ padded 4 year.toNat, c.isDigit := fun _ => isDigit_of_mem_padded
    obtain ⟨c, cs, hcs⟩ := List.exists_cons_of_ne_nil (padded_ne_nil 4 year.toNat)
    have hc : c.isDigit := hdigits c (hcs ▸ List.mem_cons_self)
    have hnumber : readNumber? 4 (padded 4 year.toNat ++ rest) = some (year.toNat, rest) := by
      rw [readNumber?_append hdigits (padded_ne_nil 4 _)
        (length_padded (by decide) (by omega)).le hrest, valueOf_padded]
    -- The first digit is no sign.
    rw [readYear?, skipBlanks_digits hdigits (padded_ne_nil 4 _), hcs, List.cons_append]
    split
    · next h => cases (List.cons_eq_cons.1 h).1 ▸ hc
    · next h => cases (List.cons_eq_cons.1 h).1 ▸ hc
    · rw [← List.cons_append, ← hcs, hnumber, Option.map_some]
      exact congrArg (fun y => some (y, rest)) hvalue
  · next hyear =>
    split
    · next hneg =>
      change Option.map _ (readSignedYear? (padded 4 year.natAbs ++ rest)) = _
      rw [readSignedYear?_append 4 hrest, Option.map_some]
      exact congrArg (fun y => some (y, rest)) (by omega)
    · next hpos =>
      change Option.map _ (readSignedYear? (padded 4 year.natAbs ++ rest)) = _
      rw [readSignedYear?_append 4 hrest, Option.map_some]
      exact congrArg (fun y => some (y, rest)) (by omega)

/-- A date at the beginning of a text is read up to its end. -/
theorem read?_chars (d : Date) (hrest : EndsDigits rest) :
    read? (d.chars ++ rest) = some (d, rest) := by
  obtain ⟨⟨hm₀, hm₁⟩, hd₀, hd₁⟩ := Civil.ofSerial_bounds d.serial
  have hmonth : ((d.civil.month.toNat : ℕ) : ℤ) = d.civil.month :=
    Int.toNat_of_nonneg (by simp only [civil]; omega)
  have hday : ((d.civil.day.toNat : ℕ) : ℤ) = d.civil.day :=
    Int.toNat_of_nonneg (by simp only [civil]; omega)
  have hmonth' : d.civil.month.toNat < 100 := by simp only [civil]; omega
  have hday' : d.civil.day.toNat < 100 := by simp only [civil]; omega
  have hhyphen : ∀ cs, EndsDigits ('-' :: cs) := fun _ => endsDigits_cons rfl
  have htext : d.chars ++ rest = Civil.yearChars d.civil.year ++
      '-' :: (padded 2 d.civil.month.toNat ++ '-' :: (padded 2 d.civil.day.toNat ++ rest)) := by
    simp [chars, Civil.chars]
  simp only [read?, htext, readYear?_yearChars _ (hhyphen _), Option.bind_eq_bind,
    Option.bind_some, skipBlanks_cons (by decide : isBlank '-' = false), expect?, if_true,
    readNumber?_two hmonth' (hhyphen _), readNumber?_two hday' hrest, hmonth, hday]
  exact congrArg (·.bind fun date => some (date, rest)) (ofCivil?_civil (d := d))

/-- Reading a date that was written gives it back. -/
theorem ofText?_toText (d : Date) : ofText? d.toText = some d := by
  have hread := read?_chars d endsDigits_nil
  rw [List.append_nil] at hread
  rw [ofText?, toText, String.toList_ofList, hread]
  rfl

end Date

theorem Weekday.ofText?_toText (w : Weekday) : ofText? w.toText = some w := by
  cases w <;> decide

end FieldWages
