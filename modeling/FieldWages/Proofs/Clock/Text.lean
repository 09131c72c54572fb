import FieldWages.Clock.Text
import FieldWages.Proofs.Date.Text

/-!
# Times read back

A fraction of a second has three, six or nine places, and behind each of them the
value of its digits is brought to nanoseconds. The leap second is written as the
second sixty and read as such.

* `TimeOfDay.readParts_chars`: hour and minute, then second and fraction, are read up
  to the end of the time;
* `TimeOfDay.ofText?_toText`, `DateTime.ofText?_toText`, `Timestamp.ofText?_toText`.
-/

namespace FieldWages

open Text

namespace TimeOfDay

variable {rest : List Char} {n nano : ℕ}

/-- A text that goes on with no digit and no point behind a fraction. -/
def EndsFraction (rest : List Char) : Prop := EndsDigits rest ∧ rest.head? ≠ some '.'

theorem endsFraction_nil : EndsFraction [] := ⟨endsDigits_nil, by decide⟩

/-- A fraction of a second is shown by so many places that all of it is read back. -/
theorem readFraction?_places {width : ℕ} (hwidth : 0 < width ∧ width ≤ 9) (hn : n < 10 ^ width)
    (hnano : n * tenPow (9 - width) = nano) (hrest : EndsDigits rest) :
    readFraction? ('.' :: padded width n ++ rest) = some (nano, rest) := by
  have hdigits : ∀ c ∈ padded width n, c.isDigit := fun _ => isDigit_of_mem_padded
  have hlength := length_padded hwidth.1 hn
  have htake := takeDigits_append hdigits hrest (hlength.trans_le hwidth.2)
  have hdrop := dropWhile_digits (List.forall_mem_nil (Char.isDigit · = true)) hrest
  rw [List.cons_append, readFraction?, htake]
  refine (if_neg (padded_ne_nil width n)).trans ?_
  rw [valueOf_padded, hlength, hnano]
  exact congrArg (fun cs => some (nano, cs)) hdrop

theorem readFraction?_fractionChars (hnano : nano < 1000000000) (hrest : EndsFraction rest) :
    readFraction? (fractionChars nano ++ rest) = some (nano, rest) := by
  rw [fractionChars]
  split
  · next h =>
    rw [List.nil_append, h]
    cases rest with
    | nil => rfl
    | cons c cs =>
      rw [readFraction?]
      rintro _ ⟨⟩
      exact hrest.2 rfl
  split
  · next h =>
    exact readFraction?_places (by decide) (by omega)
      (Nat.div_mul_cancel (Nat.dvd_of_mod_eq_zero h)) hrest.1
  split
  · next h =>
    exact readFraction?_places (by decide) (by omega)
      (Nat.div_mul_cancel (Nat.dvd_of_mod_eq_zero h)) hrest.1
  · exact readFraction?_places (by decide) hnano (Nat.mul_one nano) hrest.1

theorem endsDigits_fractionChars (hrest : EndsDigits rest) :
    EndsDigits (fractionChars nano ++ rest) := by
  rw [fractionChars]
  split
  · exact hrest
  split
  · exact endsDigits_cons rfl
  split <;> exact endsDigits_cons rfl

/-- The parts of a time of day that are written make it up again. -/
theorem ofParts?_parts (t : TimeOfDay) :
    ofParts? (t.second / 3600) (t.second / 60 % 60)
      (t.second % 60 + t.nano / 1000000000) (t.nano % 1000000000) = some t := by
  obtain ⟨second, nano, hsecond, hnano, hleap⟩ := t
  dsimp only at *
  by_cases h : 1000000000 ≤ nano
  · have h₁ : nano / 1000000000 = 1 := by omega
    have h₅₉ := hleap h
    rw [ofParts?, dif_pos (by omega), dif_pos (by omega)]
    congr 2 <;> omega
  · have h₀ : nano / 1000000000 = 0 := by omega
    rw [ofParts?, dif_pos (by omega), dif_neg (by omega)]
    congr 2 <;> omega

/-- The minute and the second of a time at the beginning of a text are read up to its end. -/
theorem readParts_chars (t : TimeOfDay) (hrest : EndsFraction rest) :
    ∃ cs, readMinute? (t.chars ++ rest) = some (t.second / 3600, t.second / 60 % 60, cs) ∧
      readSecond? cs =
        some (t.second % 60 + t.nano / 1000000000, t.nano % 1000000000, rest) := by
  have hcolon : ∀ cs, EndsDigits (':' :: cs) := fun _ => endsDigits_cons rfl
  have hsecond := t.second_lt
  have hnano := t.nano_lt
  have hsixty : t.second % 60 + t.nano / 1000000000 ≤ 60 := by omega
  refine ⟨':' :: (padded 2 (t.second % 60 + t.nano / 1000000000) ++
    (fractionChars (t.nano % 1000000000) ++ rest)), ?_, ?_⟩
  · have htext : t.chars ++ rest = padded 2 (t.second / 3600) ++
        ':' :: (padded 2 (t.second / 60 % 60) ++
          ':' :: (padded 2 (t.second % 60 + t.nano / 1000000000) ++
            (fractionChars (t.nano % 1000000000) ++ rest))) := by
      simp [chars]
    simp only [readMinute?, htext,
      Date.readNumber?_two (by omega : t.second / 3600 < 100) (hcolon _),
      Option.bind_eq_bind, Option.bind_some,
      Date.skipBlanks_cons (by decide : isBlank ':' = false), expect?, if_true,
      Date.readNumber?_two (by omega : t.second / 60 % 60 < 100) (hcolon _)]
    rfl
  · simp only [readSecond?, Date.skipBlanks_cons (by decide : isBlank ':' = false), expect?,
      if_true, Option.bind_eq_bind, Option.bind_some,
      Date.readNumber?_two (by omega : t.second % 60 + t.nano / 1000000000 < 100)
        (endsDigits_fractionChars hrest.1), if_neg (not_lt.2 hsixty),
      readFraction?_fractionChars (Nat.mod_lt _ (by decide)) hrest]
    rfl

theorem read?_chars (t : TimeOfDay) (hrest : EndsFraction rest) :
    read? (t.chars ++ rest) = some (t, skipBlanks rest) := by
  obtain ⟨cs, hminute, hsecond⟩ := t.readParts_chars hrest
  simp only [read?, hminute, hsecond, ofParts?_parts, Option.bind_eq_bind, Option.bind_some]
  rfl

/-- Reading a time of day that was written gives it back. -/
theorem ofText?_toText (t : TimeOfDay) : ofText? t.toText = some t := by
  obtain ⟨cs, hminute, hsecond⟩ := t.readParts_chars endsFraction_nil
  rw [List.append_nil] at hminute
  simp only [ofText?, toText, String.toList_ofList, hminute, hsecond, Option.bind_eq_bind,
    Option.bind_some, Option.getD_some, ofParts?_parts]
  rfl

end TimeOfDay

/-- Reading a date and time that was written gives it back. -/
theorem DateTime.ofText?_toText (t : DateTime) : ofText? t.toText = some t := by
  have hdate : Date.read? t.chars = some (t.date, 'T' :: (t.time.chars ++ [])) := by
    rw [List.append_nil]
    exact t.date.read?_chars (endsDigits_cons rfl)
  simp only [ofText?, toText, String.toList_ofList, hdate, Option.bind_eq_bind, Option.bind_some,
    Date.skipBlanks_cons (by decide : isBlank 'T' = false), expect?, if_true,
    TimeOfDay.read?_chars _ TimeOfDay.endsFraction_nil]
  rfl

/-- No minutes later it is the same time. -/
theorem DateTime.shift?_zero (t : DateTime) : t.shift? 0 = some t := by
  obtain ⟨date, time⟩ := t
  have hsecond := time.second_lt
  have hs : ((time.second : ℤ) + 0 * 60) % 86400 = time.second := by omega
  have hdays : ((time.second : ℤ) + 0 * 60) / 86400 = 0 := by omega
  have htime : time.shift 0 = (time, 0) := by
    simp only [TimeOfDay.shift, hs, hdays, Int.toNat_natCast]
  have hdate : Date.ofSerial? (date.serial + 0) = some date := by
    rw [Int.add_zero, Date.ofSerial?, dif_pos ⟨date.first_le, date.le_last⟩]
  simp only [shift?, htime, hdate, Option.map_some]

/-- Reading an instant that was written gives it back. -/
theorem Timestamp.ofText?_toText (t : Timestamp) : ofText? t.toText = some t := by
  have htext : t.utc.chars ++ ['Z'] = t.utc.date.chars ++ 'T' :: (t.utc.time.chars ++ ['Z']) := by
    simp [DateTime.chars]
  have hdate : Date.read? (t.utc.chars ++ ['Z']) =
      some (t.utc.date, 'T' :: (t.utc.time.chars ++ ['Z'])) :=
    htext ▸ t.utc.date.read?_chars (endsDigits_cons (by decide))
  have htime : TimeOfDay.read? (t.utc.time.chars ++ ['Z']) = some (t.utc.time, ['Z']) :=
    t.utc.time.read?_chars ⟨endsDigits_cons rfl, by decide⟩
  have hoffset : readOffset? ['Z'] = some (0, []) := by decide
  simp only [ofText?, toText, String.toList_ofList, hdate, Option.bind_eq_bind, Option.bind_some,
    readTime?, htime, hoffset, Int.neg_zero, DateTime.shift?_zero]
  rfl

end FieldWages
