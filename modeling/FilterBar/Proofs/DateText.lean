import Mathlib.Data.List.TakeWhile
import FilterBar.Filter.Basic
import FilterBar.Proofs.Utf8
import FilterBar.Time.Reading

/-!
# Dates in a URL

An instant is written with the whole milliseconds of its fraction.  Where its year has four digits
this text is read back, as the instant with the rest of the fraction cut off.  It holds no percent
sign, so that decoding escapes leaves it as it is.
-/

namespace FilterBar

namespace Text

theorem length_digits_le {width n : Nat} (hwidth : 0 < width) (h : n < Nat.pow 10 width) :
    (digits n).length ≤ width :=
  (Nat.length_toDigits_le_iff (by omega) hwidth).mpr h

theorem length_paddedDigits {width n : Nat} (hwidth : 0 < width) (h : n < Nat.pow 10 width) :
    (paddedDigits width n).length = width := by
  have hlength := length_digits_le hwidth h
  rw [paddedDigits, List.length_append, List.length_replicate]
  omega

theorem isDigit_of_mem_paddedDigits {width n : Nat} {d : Char} (h : d ∈ paddedDigits width n) :
    d.isDigit = true := by
  rcases List.mem_append.mp h with hzero | hdigit
  · rw [List.eq_of_mem_replicate hzero]
    rfl
  · exact Nat.isDigit_of_mem_toDigits (by omega) (by omega) hdigit

theorem paddedDigits_zero (n : Nat) : paddedDigits 0 n = digits n := by
  rw [paddedDigits, Nat.zero_sub, List.replicate_zero, List.nil_append]

theorem exists_paddedDigits_eq_cons (width n : Nat) :
    ∃ d more, paddedDigits width n = d :: more ∧ d.isDigit = true := by
  cases hdigits : paddedDigits width n with
  | nil => exact absurd (List.append_eq_nil_iff.mp hdigits).2 Nat.toDigits_ne_nil
  | cons d more =>
    exact ⟨d, more, rfl, isDigit_of_mem_paddedDigits (hdigits ▸ List.mem_cons_self)⟩

theorem ofDigits_paddedDigits (width n : Nat) : ofDigits (paddedDigits width n) = n := by
  rw [ofDigits, paddedDigits, Nat.ofDigitChars_append, Nat.ofDigitChars_replicate_zero,
    Nat.mul_zero, digits, Nat.ofDigitChars_ten_toDigits]

/-- Digits end where something else follows. -/
theorem span_digits_append {digits rest : List Char} (hdigits : ∀ d ∈ digits, d.isDigit = true)
    (hrest : rest.takeWhile Char.isDigit = []) :
    (digits ++ rest).takeWhile Char.isDigit = digits ∧
      (digits ++ rest).dropWhile Char.isDigit = rest := by
  have hself : rest.dropWhile Char.isDigit = rest := by
    have happend := List.takeWhile_append_dropWhile (p := Char.isDigit) (l := rest)
    rwa [hrest, List.nil_append] at happend
  rw [List.takeWhile_append_of_pos hdigits, List.dropWhile_append_of_pos hdigits, hrest, hself,
    List.append_nil]
  exact ⟨rfl, rfl⟩

/-- Digits are read up to where no more are asked for or where they end. -/
theorem readNumber?_append {least most : Nat} {digits rest : List Char}
    (hdigits : ∀ d ∈ digits, d.isDigit = true) (hleast : least ≤ digits.length)
    (hmost : digits.length ≤ most)
    (hend : digits.length = most ∨ rest.takeWhile Char.isDigit = []) :
    readNumber? least most (digits ++ rest) = some (ofDigits digits, rest) := by
  have hmore : (rest.take (most - digits.length)).takeWhile Char.isDigit = [] := by
    rcases hend with hlength | hend
    · rw [hlength, Nat.sub_self, List.take_zero, List.takeWhile_nil]
    · cases rest with
      | nil => rw [List.take_nil, List.takeWhile_nil]
      | cons d rest =>
        have hd : d.isDigit = false := by
          by_contra hd
          simp [List.takeWhile_cons, hd] at hend
        cases most - digits.length with
        | zero => rfl
        | succ n => simp [hd]
  have hread : ((digits ++ rest).take most).takeWhile Char.isDigit = digits := by
    rw [List.take_append, List.take_of_length_le hmost, List.takeWhile_append_of_pos hdigits, hmore,
      List.append_nil]
  have hdrop : (digits ++ rest).drop digits.length = rest := List.drop_left
  simp only [readNumber?, hread, hdrop, if_neg (Nat.not_lt.mpr hleast)]

/-- A number in its full width is read back, whatever follows. -/
theorem readNumber?_paddedDigits {width n : Nat} (hwidth : 0 < width) (h : n < Nat.pow 10 width)
    (rest : List Char) :
    readNumber? width width (paddedDigits width n ++ rest) = some (n, rest) := by
  have hlength := length_paddedDigits hwidth h
  rw [readNumber?_append (fun _ hd => isDigit_of_mem_paddedDigits hd) (Nat.le_of_eq hlength.symm)
    (Nat.le_of_eq hlength) (Or.inl hlength), ofDigits_paddedDigits]

theorem after?_cons (c : Char) (rest : List Char) : after? c (c :: rest) = some rest :=
  if_pos rfl

theorem readNumber?_two {n : Nat} (h : n < 100) (rest : List Char) :
    readNumber? 2 2 (paddedDigits 2 n ++ rest) = some (n, rest) :=
  readNumber?_paddedDigits (by omega) (show n < 100 from h) rest

end Text

namespace Clock

/-- The reading with the part of its fraction below the millisecond cut off. -/
def wholeMillis (c : Clock) : Clock :=
  { c with
    nano := c.nano / 1000000 * 1000000
    nano_lt := Nat.lt_of_le_of_lt (Nat.div_mul_le_self _ _) c.nano_lt }

theorem of?_self (c : Clock) : of? c.hour c.minute c.second c.nano = some c := by
  rw [of?, dif_pos ⟨c.hour_lt, c.minute_lt, c.second_le, c.nano_lt⟩]

theorem of?_wholeMillis (c : Clock) :
    of? c.hour c.minute c.second (c.nano / 1000000 * 1000000) = some c.wholeMillis :=
  c.wholeMillis.of?_self

theorem minuteOfDay_lt (c : Clock) : c.minuteOfDay < 1440 := by
  have hhour := c.hour_lt
  have hminute := c.minute_lt
  rw [minuteOfDay]
  omega

theorem atMinute?_minuteOfDay (c : Clock) : c.atMinute? c.minuteOfDay = some c := by
  have hminute := c.minute_lt
  have hdiv : c.minuteOfDay / 60 = c.hour := by
    rw [minuteOfDay]
    omega
  have hmod : c.minuteOfDay % 60 = c.minute := by
    rw [minuteOfDay]
    omega
  rw [atMinute?, hdiv, hmod, of?_self]

end Clock

namespace Date

theorem of?_self (d : Date) : of? d.year d.month d.day = some d := by
  rw [of?, dif_pos d.isDay]

theorem month_lt (d : Date) : d.month < 100 := by
  have h := d.isDay.2.1.2
  omega

theorem day_lt (d : Date) : d.day < 100 := by
  have h := d.isDay.2.2.2
  have hdays : daysInMonth d.year d.month ≤ 31 := by
    unfold daysInMonth
    split
    · split <;> omega
    · split <;> omega
  omega

end Date

namespace Instant

open Text

/-- The instant with the part of its fraction below the millisecond cut off. -/
def wholeMillis (t : Instant) : Instant :=
  { t with clock := t.clock.wholeMillis }

/-- What is cut off is not written. -/
theorem millisText_wholeMillis (t : Instant) : t.wholeMillis.millisText = t.millisText := by
  have hnano : t.clock.nano / 1000000 * 1000000 / 1000000 = t.clock.nano / 1000000 :=
    Nat.mul_div_cancel _ (by omega)
  rw [millisText, millisText, Clock.millisText, Clock.millisText, ← hnano]
  rfl

/-- A clock in UTC needs no moving. -/
theorem ofLocal?_zero (d : Date) (c : Clock) : ofLocal? d c 0 = some ⟨d, c⟩ := by
  have hlt := c.minuteOfDay_lt
  have hminute : (((c.minuteOfDay : Int) - 0) % 1440).toNat = c.minuteOfDay := by omega
  have hlow : ¬((c.minuteOfDay : Int) - 0 < 0) := by omega
  have hhigh : ¬(1440 ≤ (c.minuteOfDay : Int) - 0) := by omega
  simp only [ofLocal?, hlow, hhigh, if_false, hminute, c.atMinute?_minuteOfDay]
  rfl

theorem afterSeparator?_T (rest : List Char) : afterSeparator? ('T' :: rest) = some rest := rfl

/-- The digits of a fraction are read as nanoseconds. -/
theorem readFraction?_paddedDigits {width n : Nat} (hwidth : 0 < width) (hmost : width ≤ 9)
    (h : n < Nat.pow 10 width) {rest : List Char} (hrest : rest.takeWhile Char.isDigit = []) :
    readFraction? ('.' :: (paddedDigits width n ++ rest)) =
      some (n * Nat.pow 10 (9 - width), rest) := by
  have hlength : (paddedDigits width n).length = width := length_paddedDigits hwidth h
  have hall : ∀ d ∈ paddedDigits width n, d.isDigit = true :=
    fun _ hd => isDigit_of_mem_paddedDigits hd
  obtain ⟨htake, hdrop⟩ := span_digits_append hall hrest
  have hne : (paddedDigits width n).isEmpty = false := by
    rw [List.isEmpty_eq_false_iff, ← List.length_pos_iff]
    omega
  have hnanos : nanosOfDigits (paddedDigits width n) = n * Nat.pow 10 (9 - width) := by
    rw [nanosOfDigits, List.take_of_length_le (by omega), ofDigits_paddedDigits, hlength]
  rw [readFraction?]
  simp only [htake, hdrop, hne, hnanos]
  rfl

theorem readFraction?_millisText (c : Clock) (rest : List Char)
    (hrest : rest.takeWhile Char.isDigit = []) :
    readFraction? (c.millisText ++ rest) = some (c.nano / 1000000 * 1000000, rest) := by
  have hnano := c.nano_lt
  exact readFraction?_paddedDigits (by omega) (by omega)
    (show c.nano / 1000000 < 1000 by omega) hrest

/-- A step of a reader that succeeds hands its result to the rest. -/
theorem bind_of_eq {α β : Type} {x : Option α} {a : α} {f : α → Option β} {b : Option β}
    (hx : x = some a) (hf : f a = b) : (x >>= f) = b := by
  rw [hx]
  exact hf

/-- The text that a URL holds for an instant is read back to the millisecond. -/
theorem parse?_millisText (t : Instant) (h : t.date.HasFourDigitYear) :
    parse? (String.ofList t.millisText) = some t.wholeMillis := by
  obtain ⟨hlow, hhigh⟩ := h
  have hyear (rest : List Char) : readNumber? 4 4 (paddedDigits 4 t.date.year.toNat ++ rest) =
      some (t.date.year.toNat, rest) :=
    readNumber?_paddedDigits (by omega) (show t.date.year.toNat < 10000 by omega) rest
  have hhour : t.clock.hour < 100 := Nat.lt_trans t.clock.hour_lt (by omega)
  have hminute : t.clock.minute < 100 := Nat.lt_trans t.clock.minute_lt (by omega)
  have hsecond : t.clock.second < 100 := Nat.lt_of_le_of_lt t.clock.second_le (by omega)
  have htext : t.millisText =
      paddedDigits 4 t.date.year.toNat ++ '-' :: (paddedDigits 2 t.date.month ++
        '-' :: (paddedDigits 2 t.date.day ++ 'T' :: (paddedDigits 2 t.clock.hour ++
          ':' :: (paddedDigits 2 t.clock.minute ++ ':' :: (paddedDigits 2 t.clock.second ++
            (t.clock.millisText ++ ['Z'])))))) := by
    simp [millisText, Date.text, Date.yearText, Clock.text, hlow, hhigh]
  have hfraction := readFraction?_millisText t.clock ['Z'] rfl
  have hoffset : readOffset? (after? ':') ['Z'] = some (0, []) := rfl
  have hdate : Date.of? (t.date.year.toNat : Int) t.date.month t.date.day = some t.date := by
    have hcast : (t.date.year.toNat : Int) = t.date.year := by omega
    rw [hcast, Date.of?_self]
  rw [parse?, String.toList_ofList, htext]
  refine bind_of_eq (hyear _) ?_
  refine bind_of_eq (after?_cons '-' _) ?_
  refine bind_of_eq (readNumber?_two t.date.month_lt _) ?_
  refine bind_of_eq (after?_cons '-' _) ?_
  refine bind_of_eq (readNumber?_two t.date.day_lt _) ?_
  refine bind_of_eq (afterSeparator?_T _) ?_
  refine bind_of_eq (readNumber?_two hhour _) ?_
  refine bind_of_eq (after?_cons ':' _) ?_
  refine bind_of_eq (readNumber?_two hminute _) ?_
  refine bind_of_eq (after?_cons ':' _) ?_
  refine bind_of_eq (readNumber?_two hsecond _) ?_
  refine bind_of_eq hfraction ?_
  refine bind_of_eq hoffset ?_
  refine bind_of_eq hdate ?_
  refine bind_of_eq t.clock.of?_wholeMillis ?_
  exact ofLocal?_zero t.date t.clock.wholeMillis

theorem percent_notMem_paddedDigits (width n : Nat) : '%' ∉ paddedDigits width n := by
  intro hmem
  exact absurd (isDigit_of_mem_paddedDigits hmem) (by decide)

theorem percent_notMem_yearText (year : Int) : '%' ∉ Date.yearText year := by
  unfold Date.yearText
  split
  · exact percent_notMem_paddedDigits 4 _
  · split
    · simp [percent_notMem_paddedDigits]
    · simp [percent_notMem_paddedDigits]

/-- The text that a URL holds for an instant has no escapes. -/
theorem decodeComponent_millisText (t : Instant) :
    decodeComponent (String.ofList t.millisText) = String.ofList t.millisText := by
  apply decodeComponent_of_notMem
  simp [millisText, Date.text, Clock.text, Clock.millisText, percent_notMem_yearText,
    percent_notMem_paddedDigits]

end Instant

/-- The years of a range of time have four digits. -/
def Criterion.HasFourDigitYears (f : Criterion) : Prop :=
  match f.value with
  | .timeRange start stop => start.date.HasFourDigitYear ∧ stop.date.HasFourDigitYear
  | _ => True

instance (f : Criterion) : Decidable f.HasFourDigitYears :=
  match hvalue : f.value with
  | .timeRange start stop =>
    decidable_of_iff (start.date.HasFourDigitYear ∧ stop.date.HasFourDigitYear)
      (by rw [Criterion.HasFourDigitYears, hvalue])
  | .text _ => isTrue (by rw [Criterion.HasFourDigitYears, hvalue]; trivial)
  | .list _ => isTrue (by rw [Criterion.HasFourDigitYears, hvalue]; trivial)

end FilterBar
