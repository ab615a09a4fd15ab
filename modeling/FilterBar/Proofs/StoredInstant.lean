import FilterBar.Proofs.DateText

/-!
# Stored instants

An instant is stored to the nanosecond, its year with a sign where it has not four digits.  The
relaxed grammar reads this text back as the same instant, whatever its year and its fraction, and
also at a leap second.
-/

namespace FilterBar

namespace Text

theorem isBlank_of_isDigit {d : Char} (h : d.isDigit = true) : isBlank d = false := by
  simp only [Char.isDigit, Bool.and_eq_true, decide_eq_true_eq] at h
  have hlow : 48 ≤ d.toNat := h.1
  have hhigh : d.toNat ≤ 57 := h.2
  simp [isBlank]
  omega

theorem trimStart_paddedDigits (width n : Nat) (rest : List Char) :
    trimStart (paddedDigits width n ++ rest) = paddedDigits width n ++ rest := by
  obtain ⟨d, more, hdigits, hd⟩ := exists_paddedDigits_eq_cons width n
  rw [hdigits, List.cons_append, trimStart, List.dropWhile_cons_of_neg]
  simp [isBlank_of_isDigit hd]

end Text

namespace Instant

open Text

theorem readYear?_of_isDigit {d : Char} (h : d.isDigit = true) (s : List Char) :
    readYear? (d :: s) = (readNumber? 1 4 (d :: s)).map fun read => ((read.1 : Int), read.2) := by
  have htrim : trimStart (d :: s) = d :: s :=
    List.dropWhile_cons_of_neg (by simp [isBlank_of_isDigit h])
  rw [readYear?, htrim]
  split
  next heq =>
    rw [(List.cons.inj heq).1] at h
    contradiction
  next heq =>
    rw [(List.cons.inj heq).1] at h
    contradiction
  next => rfl

theorem readYear?_minus (s : List Char) :
    readYear? ('-' :: s) = (readNumber? 1 s.length s).map fun read => (-(read.1 : Int), read.2) :=
  rfl

theorem readYear?_plus (s : List Char) :
    readYear? ('+' :: s) = (readNumber? 1 s.length s).map fun read => ((read.1 : Int), read.2) :=
  rfl

/-- The year of a date is read back, with its sign if it has one. -/
theorem readYear?_yearText (year : Int) (rest : List Char) :
    readYear? (Date.yearText year ++ '-' :: rest) = some (year, '-' :: rest) := by
  have hend : ('-' :: rest).takeWhile Char.isDigit = [] := rfl
  -- up to as many digits as the text has, or up to four if there are no more
  have hread (n most : Nat) (hmost : (paddedDigits 4 n).length ≤ most) :
      readNumber? 1 most (paddedDigits 4 n ++ '-' :: rest) = some (n, '-' :: rest) := by
    have hpos : 1 ≤ (paddedDigits 4 n).length := by
      obtain ⟨d, more, hcons, -⟩ := exists_paddedDigits_eq_cons 4 n
      rw [hcons]
      simp
    rw [readNumber?_append (fun _ hd => isDigit_of_mem_paddedDigits hd) hpos hmost (Or.inr hend),
      ofDigits_paddedDigits]
  unfold Date.yearText
  split
  next hfour =>
    have hlength : (paddedDigits 4 year.toNat).length = 4 :=
      length_paddedDigits (by omega) (show year.toNat < 10000 by omega)
    have hyear := hread year.toNat 4 (Nat.le_of_eq hlength)
    obtain ⟨d, more, hcons, hd⟩ := exists_paddedDigits_eq_cons 4 year.toNat
    rw [hcons, List.cons_append] at hyear ⊢
    rw [readYear?_of_isDigit hd, hyear, Option.map_some, Int.toNat_of_nonneg hfour.1]
  next hsigned =>
    have hyear := hread year.natAbs (paddedDigits 4 year.natAbs ++ '-' :: rest).length (by simp)
    split
    next hneg =>
      have hvalue : -(year.natAbs : Int) = year := by omega
      rw [List.cons_append, readYear?_minus, hyear, Option.map_some, hvalue]
    next hpos =>
      have hvalue : (year.natAbs : Int) = year := by omega
      rw [List.cons_append, readYear?_plus, hyear, Option.map_some, hvalue]

theorem readShort?_two {n : Nat} (h : n < 100) (rest : List Char) :
    readShort? (paddedDigits 2 n ++ rest) = some (n, rest) := by
  have hlength : (paddedDigits 2 n).length = 2 := length_paddedDigits (by omega) h
  have hdigits : ∀ d ∈ paddedDigits 2 n, d.isDigit = true :=
    fun _ hd => isDigit_of_mem_paddedDigits hd
  rw [readShort?, trimStart_paddedDigits,
    readNumber?_append hdigits (by omega) (by omega) (Or.inl hlength), ofDigits_paddedDigits]

/-- The fraction of a second is read back to the nanosecond. -/
theorem readFraction?_fractionText (c : Clock) :
    readFraction? (c.fractionText ++ ['Z']) = some (c.nano, ['Z']) := by
  have hnano := c.nano_lt
  have hend : ['Z'].takeWhile Char.isDigit = [] := rfl
  unfold Clock.fractionText
  split
  next hzero =>
    rw [hzero]
    rfl
  split
  next hmillis =>
    have hread := readFraction?_paddedDigits (by omega) (by omega)
      (show c.nano / 1000000 < Nat.pow 10 3 from (by omega : c.nano / 1000000 < 1000)) hend
    have hvalue : c.nano / 1000000 * Nat.pow 10 (9 - 3) = c.nano := Nat.div_mul_cancel
      (Nat.dvd_of_mod_eq_zero hmillis)
    rw [hvalue] at hread
    exact hread
  split
  next hmicros =>
    have hread := readFraction?_paddedDigits (by omega) (by omega)
      (show c.nano / 1000 < Nat.pow 10 6 from (by omega : c.nano / 1000 < 1000000)) hend
    have hvalue : c.nano / 1000 * Nat.pow 10 (9 - 6) = c.nano := Nat.div_mul_cancel
      (Nat.dvd_of_mod_eq_zero hmicros)
    rw [hvalue] at hread
    exact hread
  next =>
    have hread := readFraction?_paddedDigits (by omega) (by omega)
      (show c.nano < Nat.pow 10 9 from hnano) hend
    have hvalue : c.nano * Nat.pow 10 (9 - 9) = c.nano := Nat.mul_one c.nano
    rw [hvalue] at hread
    exact hread

/-- The text that is stored for an instant is read back as the instant. -/
theorem parseRelaxed?_text (t : Instant) : parseRelaxed? (String.ofList t.text) = some t := by
  have hhour : t.clock.hour < 100 := Nat.lt_trans t.clock.hour_lt (by omega)
  have hminute : t.clock.minute < 100 := Nat.lt_trans t.clock.minute_lt (by omega)
  have hsecond : t.clock.second < 100 := Nat.lt_of_le_of_lt t.clock.second_le (by omega)
  have htext : t.text =
      Date.yearText t.date.year ++ '-' :: (paddedDigits 2 t.date.month ++
        '-' :: (paddedDigits 2 t.date.day ++ 'T' :: (paddedDigits 2 t.clock.hour ++
          ':' :: (paddedDigits 2 t.clock.minute ++ ':' :: (paddedDigits 2 t.clock.second ++
            (t.clock.fractionText ++ ['Z'])))))) := by
    simp [text, Date.text, Clock.text]
  have hskip (c : Char) (hc : isBlank c = false) (rest : List Char) :
      after? c (trimStart (c :: rest)) = some rest := by
    rw [trimStart, List.dropWhile_cons_of_neg (by simp [hc])]
    exact after?_cons c rest
  rw [parseRelaxed?, String.toList_ofList, htext]
  refine bind_of_eq (readYear?_yearText _ _) ?_
  refine bind_of_eq (hskip '-' rfl _) ?_
  refine bind_of_eq (readShort?_two t.date.month_lt _) ?_
  refine bind_of_eq (hskip '-' rfl _) ?_
  refine bind_of_eq (readShort?_two t.date.day_lt _) ?_
  refine bind_of_eq (afterSeparator?_T _) ?_
  refine bind_of_eq (readShort?_two hhour _) ?_
  refine bind_of_eq (hskip ':' rfl _) ?_
  refine bind_of_eq (readShort?_two hminute _) ?_
  refine bind_of_eq (hskip ':' rfl _) ?_
  refine bind_of_eq (readShort?_two hsecond _) ?_
  refine bind_of_eq (readFraction?_fractionText t.clock) ?_
  refine bind_of_eq (show readZone? ['Z'] = some (0, []) from rfl) ?_
  refine bind_of_eq t.date.of?_self ?_
  refine bind_of_eq t.clock.of?_self ?_
  exact ofLocal?_zero t.date t.clock

end Instant

end FilterBar
