import FilterBar.Json.Printer
import FilterBar.Proofs.DateText

/-!
# The text of a JSON value

The compact form of a value is read as the tokens that it was written from.  An escape in a string
stands for the character that is escaped; a number ends where punctuation follows, which is what
follows every value inside another one.
-/

namespace FilterBar.Json

open Text

/-! ## Strings -/

/-- In a string, the unit adds a character to the text of what follows. -/
def TextUnit.StandsFor (u : TextUnit) (c : Char) : Prop :=
  ∀ units, assemble? (u :: units) = (assemble? units).map (c :: ·)

theorem TextUnit.standsFor_char (c : Char) : (TextUnit.char c).StandsFor c :=
  fun _ => rfl

theorem TextUnit.standsFor_numbered {c : Char} (h : c.toNat < 0x20) :
    (TextUnit.numbered c.toNat).StandsFor c := by
  have hhigh : isHighSurrogate c.toNat = false := by
    simp [isHighSurrogate]
    omega
  have hlow : isLowSurrogate c.toNat = false := by
    simp [isLowSurrogate]
    omega
  intro units
  cases units with
  | nil => simp [assemble?, hhigh, hlow, Char.ofNat_toNat]
  | cons u rest =>
    cases u with
    | char d => simp [assemble?, hhigh, hlow, Char.ofNat_toNat]
    | numbered n => simp [assemble?, hhigh, hlow, Char.ofNat_toNat]

theorem hexNumber?_lowerHexDigit : ∀ n < 0x20,
    hexNumber? '0' '0' (lowerHexDigit (n / 16)) (lowerHexDigit (n % 16)) = some n := by
  decide

/-- The characters that are escaped by a letter or by themselves. -/
def shortEscaped : List Char :=
  ['"', '\\', '\x08', '\x0c', '\n', '\r', '\t']

/-- A character is escaped shortly, escaped by its number, or written as it is. -/
theorem writeChar_cases (c : Char) :
    (∃ e, e ≠ 'u' ∧ shortEscape? e = some c ∧ writeChar c = ['\\', e]) ∨
    (c.toNat < 0x20 ∧ writeChar c =
      ['\\', 'u', '0', '0', lowerHexDigit (c.toNat / 16), lowerHexDigit (c.toNat % 16)]) ∨
    (c ≠ '"' ∧ c ≠ '\\' ∧ ¬c.toNat < 0x20 ∧ writeChar c = [c]) := by
  by_cases hshort : c ∈ shortEscaped
  · left
    simp only [shortEscaped, List.mem_cons, List.not_mem_nil, or_false] at hshort
    rcases hshort with rfl | rfl | rfl | rfl | rfl | rfl | rfl
    all_goals exact ⟨_, by decide, rfl, rfl⟩
  · right
    simp only [shortEscaped, List.mem_cons, List.not_mem_nil, or_false, not_or] at hshort
    by_cases hcontrol : c.toNat < 0x20
    · left
      exact ⟨hcontrol, by simp [writeChar, hshort, hcontrol]⟩
    · right
      exact ⟨hshort.1, hshort.2.1, hcontrol, by simp [writeChar, hshort, hcontrol]⟩

theorem readUnits?_shortEscape {e c : Char} (hu : e ≠ 'u') (h : shortEscape? e = some c)
    (rest : List Char) :
    readUnits? ('\\' :: e :: rest) = (readUnits? rest).map (consUnit (.char c)) := by
  rw [readUnits?.eq_def]
  split
  next heq => exact absurd (List.cons.inj (List.cons.inj heq).2).1 hu
  next heq =>
    obtain ⟨rfl, rfl⟩ := List.cons.inj (List.cons.inj heq).2
    rw [h]
    rfl
  next hshort heq =>
    obtain ⟨rfl, rfl⟩ := List.cons.inj heq
    exact absurd rfl (hshort e rest rfl)
  next heq => contradiction

theorem readUnits?_plain {c : Char} (hquote : c ≠ '"') (hbackslash : c ≠ '\\')
    (hcontrol : ¬c.toNat < 0x20) (rest : List Char) :
    readUnits? (c :: rest) = (readUnits? rest).map (consUnit (.char c)) := by
  rw [readUnits?.eq_def]
  split
  next heq => exact absurd (List.cons.inj heq).1 hbackslash
  next heq => exact absurd (List.cons.inj heq).1 hbackslash
  next heq =>
    obtain ⟨rfl, rfl⟩ := List.cons.inj heq
    simp [hquote, hbackslash, hcontrol]
  next heq => contradiction

/-- A character of a string is read back, whether it was escaped or not. -/
theorem readUnits?_writeChar (c : Char) (rest : List Char) :
    ∃ u : TextUnit, u.StandsFor c ∧
      readUnits? (writeChar c ++ rest) = (readUnits? rest).map (consUnit u) := by
  rcases writeChar_cases c with ⟨e, hu, hshort, hwrite⟩ | ⟨hcontrol, hwrite⟩ |
    ⟨hquote, hbackslash, hcontrol, hwrite⟩
  · refine ⟨_, TextUnit.standsFor_char c, ?_⟩
    rw [hwrite]
    exact readUnits?_shortEscape hu hshort rest
  · refine ⟨_, TextUnit.standsFor_numbered hcontrol, ?_⟩
    rw [hwrite]
    simp only [List.cons_append, List.nil_append, readUnits?,
      hexNumber?_lowerHexDigit c.toNat hcontrol, Option.bind_eq_bind, Option.bind_some]
  · refine ⟨_, TextUnit.standsFor_char c, ?_⟩
    rw [hwrite]
    exact readUnits?_plain hquote hbackslash hcontrol rest

/-- The characters of a string are read back up to its closing quote. -/
theorem readUnits?_flatMap_writeChar (cs rest : List Char) :
    ∃ units, readUnits? (cs.flatMap writeChar ++ '"' :: rest) = some (units, rest) ∧
      assemble? units = some cs := by
  induction cs with
  | nil => exact ⟨[], by simp [readUnits?], rfl⟩
  | cons c cs ih =>
    obtain ⟨units, hread, htext⟩ := ih
    obtain ⟨u, hu, hchar⟩ := readUnits?_writeChar c (cs.flatMap writeChar ++ '"' :: rest)
    refine ⟨u :: units, ?_, ?_⟩
    · rw [List.flatMap_cons, List.append_assoc, hchar, hread]
      rfl
    · rw [hu, htext]
      rfl

/-- A string is read back, whatever follows. -/
theorem readToken?_writeText (s : Option String) (rest : List Char) :
    ∃ body, writeText s = '"' :: body ∧ readToken? '"' (body ++ rest) = some (.text s, rest) := by
  cases s with
  | none => exact ⟨"\\ud800\"".toList, rfl, rfl⟩
  | some s =>
    refine ⟨s.toList.flatMap writeChar ++ ['"'], rfl, ?_⟩
    obtain ⟨units, hread, htext⟩ := readUnits?_flatMap_writeChar s.toList rest
    rw [List.append_assoc, List.singleton_append]
    simp [readToken?, hread, htext]

/-! ## Numbers -/

/-- A number ends where this text follows. -/
def EndsNumber (s : List Char) : Prop :=
  ∀ c ∈ s.head?, c.isDigit = false ∧ c ≠ '.' ∧ c ≠ 'e' ∧ c ≠ 'E'

variable {rest : List Char}

theorem exists_digits_eq_cons (n : Nat) : ∃ d more, digits n = d :: more ∧ d.isDigit = true := by
  have hcons := exists_paddedDigits_eq_cons 0 n
  rwa [paddedDigits_zero] at hcons

theorem span_digits (n : Nat) (h : ∀ c ∈ rest.head?, c.isDigit = false) :
    (digits n ++ rest).takeWhile Char.isDigit = digits n ∧
      (digits n ++ rest).dropWhile Char.isDigit = rest := by
  have hend : rest.takeWhile Char.isDigit = [] := by
    cases rest with
    | nil => rfl
    | cons c rest => exact List.takeWhile_cons_of_neg (by simp [h c rfl])
  apply span_digits_append _ hend
  intro d hd
  rw [← paddedDigits_zero] at hd
  exact isDigit_of_mem_paddedDigits hd

/-- The first digit of a number other than zero is not zero. -/
theorem head?_digits_ne_zero {n : Nat} (hn : n ≠ 0) : (digits n).head? ≠ some '0' := by
  induction n using Nat.strong_induction_on with
  | _ n ih =>
    rw [digits]
    by_cases hsmall : n < 10
    · have hdigit : ∀ m < 10, m ≠ 0 → Nat.digitChar m ≠ '0' := by decide
      rw [Nat.toDigits_of_lt_base hsmall, List.head?_singleton]
      exact fun heq => hdigit n hsmall hn (Option.some.inj heq)
    · have hmore := ih (n / 10) (by omega) (by omega)
      obtain ⟨d, more, hdigits, -⟩ := exists_digits_eq_cons (n / 10)
      rw [hdigits] at hmore
      rw [digits] at hdigits
      rw [Nat.toDigits_of_base_le (by omega) (by omega), hdigits]
      exact hmore

theorem readWhole?_digits (n : Nat) (h : ∀ c ∈ rest.head?, c.isDigit = false) :
    readWhole? (digits n ++ rest) = some (digits n, rest) := by
  by_cases hzero : n = 0
  · subst hzero
    rfl
  · obtain ⟨htake, hdrop⟩ := span_digits n h
    have hhead := head?_digits_ne_zero hzero
    obtain ⟨d, more, hdigits, -⟩ := exists_digits_eq_cons n
    rw [hdigits] at htake hdrop hhead
    have hd : d ≠ '0' := fun heq => hhead (congrArg some heq)
    rw [hdigits, List.cons_append, readWhole?]
    simp only [if_neg hd]
    rw [List.cons_append] at htake hdrop
    rw [htake, hdrop]
    rfl

theorem readDecimals?_of_ne {s : List Char} (h : ∀ c ∈ s.head?, c ≠ '.') :
    readDecimals? s = some ([], s) := by
  cases s with
  | nil => rfl
  | cons c rest =>
    rw [readDecimals?.eq_def]
    split
    next heq => exact absurd (List.cons.inj heq).1 (h c rfl)
    next => rfl

theorem readExponent?_of_ne {s : List Char} (h : ∀ c ∈ s.head?, c ≠ 'e' ∧ c ≠ 'E') :
    readExponent? s = some (0, s) := by
  cases s with
  | nil => rfl
  | cons c rest => simp [readExponent?, h c rfl]

theorem readSign_digits (n : Nat) (rest : List Char) :
    readSign (digits n ++ rest) = (false, digits n ++ rest) := by
  obtain ⟨d, more, hdigits, hd⟩ := exists_digits_eq_cons n
  rw [hdigits, List.cons_append, readSign.eq_def]
  split
  next heq =>
    rw [(List.cons.inj heq).1] at hd
    contradiction
  next heq =>
    rw [(List.cons.inj heq).1] at hd
    contradiction
  next => rfl

/-- The power of ten behind the digits of a number, as `writeNumeral` has it. -/
def exponentText (exponent : Int) : List Char :=
  if exponent = 0 then []
  else 'e' :: (if exponent < 0 then ['-'] else []) ++ digits exponent.natAbs

theorem readExponent?_exponentText (exponent : Int) (h : EndsNumber rest) :
    readExponent? (exponentText exponent ++ rest) = some (exponent, rest) := by
  have hdigit : ∀ c ∈ rest.head?, c.isDigit = false := fun c hc => (h c hc).1
  obtain ⟨htake, hdrop⟩ := span_digits exponent.natAbs hdigit
  have hempty : (digits exponent.natAbs).isEmpty = false := by
    obtain ⟨d, more, hdigits, -⟩ := exists_digits_eq_cons exponent.natAbs
    rw [hdigits]
    rfl
  have hvalue : ofDigits (digits exponent.natAbs) = exponent.natAbs :=
    Nat.ofDigitChars_ten_toDigits
  rcases Int.lt_trichotomy exponent 0 with hneg | hzero | hpos
  · have htext : exponentText exponent ++ rest =
        'e' :: '-' :: (digits exponent.natAbs ++ rest) := by
      simp [exponentText, hneg, Int.ne_of_lt hneg]
    have hsigned : -(exponent.natAbs : Int) = exponent := by omega
    rw [htext]
    simp only [readExponent?, true_or, if_true, readSign, htake, hempty, hdrop, hvalue, hsigned,
      Bool.false_eq_true, if_false]
  · subst hzero
    exact readExponent?_of_ne fun c hc => (h c hc).2.2
  · have htext : exponentText exponent ++ rest = 'e' :: (digits exponent.natAbs ++ rest) := by
      simp [exponentText, Int.not_lt.mpr (Int.le_of_lt hpos), Int.ne_of_gt hpos]
    have hsigned : (exponent.natAbs : Int) = exponent := by omega
    rw [htext]
    simp only [readExponent?, true_or, if_true, readSign_digits, htake, hempty, hdrop, hvalue,
      hsigned, Bool.false_eq_true, if_false]

theorem readNumeral?_digits (negative : Bool) (significand : Nat) (exponent : Int)
    (h : EndsNumber rest) :
    readNumeral? negative (digits significand ++ (exponentText exponent ++ rest)) =
      some (⟨negative, significand, exponent⟩, rest) := by
  have hhead : ∀ c ∈ (exponentText exponent ++ rest).head?, c.isDigit = false ∧ c ≠ '.' := by
    by_cases hzero : exponent = 0
    · subst hzero
      exact fun c hc => ⟨(h c hc).1, (h c hc).2.1⟩
    · intro c hc
      simp only [exponentText, if_neg hzero, List.cons_append, List.head?_cons] at hc
      obtain rfl := Option.some.inj hc
      decide
  rw [readNumeral?, readWhole?_digits significand fun c hc => (hhead c hc).1]
  simp only [Option.bind_eq_bind, Option.bind_some]
  rw [readDecimals?_of_ne fun c hc => (hhead c hc).2]
  simp only [Option.bind_some]
  rw [readExponent?_exponentText exponent h]
  simp [ofDigits, digits, Nat.ofDigitChars_ten_toDigits]

theorem ne_of_isDigit {c d : Char} (hc : c.isDigit = true) (hd : d.isDigit = false) : c ≠ d := by
  rintro rfl
  rw [hc] at hd
  contradiction

theorem isGap_of_isDigit {c : Char} (h : c.isDigit = true) : isGap c = false := by
  simp [isGap, ne_of_isDigit h]

/-- A token that starts with a digit is a number. -/
theorem readToken?_of_isDigit {c : Char} (h : c.isDigit = true) (s : List Char) :
    readToken? c s = (readNumeral? false (c :: s)).map fun (n, rest) => (.number n, rest) := by
  simp [readToken?, ne_of_isDigit h]

/-- A numeral is read back where the text that follows ends it. -/
theorem readToken?_writeNumeral (n : Numeral) (h : EndsNumber rest) :
    ∃ c body, writeNumeral n = c :: body ∧ isGap c = false ∧
      readToken? c (body ++ rest) = some (.number n, rest) := by
  obtain ⟨negative, significand, exponent⟩ := n
  have hread := readNumeral?_digits negative significand exponent h
  cases negative with
  | true =>
    refine ⟨'-', digits significand ++ exponentText exponent, ?_, rfl, ?_⟩
    · simp [writeNumeral, exponentText]
    · rw [List.append_assoc]
      simp [readToken?, hread]
  | false =>
    obtain ⟨d, more, hdigits, hd⟩ := exists_digits_eq_cons significand
    refine ⟨d, more ++ exponentText exponent, ?_, isGap_of_isDigit hd, ?_⟩
    · simp [writeNumeral, exponentText, hdigits]
    · rw [hdigits, List.cons_append] at hread
      rw [List.append_assoc, readToken?_of_isDigit hd, hread]
      rfl

end FilterBar.Json
