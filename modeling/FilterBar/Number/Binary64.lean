import FilterBar.Text.Decimal

/-!
# Binary numbers of 64 bits

The numbers of the IEEE 754 format with 64 bits as exact values: an integer times a power of two, an
infinity, or no number.  A decimal is rounded to the nearest of them, a tie to the even one, and
written with two decimals by the same rule on its exact value.
-/

namespace FilterBar

/-- A number of the format.  A finite one has its least possible exponent of at least -1074, so its
significand has 53 bits unless that exponent is reached. -/
inductive Binary64 where
  | nan
  | infinite (negative : Bool)
  | finite (negative : Bool) (significand : Nat) (exponent : Int)
  deriving DecidableEq, Repr

namespace Binary64

def roundDiv (num den : Nat) : Nat :=
  let q := num / den
  let r := num % den
  if 2 * r < den then q
  else if den < 2 * r then q + 1
  else if q % 2 = 0 then q else q + 1

/-- A ratio with a power of two taken out of it, as numerator and denominator. -/
def scaleDown (num den : Nat) (exponent : Int) : Nat × Nat :=
  if 0 ≤ exponent then (num, den * Nat.pow 2 exponent.toNat)
  else (num * Nat.pow 2 (-exponent).toNat, den)

/-- The exponent at which a positive ratio has a significand of 53 bits, or the least one. -/
def exponentOf (num den : Nat) : Int :=
  let low := (Nat.log2 num : Int) - Nat.log2 den - 53
  let (n, d) := scaleDown num den low
  max (-1074) (if n / d < Nat.pow 2 53 then low else low + 1)

/-- The number nearest to a ratio of naturals; one beyond the greatest is infinite. -/
def ofRatio (negative : Bool) (num den : Nat) : Binary64 :=
  if num = 0 then finite negative 0 (-1074)
  else
    let exponent := exponentOf num den
    let (n, d) := scaleDown num den exponent
    let significand := roundDiv n d
    let (significand, exponent) :=
      if significand = Nat.pow 2 53 then (Nat.pow 2 52, exponent + 1) else (significand, exponent)
    if 971 < exponent then infinite negative else finite negative significand exponent

/-- The number nearest to a decimal.  Beyond the 400th power of ten, on either side, the digits make
no difference. -/
def ofDecimal (negative : Bool) (digits : Nat) (exponent : Int) : Binary64 :=
  let size := (Nat.toDigits 10 digits).length + exponent
  if digits = 0 ∨ size < -400 then finite negative 0 (-1074)
  else if 400 < size then infinite negative
  else if 0 ≤ exponent then ofRatio negative (digits * Nat.pow 10 exponent.toNat) 1
  else ofRatio negative digits (Nat.pow 10 (-exponent).toNat)

def zero : Binary64 := finite false 0 (-1074)

def bits? : Binary64 → Option Nat
  | nan => none
  | infinite negative => some (signBit negative + 0x7FF * Nat.pow 2 52)
  | finite negative significand exponent =>
    some (signBit negative +
      (if significand < Nat.pow 2 52 then significand
       else (exponent + 1075).toNat * Nat.pow 2 52 + (significand - Nat.pow 2 52)))
where
  signBit (negative : Bool) : Nat := if negative then Nat.pow 2 63 else 0

/-- The absolute value of a finite number in hundredths, rounded. -/
def hundredths (significand : Nat) (exponent : Int) : Nat :=
  if 0 ≤ exponent then significand * Nat.pow 2 exponent.toNat * 100
  else roundDiv (significand * 100) (Nat.pow 2 (-exponent).toNat)

/-- A number with two decimals.  The sign of a zero is kept. -/
def twoDecimals : Binary64 → List Char
  | nan => "NaN".toList
  | infinite negative => sign negative ++ "inf".toList
  | finite negative significand exponent =>
    let h := hundredths significand exponent
    sign negative ++ Text.digits (h / 100) ++ '.' :: Text.paddedDigits 2 (h % 100)
where
  sign (negative : Bool) : List Char := if negative then ['-'] else []

def readExponent? : List Char → Option Int
  | [] => some 0
  | c :: rest =>
    if c = 'e' ∨ c = 'E' then
      match rest with
      | '-' :: digits => (wholeNumber? digits).map fun n => -(n : Int)
      | '+' :: digits => (wholeNumber? digits).map fun n => (n : Int)
      | digits => (wholeNumber? digits).map fun n => (n : Int)
    else none
where
  wholeNumber? (digits : List Char) : Option Nat :=
    if !digits.isEmpty && digits.all Char.isDigit then some (Text.ofDigits digits) else none

/-- Reads the digits and the exponent of a decimal; the point may stand first or last. -/
def readDecimal? (negative : Bool) (s : List Char) : Option Binary64 :=
  let whole := s.takeWhile Char.isDigit
  let (decimals, rest) :=
    match s.dropWhile Char.isDigit with
    | '.' :: rest => (rest.takeWhile Char.isDigit, rest.dropWhile Char.isDigit)
    | rest => ([], rest)
  if whole.isEmpty && decimals.isEmpty then none
  else (readExponent? rest).map fun exponent =>
    ofDecimal negative (Text.ofDigits (whole ++ decimals)) (exponent - decimals.length)

/-- The number that a text spells: a decimal, `inf`, `infinity` or `nan` in any case, with a sign or
without. -/
def parse? (s : List Char) : Option Binary64 :=
  let (negative, s) :=
    match s with
    | '-' :: rest => (true, rest)
    | '+' :: rest => (false, rest)
    | _ => (false, s)
  let word := s.map Char.toLower
  if word = "inf".toList ∨ word = "infinity".toList then some (infinite negative)
  else if word = "nan".toList then some nan
  else readDecimal? negative s

end Binary64

/-- The number below 2^64 that a text spells in digits, with a plus sign or without. -/
def parseCount? (s : List Char) : Option Nat :=
  let digits :=
    match s with
    | '+' :: rest => rest
    | _ => s
  if !digits.isEmpty && digits.all Char.isDigit then
    let n := Text.ofDigits digits
    if n < Nat.pow 2 64 then some n else none
  else none

end FilterBar
