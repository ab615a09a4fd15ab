/-!
# Decimal digits

Reading a bounded number of digits at the front of a text, and writing a number with at least a
given number of digits.  Digits are the ten ASCII ones.
-/

namespace FilterBar.Text

def ofDigits (digits : List Char) : Nat :=
  Nat.ofDigitChars 10 digits 0

/-- Reads as many digits as there are, up to `most`, if there are at least `least`; answers their
number and the rest of the text. -/
def readNumber? (least most : Nat) (s : List Char) : Option (Nat × List Char) :=
  let digits := (s.take most).takeWhile Char.isDigit
  if digits.length < least then none
  else some (ofDigits digits, s.drop digits.length)

def digits (n : Nat) : List Char :=
  Nat.toDigits 10 n

/-- The digits of a number, with zeros in front where there are fewer than `width`. -/
def paddedDigits (width n : Nat) : List Char :=
  List.replicate (width - (digits n).length) '0' ++ digits n

end FilterBar.Text
