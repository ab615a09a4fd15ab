import FilterBar.Text.Utf8

/-!
# Percent escapes

An escape is `%` and two hexadecimal digits and stands for one byte.  Anything else is literal, a
`%` without two digits behind it included.
-/

namespace FilterBar.Text

def hexValue? (b : UInt8) : Option UInt8 :=
  if 0x30 ≤ b && b ≤ 0x39 then some (b - 0x30)
  else if 0x41 ≤ b && b ≤ 0x46 then some (b - 0x37)
  else if 0x61 ≤ b && b ≤ 0x66 then some (b - 0x57)
  else none

/-- The byte that the two digits of an escape stand for. -/
def escapedByte? (high low : UInt8) : Option UInt8 :=
  match hexValue? high, hexValue? low with
  | some h, some l => some (16 * h + l)
  | _, _ => none

/-- Replaces each escape by its byte, from the left. -/
def unescapeBytes : List UInt8 → List UInt8
  | b :: high :: low :: rest =>
    if b = 0x25 then
      match escapedByte? high low with
      | some byte => byte :: unescapeBytes rest
      | none => b :: unescapeBytes (high :: low :: rest)
    else
      b :: unescapeBytes (high :: low :: rest)
  | short => short

/-- Replaces the escapes of a text.  If the bytes that result spell no text, the text is returned
as it was, with no escape replaced. -/
def decodeComponent (s : String) : String :=
  match Utf8.decode? (unescapeBytes (Utf8.encode s.toList)) with
  | some decoded => String.ofList decoded
  | none => s

end FilterBar.Text
