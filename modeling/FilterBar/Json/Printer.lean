import FilterBar.Json.Token

/-!
# Writing JSON

The compact form without gaps, which is stored, and the form with one item or member a line, which
is shown.  Strings escape the quote, the backslash and the control characters and nothing else.
-/

namespace FilterBar.Json

open Text

def lowerHexDigit (n : Nat) : Char :=
  Char.ofNat (if n < 10 then 0x30 + n else 0x57 + n)

def writeChar (c : Char) : List Char :=
  if c = '"' then ['\\', '"']
  else if c = '\\' then ['\\', '\\']
  else if c = '\x08' then ['\\', 'b']
  else if c = '\x0c' then ['\\', 'f']
  else if c = '\n' then ['\\', 'n']
  else if c = '\r' then ['\\', 'r']
  else if c = '\t' then ['\\', 't']
  else if c.toNat < 0x20 then
    ['\\', 'u', '0', '0', lowerHexDigit (c.toNat / 16), lowerHexDigit (c.toNat % 16)]
  else [c]

/-- The written form of a string.  One that stands for no text is written as half of a surrogate
pair. -/
def writeText : Option String → List Char
  | some s => '"' :: s.toList.flatMap writeChar ++ ['"']
  | none => "\"\\ud800\"".toList

def writeNumeral (n : Numeral) : List Char :=
  (if n.negative then ['-'] else []) ++ digits n.significand ++
    (if n.exponent = 0 then []
     else 'e' :: (if n.exponent < 0 then ['-'] else []) ++ digits n.exponent.natAbs)

def Token.write : Token → List Char
  | .openArray => ['[']
  | .closeArray => [']']
  | .openObject => ['\x7b']
  | .closeObject => ['\x7d']
  | .comma => [',']
  | .colon => [':']
  | .null => "null".toList
  | .bool true => "true".toList
  | .bool false => "false".toList
  | .number n => writeNumeral n
  | .text s => writeText s

mutual

def toTokens : Json → List Token
  | null => [.null]
  | bool b => [.bool b]
  | number n => [.number n]
  | text s => [.text s]
  | array [] => [.openArray, .closeArray]
  | array (v :: rest) => .openArray :: (v.toTokens ++ itemTokens rest)
  | object [] => [.openObject, .closeObject]
  | object ((name, v) :: rest) =>
    .openObject :: .text name :: .colon :: (v.toTokens ++ memberTokens rest)

def itemTokens : List Json → List Token
  | [] => [.closeArray]
  | v :: rest => .comma :: (v.toTokens ++ itemTokens rest)

def memberTokens : List (Option String × Json) → List Token
  | [] => [.closeObject]
  | (name, v) :: rest => .comma :: .text name :: .colon :: (v.toTokens ++ memberTokens rest)

end

def compact (v : Json) : String :=
  String.ofList (v.toTokens.flatMap Token.write)

def newLine (depth : Nat) : List Char :=
  '\n' :: List.replicate (2 * depth) ' '

mutual

/-- The form with one item or member a line, inside a number of arrays and objects. -/
def lines (depth : Nat) : Json → List Char
  | array [] => ['[', ']']
  | array (v :: rest) =>
    '[' :: newLine (depth + 1) ++ v.lines (depth + 1) ++ itemLines depth rest
  | object [] => ['\x7b', '\x7d']
  | object ((name, v) :: rest) =>
    '\x7b' :: newLine (depth + 1) ++ writeText name ++ [':', ' '] ++ v.lines (depth + 1) ++
      memberLines depth rest
  | null => Token.null.write
  | bool b => (Token.bool b).write
  | number n => (Token.number n).write
  | text s => (Token.text s).write

def itemLines (depth : Nat) : List Json → List Char
  | [] => newLine depth ++ [']']
  | v :: rest => ',' :: newLine (depth + 1) ++ v.lines (depth + 1) ++ itemLines depth rest

def memberLines (depth : Nat) : List (Option String × Json) → List Char
  | [] => newLine depth ++ ['\x7d']
  | (name, v) :: rest =>
    ',' :: newLine (depth + 1) ++ writeText name ++ [':', ' '] ++ v.lines (depth + 1) ++
      memberLines depth rest

end

def pretty (v : Json) : String :=
  String.ofList (v.lines 0)

end FilterBar.Json
