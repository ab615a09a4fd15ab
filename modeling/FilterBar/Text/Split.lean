/-!
# Cutting text

Cutting a text at one character, at its first occurrence or at every one, replacing a pattern, and
the first line.  A text is a list of characters here, so each operation is a recursion on it.
-/

namespace FilterBar.Text

/-- The pieces between the occurrences of `sep`: one more than there are occurrences. -/
def splitOn (sep : Char) : List Char → List (List Char)
  | [] => [[]]
  | c :: rest =>
    if c = sep then
      [] :: splitOn sep rest
    else
      match splitOn sep rest with
      | [] => [[c]]
      | piece :: pieces => (c :: piece) :: pieces

/-- The text before and after the first `sep`, if there is one. -/
def cut? (sep : Char) : List Char → Option (List Char × List Char)
  | [] => none
  | c :: rest =>
    if c = sep then some ([], rest)
    else (cut? sep rest).map fun (before, after) => (c :: before, after)

/-- What follows `c` in a text that starts with it. -/
def after? (c : Char) : List Char → Option (List Char)
  | [] => none
  | d :: rest => if d = c then some rest else none

/-- The text after the last `sep`, or all of it if there is none. -/
def afterLast (sep : Char) (s : List Char) : List Char :=
  (s.reverse.takeWhile (· != sep)).reverse

/-- `replaceFrom skip` passes over the next `skip` characters, which a match has already used. -/
def replaceFrom (old new : List Char) : Nat → List Char → List Char
  | _, [] => []
  | skip + 1, _ :: rest => replaceFrom old new skip rest
  | 0, c :: rest =>
    if old.isPrefixOf (c :: rest) then new ++ replaceFrom old new (old.length - 1) rest
    else c :: replaceFrom old new 0 rest

/-- Replaces each occurrence of a non-empty `old`, found from the left without overlap. -/
def replaceAll (old new s : List Char) : List Char :=
  replaceFrom old new 0 s

/-- The text before the first line feed, without a carriage return directly before that feed. -/
def firstLine (s : List Char) : List Char :=
  match cut? '\n' s with
  | none => s
  | some (line, _) => if line.getLast? = some '\r' then line.dropLast else line

end FilterBar.Text
