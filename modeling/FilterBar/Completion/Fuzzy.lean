/-!
# Fuzzy scores

How well a pattern fits a text: its characters have to occur in the text in order, case set aside.
The score is the best value of an alignment.  Matched characters earn points, more at the start of a
word and next to each other, and gaps cost some.

The alignment is computed row by row, one row for each pattern character and one cell for each
prefix of the text.  Only two rows are kept.  A row starts from what the row two before it left
behind, and cells in front of the first possible match stay as they were, so the points that run
along a sequence of matches are read from cells that earlier rows may have written.
-/

namespace FilterBar.Fuzzy

/-- Points for a matched character. -/
def matchScore : Int := 16

/-- What a match of the other case loses. -/
def casePenalty : Int := 2

/-- What the first character of a gap costs. -/
def gapStart : Int := 4

/-- What each further character of a gap costs. -/
def gapExtension : Int := 1

/-- The least bonus of a match. -/
def leastBonus : Int := 4

def lowest : Int := -32768

inductive CharKind where
  | empty
  | hardSeparator
  | softSeparator
  | digit
  | upper
  | lower
  deriving DecidableEq, Repr

def CharKind.of (c : Char) : CharKind :=
  let n := c.toNat
  if n = 0 then empty
  else if " /\\|()[]\x7b\x7d".toList.contains c then hardSeparator
  else if (0x21 ≤ n ∧ n ≤ 0x27) ∨ (0x2A ≤ n ∧ n ≤ 0x2E) ∨ (0x3A ≤ n ∧ n ≤ 0x40) ∨
      (0x5E ≤ n ∧ n ≤ 0x60) ∨ n = 0x7E then softSeparator
  else if c.isDigit then digit
  else if c.isUpper then upper
  else lower

def placeBonus (previous current : CharKind) : Int :=
  match previous, current with
  | .empty, _ | .hardSeparator, _ => 8
  | .softSeparator, _ => 7
  | .lower, .upper | .digit, .upper => 6
  | _, _ => 0

/-- The place bonuses of characters that follow one of a kind. -/
def placeBonusesAfter (previous : CharKind) : List Char → List Int
  | [] => []
  | c :: rest => placeBonus previous (.of c) :: placeBonusesAfter (.of c) rest

def placeBonuses (text : List Char) : List Int :=
  match placeBonusesAfter .empty text with
  | [] => []
  | first :: rest => 2 * first :: rest

/-- Two characters agree but for the case of ASCII letters. -/
def agree (c p : Char) : Bool :=
  c.toLower == p.toLower

/-- The place of the first character of a text that agrees with `p`, counted from `start`, and the
text behind it. -/
def findAgreeing? (p : Char) (start : Nat) : List Char → Option (Nat × List Char)
  | [] => none
  | c :: rest => if agree c p then some (start, rest) else findAgreeing? p (start + 1) rest

/-- The places at which the characters of a pattern occur first, each behind the one before. -/
def firstPlaces? (start : Nat) : List Char → List Char → Option (List Nat)
  | [], _ => some []
  | p :: pattern, text => do
    let (place, rest) ← findAgreeing? p start text
    (firstPlaces? (place + 1) pattern rest).map (place :: ·)

/-- A cell: the best score of an alignment that ends with a match here, that of one that ends in a
gap, and the bonus of a run of matches up to here. -/
structure Cell where
  matched : Int
  gapped : Int
  bonus : Int
  deriving DecidableEq, Repr

def Cell.unreached : Cell := ⟨lowest, lowest, 0⟩

/-- What a cell is computed from beside its neighbour in the row: the character and its place bonus,
the cell of the row before that stands one place to the left, and what the cell held before. -/
structure Site where
  char : Char
  place : Int
  diagonal : Cell
  held : Cell

/-- The cells of a row from `last` on, given the sites behind it.  A match also raises the bonus of
the cell on its left to its own. -/
def sweep (p : Char) (last : Cell) : List Site → List Cell
  | [] => [last]
  | s :: rest =>
    let gapped := max (last.matched - gapStart) (last.gapped - gapExtension)
    if agree s.char p then
      let run := max (max last.bonus s.place) leastBonus
      let gain := if s.char = p then matchScore else matchScore - casePenalty
      let matched := max (s.diagonal.matched + run) (s.diagonal.gapped + s.place) + gain
      { last with bonus := run } :: sweep p { s.held with matched, gapped } rest
    else
      last :: sweep p ⟨lowest, gapped, 0⟩ rest

/-- The sites behind a place of a row. -/
def sitesFrom (place : Nat) (text : List Char) (bonuses : List Int) (before held : List Cell) :
    List Site :=
  let right := (before.drop place).zip (held.drop (place + 1))
  let left := (text.drop place).zip (bonuses.drop place)
  (left.zip right).map fun ((char, place), diagonal, held) => { char, place, diagonal, held }

/-- A row computed anew for a pattern character whose first place is known. -/
def nextRow (p : Char) (place : Nat) (text : List Char) (bonuses : List Int)
    (before held : List Cell) : List Cell :=
  match held[place]? with
  | none => held
  | some last => held.take place ++ sweep p last (sitesFrom place text bonuses before held)

/-- The last row, given the pattern characters with their first places, the row before and the one
before that. -/
def lastRow (text : List Char) (bonuses : List Int) :
    List (Char × Nat) → List Cell → List Cell → List Cell
  | [], before, _ => before
  | (p, place) :: rest, before, held =>
    lastRow text bonuses rest (nextRow p place text bonuses before held) before

/-- The best score in a row from a place on. -/
def bestFrom (place : Nat) (row : List Cell) : Int :=
  (row.drop place).foldl (fun best cell => max best cell.matched) lowest

/-- The score of a text for a pattern that is not empty, if the pattern occurs in it. -/
def score? (text pattern : String) : Option Int := do
  let text := text.toList
  let places ← firstPlaces? 0 pattern.toList text
  let held := List.replicate (text.length + 1) Cell.unreached
  let before := held.map fun cell => { cell with gapped := -1 }
  let row := lastRow text (placeBonuses text) (pattern.toList.zip places) before held
  some (bestFrom (places.getLast?.getD 0) row)

end FilterBar.Fuzzy
