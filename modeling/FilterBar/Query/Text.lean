import FilterBar.Query.Basic
import FilterBar.Text.FormEncoding
import FilterBar.Text.Split

/-!
# Query strings

A query string lists parameters between `&`, a name and a value with `=` between them, both in form
encoding.  A name is written once for each of its values.  Reading adds the values in the order of
the string, so a repeated name comes out as a list, and a name without `=` has the empty value.
-/

namespace FilterBar.Query

open Text

/-- The name and the value that one piece of a query string stands for. -/
def readPair (piece : List Char) : String × String :=
  match cut? '=' piece with
  | some (name, value) => (Form.decode name, Form.decode value)
  | none => (Form.decode piece, "")

/-- The names and values of a query string in its order; empty pieces stand for nothing. -/
def readPairs (raw : List Char) : List (String × String) :=
  ((splitOn '&' raw).filter (!·.isEmpty)).map readPair

/-- The query whose names and values are given in order. -/
def ofPairs (pairs : List (String × String)) : Query :=
  pairs.foldl (fun q pair => q.append pair.1 pair.2) empty

def parse (raw : String) : Query :=
  let raw := raw.toList
  ofPairs (readPairs ((['?'].isPrefixOf? raw).getD raw))

def writePair (name value : String) : List Char :=
  Form.encode name ++ '=' :: Form.encode value

/-- The pieces that stand for one parameter; null entries of a list are left out. -/
def writeParam : String × ParamValue → List (List Char)
  | (name, .null) => [Form.encode name]
  | (name, .one value) => [writePair name value]
  | (name, .many values) => (values.filterMap id).map (writePair name)

/-- Puts the pieces of a query string together.  Empty pieces in front, which a null under the
empty name leaves, are written without a `&`. -/
def joinPieces (pieces : List (List Char)) : List Char :=
  ['&'].intercalate (pieces.dropWhile (·.isEmpty))

/-- The query string of a query, its parameters in increasing order of their names. -/
def render (q : Query) : String :=
  String.ofList (joinPieces (q.toList.flatMap writeParam))

end FilterBar.Query
