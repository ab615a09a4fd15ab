import FilterBar.Filter.Key
import FilterBar.Filter.Value

/-!
# Filters

A criterion is a key, a comparator and a value together with the texts that are shown for them; a
filter is a criterion with an identifier.  People create criteria under the rules of the configured
key.  Identifiers are drawn from a supply that never gives the same one twice.
-/

namespace FilterBar

inductive FilterError where
  | unknownKey (key : String)
  | comparatorNotAllowed (key : String) (comparator : Comparator)
  | invalidComparator (text : String)
  | valueShape (key : String)
  deriving DecidableEq, Repr

def FilterError.message : FilterError → String
  | unknownKey key => "unknown filter key: " ++ key
  | comparatorNotAllowed key comparator =>
    "comparator " ++ comparator.token ++ " is not allowed for key " ++ key
  | invalidComparator text => "invalid comparator: " ++ text
  | valueShape key => "value does not fit key " ++ key

structure Criterion where
  key : String
  keyLabel : String
  comparator : Comparator
  comparatorLabel : String
  value : FilterValue
  valueLabel : String
  deriving DecidableEq

namespace Criterion

/-- A criterion on a configured key; whether the key allows the comparator is not asked. -/
def ofParts (k : FilterKey) (key : String) (comparator : Comparator) (value : FilterValue)
    (valueLabel : String) : Criterion where
  key := key
  keyLabel := k.label
  comparator := comparator
  comparatorLabel := comparator.label
  value := value
  valueLabel := valueLabel

/-- A range of time, whose comparator is shown as "Is Between" whichever it is. -/
def ofTimeRange (k : FilterKey) (start stop : Instant) (comparator : Comparator) : Criterion :=
  let label := String.ofList (start.date.text ++ [' ', '-', ' '] ++ stop.date.text)
  { ofParts k Key.timeRange comparator (.timeRange start stop) label with
    comparatorLabel := "Is Between" }

/-- The criterion that a person asks for.  The comparator is the key's default unless one is chosen,
and has to be one that the key lists; a range of time fits the key of that name only. -/
def create (k : FilterKey) (key : String) (comparator : Option Comparator) (value : FilterValue) :
    Except FilterError Criterion :=
  let comparator := comparator.getD k.defaultComparator
  if !k.isFor key then .error (.unknownKey key)
  else if !k.allows comparator then .error (.comparatorNotAllowed key comparator)
  else match value with
    | .timeRange start stop =>
      if key = Key.timeRange then .ok (ofTimeRange k start stop comparator)
      else .error (.valueShape key)
    | .list values =>
      let label := if key = Key.details then detailsLabel values else commaList values
      .ok (ofParts k key comparator value label)
    | .text text => .ok (ofParts k key comparator value text)

end Criterion

structure Filter extends Criterion where
  id : String
  deriving DecidableEq

/-- A supply of identifiers: the time in milliseconds and the number of the next one. -/
structure IdSupply where
  millis : Int
  next : Nat
  deriving DecidableEq, Repr

namespace IdSupply

/-- The filter that a criterion becomes, and the supply that is left. -/
def issue (s : IdSupply) (c : Criterion) : Filter × IdSupply :=
  let id := c.key ++ "-" ++ c.comparator.token ++ "-" ++ toString s.millis ++ "-" ++ toString s.next
  ({ c with id }, { s with next := s.next + 1 })

def issueAll (s : IdSupply) : List Criterion → List Filter × IdSupply
  | [] => ([], s)
  | c :: rest =>
    let (f, s) := s.issue c
    let (fs, s) := s.issueAll rest
    (f :: fs, s)

theorem issueAll_toCriterion (s : IdSupply) (cs : List Criterion) :
    (s.issueAll cs).1.map Filter.toCriterion = cs := by
  induction cs generalizing s with
  | nil => rfl
  | cons c rest ih => simp [issueAll, issue, ih]

end IdSupply

end FilterBar
