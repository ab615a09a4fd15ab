import FilterBar.Filter.Basic
import FilterBar.Filter.Keyed
import FilterBar.Time.Reading
import FilterBar.Url.SearchParam

/-!
# The bracketed format

Each filter is written as `filters[key][COMPARATOR]=value`, once for each of its values.  A label is
written under its name, and a range of time as the two fields `startDate` and `endDate`.  Reading
collects the parameters of each field, in the order in which the fields occur first, and drops what
it does not understand: fields without a key, unknown comparators and dates that cannot be read.
-/

namespace FilterBar.Bracketed

open Text

/-! ## Writing -/

/-- Adds an entry of the key `labels`: under its name if it has one. -/
def encodeLabel (c : Comparator) (q : Query) (entry : String) : Query :=
  match cut? ':' entry.toList with
  | some (name, value) =>
    q.append (ParamName.ofLabel c (String.ofList name)) (String.ofList value)
  | none => q.append (ParamName.ofKey Key.labels c) entry

def encodeOne (q : Query) (f : Criterion) : Query :=
  match f.value with
  | .timeRange start stop =>
    (q.insertOne (ParamName.ofKey Key.startDate f.comparator) (String.ofList start.millisText)).insertOne
      (ParamName.ofKey Key.endDate f.comparator) (String.ofList stop.millisText)
  | value =>
    if f.key = Key.labels then
      value.items.foldl (encodeLabel f.comparator) q
    else
      match Key.after? Key.namedLabel f.key with
      | some name => q.appendAll (ParamName.ofLabel f.comparator name) value.items
      | none => q.appendAll (ParamName.ofKey f.key f.comparator) value.items

def encode (fs : List Criterion) : Query :=
  fs.foldl encodeOne Query.empty

/-! ## Reading -/

/-- A parameter under the field it counts for. -/
structure FieldParam where
  field : String
  operation : String
  values : ParamValues
  deriving DecidableEq, Repr

/-- The field of a parameter.  Where `labels` is no key, a label with a name is a field of its own,
and its values stand without the name. -/
def fieldParam (c : Configuration) (p : SearchParam) : FieldParam :=
  match p.name.labelName with
  | some label =>
    if c.has Key.labels then ⟨p.name.field, p.name.operation, p.values⟩
    else ⟨Key.namedLabel ++ label, p.name.operation, p.given⟩
  | none => ⟨p.name.field, p.name.operation, p.given⟩

def fieldParams (q : Query) (c : Configuration) : List FieldParam :=
  (SearchParam.ofQuery q).map (fieldParam c)

/-- The value of a field.  A key that takes several values gets all of them, and a single value is
cut at its commas unless it is a label; any other key, and any text comparator, gets the first. -/
def fieldValue (k : FilterKey) (field : String) (c : Comparator) (ps : List FieldParam) :
    FilterValue × String :=
  if k.isMultiSelect && !c.isText then
    let values := ps.flatMap fun p =>
      match p.values with
      | .many values => values
      | .one value =>
        if field = Key.labels then [value]
        else (splitOn ',' value.toList).map String.ofList
    (.list values, commaList values)
  else
    let value := ((ps.head?.bind (·.values.first?)).getD "")
    (.text value, value)

/-- The criterion of a field and its parameters, the first of which gives the comparator. -/
def fieldCriterion? (c : Configuration) (field : String) (ps : List FieldParam) :
    Option Criterion := do
  let k ← c.find? field
  let first ← ps.head?
  let comparator ← Comparator.ofToken? first.operation
  let (value, label) := fieldValue k field comparator ps
  some (Criterion.ofParts k field comparator value label)

/-- The criteria of the fields that are no dates, in order of first occurrence. -/
def fieldCriteria (c : Configuration) (ps : List FieldParam) : List Criterion :=
  let ps := ps.filter fun p => !Key.isDate p.field
  (ps.map (·.field)).eraseDups.filterMap fun field =>
    fieldCriterion? c field (ps.filter (·.field == field))

/-- One end of a range of time as written: its operation and its date.  The last parameter of the
field counts; without one the bare name of the field is read, with equality as its operation. -/
def dateOf? (q : Query) (ps : List FieldParam) (field : String) : Option (String × String) :=
  match (ps.filter (·.field == field)).getLast? with
  | some p => some (p.operation, p.values.first?.getD "")
  | none => (q.first? field).map fun date => (Comparator.equals.token, date)

/-- The range of time of a query: both of its ends can be read.  The operation of the start gives
the comparator, which is equality if there is no such comparator. -/
def timeRange? (q : Query) (c : Configuration) (ps : List FieldParam) : Option Criterion := do
  let (operation, start) ← dateOf? q ps Key.startDate
  let (_, stop) ← dateOf? q ps Key.endDate
  let k ← c.find? Key.timeRange
  let start ← Instant.parse? start
  let stop ← Instant.parse? stop
  some (Criterion.ofTimeRange k start stop ((Comparator.ofToken? operation).getD .equals))

/-- The criteria of a query.  A range of time takes the place of a duration under its key. -/
def decode (q : Query) (c : Configuration) : List Criterion :=
  let ps := fieldParams q c
  let found := fieldCriteria c ps
  match timeRange? q c ps with
  | some range => Keyed.put Criterion.key range found
  | none => found

end FilterBar.Bracketed
