import FilterBar.Filter.Basic
import FilterBar.Json.Basic
import FilterBar.Time.Reading

/-!
# Filters as JSON

Filters are written as objects with seven fields; a range of time is an object with two dates, any
other value a string or an array of strings.  Reading takes the fields in any order and passes over
others, and also takes an array of the seven values.
-/

namespace FilterBar

def Instant.toJson (t : Instant) : Json :=
  .ofString (String.ofList t.text)

def Instant.ofJson? (v : Json) : Option Instant :=
  v.string?.bind parseRelaxed?

/-- The comparator that a JSON value stands for: its token, or an object with the token as the name
of its only member, which is null. -/
def Comparator.ofJson? : Json → Option Comparator
  | .text (some token) => ofToken? token
  | .object [(some token, .null)] => ofToken? token
  | _ => none

namespace FilterValue

def toJson : FilterValue → Json
  | text value => .ofString value
  | list values => .ofStrings values
  | timeRange start stop =>
    .ofFields [(Key.startDate, start.toJson), (Key.endDate, stop.toJson)]

/-- The value that a JSON value stands for.  The two dates of a range may be among other fields, all
of which have to be sound. -/
def ofJson? (v : Json) : Option FilterValue :=
  if v.isSound then
    match v with
    | .text (some value) => some (text value)
    | .array items => (items.mapM Json.string?).map list
    | .object members =>
      match (Json.object members).fields? [Key.startDate, Key.endDate] with
      | some [some start, some stop] => do
        some (timeRange (← Instant.ofJson? start) (← Instant.ofJson? stop))
      | _ => none
    | _ => none
  else none

end FilterValue

namespace Filter

def fieldNames : List String :=
  ["id", "key", "keyLabel", "comparator", "comparatorLabel", "value", "valueLabel"]

def toJson (f : Filter) : Json :=
  .ofFields
    [("id", .ofString f.id), ("key", .ofString f.key), ("keyLabel", .ofString f.keyLabel),
      ("comparator", .ofString f.comparator.token),
      ("comparatorLabel", .ofString f.comparatorLabel), ("value", f.value.toJson),
      ("valueLabel", .ofString f.valueLabel)]

/-- The filter that a JSON value stands for, if its value is not nested deeper than `limit`. -/
def ofJson? (limit : Nat) (v : Json) : Option Filter :=
  match v.fields? fieldNames with
  | some [some id, some key, some keyLabel, some comparator, some comparatorLabel, some value,
      some valueLabel] => do
    let id ← id.string?
    let key ← key.string?
    let keyLabel ← keyLabel.string?
    let comparator ← Comparator.ofJson? comparator
    let comparatorLabel ← comparatorLabel.string?
    let valueLabel ← valueLabel.string?
    if value.depth ≤ limit then
      let value ← FilterValue.ofJson? value
      some { id, key, keyLabel, comparator, comparatorLabel, value, valueLabel }
    else none
  | _ => none

end Filter

end FilterBar
