import FilterBar.Filter.Json
import FilterBar.Json.Parser
import FilterBar.Json.Printer

/-!
# Presets

A preset is a list of filters and perhaps a search term that a user has given a name and kept.  A
list of presets is stored as one JSON text; a text that is no list of presets stands for none.
-/

namespace FilterBar

structure Preset where
  id : String
  name : String
  description : String
  filters : List Filter
  searchTerm : Option String
  created : Instant
  deriving DecidableEq

namespace Preset

def fieldNames : List String :=
  ["id", "name", "description", "filters", "searchQuery", "createdAt"]

/-- A preset as JSON.  The search term is left out if there is none. -/
def toJson (p : Preset) : Json :=
  .ofFields
    ([("id", .ofString p.id), ("name", .ofString p.name),
        ("description", .ofString p.description),
        ("filters", .array (p.filters.map Filter.toJson))] ++
      (p.searchTerm.map fun term => ("searchQuery", Json.ofString term)).toList ++
      [("createdAt", p.created.toJson)])

/-- A list of presets may be nested to this depth. -/
def depthLimit : Nat := 127

/-- The list, the preset, its list of filters and the filter are around the value of a filter. -/
def valueDepthLimit : Nat := depthLimit - 4

/-- The description that a field stands for, which is empty where there is no field. -/
def descriptionOf? : Option Json → Option String
  | none => some ""
  | some v => v.string?

/-- The filters that a field stands for, none where there is no field. -/
def filtersOf? : Option Json → Option (List Filter)
  | none => some []
  | some v => v.items?.bind fun items => items.mapM (Filter.ofJson? valueDepthLimit)

/-- The search term that a field stands for: none where it is null or there is no field. -/
def searchTermOf? : Option Json → Option (Option String)
  | none => some none
  | some .null => some none
  | some v => v.string?.map some

/-- The preset that a JSON value stands for. -/
def ofJson? (v : Json) : Option Preset :=
  match v.fields? fieldNames with
  | some [some id, some name, description, filters, searchTerm, some created] => do
    let id ← id.string?
    let name ← name.string?
    let description ← descriptionOf? description
    let filters ← filtersOf? filters
    let searchTerm ← searchTermOf? searchTerm
    let created ← Instant.ofJson? created
    some { id, name, description, filters, searchTerm, created }
  | _ => none

/-- The stored text of a list of presets. -/
def writeAll (presets : List Preset) : String :=
  (Json.array (presets.map toJson)).compact

/-- The list of presets that a stored text stands for, if it stands for one. -/
def readAll? (stored : String) : Option (List Preset) := do
  let items ← (← Json.parse? stored).items?
  items.mapM ofJson?

end Preset

end FilterBar
