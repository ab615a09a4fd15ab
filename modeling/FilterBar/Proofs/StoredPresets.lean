import Mathlib.Data.List.Nodup
import FilterBar.Preset.Basic
import FilterBar.Proofs.JsonRoundTrip
import FilterBar.Proofs.StoredInstant

/-!
# Stored presets

Every list of presets is read back from the text that is stored for it, with all that its presets
hold.
-/

namespace FilterBar

namespace Json

variable {fields : List (String × Json)}

theorem member?_ofFields (fields : List (String × Json)) (name : String) :
    member? (fields.map fun (name, value) => (some name, value)) name =
      (fields.find? (·.1 = name)).map (·.2) := by
  induction fields with
  | nil => rfl
  | cons field rest ih =>
    by_cases hname : field.1 = name
    · simp [member?, hname]
    · simpa [member?, hname] using ih

theorem areFields_ofFields (names : List String) (h : (fields.map (·.1)).Nodup) :
    areFields names (fields.map fun (name, value) => (some name, value)) = true := by
  have honce (name : String) :
      ((fields.map fun (name, value) => (some name, value)).filter (·.1 = some name)).length ≤ 1 := by
    have hcount := List.nodup_iff_count_le_one.mp h name
    rw [List.count, List.countP_map] at hcount
    rw [← List.countP_eq_length_filter, List.countP_map]
    refine Nat.le_trans (List.countP_mono_left ?_) hcount
    intro field _ hfield
    simpa using hfield
  simp [areFields, honce]

/-- Fields with distinct names are read by their names. -/
theorem fields?_ofFields (names : List String) (h : (fields.map (·.1)).Nodup) :
    (ofFields fields).fields? names =
      some (names.map fun name => (fields.find? (·.1 = name)).map (·.2)) := by
  rw [ofFields, fields?, if_pos (areFields_ofFields names h)]
  congr 2
  funext name
  exact member?_ofFields fields name

@[simp]
theorem string?_ofString (s : String) : (ofString s).string? = some s := rfl

/-- Everything is read back that is written item by item. -/
theorem mapM_map_of_read {α β : Type} {write : α → β} {read : β → Option α}
    (h : ∀ x, read (write x) = some x) (xs : List α) : (xs.map write).mapM read = some xs := by
  induction xs with
  | nil => rfl
  | cons x xs ih => simp [h, ih]

end Json

namespace FilterValue

theorem depthOfItems_ofStrings (values : List String) :
    Json.depthOfItems (values.map Json.ofString) = 0 := by
  induction values with
  | nil => rfl
  | cons value values ih => simp [Json.depthOfItems, Json.ofString, Json.depth, ih]

theorem areItemsSound_ofStrings (values : List String) :
    Json.areItemsSound (values.map Json.ofString) = true := by
  induction values with
  | nil => rfl
  | cons value values ih => simp [Json.areItemsSound, Json.ofString, Json.isSound, ih]

theorem depth_toJson_le (v : FilterValue) : v.toJson.depth ≤ 1 := by
  cases v with
  | text value => exact Nat.zero_le 1
  | list values => simp [toJson, Json.ofStrings, Json.depth, depthOfItems_ofStrings]
  | timeRange start stop => exact Nat.le_refl 1

theorem isSound_toJson (v : FilterValue) : v.toJson.isSound = true := by
  cases v with
  | text value => rfl
  | list values => exact areItemsSound_ofStrings values
  | timeRange start stop => rfl

end FilterValue

theorem Instant.ofJson?_toJson (t : Instant) : ofJson? t.toJson = some t := by
  rw [ofJson?, toJson, Json.string?_ofString, Option.bind_some, parseRelaxed?_text]

theorem Comparator.ofJson?_token (op : Comparator) : ofJson? (.ofString op.token) = some op :=
  ofToken?_token op

/-- The value of a filter is read back: a text as a text, a list as a list and a range as a range. -/
theorem FilterValue.ofJson?_toJson (v : FilterValue) : ofJson? v.toJson = some v := by
  unfold ofJson?
  rw [if_pos v.isSound_toJson]
  cases v with
  | text value => rfl
  | list values =>
    show ((values.map Json.ofString).mapM Json.string?).map list = _
    rw [Json.mapM_map_of_read Json.string?_ofString]
    rfl
  | timeRange start stop =>
    have hnames : [Key.startDate, Key.endDate].Nodup := by decide
    have hobject : (timeRange start stop).toJson =
        .object [(some Key.startDate, start.toJson), (some Key.endDate, stop.toJson)] := rfl
    have hfields : (timeRange start stop).toJson.fields? [Key.startDate, Key.endDate] =
        some [some start.toJson, some stop.toJson] := Json.fields?_ofFields _ hnames
    rw [hobject] at hfields
    simp only [hobject, hfields, Instant.ofJson?_toJson]
    rfl

theorem Filter.ofJson?_toJson {limit : Nat} (hlimit : 1 ≤ limit) (f : Filter) :
    ofJson? limit f.toJson = some f := by
  have hdepth : f.value.toJson.depth ≤ limit := Nat.le_trans f.value.depth_toJson_le hlimit
  have hnames : fieldNames.Nodup := by decide
  have hfields : f.toJson.fields? fieldNames =
      some [some (.ofString f.id), some (.ofString f.key), some (.ofString f.keyLabel),
        some (.ofString f.comparator.token), some (.ofString f.comparatorLabel),
        some f.value.toJson, some (.ofString f.valueLabel)] := Json.fields?_ofFields _ hnames
  simp only [ofJson?, hfields, Json.string?_ofString, Comparator.ofJson?_token,
    FilterValue.ofJson?_toJson, if_pos hdepth]
  rfl

namespace Preset

theorem filtersOf?_toJson (filters : List Filter) :
    filtersOf? (some (.array (filters.map Filter.toJson))) = some filters := by
  have hlimit : 1 ≤ valueDepthLimit := by decide
  have hread := Json.mapM_map_of_read (Filter.ofJson?_toJson hlimit) filters
  exact hread

/-- A preset is read back with all that it holds. -/
theorem ofJson?_toJson (p : Preset) : ofJson? p.toJson = some p := by
  have hnames : fieldNames.Nodup := by decide
  have hfields : p.toJson.fields? fieldNames =
      some [some (.ofString p.id), some (.ofString p.name), some (.ofString p.description),
        some (.array (p.filters.map Filter.toJson)), p.searchTerm.map .ofString,
        some p.created.toJson] := by
    cases hterm : p.searchTerm with
    | none =>
      have hwritten : ["id", "name", "description", "filters", "createdAt"].Nodup := by decide
      rw [toJson, hterm]
      exact Json.fields?_ofFields _ hwritten
    | some term =>
      rw [toJson, hterm]
      exact Json.fields?_ofFields _ hnames
  have hterm : searchTermOf? (p.searchTerm.map .ofString) = some p.searchTerm := by
    cases p.searchTerm <;> rfl
  simp only [ofJson?, hfields, Json.string?_ofString, filtersOf?_toJson, hterm,
    Instant.ofJson?_toJson, descriptionOf?]
  rfl

/-- Every list of presets is read back from its stored text. -/
theorem readAll?_writeAll (ps : List Preset) : readAll? (writeAll ps) = some ps := by
  rw [readAll?, writeAll, Json.parse?_compact]
  exact Json.mapM_map_of_read ofJson?_toJson ps

end Preset

end FilterBar
