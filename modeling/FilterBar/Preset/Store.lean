import FilterBar.Preset.Basic
import FilterBar.Table
import FilterBar.Text.Split

/-!
# Stores of presets

A store keeps the presets of one route of one part of the page.  Every operation reads the stored
list anew, changes it and stores it again, so of several stores on one key each sees what the others
have stored.  Between operations a store remembers the list that it last loaded or stored.

The clock of the page is an argument: its reading in milliseconds for new identifiers, and the
instant of creation.
-/

namespace FilterBar

/-- A place in the page: its name, if it has one, and its path. -/
structure Route where
  name : Option String
  path : String
  deriving DecidableEq, Repr

/-- The text that identifies a route: its name unless that is empty, or else its path with `_` for
each `/`, without one `_` in front. -/
def Route.key (r : Route) : String :=
  match r.name.filter (· ≠ "") with
  | some name => name
  | none =>
    let path := r.path.toList.map fun c => if c = '/' then '_' else c
    String.ofList ((Text.after? '_' path).getD path)

/-- The key under which the presets of a route are stored. -/
def storageKey (part : String) (r : Route) : String :=
  "saved_filters_" ++ part ++ "_" ++ r.key

/-- Texts under keys. -/
abbrev Storage := Table String

/-- The stored presets under a key: none if nothing is stored there or what is stored is no list of
presets. -/
def Storage.presets (s : Storage) (key : String) : List Preset :=
  ((s.get? key).bind Preset.readAll?).getD []

/-- Stores a list of presets under a key. -/
def Storage.putPresets (s : Storage) (key : String) (presets : List Preset) : Storage :=
  s.insert key (Preset.writeAll presets)

namespace Preset

/-- The identifier of a preset made at a time in milliseconds. -/
def idAt (millis : Int) : String :=
  "saved_" ++ toString millis

/-- The first time from `millis` on, within a number of tries, whose identifier is not taken. -/
def freeMillis? (taken : List String) (millis : Int) : Nat → Option Int
  | 0 => none
  | tries + 1 =>
    if taken.contains (idAt millis) then freeMillis? taken (millis + 1) tries else some millis

/-- The identifier of a new preset.  Of one more time than there are identifiers one is free. -/
def nextId (taken : List String) (millis : Int) : String :=
  idAt ((freeMillis? taken millis (taken.length + 1)).getD millis)

end Preset

/-- What a new preset is made of. -/
structure Draft where
  name : String
  description : String
  filters : List Filter
  searchTerm : Option String

/-- What a user does with the presets of a store. -/
inductive PresetChange where
  | save (draft : Draft) (millis : Int) (created : Instant)
  /-- The first preset with the identifier is renamed and described anew. -/
  | update (id name description : String)
  /-- The presets with the identifier are removed. -/
  | delete (id : String)

namespace PresetChange

/-- Renames the first preset with an identifier and describes it anew. -/
def rename (id name description : String) : List Preset → List Preset
  | [] => []
  | p :: rest =>
    if p.id = id then { p with name, description } :: rest
    else p :: rename id name description rest

/-- The new preset of a draft beside a list of presets. -/
def newPreset (presets : List Preset) (d : Draft) (millis : Int) (created : Instant) : Preset where
  id := Preset.nextId (presets.map (·.id)) millis
  name := d.name
  description := d.description
  filters := d.filters
  searchTerm := d.searchTerm
  created := created

/-- The list of presets after a change, or none if nothing is stored: a preset that is to be renamed
is not there. -/
def after? (presets : List Preset) : PresetChange → Option (List Preset)
  | save d millis created => some (presets ++ [newPreset presets d millis created])
  | update id name description =>
    if presets.any (·.id == id) then some (rename id name description presets) else none
  | delete id => some (presets.filter (·.id ≠ id))

end PresetChange

/-- A store on a key, and the list that it last loaded or stored. -/
structure PresetStore where
  key : String
  presets : List Preset

namespace PresetStore

/-- Loads the stored list. -/
def load (s : PresetStore) (storage : Storage) : PresetStore :=
  { s with presets := storage.presets s.key }

/-- The store of a route. -/
def openAt (part : String) (r : Route) (storage : Storage) : PresetStore :=
  load ⟨storageKey part r, []⟩ storage

/-- The store and the storage after a change. -/
def change (s : PresetStore) (storage : Storage) (c : PresetChange) : PresetStore × Storage :=
  match c.after? (storage.presets s.key) with
  | some presets => ({ s with presets := presets }, storage.putPresets s.key presets)
  | none => (s, storage)

end PresetStore

end FilterBar
