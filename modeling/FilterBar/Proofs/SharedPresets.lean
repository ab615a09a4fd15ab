import Mathlib.Logic.Function.Basic
import FilterBar.Preset.Store
import FilterBar.Proofs.StoredPresets
import FilterBar.View.Configuration

/-!
# Stores that share their presets

Several stores work on one key of one storage, one operation after the other.  No change is computed
from what a store remembers: each is made to the stored list, which is read back as it was stored.
So the stored list is that of all operations in their order, and a store remembers this list as it
was when the store last loaded or stored it.
-/

namespace FilterBar

/-! ## Lists of presets -/

namespace PresetChange

variable {id name description : String}

theorem rename_eq_self {presets : List Preset} (h : ∀ p ∈ presets, p.id ≠ id) :
    rename id name description presets = presets := by
  induction presets with
  | nil => rfl
  | cons p rest ih =>
    rw [rename, if_neg (h p List.mem_cons_self), ih fun q hq => h q (List.mem_cons_of_mem p hq)]

/-- Renaming modifies the place of the first preset with the identifier, if there is one. -/
theorem rename_eq_modify (id name description : String) (presets : List Preset) :
    rename id name description presets =
      presets.modify (presets.findIdx (·.id == id)) fun p => { p with name, description } := by
  induction presets with
  | nil => rfl
  | cons p rest ih =>
    rw [rename, List.findIdx_cons]
    by_cases hid : p.id = id
    · rw [if_pos hid, beq_iff_eq.mpr hid]
      rfl
    · rw [if_neg hid, beq_eq_false_iff_ne.mpr hid, ih]
      rfl

/-- The list of presets after a change: a new preset comes last, with all that it was made of, the
first preset with an identifier is renamed and described anew, and all presets with an identifier
go. -/
def apply (presets : List Preset) : PresetChange → List Preset
  | save d millis created =>
    presets ++ [{
      id := Preset.nextId (presets.map (·.id)) millis
      name := d.name
      description := d.description
      filters := d.filters
      searchTerm := d.searchTerm
      created := created }]
  | update id name description =>
    presets.modify (presets.findIdx (·.id == id)) fun p => { p with name, description }
  | delete id => presets.filter (·.id ≠ id)

/-- Whether a change is stored: a preset that is to be renamed has to be there. -/
def isStored (presets : List Preset) : PresetChange → Bool
  | update id _ _ => presets.any (·.id == id)
  | _ => true

theorem after?_of_isStored {presets : List Preset} {c : PresetChange} (h : c.isStored presets = true) :
    c.after? presets = some (c.apply presets) := by
  cases c with
  | save d millis created => rfl
  | update id name description =>
    rw [apply, ← rename_eq_modify]
    exact if_pos h
  | delete id => rfl

theorem after?_of_not_isStored {presets : List Preset} {c : PresetChange}
    (h : c.isStored presets = false) : c.after? presets = none ∧ c.apply presets = presets := by
  cases c with
  | save d millis created => contradiction
  | update id name description =>
    constructor
    · exact if_neg (Bool.eq_false_iff.mp h)
    · rw [apply, ← rename_eq_modify]
      apply rename_eq_self
      intro p hp hid
      exact List.any_eq_false.mp h p hp (beq_iff_eq.mpr hid)
  | delete id => contradiction

end PresetChange

/-- What is stored as the list of presets is read back. -/
theorem Storage.presets_putPresets (s : Storage) (key : String) (presets : List Preset) :
    (s.putPresets key presets).presets key = presets := by
  rw [Storage.presets, Storage.putPresets, Table.get?_insert, if_pos rfl, Option.bind_some,
    Preset.readAll?_writeAll, Option.getD_some]

/-! ## Operations of several stores -/

/-- What a store does: it loads the stored list, as it also does when it is opened, or a change is
made in it. -/
inductive StoreOperation where
  | load
  | change (c : PresetChange)

namespace StoreOperation

/-- The list of presets after an operation. -/
def apply (presets : List Preset) : StoreOperation → List Preset
  | load => presets
  | change c => c.apply presets

/-- Whether the store remembers the list after the operation: it has loaded or stored it. -/
def refreshes (presets : List Preset) : StoreOperation → Bool
  | load => true
  | change c => c.isStored presets

end StoreOperation

namespace PresetStore

/-- The store and the storage after an operation. -/
def perform (s : PresetStore) (storage : Storage) : StoreOperation → PresetStore × Storage
  | .load => (s.load storage, storage)
  | .change c => s.change storage c

/-- An operation does to the stored list what it does to a list of presets, whatever the store
remembers. -/
theorem presets_perform (s : PresetStore) (storage : Storage) (op : StoreOperation) :
    (s.perform storage op).2.presets s.key = op.apply (storage.presets s.key) := by
  cases op with
  | load => rfl
  | change c =>
    rw [perform, change, StoreOperation.apply]
    cases hc : c.isStored (storage.presets s.key) with
    | true =>
      rw [PresetChange.after?_of_isStored hc]
      exact Storage.presets_putPresets storage s.key _
    | false =>
      obtain ⟨hnone, hsame⟩ := PresetChange.after?_of_not_isStored hc
      rw [hnone, hsame]

/-- After an operation the store remembers the list if it has loaded or stored it, and otherwise what
it remembered before. -/
theorem store_perform (s : PresetStore) (storage : Storage) (op : StoreOperation) :
    (s.perform storage op).1 =
      { s with
        presets := if op.refreshes (storage.presets s.key) = true then
            op.apply (storage.presets s.key)
          else s.presets } := by
  cases op with
  | load => rfl
  | change c =>
    rw [perform, change, StoreOperation.refreshes, StoreOperation.apply]
    cases hc : c.isStored (storage.presets s.key) with
    | true =>
      rw [PresetChange.after?_of_isStored hc]
      rfl
    | false =>
      rw [(PresetChange.after?_of_not_isStored hc).1]
      rfl

end PresetStore

/-- Stores over one storage. -/
structure SharedStores (ι : Type) where
  storage : Storage
  stores : ι → PresetStore

variable {ι : Type}

/-- The list of presets after operations of several stores, applied to one list in their order. -/
def presetsAfter (presets : List Preset) (events : List (ι × StoreOperation)) : List Preset :=
  events.foldl (fun presets event => event.2.apply presets) presets

/-- In events that start at a list of presets, a store neither loads nor stores the list. -/
def IsQuiet (i : ι) : List Preset → List (ι × StoreOperation) → Prop
  | _, [] => True
  | presets, (j, op) :: rest =>
    (j = i → op.refreshes presets = false) ∧ IsQuiet i (op.apply presets) rest

theorem presetsAfter_append (presets : List Preset) (events more : List (ι × StoreOperation)) :
    presetsAfter presets (events ++ more) = presetsAfter (presetsAfter presets events) more :=
  List.foldl_append

/-- A store is quiet throughout, or there is a last operation in which it loads or stores the list. -/
theorem exists_last_or_isQuiet [DecidableEq ι] (i : ι) (presets : List Preset)
    (events : List (ι × StoreOperation)) :
    (∃ before op rest, events = before ++ (i, op) :: rest ∧
      op.refreshes (presetsAfter presets before) = true ∧
      IsQuiet i (presetsAfter presets (before ++ [(i, op)])) rest) ∨ IsQuiet i presets events := by
  induction events generalizing presets with
  | nil => exact Or.inr trivial
  | cons event events ih =>
    obtain ⟨j, op⟩ := event
    rcases ih (op.apply presets) with ⟨before, last, rest, rfl, hlast, hquiet⟩ | hquiet
    · exact Or.inl ⟨(j, op) :: before, last, rest, rfl, hlast, hquiet⟩
    · by_cases hrefresh : j = i ∧ op.refreshes presets = true
      · obtain ⟨rfl, hop⟩ := hrefresh
        exact Or.inl ⟨[], op, events, rfl, hop, hquiet⟩
      · right
        exact ⟨fun hj => Bool.eq_false_iff.mpr fun hop => hrefresh ⟨hj, hop⟩, hquiet⟩

namespace SharedStores

variable [DecidableEq ι]

/-- One of the stores does something, as a whole. -/
def step (w : SharedStores ι) (event : ι × StoreOperation) : SharedStores ι :=
  let next := (w.stores event.1).perform w.storage event.2
  { storage := next.2, stores := Function.update w.stores event.1 next.1 }

def run (w : SharedStores ι) (events : List (ι × StoreOperation)) : SharedStores ι :=
  events.foldl step w

variable {w : SharedStores ι} {key : String} {presets : List Preset}

/-- All stores are on one key, under which a list of presets is stored. -/
structure Holds (w : SharedStores ι) (key : String) (presets : List Preset) : Prop where
  keys : ∀ i, (w.stores i).key = key
  stored : w.storage.presets key = presets

theorem Holds.stores_step (h : Holds w key presets) (i j : ι) (op : StoreOperation) :
    (w.step (j, op)).stores i =
      { w.stores i with
        presets := if j = i ∧ op.refreshes presets = true then op.apply presets
          else (w.stores i).presets } := by
  have hlist : w.storage.presets (w.stores j).key = presets := by rw [h.keys, h.stored]
  by_cases hj : j = i
  · subst hj
    have hstore := (w.stores j).store_perform w.storage op
    rw [hlist] at hstore
    show Function.update w.stores j _ j = _
    simp only [Function.update_self, hstore, true_and]
  · show Function.update w.stores j _ i = _
    rw [Function.update_of_ne (Ne.symm hj), if_neg fun hand => hj hand.1]

/-- An operation of one store does to the stored list what it does to a list of presets. -/
theorem Holds.step (h : Holds w key presets) (event : ι × StoreOperation) :
    Holds (w.step event) key (event.2.apply presets) where
  keys := by
    intro i
    rw [h.stores_step i event.1 event.2]
    exact h.keys i
  stored := by
    have hstored := (w.stores event.1).presets_perform w.storage event.2
    rwa [h.keys, h.stored] at hstored

theorem Holds.run (h : Holds w key presets) (events : List (ι × StoreOperation)) :
    Holds (w.run events) key (presetsAfter presets events) := by
  induction events generalizing w presets with
  | nil => exact h
  | cons event rest ih => exact ih (h.step event)

/-- A quiet store remembers what it remembered at the start. -/
theorem Holds.stores_of_isQuiet (h : Holds w key presets) {i : ι}
    {events : List (ι × StoreOperation)} (hquiet : IsQuiet i presets events) :
    (w.run events).stores i = w.stores i := by
  induction events generalizing w presets with
  | nil => rfl
  | cons event rest ih =>
    obtain ⟨j, op⟩ := event
    obtain ⟨hop, hrest⟩ := hquiet
    have hstep : (w.step (j, op)).stores i = w.stores i := by
      rw [h.stores_step, if_neg]
      rintro ⟨hj, hrefresh⟩
      rw [hop hj] at hrefresh
      contradiction
    exact (ih (h.step (j, op)) hrest).trans hstep

/-- A store remembers the list as it was after the last operation in which it loaded or stored it. -/
theorem Holds.presets_of_last (h : Holds w key presets) {i : ι} {op : StoreOperation}
    {events before rest : List (ι × StoreOperation)} (hevents : events = before ++ (i, op) :: rest)
    (hop : op.refreshes (presetsAfter presets before) = true)
    (hquiet : IsQuiet i (presetsAfter presets (before ++ [(i, op)])) rest) :
    ((w.run events).stores i).presets = presetsAfter presets (before ++ [(i, op)]) := by
  have hbefore := h.run before
  have hlist : presetsAfter presets (before ++ [(i, op)]) =
      op.apply (presetsAfter presets before) := presetsAfter_append presets before [(i, op)]
  have hrun : w.run events = ((w.run before).step (i, op)).run rest := by
    rw [hevents]
    exact List.foldl_append
  rw [hlist] at hquiet ⊢
  rw [hrun, (hbefore.step (i, op)).stores_of_isQuiet hquiet, hbefore.stores_step]
  exact if_pos ⟨rfl, hop⟩

/-- Stores work on one key that holds nothing or the text of a list of presets, in any order.  A store
that is opened afterwards has the list that results from making all changes to one list, in that
order, and every list of presets comes back equal from its text.  A store remembers this list as it
was after the last operation in which the store loaded or stored it, or what it remembered at the
start if there is none. -/
theorem presets_of_shared_stores (w : SharedStores ι) {key : String} {initial : List Preset}
    (hkeys : ∀ i, (w.stores i).key = key)
    (hinitial : w.storage.get? key = none ∧ initial = [] ∨
      ∃ text, w.storage.get? key = some text ∧ Preset.readAll? text = some initial)
    (events : List (ι × StoreOperation)) :
    (∀ part route, storageKey part route = key →
      (PresetStore.openAt part route (w.run events).storage).presets =
        presetsAfter initial events) ∧
    (∀ presets, Preset.readAll? (Preset.writeAll presets) = some presets) ∧
    ∀ i,
      (∃ before op rest, events = before ++ (i, op) :: rest ∧
        op.refreshes (presetsAfter initial before) = true ∧
        IsQuiet i (presetsAfter initial (before ++ [(i, op)])) rest ∧
        ((w.run events).stores i).presets = presetsAfter initial (before ++ [(i, op)])) ∨
      (IsQuiet i initial events ∧ ((w.run events).stores i).presets = (w.stores i).presets) := by
  have hstored : w.storage.presets key = initial := by
    rcases hinitial with ⟨hnone, rfl⟩ | ⟨text, htext, hread⟩
    · rw [Storage.presets, hnone]
      rfl
    · rw [Storage.presets, htext, Option.bind_some, hread]
      rfl
  have hholds : Holds w key initial := ⟨hkeys, hstored⟩
  refine ⟨?_, Preset.readAll?_writeAll, ?_⟩
  · intro part route hkey
    rw [← (hholds.run events).stored, ← hkey]
    rfl
  · intro i
    rcases exists_last_or_isQuiet i initial events with
      ⟨before, op, rest, hevents, hop, hquiet⟩ | hquiet
    · exact Or.inl
        ⟨before, op, rest, hevents, hop, hquiet, hholds.presets_of_last hevents hop hquiet⟩
    · exact Or.inr ⟨hquiet, by rw [hholds.stores_of_isQuiet hquiet]⟩

/-- Of two stores on two stored presets, the first one saves another preset, the second one renames
the last stored one and removes the other.  The first store does not find the preset that it wants to
rename, and still remembers the three presets that it stored. -/
theorem presets_of_shared_stores_executions :
    let route : Route := ⟨some "executions/list", ""⟩
    let key := storageKey "executions" route
    let day : Instant := ⟨⟨2016, 12, 31, by decide⟩,
      ⟨23, 59, 60, 250000000, by decide, by decide, by decide, by decide⟩⟩
    let range : Filter :=
      { Criterion.ofTimeRange (timeRangeKey "") day day .equals with id := "range" }
    let labels : Filter :=
      { Criterion.ofParts labelsKey "labels" .equals (.list ["env:\"prod\"", "a\\b\n"]) "env" with
        id := "labels" }
    let old : Preset := ⟨"saved_0", "old", "", [], none, day⟩
    let stored : Preset :=
      ⟨"saved_1", "prod", "production\tonly", [range, labels], some "failed", day⟩
    let draft : Draft := ⟨"dev", "not yet \"live\"", [labels, range], some "etl"⟩
    let saved : Preset := ⟨"saved_2", "dev", "not yet \"live\"", [labels, range], some "etl", day⟩
    let w : SharedStores Bool :=
      ⟨Table.empty.insert key (Preset.writeAll [old, stored]), fun _ => ⟨key, []⟩⟩
    let events : List (Bool × StoreOperation) :=
      [(true, .change (.save draft 1 day)), (false, .change (.update "saved_1" "prod-eu" "")),
        (true, .change (.update "saved_9" "ghost" "")), (false, .change (.delete "saved_0"))]
    let renamed := { stored with name := "prod-eu", description := "" }
    (∀ i, (w.stores i).key = key) ∧
      (w.storage.get? key = some (Preset.writeAll [old, stored]) ∧
        Preset.readAll? (Preset.writeAll [old, stored]) = some [old, stored]) ∧
      (PresetStore.openAt "executions" route (w.run events).storage).presets = [renamed, saved] ∧
      ((w.run events).stores true).presets = [old, stored, saved] := by
  intro route key day range labels old stored draft saved w events renamed
  have hkeys : ∀ i, (w.stores i).key = key := fun _ => rfl
  have htext : w.storage.get? key = some (Preset.writeAll [old, stored]) := by
    rw [Table.get?_insert, if_pos rfl]
  have hread := Preset.readAll?_writeAll [old, stored]
  have hafter : presetsAfter [old, stored] events = [renamed, saved] := by decide +kernel
  obtain ⟨hopened, -, -⟩ :=
    presets_of_shared_stores w hkeys (Or.inr ⟨_, htext, hread⟩) events
  have hholds : Holds w key [old, stored] := by
    refine ⟨hkeys, ?_⟩
    rw [Storage.presets, htext, Option.bind_some, hread, Option.getD_some]
  have hsplit : events = [] ++ (true, .change (.save draft 1 day)) :: events.drop 1 := rfl
  have hsaved : presetsAfter [old, stored] ([] ++ [(true, .change (.save draft 1 day))]) =
      [old, stored, saved] := by decide +kernel
  have hquiet : IsQuiet true
      (presetsAfter [old, stored] ([] ++ [(true, .change (.save draft 1 day))]))
      (events.drop 1) := by
    rw [hsaved]
    exact ⟨nofun, fun _ => by decide +kernel, nofun, trivial⟩
  have hstale := (hholds.presets_of_last hsplit rfl hquiet).trans hsaved
  exact ⟨hkeys, ⟨htext, hread⟩, (hopened _ _ rfl).trans hafter, hstale⟩

end SharedStores

end FilterBar
