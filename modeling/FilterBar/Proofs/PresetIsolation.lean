import FilterBar.Proofs.SharedPresets

/-!
# Stores that do not share their presets

A storage key is made of a part of the page and the key of a route, with `_` between them.  Both may
hold `_` themselves, so two different pairs can make the same storage key: a piece of text that ends
the one part can as well begin the other key.  Stores on different storage keys leave each other's
lists alone, and stores on the same one do not.
-/

namespace FilterBar

/-! ## Texts joined with a separator -/

/-- Two pairs of texts are joined to one text exactly if they are the same or the piece by which one
first text is longer stands in front of the other second text. -/
theorem Text.append_cons_eq_iff {sep : Char} {a b k l : List Char} :
    a ++ sep :: k = b ++ sep :: l ↔
      (a = b ∧ k = l) ∨ (∃ piece, b = a ++ sep :: piece ∧ k = piece ++ sep :: l) ∨
        ∃ piece, a = b ++ sep :: piece ∧ l = piece ++ sep :: k := by
  rw [List.append_eq_append_iff]
  constructor
  · rintro (⟨rest, rfl, hk⟩ | ⟨rest, rfl, hl⟩)
    · cases rest with
      | nil =>
        left
        simpa using hk
      | cons x piece =>
        obtain ⟨rfl, rfl⟩ := List.cons_eq_cons.mp hk
        exact Or.inr (Or.inl ⟨piece, rfl, rfl⟩)
    · cases rest with
      | nil =>
        left
        simpa using hl.symm
      | cons x piece =>
        obtain ⟨rfl, rfl⟩ := List.cons_eq_cons.mp hl
        exact Or.inr (Or.inr ⟨piece, rfl, rfl⟩)
  · rintro (⟨rfl, rfl⟩ | ⟨piece, rfl, rfl⟩ | ⟨piece, rfl, rfl⟩)
    · exact Or.inl ⟨[], by simp, rfl⟩
    · exact Or.inl ⟨sep :: piece, rfl, rfl⟩
    · exact Or.inr ⟨sep :: piece, rfl, rfl⟩

/-- The first pair becomes the second one when a piece of text is moved from the front of its key to
the end of its part. -/
def Shifts (part key part' key' : String) : Prop :=
  ∃ piece, part' = part ++ "_" ++ piece ∧ key = piece ++ "_" ++ key'

/-- Two pairs have the same storage key exactly if they are the same or one becomes the other by a
shift. -/
theorem storageKey_eq_iff {part part' : String} {r r' : Route} :
    storageKey part r = storageKey part' r' ↔
      (part = part' ∧ r.key = r'.key) ∨ Shifts part r.key part' r'.key ∨
        Shifts part' r'.key part r.key := by
  have hshift (a k b l : String) :
      (∃ piece, b.toList = a.toList ++ '_' :: piece ∧ k.toList = piece ++ '_' :: l.toList) ↔
        Shifts a k b l := by
    constructor
    · rintro ⟨piece, hb, hk⟩
      exact ⟨String.ofList piece, String.toList_inj.mp (by simpa using hb),
        String.toList_inj.mp (by simpa using hk)⟩
    · rintro ⟨piece, rfl, rfl⟩
      exact ⟨piece.toList, by simp, by simp⟩
  have htext (p : String) (q : Route) :
      (storageKey p q).toList = "saved_filters_".toList ++ (p.toList ++ '_' :: q.key.toList) := by
    show ("saved_filters_" ++ p ++ "_" ++ q.key).toList = _
    simp only [String.toList_append, List.append_assoc]
    rfl
  rw [← String.toList_inj, htext, htext, List.append_cancel_left_eq, Text.append_cons_eq_iff, hshift,
    hshift, String.toList_inj, String.toList_inj]

/-! ## Operations under another key -/

/-- An operation of a store leaves what is stored under every other key. -/
theorem PresetStore.get?_perform_of_ne {s : PresetStore} {key : String} (hkey : s.key ≠ key)
    (storage : Storage) (op : StoreOperation) :
    (s.perform storage op).2.get? key = storage.get? key := by
  cases op with
  | load => rfl
  | change c =>
    rw [perform, change]
    split
    · exact (Table.get?_insert ..).trans (if_neg hkey)
    · rfl

namespace SharedStores

variable {ι : Type} [DecidableEq ι] {w : SharedStores ι} {key : String}

theorem key_stores_step (w : SharedStores ι) (event : ι × StoreOperation) (i : ι) :
    ((w.step event).stores i).key = (w.stores i).key := by
  show (Function.update w.stores event.1 _ i).key = _
  by_cases hi : i = event.1
  · subst hi
    rw [Function.update_self, PresetStore.store_perform]
  · rw [Function.update_of_ne hi]

/-- Operations of stores on other keys leave what is stored under a key. -/
theorem get?_run_of_ne {events : List (ι × StoreOperation)}
    (hkeys : ∀ event ∈ events, (w.stores event.1).key ≠ key) :
    (w.run events).storage.get? key = w.storage.get? key := by
  induction events generalizing w with
  | nil => rfl
  | cons event rest ih =>
    obtain ⟨hevent, hrest⟩ := List.forall_mem_cons.mp hkeys
    have hstep : (w.step event).storage.get? key = w.storage.get? key :=
      PresetStore.get?_perform_of_ne hevent w.storage event.2
    rw [← hstep]
    apply ih
    intro later hlater
    rw [key_stores_step]
    exact hrest later hlater

end SharedStores

namespace PresetStore

variable {part part' : String} {r r' : Route}

/-- A store that is opened on a storage finds the presets stored under its key. -/
theorem openAt_congr {storage storage' : Storage}
    (h : storage.get? (storageKey part r) = storage'.get? (storageKey part r)) :
    openAt part r storage = openAt part r storage' := by
  rw [openAt, openAt, load, load, Storage.presets, Storage.presets, h]

/-- A saved preset is found, after those that were stored, by a store that is opened on its key. -/
theorem presets_openAt_save {s : PresetStore} (hkey : s.key = storageKey part r) (storage : Storage)
    (d : Draft) (millis : Int) (created : Instant) :
    (openAt part r (s.perform storage (.change (.save d millis created))).2).presets =
      (openAt part r storage).presets ++
        [PresetChange.newPreset (openAt part r storage).presets d millis created] := by
  have hsaved := s.presets_perform storage (.change (.save d millis created))
  rw [hkey] at hsaved
  exact hsaved

/-- The storage keys of two pairs of a part and a route differ exactly when the pairs differ and
neither becomes the other one by a shift.  This is so exactly when no operations of stores on the
storage key of the one pair, whatever else is stored, change what a store opened for the other pair
finds. -/
theorem isolated_iff (part : String) (r : Route) (part' : String) (r' : Route) :
    (storageKey part r ≠ storageKey part' r' ↔
      (part ≠ part' ∨ r.key ≠ r'.key) ∧ ¬Shifts part r.key part' r'.key ∧
        ¬Shifts part' r'.key part r.key) ∧
    (storageKey part r ≠ storageKey part' r' ↔
      ∀ {ι : Type} [DecidableEq ι] (w : SharedStores ι) (events : List (ι × StoreOperation)),
        (∀ event ∈ events, (w.stores event.1).key = storageKey part r) →
        openAt part' r' (w.run events).storage = openAt part' r' w.storage) := by
  have hkeys : storageKey part r ≠ storageKey part' r' ↔
      (part ≠ part' ∨ r.key ≠ r'.key) ∧ ¬Shifts part r.key part' r'.key ∧
        ¬Shifts part' r'.key part r.key := by
    rw [Ne, storageKey_eq_iff, not_or, not_or, not_and_or]
  refine ⟨hkeys, ?_, ?_⟩
  · intro hne ι _ w events hevents
    apply openAt_congr
    apply SharedStores.get?_run_of_ne
    intro event hevent
    rw [hevents event hevent]
    exact hne
  · -- a preset that the one store saves would be found by the other one
    intro hisolated hsame
    let s := openAt part r Table.empty
    let w : SharedStores Unit := ⟨Table.empty, fun _ => s⟩
    let draft : Draft := ⟨"", "", [], none⟩
    let day : Instant :=
      ⟨⟨1970, 1, 1, by decide⟩, ⟨0, 0, 0, 0, by decide, by decide, by decide, by decide⟩⟩
    have hkept := hisolated w [((), .change (.save draft 0 day))] fun _ _ => rfl
    have hfound := presets_openAt_save (s := s) hsame w.storage draft 0 day
    have hself := (congrArg PresetStore.presets hkept).symm.trans hfound
    exact List.cons_ne_nil _ _ (List.self_eq_append_right.mp hself)

/-- Opened for the part `flows` and the path `/executions/list`, a store saves a preset.  A store that
is opened for the part `flows_executions` and the path `/list` has the same storage key and finds the
preset. -/
theorem not_isolated_of_shift :
    let route : Route := ⟨none, "/executions/list"⟩
    let route' : Route := ⟨none, "/list"⟩
    let draft : Draft := ⟨"prod", "", [], none⟩
    let day : Instant :=
      ⟨⟨2016, 12, 31, by decide⟩, ⟨23, 59, 60, 250000000, by decide, by decide, by decide, by decide⟩⟩
    let s := openAt "flows" route Table.empty
    let saved := (s.perform Table.empty (.change (.save draft 1 day))).2
    ("flows" ≠ "flows_executions" ∧ route.key ≠ route'.key) ∧
      storageKey "flows" route = storageKey "flows_executions" route' ∧
      (openAt "flows_executions" route' Table.empty).presets = [] ∧
      (openAt "flows_executions" route' saved).presets = [⟨"saved_1", "prod", "", [], none, day⟩] := by
  intro route route' draft day s saved
  have hkey : storageKey "flows" route = storageKey "flows_executions" route' := by decide
  have hempty : (openAt "flows_executions" route' Table.empty).presets = [] := rfl
  have hsaved := presets_openAt_save (s := s) hkey Table.empty draft 1 day
  rw [hempty] at hsaved
  refine ⟨by decide, hkey, hempty, hsaved.trans ?_⟩
  decide +kernel

end PresetStore

end FilterBar
