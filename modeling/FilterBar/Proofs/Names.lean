import Mathlib.Data.List.Basic
import FilterBar.Url.Codec

/-!
# Keys and names of parameters

How a name starts, which names a configuration has a key for, and which names stay clear of the
parameters of dates and details.
-/

namespace FilterBar

namespace Key

theorem after?_eq_some {start name rest : String} :
    after? start name = some rest ↔ name = start ++ rest := by
  rw [after?, Option.map_eq_some_iff]
  constructor
  · rintro ⟨chars, hchars, rfl⟩
    rw [List.isPrefixOf?_eq_some_iff_append_eq] at hchars
    rw [← String.toList_inj, String.toList_append, String.toList_ofList, hchars]
  · rintro rfl
    refine ⟨rest.toList, ?_, String.ofList_toList⟩
    rw [List.isPrefixOf?_eq_some_iff_append_eq, String.toList_append]

theorem after?_append (start rest : String) : after? start (start ++ rest) = some rest :=
  after?_eq_some.mpr rfl

/-- Two starts of one name agree at their first characters. -/
theorem after?_eq_none_of_head?_ne {start name : String}
    (hstart : start.toList ≠ []) (h : start.toList.head? ≠ name.toList.head?) :
    after? start name = none := by
  cases hafter : after? start name with
  | none => rfl
  | some rest =>
    rw [after?_eq_some.mp hafter, String.toList_append, List.head?_append_of_ne_nil _ hstart] at h
    exact absurd rfl h

theorem isDate_iff {name : String} : isDate name = true ↔ name = startDate ∨ name = endDate := by
  simp [isDate]

theorem isDate_eq_false {name : String} (hs : name.toList.head? ≠ some 's')
    (he : name.toList.head? ≠ some 'e') : isDate name = false := by
  rw [Bool.eq_false_iff, Ne, isDate_iff]
  rintro (rfl | rfl)
  · exact hs rfl
  · exact he rfl

end Key

namespace Configuration

variable {c : Configuration} {name : String}

/-- The key for a name is one of the keys of the configuration. -/
theorem mem_keys_of_find? {k : FilterKey} (h : c.find? name = some k) :
    k ∈ c.keys ∧ k.isFor name = true := by
  rw [find?, Option.or_eq_some_iff] at h
  rcases h with h | ⟨-, h⟩
  · have hname : k.name = name := by simpa using List.find?_some h
    exact ⟨List.mem_of_find?_eq_some h, by simp [FilterKey.isFor, hname]⟩
  · have hfor : k.isFor name = true := by simpa using List.find?_some h
    exact ⟨List.mem_of_find?_eq_some h, hfor⟩

theorem has_iff_find? : c.has name = true ↔ ∃ k, c.find? name = some k :=
  Option.isSome_iff_exists

end Configuration

/-- A named label starts with `labels.`. -/
theorem Key.eq_of_isNamedLabel {name : String} (h : Key.isNamedLabel name = true) :
    ∃ rest, rest ≠ "" ∧ name = Key.namedLabel ++ rest := by
  unfold Key.isNamedLabel at h
  split at h
  next rest hrest =>
    refine ⟨rest, ?_, Key.after?_eq_some.mp hrest⟩
    rintro rfl
    simp at h
  next => simp at h

end FilterBar
