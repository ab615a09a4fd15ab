import FilterBar.Proofs.BracketedReload
import FilterBar.Proofs.FlatReload

/-!
# The keys of the views

The keys that the views can be filtered by are plain names: none is a date, a search term, a detail
or a label, and none holds a character that ends the field of a name.
-/

namespace FilterBar

variable {f : Criterion}

/-- No key of a view can be taken for anything else in a URL. -/
theorem View.plainKeys (v : View) : ∀ k ∈ v.configuration.keys,
    ParamName.IsField k.name ∧ Flat.isReserved k.name = false ∧
      Key.after? Key.namedLabel k.name = none ∧ Key.after? Flat.detailOpening k.name = none := by
  cases v <;> decide +kernel

theorem View.plainKey_of_has {v : View} {key : String} (h : v.configuration.has key = true) :
    ParamName.IsField key ∧ Flat.isReserved key = false ∧
      Key.after? Key.namedLabel key = none ∧ Key.after? Flat.detailOpening key = none := by
  obtain ⟨k, hk⟩ := Configuration.has_iff_find?.mp h
  obtain ⟨hmem, hfor⟩ := Configuration.mem_keys_of_find? hk
  have hplain := v.plainKeys k hmem
  rcases Bool.or_eq_true_iff.mp hfor with hname | hpattern
  · rw [← beq_iff_eq.mp hname]
    exact hplain
  · have hname := beq_iff_eq.mp (Bool.and_eq_true_iff.mp hpattern).1
    have hlabel := hplain.2.2.1
    rw [hname] at hlabel
    exact absurd hlabel (by decide +kernel)

theorem View.addressed {v : View} (hhas : v.configuration.has f.key = true)
    (hrange : f.KeepsRange) : f.Addressed v.configuration := by
  obtain ⟨hfield, hreserved, hlabel, -⟩ := View.plainKey_of_has hhas
  refine ⟨hhas, hrange, hfield, Flat.isReserved_eq_false hreserved, ?_⟩
  intro label hsome
  rw [hlabel] at hsome
  contradiction

theorem View.bare {v : View} (hhas : v.configuration.has f.key = true) (hrange : f.KeepsRange) :
    f.Bare v.configuration := by
  obtain ⟨-, hreserved, -, hdetail⟩ := View.plainKey_of_has hhas
  exact ⟨hhas, hrange, hreserved, hdetail⟩

theorem View.not_has_searchName (v : View) : v.configuration.has searchName = false := by
  cases v <;> decide +kernel

end FilterBar
