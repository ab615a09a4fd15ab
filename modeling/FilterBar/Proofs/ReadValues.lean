import FilterBar.Proofs.FlatValues
import FilterBar.Proofs.QueryText
import FilterBar.Proofs.RoundTrip

/-!
# The values that are read

A query that was read from a text holds no list of a single value and no bare name.  So what both
formats read from it under a key is a value that they can write under that key without loss: no list
stands for a single value, and no single value that is read as a list has a comma.
-/

namespace FilterBar

theorem Text.notMem_of_mem_splitOn {sep : Char} {s piece : List Char}
    (h : piece ∈ splitOn sep s) : sep ∉ piece := by
  induction s generalizing piece with
  | nil =>
    rw [List.mem_singleton.mp h]
    exact List.not_mem_nil
  | cons c rest ih =>
    rw [splitOn] at h
    split at h
    · rcases List.mem_cons.mp h with rfl | h
      · exact List.not_mem_nil
      · exact ih h
    next hc =>
      split at h
      · rw [List.mem_singleton.mp h, List.mem_singleton]
        exact Ne.symm hc
      next first pieces hpieces =>
        rw [hpieces] at ih
        rcases List.mem_cons.mp h with rfl | h
        · rw [List.mem_cons, not_or]
          exact ⟨Ne.symm hc, ih List.mem_cons_self⟩
        · exact ih (List.mem_cons_of_mem first h)

/-! ## The bracketed format -/

/-- Values that are read under a name that stands once are single. -/
def ParamValues.IsNormal : ParamValues → Prop
  | one _ => True
  | many values => 2 ≤ values.length

theorem SearchParam.isNormal_decodeValue? {v : ParamValue} (hv : v.IsNormal) {given : ParamValues}
    (h : decodeValue? v = some given) : given.IsNormal := by
  cases v with
  | null => contradiction
  | one value =>
    obtain rfl := Option.some.inj h
    trivial
  | many values =>
    obtain rfl := Option.some.inj h
    obtain ⟨hlength, hnone⟩ := hv
    rw [ParamValues.IsNormal, List.length_map, ParamValue.length_filterMap hnone]
    exact hlength

theorem ParamValues.IsNormal.map {values : ParamValues} (h : values.IsNormal)
    (f : String → String) : (values.map f).IsNormal := by
  cases values with
  | one value => trivial
  | many values =>
    rw [ParamValues.map, IsNormal, List.length_map]
    exact h

namespace Bracketed

variable {c : Configuration} {q : Query} {g : Criterion} {k : FilterKey}

theorem isNormal_fieldParam {p : SearchParam} (h : p.given.IsNormal) :
    (fieldParam c p).values.IsNormal := by
  unfold fieldParam SearchParam.values
  cases p.name.labelName with
  | none => exact h
  | some label =>
    by_cases hhas : c.has Key.labels = true
    · simp only [hhas, if_true]
      exact h.map _
    · simp only [hhas]
      exact h

theorem isNormal_of_mem_fieldParams (hq : q.IsNormal) {p : FieldParam}
    (hp : p ∈ fieldParams q c) : p.values.IsNormal := by
  obtain ⟨sp, hsp, rfl⟩ := List.mem_map.mp hp
  obtain ⟨⟨name, v⟩, hparam, hof⟩ := List.mem_filterMap.mp hsp
  apply isNormal_fieldParam
  exact SearchParam.isNormal_decodeValue? (hq name v (Query.mem_toList.mp hparam))
    (decodeValue?_of_ofParam? hof)

/-- The items that a parameter adds to the list of a field. -/
def fieldItems (field : String) (p : FieldParam) : List String :=
  match p.values with
  | .many values => values
  | .one value =>
    if field = Key.labels then [value] else (Text.splitOn ',' value.toList).map String.ofList

theorem fieldValue_eq_list {op : Comparator} (hlist : (k.isMultiSelect && !op.isText) = true)
    (field : String) (ps : List FieldParam) :
    (fieldValue k field op ps).1 = .list (ps.flatMap (fieldItems field)) := by
  simp only [fieldValue, hlist, if_true]
  rfl

/-- The only item of a field that is no label was not cut. -/
theorem notMem_comma_of_flatMap {field : String} (hne : field ≠ Key.labels) {ps : List FieldParam}
    (hps : ∀ p ∈ ps, p.values.IsNormal) {value : String}
    (h : ps.flatMap (fieldItems field) = [value]) : ',' ∉ value.toList := by
  have hmem : value ∈ ps.flatMap (fieldItems field) := by
    rw [h]
    exact List.mem_singleton_self value
  obtain ⟨p, hp, hvalue⟩ := List.mem_flatMap.mp hmem
  have hlength : (fieldItems field p).length ≤ 1 := by
    obtain ⟨before, after, rfl⟩ := List.append_of_mem hp
    have hall := congrArg List.length h
    simp only [List.flatMap_append, List.flatMap_cons, List.length_append, List.length_singleton]
      at hall
    omega
  have hnormal := hps p hp
  rw [fieldItems] at hvalue hlength
  cases hvalues : p.values with
  | one whole =>
    simp only [hvalues, if_neg hne] at hvalue
    obtain ⟨piece, hpiece, rfl⟩ := List.mem_map.mp hvalue
    rw [String.toList_ofList]
    exact Text.notMem_of_mem_splitOn hpiece
  | many values =>
    rw [hvalues] at hnormal
    simp only [hvalues] at hlength
    exact absurd hnormal (by rw [ParamValues.IsNormal]; omega)

theorem exists_fieldValue_of_mem (hg : g ∈ fieldCriteria c (fieldParams q c)) :
    ∃ k ps, c.find? g.key = some k ∧ (∀ p ∈ ps, p ∈ fieldParams q c) ∧
      g.value = (fieldValue k g.key g.comparator ps).1 := by
  obtain ⟨k, first, rest, hk, hps, -, hparts⟩ := exists_of_mem_fieldCriteria hg
  refine ⟨k, first :: rest, hk, ?_, congrArg Criterion.value hparts⟩
  intro p hp
  rw [← hps] at hp
  exact List.mem_of_mem_filter hp

theorem mem_fieldCriteria_of_mem_decode (hg : g ∈ decode q c) (hrange : g.value.isTimeRange = false) :
    g ∈ fieldCriteria c (fieldParams q c) := by
  rcases mem_decode.mp hg with htime | ⟨hfield, -⟩
  · rw [isTimeRange_of_timeRange? htime] at hrange
    contradiction
  · exact hfield

/-- A value that is read and is not empty fits its key. -/
theorem fitsKey_of_mem_decode (hg : g ∈ decode q c) (hk : c.find? g.key = some k)
    (hne : g.value ≠ .list []) : g.FitsKey k := by
  by_cases hrange : g.value.isTimeRange = true
  · obtain ⟨start, stop, hvalue⟩ := FilterValue.exists_of_isTimeRange hrange
    rw [Criterion.FitsKey, hvalue]
    trivial
  · have hmem := mem_fieldCriteria_of_mem_decode hg (Bool.eq_false_iff.mpr hrange)
    obtain ⟨k', ps, hk', -, hvalue⟩ := exists_fieldValue_of_mem hmem
    obtain rfl := Option.some.inj (hk.symm.trans hk')
    by_cases hlist : (k.isMultiSelect && !g.comparator.isText) = true
    · rw [fieldValue_eq_list hlist] at hvalue
      rw [Criterion.FitsKey, hvalue]
      refine ⟨hlist, ?_⟩
      intro hnil
      rw [hnil] at hvalue
      exact hne hvalue
    · rw [fieldValue, if_neg hlist] at hvalue
      rw [Criterion.FitsKey, hvalue]
      exact Bool.eq_false_iff.mpr hlist

/-- A single item that is read from a query in normal form has no comma. -/
theorem notMem_comma_of_mem_decode (hq : q.IsNormal) (hg : g ∈ decode q c)
    (hne : g.key ≠ Key.labels) {value : String} (hvalue : g.value = .list [value]) :
    ',' ∉ value.toList := by
  have hmem := mem_fieldCriteria_of_mem_decode hg (by rw [hvalue]; rfl)
  obtain ⟨k, ps, -, hps, hfield⟩ := exists_fieldValue_of_mem hmem
  rw [hvalue] at hfield
  by_cases hlist : (k.isMultiSelect && !g.comparator.isText) = true
  · rw [fieldValue_eq_list hlist] at hfield
    exact notMem_comma_of_flatMap hne (fun p hp => isNormal_of_mem_fieldParams hq (hps p hp))
      (FilterValue.list.inj hfield).symm
  · rw [fieldValue, if_neg hlist] at hfield
    contradiction

end Bracketed

/-! ## The flat format -/

namespace Flat

open Text

variable {c : Configuration} {q : Query} {g : Criterion} {k : FilterKey}

theorem fitsParam_of_length {values : List String} (h : 2 ≤ values.length) :
    (FilterValue.list values).FitsParam k := by
  cases values with
  | nil => simp at h
  | cons first rest =>
    cases rest with
    | nil => simp at h
    | cons second rest => trivial

/-- Pieces without commas fit a key that takes several values, if there are any. -/
theorem fitsParam_pieces (hmulti : k.isMultiSelect = true) (pieces : List (List Char))
    (h : ∀ piece ∈ pieces, piece ≠ [] ∧ ',' ∉ piece) :
    pieces.map String.ofList = [] ∨ (FilterValue.list (pieces.map String.ofList)).FitsParam k := by
  match pieces with
  | [] => exact Or.inl rfl
  | [piece] =>
    obtain ⟨hne, hcomma⟩ := h piece List.mem_cons_self
    refine Or.inr ⟨hmulti, ?_, ?_⟩
    · simpa using hne
    · simpa using hcomma
  | _ :: _ :: _ => exact Or.inr trivial

/-- What is read from a parameter in normal form fits its key, if there is anything. -/
theorem fitsParam_paramValue {v : ParamValue} (hv : v.IsNormal) :
    (paramValue k v).items = [] ∨ (paramValue k v).FitsParam k := by
  cases v with
  | null => contradiction
  | one value =>
    rw [paramValue]
    by_cases hmulti : k.isMultiSelect = true
    · rw [if_pos hmulti]
      apply fitsParam_pieces hmulti
      intro piece hpiece
      obtain ⟨hmem, hne⟩ := List.mem_filter.mp hpiece
      exact ⟨by simpa using hne, notMem_of_mem_splitOn hmem⟩
    · rw [if_neg hmulti]
      exact Or.inr (Bool.eq_false_iff.mpr hmulti)
  | many values =>
    obtain ⟨hlength, hnone⟩ := hv
    right
    apply fitsParam_of_length
    rw [List.length_map, ParamValue.length_filterMap hnone]
    exact hlength

theorem isDetailList_of_details? (h : details? q c = some g) : isDetailList g = true := by
  obtain ⟨k, entries, -, -, -, rfl⟩ := exists_of_details? h
  rfl

/-- A value that is read under its key from a query in normal form fits the key, if it is not
empty. -/
theorem fitsParam_of_mem_decode (hq : q.IsNormal) (hg : g ∈ decode q c) (hplain : isPlain g = true)
    (hk : c.find? g.key = some k) : g.value.items = [] ∨ g.value.FitsParam k := by
  obtain ⟨hrange, hlist⟩ := of_isPlain hplain
  rcases mem_decode.mp hg with htime | ⟨hparam | hdetails, -⟩
  · rw [isTimeRange_of_timeRange? htime] at hrange
    contradiction
  · obtain ⟨v, hget, hcriterion⟩ := mem_filterMap_paramCriterion?.mp hparam
    rw [value_of_paramCriterion? hk hcriterion]
    exact fitsParam_paramValue (hq g.key v hget)
  · rw [isDetailList_of_details? hdetails] at hlist
    contradiction

end Flat

end FilterBar
