import FilterBar.Proofs.Keyed
import FilterBar.Proofs.Query
import FilterBar.Url.Codec

/-!
# Reading the flat format parameter by parameter

A filter that is read comes from the parameter with the name of its key, from the details or from the
two dates.
-/

namespace FilterBar.Flat

variable {c : Configuration} {q : Query} {g : Criterion}

/-- A parameter that is read is neither reserved nor a detail, and its name has a key. -/
theorem exists_of_paramCriterion? {param : String × ParamValue}
    (h : paramCriterion? c param = some g) :
    isReserved param.1 = false ∧ Key.after? detailOpening param.1 = none ∧
      ∃ k, c.find? param.1 = some k ∧
        g = Criterion.ofParts k param.1 k.defaultComparator (paramValue k param.2)
          (commaList (paramValue k param.2).items) := by
  unfold paramCriterion? at h
  split at h
  · contradiction
  next hskip =>
    obtain ⟨hreserved, hdetail⟩ := Bool.or_eq_false_iff.mp (Bool.eq_false_iff.mpr hskip)
    obtain ⟨k, hk, hg⟩ := Option.map_eq_some_iff.mp h
    exact ⟨hreserved, by simpa using hdetail, k, hk, hg.symm⟩

theorem of_paramCriterion? {param : String × ParamValue} (h : paramCriterion? c param = some g) :
    isReserved param.1 = false ∧ Key.after? detailOpening param.1 = none ∧ g.key = param.1 := by
  obtain ⟨hreserved, hdetail, k, -, rfl⟩ := exists_of_paramCriterion? h
  exact ⟨hreserved, hdetail, rfl⟩

/-- Details that are read have a key, and there are some. -/
theorem exists_of_details? (h : details? q c = some g) :
    ∃ k entries, c.find? Key.details = some k ∧ entries = q.toList.flatMap paramDetails ∧
      entries ≠ [] ∧
      g = Criterion.ofParts k Key.details k.defaultComparator (.list entries)
        (detailsLabel entries) := by
  simp only [details?] at h
  split at h
  · contradiction
  next hne =>
    obtain ⟨k, hk, hg⟩ := Option.map_eq_some_iff.mp h
    exact ⟨k, _, hk, rfl, mt List.isEmpty_iff.mpr hne, hg.symm⟩

theorem key_of_details? (h : details? q c = some g) : g.key = Key.details := by
  obtain ⟨k, entries, -, -, -, rfl⟩ := exists_of_details? h
  rfl

theorem key_of_timeRange? (h : timeRange? q c = some g) : g.key = Key.timeRange := by
  simp only [timeRange?, Option.bind_eq_bind, Option.bind_eq_some_iff, Option.some.injEq] at h
  obtain ⟨_, _, start, _, _, _, stop, _, k, _, rfl⟩ := h
  rfl

theorem isTimeRange_of_timeRange? (h : timeRange? q c = some g) : g.value.isTimeRange = true := by
  simp only [timeRange?, Option.bind_eq_bind, Option.bind_eq_some_iff, Option.some.injEq] at h
  obtain ⟨_, _, start, _, _, _, stop, _, k, _, rfl⟩ := h
  rfl

theorem isTimeRange_paramValue (k : FilterKey) (v : ParamValue) :
    (paramValue k v).isTimeRange = false := by
  cases v with
  | null => rfl
  | one value =>
    simp only [paramValue]
    split
    · rfl
    · rfl
  | many values => rfl

theorem isTimeRange_of_paramCriterion? {param : String × ParamValue}
    (h : paramCriterion? c param = some g) : g.value.isTimeRange = false := by
  obtain ⟨-, -, k, -, rfl⟩ := exists_of_paramCriterion? h
  exact isTimeRange_paramValue k param.2

theorem isTimeRange_of_details? (h : details? q c = some g) : g.value.isTimeRange = false := by
  obtain ⟨k, entries, -, -, -, rfl⟩ := exists_of_details? h
  rfl

/-- A filter of a parameter comes from what is held under its key. -/
theorem mem_filterMap_paramCriterion? :
    g ∈ q.toList.filterMap (paramCriterion? c) ↔
      ∃ v, q.get? g.key = some v ∧ paramCriterion? c (g.key, v) = some g := by
  rw [List.mem_filterMap]
  constructor
  · rintro ⟨⟨name, v⟩, hmem, hg⟩
    rw [(of_paramCriterion? hg).2.2]
    exact ⟨v, Query.mem_toList.mp hmem, hg⟩
  · rintro ⟨v, hget, hg⟩
    exact ⟨_, Query.mem_toList.mpr hget, hg⟩

/-- What is read: a range of time, and under other keys the parameters and the details. -/
theorem mem_decode :
    g ∈ decode q c ↔ timeRange? q c = some g ∨
      (g ∈ q.toList.filterMap (paramCriterion? c) ∨ details? q c = some g) ∧
        ∀ range, timeRange? q c = some range → g.key ≠ Key.timeRange := by
  rw [decode]
  cases hrange : timeRange? q c with
  | none => simp [List.mem_append, Option.mem_toList]
  | some range =>
    simp only [Keyed.drop, List.mem_append, List.mem_filter, Option.mem_toList, List.mem_singleton,
      Option.some.injEq, forall_eq', decide_eq_true_eq]
    rw [or_comm, eq_comm]

/-- Each parameter is read as a filter under its own name. -/
theorem nodup_keys_params (q : Query) (c : Configuration) :
    ((q.toList.filterMap (paramCriterion? c)).map Criterion.key).Nodup := by
  have hnames : (q.toList.map (·.1)).Nodup := by
    refine (List.pairwise_map.mpr q.params.sorted).imp ?_
    rintro name other hlt rfl
    exact String.lt_irrefl _ hlt
  refine (Keyed.map_filterMap_sublist ?_).nodup hnames
  intro param _ g hg
  exact (of_paramCriterion? hg).2.2

/-- Unless the details stand beside a parameter of that name, no two filters have the same key. -/
theorem nodup_keys_decode (h : ∀ g, details? q c = some g → q.get? Key.details = none) :
    ((decode q c).map Criterion.key).Nodup := by
  have hparams := nodup_keys_params q c
  have hfound : ((q.toList.filterMap (paramCriterion? c) ++ (details? q c).toList).map
      Criterion.key).Nodup := by
    cases hdetails : details? q c with
    | none => simpa using hparams
    | some details =>
      rw [Option.toList_some, List.map_append, List.nodup_append]
      refine ⟨hparams, by simp, ?_⟩
      rintro key hkey other hother rfl
      obtain ⟨g, hg, rfl⟩ := List.mem_map.mp hkey
      obtain ⟨v, hget, -⟩ := mem_filterMap_paramCriterion?.mp hg
      have hkeys : g.key = Key.details := by
        rw [← key_of_details? hdetails]
        simpa using hother
      rw [hkeys, h details hdetails] at hget
      contradiction
  rw [decode]
  cases hrange : timeRange? q c with
  | none => exact hfound
  | some range =>
    simp only [← key_of_timeRange? hrange]
    exact Keyed.nodup_map_drop_append hfound

end FilterBar.Flat
