import FilterBar.Proofs.BracketedValues
import FilterBar.Proofs.SearchTerm
import FilterBar.Proofs.ViewKeys

/-!
# What a reload keeps

In the views that there are, a rewritten query is read as one filter for each criterion that has
something to write, whatever the texts in it: no value makes a filter vanish or another one appear.
-/

namespace FilterBar

open Text

/-! ## What has something to write -/

/-- Whether anything is written for a criterion. -/
def Criterion.leavesParam (format : UrlFormat) (f : Criterion) : Bool :=
  match f.value with
  | .text _ => true
  | .timeRange .. => true
  | .list values =>
    if format = .flat ∧ f.key = Key.details then values.any (·.toList.contains ':')
    else !values.isEmpty

/-- The comparator of a criterion after a reload; the flat format does not write it. -/
def Criterion.reloadComparator (c : Configuration) (format : UrlFormat) (f : Criterion) :
    Comparator :=
  match format with
  | .bracketed => f.comparator
  | .flat =>
    if f.value.isTimeRange then .equals
    else ((c.find? f.key).map (·.defaultComparator)).getD .equals

variable {c : Configuration} {f : Criterion}

theorem Text.isSome_cut? (sep : Char) (s : List Char) : (cut? sep s).isSome = s.contains sep := by
  induction s with
  | nil => rfl
  | cons d rest ih =>
    by_cases hd : d = sep
    · simp [cut?, hd]
    · simp [cut?, hd, Ne.symm hd, ih]

/-! ## The bracketed format -/

theorem Bracketed.pairs_eq_nil_iff (hrange : f.value.isTimeRange = false) :
    pairs f = [] ↔ f.leavesParam .bracketed = false := by
  rw [pairs_of_items hrange, List.map_eq_nil_iff]
  cases hvalue : f.value with
  | timeRange start stop => simp [hvalue, FilterValue.isTimeRange] at hrange
  | text value => simp [FilterValue.items, Criterion.leavesParam, hvalue]
  | list values => simp [FilterValue.items, Criterion.leavesParam, hvalue]

theorem Bracketed.reread?_of_leavesParam (h : f.Addressed c)
    (hparam : f.leavesParam .bracketed = true) :
    ∃ g, reread? c f = some g ∧
      (g.key, g.comparator) = (f.key, f.reloadComparator c .bracketed) := by
  obtain ⟨k, hk⟩ := Configuration.has_iff_find?.mp h.has
  rcases f.value.isTimeRange_or with hrange | ⟨start, stop, hvalue⟩
  · have hne : pairs f ≠ [] := by
      rw [Ne, pairs_eq_nil_iff hrange, hparam]
      decide
    exact ⟨_, reread?_of_pairs h hrange hk hne, rfl⟩
  · have hkey : f.key = Key.timeRange := h.keepsRange (by rw [hvalue]; rfl)
    rw [hkey] at hk
    refine ⟨Criterion.ofTimeRange k start.wholeMillis stop.wholeMillis f.comparator, ?_, ?_⟩
    · rw [reread?_of_timeRange hvalue, hk, Option.map_some]
    · rw [hkey]
      rfl

theorem Bracketed.reread?_of_not_leavesParam (hparam : f.leavesParam .bracketed = false) :
    reread? c f = none := by
  rcases f.value.isTimeRange_or with hrange | ⟨start, stop, hvalue⟩
  · exact reread?_of_pairs_nil hrange ((pairs_eq_nil_iff hrange).mpr hparam)
  · simp [Criterion.leavesParam, hvalue] at hparam

/-! ## The flat format -/

namespace Flat

theorem details?_ofPairs_of_ne_nil {k : FilterKey} (hk : c.find? Key.details = some k)
    {entries : List String} (hne : entries.filterMap detailPair? ≠ []) :
    ∃ g, details? (Query.ofPairs (entries.filterMap detailPair?)) c = some g ∧
      (g.key, g.comparator) = (Key.details, k.defaultComparator) := by
  obtain ⟨pair, hpair⟩ := List.exists_mem_of_ne_nil _ hne
  obtain ⟨name, hname⟩ := name_of_mem_details hpair
  obtain ⟨hvalues, v, hv, hmem⟩ := Query.exists_valuesOf hpair
  have hdetails : paramDetails (pair.1, v) ≠ [] := by
    simp only [paramDetails, hname, isReserved_detail, Key.after?_append, Bool.false_eq_true,
      if_false, Ne, List.map_eq_nil_iff]
    rw [ParamValue.values_of_ofList? hv]
    exact hvalues
  have hread : ((Query.ofPairs (entries.filterMap detailPair?)).toList.flatMap
      paramDetails).isEmpty = false := by
    rw [List.isEmpty_eq_false_iff, Ne, List.flatMap_eq_nil_iff]
    intro hnil
    exact hdetails (hnil _ hmem)
  simp only [details?, hread, hk]
  exact ⟨_, rfl, rfl⟩

theorem filterMap_detailPair?_eq_nil {entries : List String} :
    entries.filterMap detailPair? = [] ↔ entries.any (·.toList.contains ':') = false := by
  rw [List.filterMap_eq_nil_iff, List.any_eq_false]
  simp only [detailPair?, Option.map_eq_none_iff, ← isSome_cut?, Bool.not_eq_true,
    Option.isSome_eq_false_iff, Option.isNone_iff_eq_none]

theorem paramCriterion?_of_bare (h : f.Bare c) {k : FilterKey} (hk : c.find? f.key = some k)
    (v : ParamValue) :
    ∃ g, paramCriterion? c (f.key, v) = some g ∧
      (g.key, g.comparator) = (f.key, k.defaultComparator) := by
  simp only [paramCriterion?, h.notReserved, h.notDetail, hk]
  exact ⟨_, rfl, rfl⟩

theorem items_eq_nil_iff (hplain : isPlain f = true) :
    f.value.items = [] ↔ f.leavesParam .flat = false := by
  cases hvalue : f.value with
  | timeRange start stop => simp [isPlain, hvalue, FilterValue.isTimeRange] at hplain
  | text value => simp [FilterValue.items, Criterion.leavesParam, hvalue]
  | list values =>
    have hkey : f.key ≠ Key.details := by
      simpa [isPlain, isDetailList, hvalue, FilterValue.isTimeRange] using hplain
    simp [FilterValue.items, Criterion.leavesParam, hvalue, hkey]

theorem reread?_of_leavesParam (h : f.Bare c) (hparam : f.leavesParam .flat = true) :
    ∃ g, reread? c f = some g ∧ (g.key, g.comparator) = (f.key, f.reloadComparator c .flat) := by
  obtain ⟨k, hk⟩ := Configuration.has_iff_find?.mp h.has
  rcases cases_of_value f with hrange | hlist | hplain
  · obtain ⟨start, stop, hvalue⟩ := FilterValue.exists_of_isTimeRange hrange
    have hkey : f.key = Key.timeRange := h.keepsRange hrange
    rw [hkey] at hk
    refine ⟨Criterion.ofTimeRange k start.wholeMillis stop.wholeMillis .equals, ?_, ?_⟩
    · rw [reread?_of_timeRange hvalue, hk, Option.map_some]
    · rw [hkey, Criterion.reloadComparator, if_pos hrange]
      rfl
  · obtain ⟨hkey, entries, hvalue, hpairs⟩ := of_isDetailList hlist
    have hne : entries.filterMap detailPair? ≠ [] := by
      rw [Ne, filterMap_detailPair?_eq_nil]
      simp only [Criterion.leavesParam, hvalue, hkey, and_self, if_true] at hparam
      rw [hparam]
      decide
    have hcomparator : f.reloadComparator c .flat = k.defaultComparator := by
      simp [Criterion.reloadComparator, hvalue, FilterValue.isTimeRange, hk]
    rw [reread?_of_isDetailList hlist, hpairs, hcomparator, hkey]
    rw [hkey] at hk
    exact details?_ofPairs_of_ne_nil hk hne
  · have hrange := (of_isPlain hplain).1
    have hcomparator : f.reloadComparator c .flat = k.defaultComparator := by
      simp [Criterion.reloadComparator, hrange, hk]
    have hitems : f.value.items ≠ [] := by
      rw [Ne, items_eq_nil_iff hplain, hparam]
      decide
    obtain ⟨v, hv⟩ := ParamValue.exists_ofList? hitems
    rw [reread?_of_isPlain hplain, hv, Option.bind_some, hcomparator]
    exact paramCriterion?_of_bare h hk v

theorem reread?_of_not_leavesParam (hparam : f.leavesParam .flat = false) :
    reread? c f = none := by
  rcases cases_of_value f with hrange | hlist | hplain
  · obtain ⟨start, stop, hvalue⟩ := FilterValue.exists_of_isTimeRange hrange
    simp [Criterion.leavesParam, hvalue] at hparam
  · obtain ⟨hkey, entries, hvalue, hpairs⟩ := of_isDetailList hlist
    have hnil : entries.filterMap detailPair? = [] := by
      rw [filterMap_detailPair?_eq_nil]
      simpa only [Criterion.leavesParam, hvalue, hkey, and_self, if_true] using hparam
    rw [reread?_of_isDetailList hlist, hpairs, hnil]
    rfl
  · rw [reread?_of_isPlain hplain, (items_eq_nil_iff hplain).mpr hparam]
    rfl

end Flat

/-! ## The views -/

/-- What is read back from the criteria that are written: those with something to write. -/
theorem View.perm_decodeCriteria_encodeCriteria (v : View) (format : UrlFormat)
    {fs : List Criterion} (hrange : ∀ f ∈ fs, f.KeepsRange)
    (hyears : ∀ f ∈ fs, f.HasFourDigitYears) :
    ((decodeCriteria (encodeCriteria fs v.configuration format) v.configuration format).map
        fun g => (g.key, g.comparator)).Perm
      (((writtenCriteria v.configuration fs).filter (·.leavesParam format)).map
        fun f => (f.key, f.reloadComparator v.configuration format)) := by
  have hkeys := nodup_keys_writtenCriteria v.configuration fs
  have hyears' : ∀ f ∈ writtenCriteria v.configuration fs, f.HasFourDigitYears := by
    intro f hf
    exact hyears f (mem_writtenCriteria hf).1
  cases format with
  | bracketed =>
    have haddressed : ∀ f ∈ writtenCriteria v.configuration fs, f.Addressed v.configuration := by
      intro f hf
      exact View.addressed (mem_writtenCriteria hf).2 (hrange f (mem_writtenCriteria hf).1)
    have hread := Keyed.map_filterMap_eq_map_filter
      (fun f hf hparam => Bracketed.reread?_of_leavesParam (haddressed f hf) hparam)
      fun f _ hparam => Bracketed.reread?_of_not_leavesParam (c := v.configuration) hparam
    rw [← hread]
    exact (Bracketed.decode_encode_perm hkeys haddressed hyears').map _
  | flat =>
    have hbare : ∀ f ∈ writtenCriteria v.configuration fs, f.Bare v.configuration := by
      intro f hf
      exact View.bare (mem_writtenCriteria hf).2 (hrange f (mem_writtenCriteria hf).1)
    have hread := Keyed.map_filterMap_eq_map_filter
      (fun f hf hparam => Flat.reread?_of_leavesParam (hbare f hf) hparam)
      fun f _ hparam => Flat.reread?_of_not_leavesParam (c := v.configuration) hparam
    rw [← hread]
    exact (Flat.decode_encode_perm hkeys hbare hyears').map _

/-- After a reload of a view there is exactly one filter for each criterion that has something to
write, whatever the URL held before and whatever the texts in the criteria are. -/
theorem View.reload_keeps_keys (v : View) (o : UrlOptions) (ids : IdSupply) (current : Query)
    (fs : List Criterion) (term : String) (hrange : ∀ f ∈ fs, f.KeepsRange)
    (hyears : ∀ f ∈ fs, f.HasFourDigitYears) :
    let c := v.configuration
    let kept := (writtenCriteria c fs).filter (·.leavesParam o.format)
    let read := (decodeFilters ids (updateQuery current fs term c o) c o.format).1
    (read.map fun f => (f.key, f.comparator)).Perm
        (kept.map fun f => (f.key, f.reloadComparator c o.format)) ∧
      (read.map fun f => f.key).Nodup := by
  intro c kept read
  have hpairs : (read.map fun f => (f.key, f.comparator)).Perm
      (kept.map fun f => (f.key, f.reloadComparator c o.format)) := by
    rw [map_decodeFilters fun g => (g.key, g.comparator),
      decodeCriteria_updateQuery v.not_has_searchName]
    exact v.perm_decodeCriteria_encodeCriteria o.format hrange hyears
  refine ⟨hpairs, ?_⟩
  have hkeys := hpairs.map Prod.fst
  rw [List.map_map, List.map_map] at hkeys
  have hkept : (kept.map Criterion.key).Nodup :=
    (List.filter_sublist.map _).nodup (nodup_keys_writtenCriteria c fs)
  exact hkeys.nodup_iff.mpr hkept

/-- In the flat format of the audit logs a list without items and details without a name leave
nothing; a user with brackets, a comma and a percent sign and a range of time do. -/
theorem View.reload_auditLogs :
    let c := View.auditLogs.configuration
    let o : UrlOptions := { format := .flat }
    let current := Query.ofList [("details.ip", .one "10.0.0.1"), ("startDate", .null)]
    let day : Date := ⟨2024, 2, 29, by decide⟩
    let noon : Clock := ⟨12, 0, 0, 123456789, by decide, by decide, by decide, by decide⟩
    let fs := [Criterion.ofParts namespaceKey "namespace" .isIn (.list []) "",
      Criterion.ofParts labelsKey "details" .equals (.list ["nameless"]) "nameless",
      Criterion.ofParts flowKey "userId" .notEquals (.text "a][b,%2") "a][b,%2",
      Criterion.ofTimeRange (timeRangeKey "") ⟨day, noon⟩ ⟨day, noon⟩ .greaterThan]
    let kept := (writtenCriteria c fs).filter (·.leavesParam o.format)
    let read := (decodeFilters ⟨0, 0⟩ (updateQuery current fs " etl " c o) c o.format).1
    (∀ f ∈ fs, f.KeepsRange) ∧ (∀ f ∈ fs, f.HasFourDigitYears) ∧
      (kept.map fun f => (f.key, f.reloadComparator c o.format)) =
        [("userId", .equals), ("timeRange", .equals)] ∧
      (read.map fun f => (f.key, f.comparator)).Perm
          (kept.map fun f => (f.key, f.reloadComparator c o.format)) ∧
        (read.map fun f => f.key).Nodup := by
  intro c o current day noon fs kept read
  have hrange : ∀ f ∈ fs, f.KeepsRange := by decide +kernel
  have hyear : day.HasFourDigitYear := by decide
  have hyears : ∀ f ∈ fs, f.HasFourDigitYears := by
    intro f hf
    simp only [fs, List.mem_cons, List.not_mem_nil, or_false] at hf
    rcases hf with rfl | rfl | rfl | rfl
    · trivial
    · trivial
    · trivial
    · exact ⟨hyear, hyear⟩
  refine ⟨hrange, hyears, by decide +kernel, ?_⟩
  exact View.reload_keeps_keys .auditLogs o ⟨0, 0⟩ current fs " etl " hrange hyears

end FilterBar
