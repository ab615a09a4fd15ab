import FilterBar.Proofs.BracketedValues
import FilterBar.Proofs.SearchTerm
import FilterBar.Proofs.ViewKeys

/-!
# The round trip through a rewritten query

Filters that the bracketed format can represent are written into a query, over whatever it held and
with any search term, and read back from it: one filter for each that was written, with its key, its
comparator and its value.
-/

namespace FilterBar

variable {c : Configuration} {f : Criterion}

/-- The value that comes back from a URL: a range of time to the millisecond, and the entries of the
key `labels` in the order of the names that they are written under. -/
def Criterion.urlValue (f : Criterion) : FilterValue :=
  match f.value with
  | .timeRange start stop => .timeRange start.wholeMillis stop.wholeMillis
  | .list values =>
    if f.key = Key.labels then
      .list (sortOn (fun entry => (Bracketed.labelPair f.comparator entry).1) values)
    else .list values
  | .text value => .text value

/-- Nothing in a value is lost or added; only entries of labels change places. -/
theorem Criterion.items_urlValue_perm (f : Criterion) : f.urlValue.items.Perm f.value.items := by
  cases hvalue : f.value with
  | timeRange start stop => simp [Criterion.urlValue, hvalue, FilterValue.items]
  | text value => simp [Criterion.urlValue, hvalue, FilterValue.items]
  | list values =>
    rw [Criterion.urlValue, hvalue]
    by_cases hlabels : f.key = Key.labels
    · simp only [if_pos hlabels]
      exact sortOn_perm _ values
    · simp only [if_neg hlabels]
      exact List.Perm.refl _

/-- A key that takes several values has a list of them, unless the comparator is on text; any other
value is a text. -/
def Criterion.FitsKey (f : Criterion) (k : FilterKey) : Prop :=
  match f.value with
  | .timeRange .. => True
  | .list values => (k.isMultiSelect && !f.comparator.isText) = true ∧ values ≠ []
  | .text _ => (k.isMultiSelect && !f.comparator.isText) = false

/-- What a URL in the bracketed format can hold without loss. -/
structure Criterion.Representable (c : Configuration) (f : Criterion) : Prop where
  notDate : Key.isDate f.key = false
  isField : ParamName.IsField f.key
  isLabelName : ∀ label, Key.after? Key.namedLabel f.key = some label →
    ParamName.IsLabelName label ∧ c.has Key.labels = false
  keepsRange : f.KeepsRange
  years : f.HasFourDigitYears
  fitsKey : ∀ k, c.find? f.key = some k → f.FitsKey k
  plainEntries : f.key = Key.labels → ∀ entry ∈ f.value.items, Bracketed.IsPlainEntry entry
  plainItems : f.key ≠ Key.labels → ∀ item ∈ f.value.items, Text.decodeComponent item = item
  noComma : f.key ≠ Key.labels → ∀ value, f.value = .list [value] → ',' ∉ value.toList

theorem Criterion.Representable.addressed (h : f.Representable c) (hhas : c.has f.key = true) :
    f.Addressed c where
  has := hhas
  keepsRange := h.keepsRange
  isField := h.isField
  notDate := h.notDate
  isLabelName := h.isLabelName

namespace Bracketed

variable {k : FilterKey}

/-- A text under the key `labels` is read back as it was, with the name of a label in it or not. -/
theorem fieldValue_of_labelText {op : Comparator}
    (htext : (k.isMultiSelect && !op.isText) = false) (hhas : c.has Key.labels = true)
    {value : String} (hplain : IsPlainEntry value) :
    (fieldValue k Key.labels op (fieldParams (Query.ofPairs [labelPair op value]) c)).1 =
      .text value := by
  have hvalue : ParamValue.ofList? [(labelPair op value).2] =
      some (.one (labelPair op value).2) := rfl
  have hquery : Query.ofPairs [labelPair op value] =
      Query.empty.insert (labelPair op value).1 (.one (labelPair op value).2) :=
    Query.ofPairs_map_pair hvalue (labelPair op value).1
  have hget : (Query.ofPairs ([value].map (labelPair op))).get? (labelPair op value).1 =
      some (.one (labelPair op value).2) := by
    rw [List.map_singleton, hquery, Query.get?_insert, if_pos rfl]
  have hplains : ∀ entry ∈ [value], IsPlainEntry entry := by
    intro entry hentry
    rw [List.mem_singleton.mp hentry]
    exact hplain
  obtain ⟨p, hp, hvalues⟩ := values_of_labelPair hhas hplains hget
  have hparams : fieldParams (Query.ofPairs [labelPair op value]) c = [fieldParam c p] := by
    rw [hquery, fieldParams, SearchParam.ofQuery, Query.toList_insert_empty,
      List.filterMap_cons_some hp]
    rfl
  have hfirst : (fieldParam c p).values.first? = some value := by
    simp [ParamValues.first?, hvalues]
  simp [fieldValue, htext, hparams, hfirst]

theorem value_of_text (h : f.Representable c) (hhas : c.has f.key = true)
    (hk : c.find? f.key = some k) {value : String} (hvalue : f.value = .text value) :
    (fieldValue k f.key f.comparator (fieldParams (Query.ofPairs (pairs f)) c)).1 =
      .text value := by
  have hrange : f.value.isTimeRange = false := by rw [hvalue]; rfl
  have hitems : f.value.items = [value] := by rw [hvalue]; rfl
  have htext : (k.isMultiSelect && !f.comparator.isText) = false := by
    have hfits := h.fitsKey k hk
    rwa [Criterion.FitsKey, hvalue] at hfits
  by_cases hlabels : f.key = Key.labels
  · have hpairs : pairs f = [labelPair f.comparator value] := by
      rw [pairs_of_items hrange, hitems, List.map_singleton, itemPair, if_pos hlabels]
    rw [hpairs, hlabels]
    rw [hlabels] at hhas
    exact fieldValue_of_labelText htext hhas (h.plainEntries hlabels value (by simp [hitems]))
  · rw [fieldParams_of_items (h.addressed hhas) hrange hlabels (by simp [hitems])
      (h.plainItems hlabels), hitems]
    exact fieldValue_of_text htext f.key f.comparator.token value

theorem value_of_list (h : f.Representable c) (hhas : c.has f.key = true)
    (hk : c.find? f.key = some k) {values : List String} (hvalue : f.value = .list values) :
    (fieldValue k f.key f.comparator (fieldParams (Query.ofPairs (pairs f)) c)).1 =
      f.urlValue := by
  have hrange : f.value.isTimeRange = false := by rw [hvalue]; rfl
  have hitems : f.value.items = values := by rw [hvalue]; rfl
  obtain ⟨hlist, hne⟩ : (k.isMultiSelect && !f.comparator.isText) = true ∧ values ≠ [] := by
    have hfits := h.fitsKey k hk
    rwa [Criterion.FitsKey, hvalue] at hfits
  by_cases hlabels : f.key = Key.labels
  · have hpairs : pairs f = values.map (labelPair f.comparator) := by
      rw [pairs_of_items hrange, hitems]
      apply List.map_congr_left
      intro entry _
      rw [itemPair, if_pos hlabels]
    have hplain := h.plainEntries hlabels
    rw [hitems] at hplain
    rw [Criterion.urlValue, hvalue, hpairs]
    simp only [if_pos hlabels]
    rw [hlabels] at hhas
    rw [hlabels, fieldValue_labels hlist, flatMap_values_labelPair hhas f.comparator hplain]
  · have hcomma : ∀ value, values = [value] → ',' ∉ value.toList := by
      rintro value rfl
      exact h.noComma hlabels value hvalue
    rw [fieldParams_of_items (h.addressed hhas) hrange hlabels (hitems ▸ hne)
      (h.plainItems hlabels), hitems, Criterion.urlValue, hvalue]
    simp only [if_neg hlabels]
    exact fieldValue_of_list hlist hcomma f.key f.comparator.token

/-- A criterion that can be represented is read back. -/
theorem reread?_of_representable (h : f.Representable c) (hhas : c.has f.key = true) :
    ∃ g, reread? c f = some g ∧
      (g.key, g.comparator, g.value) = (f.key, f.comparator, f.urlValue) := by
  obtain ⟨k, hk⟩ := Configuration.has_iff_find?.mp hhas
  cases hvalue : f.value with
  | timeRange start stop =>
    have hkey : f.key = Key.timeRange := h.keepsRange (by rw [hvalue]; rfl)
    rw [hkey] at hk
    refine ⟨Criterion.ofTimeRange k start.wholeMillis stop.wholeMillis f.comparator, ?_, ?_⟩
    · rw [reread?_of_timeRange hvalue, hk, Option.map_some]
    · rw [Criterion.urlValue, hvalue, hkey]
      rfl
  | text value =>
    have hrange : f.value.isTimeRange = false := by rw [hvalue]; rfl
    have hne : pairs f ≠ [] := by simp [pairs_of_items hrange, hvalue, FilterValue.items]
    refine ⟨_, reread?_of_pairs (h.addressed hhas) hrange hk hne, ?_⟩
    simp only [Criterion.ofParts, value_of_text h hhas hk hvalue, Criterion.urlValue, hvalue]
  | list values =>
    have hrange : f.value.isTimeRange = false := by rw [hvalue]; rfl
    have hvalues : values ≠ [] := by
      have hfits := h.fitsKey k hk
      rw [Criterion.FitsKey, hvalue] at hfits
      exact hfits.2
    have hne : pairs f ≠ [] := by simp [pairs_of_items hrange, hvalue, FilterValue.items, hvalues]
    refine ⟨_, reread?_of_pairs (h.addressed hhas) hrange hk hne, ?_⟩
    simp only [Criterion.ofParts, value_of_list h hhas hk hvalue]

end Bracketed

/-- Filters that can be represented are read back from a rewritten query, whatever it held before:
one for each that is written and no other, with its key, its comparator and its value. -/
theorem decodeFilters_updateQuery_perm {c : Configuration} (hq : c.has searchName = false)
    {o : UrlOptions} (ho : o.format = .bracketed) (ids : IdSupply) (current : Query)
    (fs : List Criterion) (term : String)
    (h : ∀ f ∈ writtenCriteria c fs, f.Representable c) :
    ((decodeFilters ids (updateQuery current fs term c o) c o.format).1.map
        fun f => (f.key, f.comparator, f.value)).Perm
      ((writtenCriteria c fs).map fun f => (f.key, f.comparator, f.urlValue)) := by
  have hhas : ∀ f ∈ writtenCriteria c fs, c.has f.key = true := by
    intro f hf
    exact (mem_writtenCriteria hf).2
  have haddressed : ∀ f ∈ writtenCriteria c fs, f.Addressed c := by
    intro f hf
    exact (h f hf).addressed (hhas f hf)
  have hperm := Bracketed.decode_encode_perm (nodup_keys_writtenCriteria c fs) haddressed
    fun f hf => (h f hf).years
  have hvalues : ((writtenCriteria c fs).filterMap (Bracketed.reread? c)).map
        (fun g => (g.key, g.comparator, g.value)) =
      ((writtenCriteria c fs).filter fun _ => true).map fun f => (f.key, f.comparator, f.urlValue) := by
    apply Keyed.map_filterMap_eq_map_filter
    · intro f hf _
      exact Bracketed.reread?_of_representable (h f hf) (hhas f hf)
    · intro f _ hfalse
      contradiction
  rw [List.filter_true] at hvalues
  rw [map_decodeFilters fun g => (g.key, g.comparator, g.value), decodeCriteria_updateQuery hq, ho,
    ← hvalues]
  exact hperm.map _

/-- Over a stale filter of executions and another parameter of the page, the last namespaces and the
labels that are written come back. -/
theorem decodeFilters_updateQuery_executions :
    let c := View.executions.configuration
    let o : UrlOptions := {}
    let current := Query.ofList [("filters[state][IN]", .one "FAILED"), ("page", .one "2")]
    let old := Criterion.ofParts namespaceKey "namespace" .isIn (.list ["a%20b"]) "a%20b"
    let labels := Criterion.ofParts labelsKey "labels" .equals
      (.list ["team:data, core", "env:prod"]) "team:data, core, env:prod"
    let namespaces := Criterion.ofParts namespaceKey "namespace" .notIn
      (.list ["company", "company.team"]) "company, company.team"
    let fs := [old, labels, namespaces]
    c.has searchName = false ∧ o.format = .bracketed ∧
      (∀ f ∈ writtenCriteria c fs, f.Representable c) ∧
      ((decodeFilters ⟨0, 0⟩ (updateQuery current fs "etl" c o) c o.format).1.map
          fun f => (f.key, f.comparator, f.value)).Perm
        ((writtenCriteria c fs).map fun f => (f.key, f.comparator, f.urlValue)) := by
  intro c o current old labels namespaces fs
  have hwritten : writtenCriteria c fs = [labels, namespaces] := by decide +kernel
  have hlabels : labels.Representable c := by
    have hfind : c.find? "labels" = some labelsKey := by decide +kernel
    have haddressed : labels.Addressed c :=
      View.addressed (v := .executions) (by decide +kernel) (by decide +kernel)
    constructor
    · exact haddressed.notDate
    · exact haddressed.isField
    · exact haddressed.isLabelName
    · exact haddressed.keepsRange
    · trivial
    · intro k hk
      obtain rfl := Option.some.inj (hfind.symm.trans hk)
      exact ⟨rfl, by simp⟩
    · intro _ entry hentry
      rcases List.mem_pair.mp hentry with rfl | rfl
      · exact ⟨by decide +kernel, by decide +kernel⟩
      · exact ⟨by decide +kernel, by decide +kernel⟩
    · intro hne
      exact absurd rfl hne
    · intro hne
      exact absurd rfl hne
  have hnamespaces : namespaces.Representable c := by
    have hfind : c.find? "namespace" = some namespaceKey := by decide +kernel
    have haddressed : namespaces.Addressed c :=
      View.addressed (v := .executions) (by decide +kernel) (by decide +kernel)
    constructor
    · exact haddressed.notDate
    · exact haddressed.isField
    · exact haddressed.isLabelName
    · exact haddressed.keepsRange
    · trivial
    · intro k hk
      obtain rfl := Option.some.inj (hfind.symm.trans hk)
      exact ⟨rfl, by simp⟩
    · intro heq
      exact absurd heq (by decide +kernel)
    · intro _ item hitem
      rcases List.mem_pair.mp hitem with rfl | rfl
      · decide +kernel
      · decide +kernel
    · intro _ value hvalue
      simp [namespaces, Criterion.ofParts] at hvalue
  have hall : ∀ f ∈ writtenCriteria c fs, f.Representable c := by
    rw [hwritten]
    intro f hf
    rcases List.mem_pair.mp hf with rfl | rfl
    · exact hlabels
    · exact hnamespaces
  have hq : c.has searchName = false := by decide +kernel
  exact ⟨hq, rfl, hall, decodeFilters_updateQuery_perm hq rfl ⟨0, 0⟩ current fs "etl" hall⟩

end FilterBar
