import FilterBar.Proofs.ReadValues
import FilterBar.Proofs.SessionUrl

/-!
# The canonical form

The filters that are read from a query are written in a form of their own.  Reading this form and
writing it once more gives the same form if nothing in it is decoded a second time: texts that are
written without escapes, labels whose names can stand in brackets, and years of four digits.
Details and labels may be read in another order, but those under one name stay in theirs.
-/

namespace FilterBar

/-! ## Pairs of several owners -/

namespace Query

variable {α : Type} {pairs : α → List (String × String)} {xs ys : List α}

/-- Where no name has two owners, their order makes no difference. -/
theorem ofPairs_flatMap_of_perm (h : xs.Perm ys)
    (hdistinct : xs.Pairwise fun x y => ∀ pair ∈ pairs y, pair.1 ∉ (pairs x).map (·.1)) :
    ofPairs (xs.flatMap pairs) = ofPairs (ys.flatMap pairs) := by
  have hsymm : ∀ {x y : α}, (∀ pair ∈ pairs y, pair.1 ∉ (pairs x).map (·.1)) →
      ∀ pair ∈ pairs x, pair.1 ∉ (pairs y).map (·.1) := by
    intro x y hxy pair hpair hmem
    obtain ⟨other, hother, hname⟩ := List.mem_map.mp hmem
    exact hxy other hother (hname ▸ List.mem_map_of_mem hpair)
  apply ext_get?
  intro name
  rw [get?_ofPairs, get?_ofPairs, valuesOf_flatMap, valuesOf_flatMap]
  congr 1
  induction h with
  | nil => rfl
  | cons x _ ih => rw [List.flatMap_cons, List.flatMap_cons, ih hdistinct.of_cons]
  | swap x y rest =>
    have hxy := List.rel_of_pairwise_cons hdistinct List.mem_cons_self
    have hnil : valuesOf name (pairs x) = [] ∨ valuesOf name (pairs y) = [] := by
      by_cases hx : name ∈ (pairs x).map (·.1)
      · right
        rw [valuesOf_eq_nil]
        obtain ⟨pair, hpair, rfl⟩ := List.mem_map.mp hx
        exact hxy pair hpair
      · exact Or.inl (valuesOf_eq_nil.mpr hx)
    simp only [List.flatMap_cons]
    rcases hnil with hnil | hnil
    · rw [hnil, List.nil_append, List.nil_append]
    · rw [hnil, List.nil_append, List.nil_append]
  | trans hfirst _ ih ih' => rw [ih hdistinct, ih' (hfirst.pairwise hdistinct hsymm)]

/-- Owners that are read back as others with the same values under each name, in any order, make the
same query. -/
theorem ofPairs_flatMap_of_read {read : α → Option α} (hperm : ys.Perm (xs.filterMap read))
    (hdistinct : ys.Pairwise fun x y => ∀ pair ∈ pairs y, pair.1 ∉ (pairs x).map (·.1))
    (h : ∀ x ∈ xs, ∀ name,
      valuesOf name ((read x).toList.flatMap pairs) = valuesOf name (pairs x)) :
    ofPairs (ys.flatMap pairs) = ofPairs (xs.flatMap pairs) := by
  rw [ofPairs_flatMap_of_perm hperm hdistinct]
  apply ext_get?
  intro name
  rw [get?_ofPairs, get?_ofPairs, List.filterMap_eq_flatMap_toList, List.flatMap_assoc,
    valuesOf_flatMap, valuesOf_flatMap]
  congr 1
  exact List.flatMap_congr fun x hx => h x hx name

end Query

variable {c : Configuration} {f g : Criterion} {fs : List Criterion}

/-! ## The bracketed format -/

namespace Bracketed

theorem addressed_of_mem_decode_encode (hkeys : (fs.map Criterion.key).Nodup)
    (h : ∀ f ∈ fs, f.Addressed c) (hyears : ∀ f ∈ fs, f.HasFourDigitYears)
    (hg : g ∈ decode (encode fs) c) : g.Addressed c := by
  obtain ⟨f, hf, hread⟩ := (mem_decode_encode hkeys h hyears).mp hg
  have hkey := key_of_reread? (h f hf) hread
  have hmem : g ∈ decodeCriteria (encode fs) c .bracketed := hg
  obtain ⟨hhas, -, hfield, hdate, hlabel⟩ := h f hf
  rw [← hkey] at hhas hfield hdate hlabel
  exact ⟨hhas, keepsRange_of_mem_decodeCriteria hmem, hfield, hdate, hlabel⟩

/-- Criteria are written as before if each of them is read back as something that is. -/
theorem encode_decode_encode (hkeys : (fs.map Criterion.key).Nodup)
    (h : ∀ f ∈ fs, f.Addressed c) (hyears : ∀ f ∈ fs, f.HasFourDigitYears)
    (hread : ∀ f ∈ fs, ∀ name, Query.valuesOf name ((reread? c f).toList.flatMap pairs) =
      Query.valuesOf name (pairs f)) :
    encode (decode (encode fs) c) = encode fs := by
  have hkeys' := nodup_keys_decode (encode fs) c
  have haddressed : ∀ g ∈ decode (encode fs) c, g.Addressed c := by
    intro g hg
    exact addressed_of_mem_decode_encode hkeys h hyears hg
  calc encode (decode (encode fs) c)
      = Query.ofPairs ((decode (encode fs) c).flatMap pairs) :=
        encode_eq_ofPairs_of_addressed hkeys' haddressed
    _ = Query.ofPairs (fs.flatMap pairs) :=
        Query.ofPairs_flatMap_of_read (decode_encode_perm hkeys h hyears)
          (pairwise_names_of_addressed hkeys' haddressed) hread
    _ = encode fs := (encode_eq_ofPairs_of_addressed hkeys h).symm

/-- A criterion with the value that comes back from a URL is written as before: labels under one
name keep their order. -/
theorem valuesOf_pairs_of_urlValue (hkey : g.key = f.key) (hcomparator : g.comparator = f.comparator)
    (hvalue : g.value = f.urlValue) (name : String) :
    Query.valuesOf name (pairs g) = Query.valuesOf name (pairs f) := by
  cases hf : f.value with
  | timeRange start stop =>
    rw [Criterion.urlValue, hf] at hvalue
    rw [pairs_of_timeRange hvalue, pairs_of_timeRange hf, hcomparator,
      Instant.millisText_wholeMillis, Instant.millisText_wholeMillis]
  | text value =>
    rw [Criterion.urlValue, hf] at hvalue
    rw [pairs_of_items (by rw [hvalue]; rfl), pairs_of_items (by rw [hf]; rfl), hkey, hcomparator,
      hvalue, hf]
  | list values =>
    rw [Criterion.urlValue, hf] at hvalue
    by_cases hlabels : f.key = Key.labels
    · have hitem : itemPair Key.labels f.comparator = labelPair f.comparator := by
        funext item
        exact if_pos rfl
      simp only [if_pos hlabels] at hvalue
      rw [pairs_of_items (by rw [hvalue]; rfl), pairs_of_items (by rw [hf]; rfl), hkey, hcomparator,
        hvalue, hf, hlabels, hitem]
      simp only [FilterValue.items, valuesOf_labelPair]
      rw [filter_sortOn]
    · simp only [if_neg hlabels] at hvalue
      rw [pairs_of_items (by rw [hvalue]; rfl), pairs_of_items (by rw [hf]; rfl), hkey, hcomparator,
        hvalue, hf]

/-- Nothing in a criterion is decoded once more when it is read from what it is written as, and the
names of its labels can stand in brackets. -/
structure IsSettled (f : Criterion) : Prop where
  years : f.HasFourDigitYears
  plainEntries : f.key = Key.labels → ∀ entry ∈ f.value.items, IsPlainEntry entry
  plainItems : f.key ≠ Key.labels → ∀ item ∈ f.value.items, Text.decodeComponent item = item

instance : DecidablePred IsSettled := fun f =>
  decidable_of_iff (f.HasFourDigitYears ∧
      (f.key = Key.labels → ∀ entry ∈ f.value.items, IsPlainEntry entry) ∧
      (f.key ≠ Key.labels → ∀ item ∈ f.value.items, Text.decodeComponent item = item))
    ⟨fun ⟨hyears, hentries, hitems⟩ => ⟨hyears, hentries, hitems⟩,
      fun h => ⟨h.years, h.plainEntries, h.plainItems⟩⟩

/-- What a view reads from a query in normal form can be represented, if it is settled and not
empty. -/
theorem representable_of_mem_decode {v : View} {q : Query} (hq : q.IsNormal)
    (hf : f ∈ decode q v.configuration) (hhas : v.configuration.has f.key = true)
    (hsettled : IsSettled f) (hne : f.value ≠ .list []) : f.Representable v.configuration := by
  have hmem : f ∈ decodeCriteria q v.configuration .bracketed := hf
  have haddressed := View.addressed hhas (keepsRange_of_mem_decodeCriteria hmem)
  constructor
  · exact haddressed.notDate
  · exact haddressed.isField
  · exact haddressed.isLabelName
  · exact haddressed.keepsRange
  · exact hsettled.years
  · intro k hk
    exact fitsKey_of_mem_decode hf hk hne
  · exact hsettled.plainEntries
  · exact hsettled.plainItems
  · intro hlabels value hvalue
    exact notMem_comma_of_mem_decode hq hf hlabels hvalue

/-- What is read and settled is written as before once it is read back. -/
theorem valuesOf_reread? {v : View} {q : Query} (hq : q.IsNormal)
    (hf : f ∈ decode q v.configuration) (hhas : v.configuration.has f.key = true)
    (hsettled : IsSettled f) (name : String) :
    Query.valuesOf name ((reread? v.configuration f).toList.flatMap pairs) =
      Query.valuesOf name (pairs f) := by
  by_cases hnil : f.value = .list []
  · have hrange : f.value.isTimeRange = false := by rw [hnil]; rfl
    have hpairs : pairs f = [] := by rw [pairs_of_items hrange, hnil]; rfl
    rw [reread?_of_pairs_nil hrange hpairs, hpairs]
    rfl
  · have hrepresentable := representable_of_mem_decode hq hf hhas hsettled hnil
    obtain ⟨g, hg, hparts⟩ := reread?_of_representable hrepresentable hhas
    simp only [Prod.mk.injEq] at hparts
    obtain ⟨hkey, hcomparator, hvalue⟩ := hparts
    rw [hg, Option.toList_some, List.flatMap_singleton]
    exact valuesOf_pairs_of_urlValue hkey hcomparator hvalue name

end Bracketed

/-! ## The flat format -/

namespace Flat

theorem bare_of_mem_decode_encode (hkeys : (fs.map Criterion.key).Nodup)
    (h : ∀ f ∈ fs, f.Bare c) (hyears : ∀ f ∈ fs, f.HasFourDigitYears)
    (hg : g ∈ decode (encode fs) c) : g.Bare c := by
  obtain ⟨f, hf, hread⟩ := (mem_decode_encode hkeys h hyears).mp hg
  have hkey := key_of_reread? (h f hf) hread
  have hmem : g ∈ decodeCriteria (encode fs) c .flat := hg
  obtain ⟨hhas, -, hreserved, hdetail⟩ := h f hf
  rw [← hkey] at hhas hreserved hdetail
  exact ⟨hhas, keepsRange_of_mem_decodeCriteria hmem, hreserved, hdetail⟩

/-- Criteria are written as before if each of them is read back as something that is. -/
theorem encode_decode_encode (hkeys : (fs.map Criterion.key).Nodup) (h : ∀ f ∈ fs, f.Bare c)
    (hyears : ∀ f ∈ fs, f.HasFourDigitYears)
    (hread : ∀ f ∈ fs, ∀ name, Query.valuesOf name ((reread? c f).toList.flatMap pairs) =
      Query.valuesOf name (pairs f)) :
    encode (decode (encode fs) c) = encode fs := by
  have hkeys' := nodup_keys_decode_encode hkeys h
  have hbare : ∀ g ∈ decode (encode fs) c, g.Bare c := by
    intro g hg
    exact bare_of_mem_decode_encode hkeys h hyears hg
  calc encode (decode (encode fs) c)
      = Query.ofPairs ((decode (encode fs) c).flatMap pairs) :=
        encode_eq_ofPairs_of_bare hkeys' hbare
    _ = Query.ofPairs (fs.flatMap pairs) :=
        Query.ofPairs_flatMap_of_read (decode_encode_perm hkeys h hyears)
          (pairwise_names_of_bare hkeys' hbare) hread
    _ = encode fs := (encode_eq_ofPairs_of_bare hkeys h).symm

/-- Details that are read in another order are written as before. -/
theorem valuesOf_sorted_details (name : String) (entries : List String) :
    Query.valuesOf name ((sortOn detailParam (entries.filter isNamed)).filterMap detailPair?) =
      Query.valuesOf name (entries.filterMap detailPair?) := by
  have hnamed : (sortOn detailParam (entries.filter isNamed)).filter isNamed =
      sortOn detailParam (entries.filter isNamed) := by
    rw [List.filter_eq_self]
    intro entry hentry
    exact (List.mem_filter.mp ((sortOn_perm detailParam _).mem_iff.mp hentry)).2
  rw [valuesOf_details, hnamed, filter_sortOn, ← valuesOf_details]

/-- Nothing in a criterion is decoded once more when it is read from what it is written as. -/
structure IsSettled (f : Criterion) : Prop where
  years : f.HasFourDigitYears
  plainDetails : isDetailList f = true → ∀ entry ∈ f.value.items, IsPlainDetail entry
  plainItems : isDetailList f = false → ∀ item ∈ f.value.items, Text.decodeComponent item = item

instance : DecidablePred IsSettled := fun f =>
  decidable_of_iff (f.HasFourDigitYears ∧
      (isDetailList f = true → ∀ entry ∈ f.value.items, IsPlainDetail entry) ∧
      (isDetailList f = false → ∀ item ∈ f.value.items, Text.decodeComponent item = item))
    ⟨fun ⟨hyears, hentries, hitems⟩ => ⟨hyears, hentries, hitems⟩,
      fun h => ⟨h.years, h.plainDetails, h.plainItems⟩⟩

theorem pairs_eq_nil_of_not_leavesParam (h : f.leavesParam .flat = false) : pairs f = [] := by
  rcases cases_of_value f with hrange | hlist | hplain
  · obtain ⟨start, stop, hvalue⟩ := FilterValue.exists_of_isTimeRange hrange
    simp [Criterion.leavesParam, hvalue] at h
  · obtain ⟨hkey, entries, hvalue, hpairs⟩ := of_isDetailList hlist
    rw [hpairs, filterMap_detailPair?_eq_nil]
    simpa only [Criterion.leavesParam, hvalue, hkey, and_self, if_true] using h
  · rw [pairs_of_isPlain hplain, (items_eq_nil_iff hplain).mpr h]
    rfl

theorem valuesOf_pairs_of_isDetailList (hlist : isDetailList f = true) (hsettled : IsSettled f)
    (hkey : g.key = f.key) (hg : reread? c f = some g) (name : String) :
    Query.valuesOf name (pairs g) = Query.valuesOf name (pairs f) := by
  have hvalue := value_of_reread?_of_isDetailList hlist (hsettled.plainDetails hlist) hg
  obtain ⟨hdetails, entries, hentries, hpairs⟩ := of_isDetailList hlist
  have hitems : f.value.items = entries := by rw [hentries]; rfl
  have hpairs' : pairs g = (sortOn detailParam (entries.filter isNamed)).filterMap detailPair? := by
    simp only [pairs, hvalue, hkey, hdetails, hitems, if_true]
  rw [hpairs', hpairs, valuesOf_sorted_details]

/-- What is read and settled is written as before once it is read back. -/
theorem valuesOf_reread? {v : View} {q : Query} (hq : q.IsNormal)
    (hf : f ∈ decode q v.configuration) (hhas : v.configuration.has f.key = true)
    (hsettled : IsSettled f) (name : String) :
    Query.valuesOf name ((reread? v.configuration f).toList.flatMap pairs) =
      Query.valuesOf name (pairs f) := by
  have hmem : f ∈ decodeCriteria q v.configuration .flat := hf
  have hbare := View.bare hhas (keepsRange_of_mem_decodeCriteria hmem)
  by_cases hparam : f.leavesParam .flat = true
  · obtain ⟨g, hg, -⟩ := reread?_of_leavesParam hbare hparam
    have hkey := key_of_reread? hbare hg
    rw [hg, Option.toList_some, List.flatMap_singleton]
    rcases cases_of_value f with hrange | hlist | hplain
    · obtain ⟨start, stop, hvalue⟩ := FilterValue.exists_of_isTimeRange hrange
      have hvalue' : g.value = .timeRange start.wholeMillis stop.wholeMillis := by
        rw [reread?_of_timeRange hvalue] at hg
        obtain ⟨k, -, rfl⟩ := Option.map_eq_some_iff.mp hg
        rfl
      rw [pairs_of_timeRange hvalue, pairs_of_timeRange hvalue', Instant.millisText_wholeMillis,
        Instant.millisText_wholeMillis]
    · exact valuesOf_pairs_of_isDetailList hlist hsettled hkey hg name
    · obtain ⟨hrange, hlist⟩ := of_isPlain hplain
      obtain ⟨k, hk⟩ := Configuration.has_iff_find?.mp hhas
      obtain ⟨v, hv, hvalue⟩ := value_of_reread?_of_isPlain hplain hk hg
      have hitems : f.value.items ≠ [] := by
        intro hnil
        rw [(items_eq_nil_iff hplain).mp hnil] at hparam
        contradiction
      have hfits := (fitsParam_of_mem_decode hq hf hplain hk).resolve_left hitems
      have hsame := paramValue_of_fitsParam hrange hfits (hsettled.plainItems hlist) hv
      rw [pairs, pairs, hvalue, hsame, hkey]
  · have hnone := Bool.eq_false_iff.mpr hparam
    rw [reread?_of_not_leavesParam hnone, pairs_eq_nil_of_not_leavesParam hnone]
    rfl

end Flat

/-! ## The views -/

/-- The query that is written for what is read from a query. -/
def canonicalQuery (c : Configuration) (format : UrlFormat) (q : Query) : Query :=
  encodeCriteria (decodeCriteria q c format) c format

/-- Nothing that is written for a criterion is decoded once more when it is read. -/
def Criterion.IsSettled (format : UrlFormat) (f : Criterion) : Prop :=
  match format with
  | .bracketed => Bracketed.IsSettled f
  | .flat => Flat.IsSettled f

instance (format : UrlFormat) (f : Criterion) : Decidable (f.IsSettled format) :=
  match format with
  | .bracketed => inferInstanceAs (Decidable (Bracketed.IsSettled f))
  | .flat => inferInstanceAs (Decidable (Flat.IsSettled f))

/-- Criteria with distinct configured keys are all written. -/
theorem writtenCriteria_eq_self (hkeys : (fs.map Criterion.key).Nodup)
    (hhas : ∀ f ∈ fs, c.has f.key = true) : writtenCriteria c fs = fs := by
  have hvalid : fs.filter c.isValid = fs := List.filter_eq_self.mpr hhas
  rw [writtenCriteria, hvalid]
  exact Keyed.lasts_eq_self hkeys

theorem Bracketed.canonicalQuery_encode {v : View} {q : Query} (hq : q.IsNormal)
    (hkeys : (fs.map Criterion.key).Nodup)
    (hread : ∀ f ∈ fs, f ∈ decode q v.configuration ∧ v.configuration.has f.key = true)
    (hsettled : ∀ f ∈ fs, IsSettled f) :
    canonicalQuery v.configuration .bracketed (encode fs) = encode fs := by
  have haddressed : ∀ f ∈ fs, f.Addressed v.configuration := by
    intro f hf
    have hmem : f ∈ decodeCriteria q v.configuration .bracketed := (hread f hf).1
    exact View.addressed (hread f hf).2 (keepsRange_of_mem_decodeCriteria hmem)
  have hyears : ∀ f ∈ fs, f.HasFourDigitYears := fun f hf => (hsettled f hf).years
  have hwritten : writtenCriteria v.configuration (decode (encode fs) v.configuration) =
      decode (encode fs) v.configuration := by
    apply writtenCriteria_eq_self (nodup_keys_decode _ _)
    intro g hg
    exact (addressed_of_mem_decode_encode hkeys haddressed hyears hg).has
  rw [canonicalQuery, encodeCriteria, decodeCriteria, hwritten]
  apply encode_decode_encode hkeys haddressed hyears
  intro f hf
  exact valuesOf_reread? hq (hread f hf).1 (hread f hf).2 (hsettled f hf)

theorem Flat.canonicalQuery_encode {v : View} {q : Query} (hq : q.IsNormal)
    (hkeys : (fs.map Criterion.key).Nodup)
    (hread : ∀ f ∈ fs, f ∈ decode q v.configuration ∧ v.configuration.has f.key = true)
    (hsettled : ∀ f ∈ fs, IsSettled f) :
    canonicalQuery v.configuration .flat (encode fs) = encode fs := by
  have hbare : ∀ f ∈ fs, f.Bare v.configuration := by
    intro f hf
    have hmem : f ∈ decodeCriteria q v.configuration .flat := (hread f hf).1
    exact View.bare (hread f hf).2 (keepsRange_of_mem_decodeCriteria hmem)
  have hyears : ∀ f ∈ fs, f.HasFourDigitYears := fun f hf => (hsettled f hf).years
  have hwritten : writtenCriteria v.configuration (decode (encode fs) v.configuration) =
      decode (encode fs) v.configuration := by
    apply writtenCriteria_eq_self (nodup_keys_decode_encode hkeys hbare)
    intro g hg
    exact (bare_of_mem_decode_encode hkeys hbare hyears hg).has
  rw [canonicalQuery, encodeCriteria, decodeCriteria, hwritten]
  apply encode_decode_encode hkeys hbare hyears
  intro f hf
  exact valuesOf_reread? hq (hread f hf).1 (hread f hf).2 (hsettled f hf)

/-- What a view writes for the filters of a query string stays as it is when it is read and written
again, if nothing in those filters is decoded once more when it is read. -/
theorem View.canonicalQuery_fixed (v : View) (format : UrlFormat) (raw : String)
    (h : ∀ f ∈ writtenCriteria v.configuration
      (decodeCriteria (Query.parse raw) v.configuration format), f.IsSettled format) :
    let canonical := canonicalQuery v.configuration format
    canonical (canonical (Query.parse raw)) = canonical (Query.parse raw) := by
  have hkeys := nodup_keys_writtenCriteria v.configuration
    (decodeCriteria (Query.parse raw) v.configuration format)
  cases format with
  | bracketed =>
    exact Bracketed.canonicalQuery_encode (Query.isNormal_parse raw) hkeys
      (fun f hf => mem_writtenCriteria hf) h
  | flat =>
    exact Flat.canonicalQuery_encode (Query.isNormal_parse raw) hkeys
      (fun f hf => mem_writtenCriteria hf) h

/-- A label of a flow is settled although its value was written with an escape of an escape. -/
theorem View.canonicalQuery_fixed_flows :
    let raw := "?filters[labels][EQUALS][env]=a%252Bb&filters[labels][IN]=c&page=2"
    let canonical := canonicalQuery View.flows.configuration .bracketed
    (∀ f ∈ writtenCriteria View.flows.configuration
        (decodeCriteria (Query.parse raw) View.flows.configuration .bracketed),
      f.IsSettled .bracketed) ∧
    canonical (canonical (Query.parse raw)) = canonical (Query.parse raw) := by
  intro raw canonical
  have hsettled : ∀ f ∈ writtenCriteria View.flows.configuration
      (decodeCriteria (Query.parse raw) View.flows.configuration .bracketed),
      f.IsSettled .bracketed := by
    decide +kernel
  exact ⟨hsettled, View.canonicalQuery_fixed .flows .bracketed raw hsettled⟩

/-- A percent sign that is escaped twice is decoded twice when it is read and written again. -/
theorem View.canonicalQuery_not_fixed :
    let canonical := canonicalQuery View.executions.configuration .bracketed
    canonical (canonical (Query.parse "filters[flowId][EQUALS]=%252541")) ≠
      canonical (Query.parse "filters[flowId][EQUALS]=%252541") := by
  decide +kernel

end FilterBar
