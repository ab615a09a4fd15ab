import FilterBar.Proofs.FlatReload
import FilterBar.View.Configuration

/-!
# Keys of the filters of a flat query

A flat query is read in three parts: the parameters that are named after keys, the details, and the
two dates.  No two parameters have one name, and a range of time displaces a filter on its key, but
the details do not displace a parameter of that name.  So two filters share a key exactly where the
details stand beside such a parameter, and then the key is `details`.
-/

namespace FilterBar.Flat

variable {q : Query} {c : Configuration}

/-- A query holds a detail: a value under the name of one. -/
def HasDetail (q : Query) : Prop :=
  ∃ name v, q.get? (detailOpening ++ name) = some v ∧ v.values ≠ []

theorem paramDetails_eq_nil_iff {param : String × ParamValue} :
    paramDetails param = [] ↔
      ∀ name, param.1 = detailOpening ++ name → param.2.values = [] := by
  constructor
  · rintro hnil name hname
    simpa [paramDetails, hname, isReserved_detail, Key.after?_append] using hnil
  · intro h
    cases hafter : Key.after? detailOpening param.1 with
    | none => exact paramDetails_of_not_detail (by rw [hafter]; rfl)
    | some name => simp [paramDetails, hafter, h name (Key.after?_eq_some.mp hafter)]

/-- The details are read where they are a key and the query holds one. -/
theorem exists_details?_iff :
    (∃ g, details? q c = some g) ↔ c.has Key.details = true ∧ HasDetail q := by
  have hentries : q.toList.flatMap paramDetails = [] ↔ ¬ HasDetail q := by
    rw [List.flatMap_eq_nil_iff]
    constructor
    · rintro hnil ⟨name, v, hget, hv⟩
      exact hv (paramDetails_eq_nil_iff.mp (hnil _ (Query.mem_toList.mpr hget)) name rfl)
    · rintro hnone ⟨param, v⟩ hmem
      rw [paramDetails_eq_nil_iff]
      rintro name rfl
      by_contra hv
      exact hnone ⟨name, v, Query.mem_toList.mp hmem, hv⟩
  rw [Configuration.has_iff_find?, details?]
  by_cases hdetail : HasDetail q
  · have hne : (q.toList.flatMap paramDetails).isEmpty = false := by
      rw [Bool.eq_false_iff, Ne, List.isEmpty_iff, hentries, not_not]
      exact hdetail
    simp [hne, hdetail]
  · simp [hentries.mpr hdetail, hdetail]

/-- The parameter `details` is read as a filter where it is a key. -/
theorem exists_paramCriterion?_details_iff :
    (∃ g ∈ q.toList.filterMap (paramCriterion? c), g.key = Key.details) ↔
      c.has Key.details = true ∧ ∃ v, q.get? Key.details = some v := by
  have hreserved : isReserved Key.details = false := by decide +kernel
  have hdetail : Key.after? detailOpening Key.details = none := by decide +kernel
  have hread (v : ParamValue) :
      (∃ g, paramCriterion? c (Key.details, v) = some g) ↔ c.has Key.details = true := by
    simp [paramCriterion?, hreserved, hdetail, Configuration.has_iff_find?]
  constructor
  · rintro ⟨g, hg, hkey⟩
    obtain ⟨v, hget, hcriterion⟩ := mem_filterMap_paramCriterion?.mp hg
    rw [hkey] at hget hcriterion
    exact ⟨(hread v).mp ⟨g, hcriterion⟩, v, hget⟩
  · rintro ⟨hhas, v, hget⟩
    obtain ⟨g, hg⟩ := (hread v).mpr hhas
    have hkey : g.key = Key.details := (of_paramCriterion? hg).2.2
    refine ⟨g, mem_filterMap_paramCriterion?.mpr ⟨v, ?_, ?_⟩, hkey⟩
    · rw [hkey]
      exact hget
    · rw [hkey]
      exact hg

/-- Criteria under other keys than that of the range of time are kept beside it, in their order. -/
theorem sublist_decode {fs : List Criterion}
    (h : fs.Sublist (q.toList.filterMap (paramCriterion? c) ++ (details? q c).toList))
    (hkeys : ∀ f ∈ fs, f.key ≠ Key.timeRange) : fs.Sublist (decode q c) := by
  rw [decode]
  cases timeRange? q c with
  | none => exact h
  | some range =>
    have hkept := h.filter (·.key ≠ Key.timeRange)
    rw [List.filter_eq_self.mpr fun f hf => decide_eq_true (hkeys f hf)] at hkept
    exact hkept.trans (List.sublist_append_left _ _)

/-- Details beside a parameter of that name are read as a second filter on the same key. -/
theorem exists_details_pair (hhas : c.has Key.details = true)
    (hparam : ∃ v, q.get? Key.details = some v) (hdetail : HasDetail q) :
    ∃ f g, [f, g].Sublist (decode q c) ∧ f.key = Key.details ∧ g.key = Key.details := by
  obtain ⟨f, hf, hfkey⟩ := exists_paramCriterion?_details_iff.mpr ⟨hhas, hparam⟩
  obtain ⟨g, hg⟩ := exists_details?_iff.mpr ⟨hhas, hdetail⟩
  have hgkey := key_of_details? hg
  refine ⟨f, g, sublist_decode ?_ ?_, hfkey, hgkey⟩
  · rw [hg]
    exact (List.singleton_sublist.mpr hf).append (List.Sublist.refl [g])
  · intro h hh
    have hkey : h.key = Key.details := by
      rcases List.mem_pair.mp hh with rfl | rfl
      · exact hfkey
      · exact hgkey
    rw [hkey]
    decide

/-- Filters on other keys than that of the details have distinct keys. -/
theorem nodup_keys_drop_details (q : Query) (c : Configuration) :
    ((Keyed.drop Criterion.key Key.details (decode q c)).map Criterion.key).Nodup := by
  have hdetails : Keyed.drop Criterion.key Key.details (details? q c).toList = [] := by
    rw [Keyed.drop, List.filter_eq_nil_iff]
    intro g hg
    simp [key_of_details? (Option.mem_toList.mp hg)]
  have hfound : ((Keyed.drop Criterion.key Key.details
      (q.toList.filterMap (paramCriterion? c) ++ (details? q c).toList)).map
        Criterion.key).Nodup := by
    rw [Keyed.drop, List.filter_append, ← Keyed.drop, ← Keyed.drop, hdetails, List.append_nil]
    exact Keyed.nodup_map_filter _ (nodup_keys_params q c)
  rw [decode]
  cases hrange : timeRange? q c with
  | none => exact hfound
  | some range =>
    have hkept := Keyed.nodup_map_drop_append (x := range) hfound
    rw [key_of_timeRange? hrange, Keyed.drop, Keyed.drop, List.filter_comm] at hkept
    refine hkept.sublist (List.Sublist.map _ ?_)
    rw [Keyed.drop, Keyed.drop, List.filter_append]
    exact (List.Sublist.refl _).append List.filter_sublist

/-- The filters that are read have distinct keys unless `details` is a key, the query has a
parameter of that name and it holds a detail besides.  Filters on other keys have distinct keys in
any case. -/
theorem keys_of_flat_query (q : Query) (c : Configuration) :
    (((decode q c).map Criterion.key).Nodup ↔
      ¬ (c.has Key.details = true ∧ (∃ v, q.get? Key.details = some v) ∧ HasDetail q)) ∧
      ((Keyed.drop Criterion.key Key.details (decode q c)).map Criterion.key).Nodup := by
  refine ⟨⟨?_, ?_⟩, nodup_keys_drop_details q c⟩
  · rintro hnodup ⟨hhas, hparam, hdetail⟩
    obtain ⟨f, g, hread, hfkey, hgkey⟩ := exists_details_pair hhas hparam hdetail
    have hpair := hnodup.sublist (hread.map Criterion.key)
    rw [List.map_cons, List.map_singleton, hfkey, hgkey] at hpair
    exact absurd hpair (by decide)
  · intro hnot
    apply nodup_keys_decode
    intro g hg
    obtain ⟨hhas, hdetail⟩ := exists_details?_iff.mp ⟨g, hg⟩
    by_contra hparam
    exact hnot ⟨hhas, Option.ne_none_iff_exists'.mp hparam, hdetail⟩

/-- The audit logs can be filtered by details: a parameter of that name and a detail beside it are
read as two filters on one key. -/
theorem keys_of_flat_query_not_distinct :
    let q := Query.ofList [("details", .one "env:dev"), ("details.env", .one "prod")]
    let c := View.auditLogs.configuration
    (decode q c).map Criterion.key = [Key.details, Key.details] ∧
      ¬ ((decode q c).map Criterion.key).Nodup := by
  decide +kernel

end FilterBar.Flat
