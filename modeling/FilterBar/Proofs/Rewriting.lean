import FilterBar.Proofs.Keyed
import FilterBar.Proofs.Ownership
import FilterBar.Proofs.Written

/-!
# Rewriting a query

New filters and a new search term are written under owned names only, over a query from which the
owned parameters have been removed.  So a rewritten query agrees with the old one on every name that
is not owned, does not depend on the old one under those that are, and rewriting it once more is
rewriting the old one.
-/

namespace FilterBar

variable {c : Configuration} {format : UrlFormat} {name : String}

/-- No key of the configuration is a date or a single detail. -/
def Configuration.KeepsClear (c : Configuration) : Prop :=
  ∀ k ∈ c.keys, Key.isDate k.name = false ∧ Key.after? Flat.detailOpening k.name = none

instance : Decidable c.KeepsClear :=
  inferInstanceAs (Decidable (∀ k ∈ c.keys, _ ∧ _))

theorem View.keepsClear (v : View) : v.configuration.KeepsClear := by
  cases v <;> decide

/-- A range of time is only on the key of that name. -/
def Criterion.KeepsRange (f : Criterion) : Prop :=
  f.value.isTimeRange = true → f.key = Key.timeRange

instance (f : Criterion) : Decidable f.KeepsRange :=
  inferInstanceAs (Decidable (_ → _))

/-! ## What is written is owned -/

theorem ParamName.opening_ofKey (key : String) (op : Comparator) :
    (Key.after? opening (ofKey key op)).isSome = true := by
  simp only [ofKey, String.append_assoc, Key.after?_append, Option.isSome_some]

theorem ParamName.opening_ofLabel (op : Comparator) (label : String) :
    (Key.after? opening (ofLabel op label)).isSome = true := by
  simp only [ofLabel, ofKey, String.append_assoc, Key.after?_append, Option.isSome_some]

theorem Bracketed.opening_itemPair (key : String) (op : Comparator) (item : String) :
    (Key.after? ParamName.opening (itemPair key op item).1).isSome = true := by
  unfold itemPair
  split
  · unfold labelPair
    split
    · exact ParamName.opening_ofLabel op _
    · exact ParamName.opening_ofKey _ op
  · split
    · exact ParamName.opening_ofLabel op _
    · exact ParamName.opening_ofKey _ op

/-- The bracketed format writes filter parameters only. -/
theorem Bracketed.opening_of_mem_pairs {f : Criterion} {pair : String × String}
    (h : pair ∈ pairs f) : (Key.after? ParamName.opening pair.1).isSome = true := by
  cases hvalue : f.value with
  | timeRange start stop =>
    rw [pairs_of_timeRange hvalue] at h
    rcases List.mem_pair.mp h with rfl | rfl
    · exact ParamName.opening_ofKey _ _
    · exact ParamName.opening_ofKey _ _
  | text value =>
    rw [pairs_of_items (by rw [hvalue]; rfl)] at h
    obtain ⟨item, -, rfl⟩ := List.mem_map.mp h
    exact opening_itemPair _ _ item
  | list values =>
    rw [pairs_of_items (by rw [hvalue]; rfl)] at h
    obtain ⟨item, -, rfl⟩ := List.mem_map.mp h
    exact opening_itemPair _ _ item

theorem Configuration.KeepsClear.of_has (hc : c.KeepsClear) (h : c.has name = true) :
    Key.isDate name = false ∧ Key.after? Flat.detailOpening name = none := by
  obtain ⟨k, hk⟩ := Configuration.has_iff_find?.mp h
  obtain ⟨hmem, hfor⟩ := Configuration.mem_keys_of_find? hk
  rw [FilterKey.isFor, Bool.or_eq_true, Bool.and_eq_true] at hfor
  rcases hfor with hname | ⟨-, hlabel⟩
  · rw [← beq_iff_eq.mp hname]
    exact hc k hmem
  · obtain ⟨rest, -, rfl⟩ := Key.eq_of_isNamedLabel hlabel
    have hhead : (Key.namedLabel ++ rest).toList.head? = some 'l' := by
      rw [String.toList_append]
      rfl
    constructor
    · apply Key.isDate_eq_false
      · rw [hhead]
        decide
      · rw [hhead]
        decide
    · apply Key.after?_eq_none_of_head?_ne (by decide)
      rw [hhead]
      decide

theorem Flat.isOwnedParam_of_has (hc : c.KeepsClear) (h : c.has name = true) :
    isOwnedParam c .flat name = true := by
  obtain ⟨hdate, hdetail⟩ := hc.of_has h
  simp [isOwnedParam, Flat.isOwned, hdate, hdetail, h]

theorem Flat.isOwnedParam_detail (h : c.has Key.details = true) (detail : String) :
    isOwnedParam c .flat (detailOpening ++ detail) = true := by
  have hhead : (detailOpening ++ detail).toList.head? = some 'd' := by
    rw [String.toList_append]
    rfl
  have hdate : Key.isDate (detailOpening ++ detail) = false := by
    apply Key.isDate_eq_false
    · rw [hhead]
      decide
    · rw [hhead]
      decide
  simp [isOwnedParam, Flat.isOwned, hdate, Key.after?_append, h]

/-- The flat format writes the key of a criterion, a detail of it or the two dates. -/
theorem Flat.isOwnedParam_of_mem_pairs (hc : c.KeepsClear) {f : Criterion}
    (hvalid : c.has f.key = true) (hrange : f.KeepsRange) {pair : String × String}
    (h : pair ∈ pairs f) : isOwnedParam c .flat pair.1 = true := by
  cases hvalue : f.value with
  | timeRange start stop =>
    have hkey : f.key = Key.timeRange := hrange (by rw [hvalue]; rfl)
    rw [hkey] at hvalid
    simp only [pairs, hvalue] at h
    rcases List.mem_pair.mp h with rfl | rfl
    · exact isOwnedParam_of_isDate rfl hvalid
    · exact isOwnedParam_of_isDate rfl hvalid
  | text value =>
    simp only [pairs, hvalue, List.mem_singleton] at h
    rw [h]
    exact isOwnedParam_of_has hc hvalid
  | list values =>
    simp only [pairs, hvalue] at h
    split at h
    next hdetails =>
      obtain ⟨entry, -, hentry⟩ := List.mem_filterMap.mp h
      rw [detailPair?, Option.map_eq_some_iff] at hentry
      obtain ⟨cut, -, rfl⟩ := hentry
      rw [hdetails] at hvalid
      exact isOwnedParam_detail hvalid _
    next =>
      obtain ⟨value, -, rfl⟩ := List.mem_map.mp h
      exact isOwnedParam_of_has hc hvalid

theorem mem_writtenCriteria {fs : List Criterion} {f : Criterion}
    (h : f ∈ writtenCriteria c fs) : f ∈ fs ∧ c.has f.key = true :=
  List.mem_filter.mp (Keyed.mem_of_mem_lasts h)

theorem nodup_keys_writtenCriteria (c : Configuration) (fs : List Criterion) :
    ((writtenCriteria c fs).map Criterion.key).Nodup :=
  Keyed.nodup_map_lasts Criterion.key _

theorem get?_encodeCriteria_of_not_owned (hc : c.KeepsClear) {fs : List Criterion}
    (hfs : ∀ f ∈ fs, f.KeepsRange) (h : isOwnedParam c format name = false) :
    (encodeCriteria fs c format).get? name = none := by
  cases format with
  | bracketed =>
    apply Bracketed.get?_encode_of_notMem
    intro f _ hmem
    obtain ⟨pair, hpair, rfl⟩ := List.mem_map.mp hmem
    have howned : isOwnedParam c .bracketed pair.1 = true :=
      isOwnedParam_of_opening (Bracketed.opening_of_mem_pairs hpair)
    rw [howned] at h
    contradiction
  | flat =>
    apply Flat.get?_encode_of_notMem
    intro f hf hmem
    obtain ⟨hmemf, hvalid⟩ := mem_writtenCriteria hf
    obtain ⟨pair, hpair, rfl⟩ := List.mem_map.mp hmem
    rw [Flat.isOwnedParam_of_mem_pairs hc hvalid (hfs f hmemf) hpair] at h
    contradiction

theorem isOwnedParam_searchParamName : isOwnedParam c format (searchParamName c format) = true := by
  unfold searchParamName
  split
  · exact isOwnedParam_bracketedSearchName
  · exact isOwnedParam_searchName

/-! ## What a rewritten query holds -/

variable {o : UrlOptions} {current : Query} {fs : List Criterion} {term : String}

/-- Writing a search term either leaves every query as it is or sets one name to one value. -/
theorem writeSearch_cases (term : String) (c : Configuration) (o : UrlOptions) :
    (∀ q, writeSearch q term c o = q) ∨
      ∃ value, ∀ q, writeSearch q term c o = q.insertOne (searchParamName c o.format) value := by
  by_cases hskip : ((Text.trim term.toList).isEmpty || !o.showsSearch) = true
  · left
    intro q
    simp only [writeSearch, if_pos hskip]
  · right
    refine ⟨String.ofList (Text.trim term.toList), ?_⟩
    intro q
    simp only [writeSearch, if_neg hskip]

theorem get?_writeSearch_congr {p q : Query} (h : p.get? name = q.get? name) :
    (writeSearch p term c o).get? name = (writeSearch q term c o).get? name := by
  rcases writeSearch_cases term c o with hnone | ⟨value, hvalue⟩
  · rw [hnone, hnone, h]
  · rw [hvalue, hvalue, Query.insertOne, Query.insertOne, Query.get?_insert, Query.get?_insert, h]

theorem get?_writeSearch_of_ne {q : Query} (h : searchParamName c o.format ≠ name) :
    (writeSearch q term c o).get? name = q.get? name := by
  rcases writeSearch_cases term c o with hnone | ⟨value, hvalue⟩
  · rw [hnone]
  · rw [hvalue, Query.get?_insertOne_of_ne h]

/-- Parameters that are not owned stay as they are. -/
theorem get?_updateQuery_of_not_owned (hc : c.KeepsClear) (hfs : ∀ f ∈ fs, f.KeepsRange)
    (h : isOwnedParam c o.format name = false) :
    (updateQuery current fs term c o).get? name = current.get? name := by
  have hsearch : searchParamName c o.format ≠ name := by
    rintro rfl
    rw [isOwnedParam_searchParamName] at h
    contradiction
  rw [updateQuery, get?_writeSearch_of_ne hsearch, Query.get?_merge,
    get?_encodeCriteria_of_not_owned hc hfs h, Option.none_or, get?_clearOwnedParams current h]

/-- Owned parameters do not depend on what was there before. -/
theorem get?_updateQuery_of_owned (current : Query) (h : isOwnedParam c o.format name = true) :
    (updateQuery current fs term c o).get? name =
      (writeSearch (encodeCriteria fs c o.format) term c o).get? name := by
  apply get?_writeSearch_congr
  rw [Query.get?_merge, get?_clearOwnedParams_of_owned current h, Option.or_none]

/-- Queries that agree on what is not owned are rewritten alike. -/
theorem updateQuery_congr {p q : Query}
    (h : ∀ name, isOwnedParam c o.format name = false → p.get? name = q.get? name) :
    updateQuery p fs term c o = updateQuery q fs term c o := by
  have hclear : clearOwnedParams p c o.format = clearOwnedParams q c o.format := by
    apply Query.retain_eq_retain
    intro name hname
    exact h name (by simpa using hname)
  rw [updateQuery, hclear, updateQuery]

end FilterBar
