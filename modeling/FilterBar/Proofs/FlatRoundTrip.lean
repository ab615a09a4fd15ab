import FilterBar.Proofs.FlatValues

/-!
# The round trip in the flat format

Filters that the flat format can represent are written into a query, over whatever it held and with
any search term, and read back from it: one filter for each that was written, with its key, its
comparator and its value.  The format writes no comparators, so each filter has the one that its key
is read with.  Nor does it write what kind of value there was: a text of details is written as it is,
and read as a list if the key of the details takes several values.
-/

namespace FilterBar

variable {c : Configuration} {f : Criterion}

/-- The value that comes back from a URL: a range of time to the millisecond, and details in the
order of the parameters that they are written under.  A text under the key of the details comes back
as the list of its pieces if that key takes several values. -/
def Criterion.flatUrlValue (c : Configuration) (f : Criterion) : FilterValue :=
  match f.value with
  | .timeRange start stop => .timeRange start.wholeMillis stop.wholeMillis
  | .list values =>
    if f.key = Key.details then .list (sortOn Flat.detailParam values) else .list values
  | .text value =>
    if f.key = Key.details ∧ (c.find? f.key).any (·.isMultiSelect) = true then
      .list (((Text.splitOn ',' value.toList).filter (!·.isEmpty)).map String.ofList)
    else .text value

/-- What a URL in the flat format can hold.  Nothing of it is lost but whether a value of details was
a text or a list. -/
structure Criterion.FlatRepresentable (c : Configuration) (f : Criterion) : Prop where
  notReserved : Flat.isReserved f.key = false
  notDetail : Key.after? Flat.detailOpening f.key = none
  keepsRange : f.KeepsRange
  years : f.HasFourDigitYears
  comparator : f.comparator = f.reloadComparator c .flat
  details : Flat.isDetailList f = true → f.value.items ≠ [] ∧
    ∀ entry ∈ f.value.items, ':' ∈ entry.toList ∧ Flat.IsPlainDetail entry
  fitsParam : f.key ≠ Key.details → ∀ k, c.find? f.key = some k → f.value.FitsParam k
  plainItems : Flat.isDetailList f = false → ∀ item ∈ f.value.items, Text.decodeComponent item = item

theorem Criterion.FlatRepresentable.bare (h : f.FlatRepresentable c) (hhas : c.has f.key = true) :
    f.Bare c where
  has := hhas
  keepsRange := h.keepsRange
  notReserved := h.notReserved
  notDetail := h.notDetail

namespace Flat

theorem items_ne_nil_of_fitsParam {k : FilterKey} {values : List String}
    (h : (FilterValue.list values).FitsParam k) : values ≠ [] := by
  rintro rfl
  exact h

theorem leavesParam_of_representable (h : f.FlatRepresentable c) (hhas : c.has f.key = true) :
    f.leavesParam .flat = true := by
  cases hvalue : f.value with
  | timeRange start stop => simp [Criterion.leavesParam, hvalue]
  | text value => simp [Criterion.leavesParam, hvalue]
  | list values =>
    have hitems : f.value.items = values := by rw [hvalue]; rfl
    by_cases hkey : f.key = Key.details
    · have hlist : isDetailList f = true := by simp [isDetailList, hvalue, hkey]
      obtain ⟨hne, hcolon⟩ := h.details hlist
      rw [hitems] at hne hcolon
      obtain ⟨entry, hentry⟩ := List.exists_mem_of_ne_nil values hne
      simp only [Criterion.leavesParam, hvalue, hkey, and_self, if_true, List.any_eq_true]
      exact ⟨entry, hentry, List.contains_iff_mem.mpr (hcolon entry hentry).1⟩
    · obtain ⟨k, hk⟩ := Configuration.has_iff_find?.mp hhas
      have hfits := h.fitsParam hkey k hk
      rw [hvalue] at hfits
      simp [Criterion.leavesParam, hvalue, hkey, items_ne_nil_of_fitsParam hfits]

/-- What is held under a key is read as the value that comes back. -/
theorem paramValue_of_representable (h : f.FlatRepresentable c) (hplain : isPlain f = true)
    {k : FilterKey} (hk : c.find? f.key = some k) {v : ParamValue}
    (hv : ParamValue.ofList? f.value.items = some v) : paramValue k v = f.flatUrlValue c := by
  obtain ⟨hrange, hlist⟩ := of_isPlain hplain
  have hdecode := h.plainItems hlist
  cases hvalue : f.value with
  | timeRange start stop => simp [hvalue, FilterValue.isTimeRange] at hrange
  | text value =>
    by_cases hmulti : f.key = Key.details ∧ k.isMultiSelect = true
    · rw [hvalue] at hv hdecode
      obtain rfl := Option.some.inj hv
      rw [paramValue_of_isMultiSelect hmulti.2 (hdecode value List.mem_cons_self),
        Criterion.flatUrlValue, hvalue, hk]
      exact (if_pos hmulti).symm
    · have hfits : f.value.FitsParam k := by
        by_cases hkey : f.key = Key.details
        · rw [hvalue]
          exact Bool.eq_false_iff.mpr fun hsome => hmulti ⟨hkey, hsome⟩
        · exact h.fitsParam hkey k hk
      rw [paramValue_of_fitsParam hrange hfits hdecode hv, Criterion.flatUrlValue, hvalue, hk]
      exact (if_neg hmulti).symm
  | list values =>
    have hkey : f.key ≠ Key.details := by simpa [isDetailList, hvalue] using hlist
    rw [paramValue_of_fitsParam hrange (h.fitsParam hkey k hk) hdecode hv, Criterion.flatUrlValue,
      hvalue]
    exact (if_neg hkey).symm

theorem value_of_reread?_of_representable (h : f.FlatRepresentable c) (hhas : c.has f.key = true)
    {g : Criterion} (hg : reread? c f = some g) : g.value = f.flatUrlValue c := by
  rcases cases_of_value f with hrange | hlist | hplain
  · obtain ⟨start, stop, hvalue⟩ := FilterValue.exists_of_isTimeRange hrange
    rw [reread?_of_timeRange hvalue] at hg
    obtain ⟨k, -, rfl⟩ := Option.map_eq_some_iff.mp hg
    rw [Criterion.flatUrlValue, hvalue]
    rfl
  · obtain ⟨hkey, entries, hvalue, -⟩ := of_isDetailList hlist
    have hitems : f.value.items = entries := by rw [hvalue]; rfl
    have hentries := (h.details hlist).2
    have hnamed : f.value.items.filter isNamed = entries := by
      rw [← hitems, List.filter_eq_self]
      intro entry hentry
      rw [isNamed_eq]
      exact List.contains_iff_mem.mpr (hentries entry hentry).1
    rw [value_of_reread?_of_isDetailList hlist (fun entry hentry => (hentries entry hentry).2) hg,
      hnamed, Criterion.flatUrlValue, hvalue]
    exact (if_pos hkey).symm
  · obtain ⟨k, hk⟩ := Configuration.has_iff_find?.mp hhas
    obtain ⟨v, hv, hvalue⟩ := value_of_reread?_of_isPlain hplain hk hg
    rw [hvalue, paramValue_of_representable h hplain hk hv]

/-- A criterion that can be represented is read back. -/
theorem reread?_of_representable (h : f.FlatRepresentable c) (hhas : c.has f.key = true) :
    ∃ g, reread? c f = some g ∧
      (g.key, g.comparator, g.value) = (f.key, f.comparator, f.flatUrlValue c) := by
  obtain ⟨g, hg, hparts⟩ := reread?_of_leavesParam (h.bare hhas) (leavesParam_of_representable h hhas)
  obtain ⟨hkey, hcomparator⟩ := Prod.mk.inj hparts
  refine ⟨g, hg, ?_⟩
  rw [hkey, hcomparator, ← h.comparator, value_of_reread?_of_representable h hhas hg]

end Flat

/-- In the flat format filters that can be represented are read back from a rewritten query, whatever
it held before: one for each that is written and no other, with its key and its comparator.  Its
value is that of the written one, a range of time to the millisecond and details in the order of
their names, except that a text of details is read as the list of its pieces where their key takes
several values. -/
theorem decodeFilters_updateQuery_flat_perm {c : Configuration} {o : UrlOptions}
    (ho : o.format = .flat) (ids : IdSupply) (current : Query) (fs : List Criterion) (term : String)
    (h : ∀ f ∈ writtenCriteria c fs, f.FlatRepresentable c) :
    ((decodeFilters ids (updateQuery current fs term c o) c o.format).1.map
        fun f => (f.key, f.comparator, f.value)).Perm
      ((writtenCriteria c fs).map fun f => (f.key, f.comparator, f.flatUrlValue c)) := by
  have hhas : ∀ f ∈ writtenCriteria c fs, c.has f.key = true := by
    intro f hf
    exact (mem_writtenCriteria hf).2
  have hbare : ∀ f ∈ writtenCriteria c fs, f.Bare c := by
    intro f hf
    exact (h f hf).bare (hhas f hf)
  have hperm := Flat.decode_encode_perm (nodup_keys_writtenCriteria c fs) hbare
    fun f hf => (h f hf).years
  have hvalues : ((writtenCriteria c fs).filterMap (Flat.reread? c)).map
        (fun g => (g.key, g.comparator, g.value)) =
      (writtenCriteria c fs).map fun f => (f.key, f.comparator, f.flatUrlValue c) := by
    apply Keyed.map_filterMap_eq_map
    intro f hf
    exact Flat.reread?_of_representable (h f hf) (hhas f hf)
  rw [map_decodeFilters fun g => (g.key, g.comparator, g.value),
    decodeCriteria_updateQuery_of_flat ho, ho, ← hvalues]
  exact hperm.map _

/-- In the audit logs, over an old detail and half a range of time, the last namespaces, a user, a
range of time and the details that are written come back. -/
theorem decodeFilters_updateQuery_auditLogs :
    let c := View.auditLogs.configuration
    let o : UrlOptions := { format := .flat }
    let current := Query.ofList [("details.ip", .one "10.0.0.1"), ("page", .one "2"),
      ("startDate", .one "2020-01-01T00:00:00Z")]
    let day : Date := ⟨2024, 2, 29, by decide⟩
    let noon : Clock := ⟨12, 0, 0, 123456789, by decide, by decide, by decide, by decide⟩
    let old := Criterion.ofParts namespaceKey "namespace" .isIn (.list ["old%20name"]) "old%20name"
    let details := Criterion.ofParts labelsKey "details" .equals
      (.list ["team:data", "env:a:b", "env:50%"]) "team:data +2"
    let namespaces := Criterion.ofParts namespaceKey "namespace" .isIn
      (.list ["company,team", "company"]) "company,team, company"
    let user := Criterion.ofParts flowKey "userId" .equals (.text "a,b") "a,b"
    let range := Criterion.ofTimeRange (timeRangeKey "") ⟨day, noon⟩ ⟨day, noon⟩ .equals
    let fs := [old, details, namespaces, user, range]
    o.format = .flat ∧ (∀ f ∈ writtenCriteria c fs, f.FlatRepresentable c) ∧
      ((decodeFilters ⟨0, 0⟩ (updateQuery current fs "etl" c o) c o.format).1.map
          fun f => (f.key, f.comparator, f.value)).Perm
        ((writtenCriteria c fs).map fun f => (f.key, f.comparator, f.flatUrlValue c)) := by
  intro c o current day noon old details namespaces user range fs
  have hwritten : writtenCriteria c fs = [details, namespaces, user, range] := by decide +kernel
  have hdetails : details.FlatRepresentable c := by
    constructor
    · decide +kernel
    · decide +kernel
    · decide +kernel
    · trivial
    · decide +kernel
    · intro _
      exact ⟨by decide +kernel, by decide +kernel⟩
    · intro hne
      exact absurd rfl hne
    · intro hlist
      exact absurd hlist (by decide +kernel)
  have hnamespaces : namespaces.FlatRepresentable c := by
    constructor
    · decide +kernel
    · decide +kernel
    · decide +kernel
    · trivial
    · decide +kernel
    · intro hlist
      exact absurd hlist (by decide +kernel)
    · intro _ k _
      trivial
    · intro _
      decide +kernel
  have huser : user.FlatRepresentable c := by
    have hfind : (c.find? "userId").map (·.isMultiSelect) = some false := by decide +kernel
    constructor
    · decide +kernel
    · decide +kernel
    · decide +kernel
    · trivial
    · decide +kernel
    · intro hlist
      exact absurd hlist (by decide +kernel)
    · intro _ k hk
      have hk : c.find? "userId" = some k := hk
      rw [hk] at hfind
      exact Option.some.inj hfind
    · intro _
      decide +kernel
  have hrange : range.FlatRepresentable c := by
    have hyear : day.HasFourDigitYear := by decide
    constructor
    · decide +kernel
    · decide +kernel
    · decide +kernel
    · exact ⟨hyear, hyear⟩
    · decide +kernel
    · intro hlist
      exact absurd hlist (by decide +kernel)
    · intro _ k _
      trivial
    · intro _
      decide +kernel
  have hall : ∀ f ∈ writtenCriteria c fs, f.FlatRepresentable c := by
    rw [hwritten]
    simp only [List.forall_mem_cons, List.not_mem_nil, false_implies, implies_true, and_true]
    exact ⟨hdetails, hnamespaces, huser, hrange⟩
  exact ⟨rfl, hall, decodeFilters_updateQuery_flat_perm rfl ⟨0, 0⟩ current fs "etl" hall⟩

/-- A text of details can be represented, but is not read back as one. -/
theorem details_text_read_as_list :
    let c := View.auditLogs.configuration
    let o : UrlOptions := { format := .flat }
    let details := Criterion.ofParts labelsKey "details" .equals (.text "env:prod,region:eu")
      "env:prod,region:eu"
    (∀ f ∈ writtenCriteria c [details], f.FlatRepresentable c) ∧
      (writtenCriteria c [details]).map (fun f => (f.key, f.comparator, f.value)) =
        [("details", .equals, .text "env:prod,region:eu")] ∧
      (decodeFilters ⟨0, 0⟩ (updateQuery .empty [details] "" c o) c o.format).1.map
          (fun f => (f.key, f.comparator, f.value)) =
        [("details", .equals, .list ["env:prod", "region:eu"])] ∧
      ¬ ((decodeFilters ⟨0, 0⟩ (updateQuery .empty [details] "" c o) c o.format).1.map
          fun f => (f.key, f.comparator, f.value)).Perm
        ((writtenCriteria c [details]).map fun f => (f.key, f.comparator, f.value)) := by
  intro c o details
  have hwritten : writtenCriteria c [details] = [details] := by decide +kernel
  have hdetails : details.FlatRepresentable c := by
    constructor
    · decide +kernel
    · decide +kernel
    · decide +kernel
    · trivial
    · decide +kernel
    · intro hlist
      exact absurd hlist (by decide +kernel)
    · intro hne
      exact absurd rfl hne
    · intro _
      decide +kernel
  have hread : (decodeFilters ⟨0, 0⟩ (updateQuery .empty [details] "" c o) c o.format).1.map
      (fun f => (f.key, f.comparator, f.value)) =
        [("details", .equals, .list ["env:prod", "region:eu"])] := by decide +kernel
  rw [hwritten, hread]
  refine ⟨by simpa using hdetails, rfl, rfl, ?_⟩
  intro hperm
  have hsame := List.perm_singleton.mp hperm
  exact absurd hsame (by decide +kernel)

end FilterBar
