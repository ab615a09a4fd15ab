import FilterBar.Proofs.Reload

/-!
# Values of the flat format

The values that are read back in the flat format if percent decoding leaves the texts in them alone.
Details come back in the order of the parameters that they are written under, without those that have
no name.  A value under its key comes back as it was, unless its shape is not the one that the number
of values and the key stand for: a single value is a list exactly if the key takes several.
-/

namespace FilterBar

namespace Flat

open Text

variable {c : Configuration} {f g : Criterion} {k : FilterKey} {entries : List String}

/-! ## Details -/

/-- The parameter that a detail with a name is written under. -/
def detailParam (entry : String) : String :=
  ((detailPair? entry).map (·.1)).getD ""

/-- A detail has a name in front of a colon. -/
def isNamed (entry : String) : Bool :=
  (detailPair? entry).isSome

theorem isNamed_eq (entry : String) : isNamed entry = entry.toList.contains ':' := by
  rw [isNamed, detailPair?, Option.isSome_map, isSome_cut?]

/-- A detail whose value, if it has a name, is left alone by percent decoding. -/
def IsPlainDetail (entry : String) : Prop :=
  ∀ cut ∈ cut? ':' entry.toList, decodeComponent (String.ofList cut.2) = String.ofList cut.2

instance : DecidablePred IsPlainDetail := fun entry =>
  inferInstanceAs (Decidable (∀ cut ∈ cut? ':' entry.toList, _))

/-- A detail is read from what it is written as. -/
theorem entry_of_detailPair? {entry name value : String} (h : IsPlainDetail entry)
    (hpair : detailPair? entry = some (detailOpening ++ name, value)) :
    name ++ ":" ++ decodeComponent value = entry := by
  obtain ⟨⟨before, after⟩, hcut, heq⟩ := Option.map_eq_some_iff.mp hpair
  obtain ⟨hname, rfl⟩ := Prod.mk.inj heq
  have hbefore : before = name.toList := by
    have hlists := congrArg String.toList hname
    rw [String.toList_append, String.toList_append, String.toList_ofList] at hlists
    exact List.append_cancel_left hlists
  rw [h (before, after) hcut, ← String.toList_inj, eq_of_cut? hcut, hbefore]
  simp

/-- The values under the name of a detail are those of the details with that name. -/
theorem valuesOf_details (name : String) (entries : List String) :
    Query.valuesOf name (entries.filterMap detailPair?) =
      (((entries.filter isNamed).filter (detailParam · == name)).filterMap detailPair?).map (·.2) := by
  rw [Query.valuesOf, List.filter_filterMap, List.filterMap_filter, List.filterMap_filter]
  congr 2
  funext entry
  unfold isNamed detailParam
  cases detailPair? entry with
  | none => rfl
  | some pair => rfl

/-- What is read under the name of a detail are the details with that name, in their order. -/
theorem map_valuesOf_details (hplain : ∀ entry ∈ entries, IsPlainDetail entry) (name : String) :
    (Query.valuesOf (detailOpening ++ name) (entries.filterMap detailPair?)).map
        (fun value => name ++ ":" ++ decodeComponent value) =
      (entries.filter isNamed).filter (detailParam · == detailOpening ++ name) := by
  have hread : ∀ entry ∈ (entries.filter isNamed).filter (detailParam · == detailOpening ++ name),
      (detailPair? entry).map (fun pair => name ++ ":" ++ decodeComponent pair.2) = some entry := by
    intro entry hentry
    obtain ⟨hmem, hname⟩ := List.mem_filter.mp hentry
    obtain ⟨hmem, hnamed⟩ := List.mem_filter.mp hmem
    obtain ⟨⟨param, value⟩, hpair⟩ := Option.isSome_iff_exists.mp hnamed
    rw [detailParam, hpair] at hname
    obtain rfl : param = detailOpening ++ name := beq_iff_eq.mp hname
    rw [hpair, Option.map_some, entry_of_detailPair? (hplain entry hmem) hpair]
  rw [valuesOf_details, List.map_map, List.map_filterMap]
  exact (List.filterMap_congr hread).trans List.filterMap_some

/-- Details are read in the order of the parameters that they are written under. -/
theorem flatMap_paramDetails (hplain : ∀ entry ∈ entries, IsPlainDetail entry) :
    (Query.ofPairs (entries.filterMap detailPair?)).toList.flatMap paramDetails =
      sortOn detailParam (entries.filter isNamed) := by
  have hparam : ∀ param ∈ (Query.ofPairs (entries.filterMap detailPair?)).toList,
      paramDetails param = (entries.filter isNamed).filter (detailParam · == param.1) := by
    intro param hparam
    obtain ⟨pair, hpair, hname⟩ := Query.exists_pair_of_mem_toList hparam
    obtain ⟨name, hdetail⟩ := name_of_mem_details hpair
    rw [hdetail] at hname
    have hget := Query.mem_toList.mp hparam
    rw [Query.get?_ofPairs, ← hname] at hget
    rw [← hname, ← map_valuesOf_details hplain, ← ParamValue.values_of_ofList? hget, paramDetails,
      ← hname, isReserved_detail, Key.after?_append]
    rfl
  have hnames : ∀ entry ∈ entries.filter isNamed, detailParam entry ∈
      (Query.ofPairs (entries.filterMap detailPair?)).toList.map (·.1) := by
    intro entry hentry
    obtain ⟨hmem, hnamed⟩ := List.mem_filter.mp hentry
    obtain ⟨pair, hpair⟩ := Option.isSome_iff_exists.mp hnamed
    have hpairs : pair ∈ entries.filterMap detailPair? := List.mem_filterMap.mpr ⟨entry, hmem, hpair⟩
    obtain ⟨-, v, -, hv⟩ := Query.exists_valuesOf hpairs
    rw [detailParam, hpair]
    exact List.mem_map_of_mem hv
  have hsorted : ((Query.ofPairs (entries.filterMap detailPair?)).toList.map (·.1)).Pairwise
      (· < ·) :=
    List.pairwise_map.mpr (Query.ofPairs (entries.filterMap detailPair?)).params.sorted
  rw [← flatMap_filter_eq_sortOn hsorted hnames, List.flatMap_map]
  exact List.flatMap_congr hparam

/-! ## What a value is read back as -/

theorem value_of_reread?_of_isDetailList (hlist : isDetailList f = true)
    (hplain : ∀ entry ∈ f.value.items, IsPlainDetail entry) (hg : reread? c f = some g) :
    g.value = .list (sortOn detailParam (f.value.items.filter isNamed)) := by
  obtain ⟨-, entries, hvalue, hpairs⟩ := of_isDetailList hlist
  have hitems : f.value.items = entries := by rw [hvalue]; rfl
  rw [hitems] at hplain ⊢
  rw [reread?_of_isDetailList hlist, hpairs, details?, flatMap_paramDetails hplain] at hg
  split at hg
  · contradiction
  · obtain ⟨k, -, rfl⟩ := Option.map_eq_some_iff.mp hg
    rfl

theorem value_of_paramCriterion? {param : String × ParamValue} (hk : c.find? param.1 = some k)
    (hg : paramCriterion? c param = some g) : g.value = paramValue k param.2 := by
  obtain ⟨-, -, k', hk', rfl⟩ := exists_of_paramCriterion? hg
  obtain rfl := Option.some.inj (hk.symm.trans hk')
  rfl

theorem value_of_reread?_of_isPlain (hplain : isPlain f = true) (hk : c.find? f.key = some k)
    (hg : reread? c f = some g) :
    ∃ v, ParamValue.ofList? f.value.items = some v ∧ g.value = paramValue k v := by
  rw [reread?_of_isPlain hplain] at hg
  obtain ⟨v, hv, hcriterion⟩ := Option.bind_eq_some_iff.mp hg
  exact ⟨v, hv, value_of_paramCriterion? hk hcriterion⟩

/-- A text of a key that takes several values is read as the pieces between its commas. -/
theorem paramValue_of_isMultiSelect (hmulti : k.isMultiSelect = true) {value : String}
    (hplain : decodeComponent value = value) :
    paramValue k (.one value) =
      .list (((splitOn ',' value.toList).filter (!·.isEmpty)).map String.ofList) := by
  rw [paramValue, hplain, if_pos hmulti]

end Flat

/-- The value has the shape in which its items are read under a key: a single item is a list exactly
if the key takes several values, and is not cut then. -/
def FilterValue.FitsParam (k : FilterKey) : FilterValue → Prop
  | timeRange .. => True
  | text _ => k.isMultiSelect = false
  | list [] => False
  | list [value] => k.isMultiSelect = true ∧ value ≠ "" ∧ ',' ∉ value.toList
  | list (_ :: _ :: _) => True

namespace Flat

open Text

variable {f : Criterion} {k : FilterKey}

/-- A value that fits its key is read back as it was. -/
theorem paramValue_of_fitsParam (hrange : f.value.isTimeRange = false)
    (hfits : f.value.FitsParam k) (hplain : ∀ item ∈ f.value.items, decodeComponent item = item)
    {v : ParamValue} (hv : ParamValue.ofList? f.value.items = some v) :
    paramValue k v = f.value := by
  generalize f.value = value at *
  match value with
  | .timeRange .. => contradiction
  | .text value =>
    obtain rfl := Option.some.inj hv
    have hsingle : k.isMultiSelect = false := hfits
    rw [paramValue, hplain value List.mem_cons_self, hsingle]
    rfl
  | .list [] => contradiction
  | .list [value] =>
    obtain rfl := Option.some.inj hv
    obtain ⟨hmulti, hne, hcomma⟩ := hfits
    have hempty : value.toList ≠ [] := by simpa using hne
    rw [paramValue_of_isMultiSelect hmulti (hplain value List.mem_cons_self),
      splitOn_of_notMem hcomma]
    simp [hempty]
  | .list (first :: second :: rest) =>
    obtain rfl := Option.some.inj hv
    have hmap : (first :: second :: rest).map decodeComponent = first :: second :: rest :=
      (List.map_congr_left hplain).trans (List.map_id' _)
    rw [paramValue, List.filterMap_map]
    simp only [Function.comp_def, id, List.filterMap_some, hmap]

end Flat

end FilterBar
