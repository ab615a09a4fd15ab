import FilterBar.Proofs.BracketedReload
import FilterBar.Proofs.StableSort

/-!
# Values of the bracketed format

A criterion that is written at all is read back with its comparator.  Its value comes back as it was
if percent decoding leaves the texts in it alone; only the entries of the key `labels` are read in
the order of the names that they are written under.
-/

namespace FilterBar

namespace Text

theorem splitOn_of_notMem {sep : Char} {s : List Char} (h : sep ∉ s) : splitOn sep s = [s] := by
  induction s with
  | nil => rfl
  | cons d rest ih =>
    obtain ⟨hd, hrest⟩ := not_or.mp (mt List.mem_cons.mpr h)
    rw [splitOn, if_neg (Ne.symm hd), ih hrest]

theorem eq_of_cut? {sep : Char} {s before after : List Char} (h : cut? sep s = some (before, after)) :
    s = before ++ sep :: after := by
  induction s generalizing before with
  | nil => simp [cut?] at h
  | cons d rest ih =>
    rw [cut?] at h
    split at h
    next hd =>
      obtain ⟨rfl, rfl⟩ := Prod.mk.inj (Option.some.inj h)
      rw [hd, List.nil_append]
    next =>
      obtain ⟨⟨first, last⟩, hcut, heq⟩ := Option.map_eq_some_iff.mp h
      obtain ⟨rfl, rfl⟩ := Prod.mk.inj heq
      rw [ih hcut, List.cons_append]

end Text

namespace ParamValues

/-- Values that are read under one name: a single one, or a list of them. -/
def ofList : List String → ParamValues
  | [value] => one value
  | values => many values

theorem toList_ofList (values : List String) : (ofList values).toList = values := by
  match values with
  | [] => rfl
  | [_] => rfl
  | _ :: _ :: _ => rfl

theorem toList_map (f : String → String) (v : ParamValues) : (v.map f).toList = v.toList.map f := by
  cases v with
  | one value => rfl
  | many values => rfl

theorem map_id (v : ParamValues) : v.map id = v := by
  cases v with
  | one value => rfl
  | many values => exact congrArg ParamValues.many (List.map_id values)

end ParamValues

/-- Values that percent decoding leaves alone are read as they were added. -/
theorem SearchParam.decodeValue?_of_ofList? {values : List String} {v : ParamValue}
    (hv : ParamValue.ofList? values = some v)
    (h : ∀ value ∈ values, Text.decodeComponent value = value) :
    decodeValue? v = some (ParamValues.ofList values) := by
  match values with
  | [] => simp [ParamValue.ofList?] at hv
  | [value] =>
    obtain rfl := Option.some.inj hv
    rw [decodeValue?, h value List.mem_cons_self]
    rfl
  | first :: second :: rest =>
    obtain rfl := Option.some.inj hv
    have hmap : (first :: second :: rest).map Text.decodeComponent = first :: second :: rest :=
      (List.map_congr_left h).trans (List.map_id' _)
    rw [decodeValue?, List.filterMap_map]
    simp only [Function.comp_def, id, List.filterMap_some, hmap]
    rfl

namespace Bracketed

variable {c : Configuration} {f : Criterion} {k : FilterKey}

/-! ## Comparators -/

/-- Parameters of one operation are read under the comparator with that token. -/
theorem fieldCriterion?_of_operation {field : String} (hk : c.find? field = some k)
    {op : Comparator} {ps : List FieldParam} (hne : ps ≠ [])
    (hop : ∀ p ∈ ps, p.operation = op.token) :
    fieldCriterion? c field ps = some (Criterion.ofParts k field op
      (fieldValue k field op ps).1 (fieldValue k field op ps).2) := by
  cases ps with
  | nil => exact absurd rfl hne
  | cons first rest =>
    simp only [fieldCriterion?, hk, List.head?_cons, Option.bind_eq_bind, Option.bind_some,
      hop first List.mem_cons_self, Comparator.ofToken?_token]

theorem operation_of_mem_fieldParams (h : f.Addressed c) (hrange : f.value.isTimeRange = false)
    {p : FieldParam} (hp : p ∈ fieldParams (Query.ofPairs (pairs f)) c) :
    p.operation = f.comparator.token := by
  obtain ⟨sp, hsp, rfl⟩ := List.mem_map.mp hp
  obtain ⟨param, hparam, hof⟩ := List.mem_filterMap.mp hsp
  obtain ⟨pair, hpair, hname⟩ := Query.exists_pair_of_mem_toList hparam
  obtain ⟨parsed, hparse, -, hop⟩ := parse?_of_mem_pairs h hrange hpair
  have hparsed := parse?_of_ofParam? hof
  rw [← hname, hparse] at hparsed
  rw [operation_fieldParam, ← Option.some.inj hparsed, hop]

theorem fieldParams_ofPairs_ne_nil (h : f.Addressed c) (hrange : f.value.isTimeRange = false)
    (hne : pairs f ≠ []) : fieldParams (Query.ofPairs (pairs f)) c ≠ [] := by
  obtain ⟨pair, hpair⟩ := List.exists_mem_of_ne_nil _ hne
  obtain ⟨-, v, hv, hmem⟩ := Query.exists_valuesOf hpair
  obtain ⟨parsed, hparse, -⟩ := parse?_of_mem_pairs h hrange hpair
  obtain ⟨given, hgiven⟩ : ∃ given, SearchParam.decodeValue? v = some given := by
    cases v with
    | null => exact absurd rfl (ParamValue.ne_null_of_ofList? hv)
    | one value => exact ⟨_, rfl⟩
    | many values => exact ⟨_, rfl⟩
  have hof : SearchParam.ofParam? (pair.1, v) = some ⟨parsed, given⟩ := by
    simp only [SearchParam.ofParam?, hgiven, hparse, Option.bind_eq_bind, Option.bind_some]
  exact List.ne_nil_of_mem (List.mem_map_of_mem (List.mem_filterMap.mpr ⟨_, hmem, hof⟩))

/-- A criterion with an item is read back with its comparator. -/
theorem reread?_of_pairs (h : f.Addressed c) (hrange : f.value.isTimeRange = false)
    (hk : c.find? f.key = some k) (hne : pairs f ≠ []) :
    reread? c f = some (Criterion.ofParts k f.key f.comparator
      (fieldValue k f.key f.comparator (fieldParams (Query.ofPairs (pairs f)) c)).1
      (fieldValue k f.key f.comparator (fieldParams (Query.ofPairs (pairs f)) c)).2) := by
  rw [reread?_of_items hrange]
  apply fieldCriterion?_of_operation hk (fieldParams_ofPairs_ne_nil h hrange hne)
  intro p hp
  exact operation_of_mem_fieldParams h hrange hp

/-- A criterion without items is not read back. -/
theorem reread?_of_pairs_nil (hrange : f.value.isTimeRange = false) (hnil : pairs f = []) :
    reread? c f = none := by
  rw [reread?_of_items hrange, hnil]
  exact fieldCriterion?_nil c f.key

/-! ## Values under one name -/

/-- Only a field of labels has the name of a label. -/
theorem field_of_labelName {name : String} {p : ParamName} (h : ParamName.parse? name = some p)
    {label : String} (hlabel : p.labelName = some label) : p.field = Key.labels := by
  simp only [ParamName.parse?, Option.bind_eq_bind, Option.bind_eq_some_iff] at h
  obtain ⟨rest, -, ⟨field, rest⟩, -, ⟨operation, rest⟩, -, hp⟩ := h
  obtain rfl := Option.some.inj hp
  by_contra hne
  simp [hne] at hlabel

theorem fieldParam_of_field_ne {name : String} {p : ParamName}
    (h : ParamName.parse? name = some p) (hne : fieldName c p ≠ Key.labels)
    (given : ParamValues) :
    fieldParam c ⟨p, given⟩ = ⟨fieldName c p, p.operation, given⟩ := by
  cases hlabel : p.labelName with
  | none => simp [fieldParam, fieldName, hlabel]
  | some label =>
    by_cases hhas : c.has Key.labels = true
    · have hfield : fieldName c p = p.field := by simp [fieldName, hlabel, hhas]
      rw [hfield] at hne
      exact absurd (field_of_labelName h hlabel) hne
    · simp [fieldParam, fieldName, hlabel, hhas]

/-- The items of a criterion on a key other than `labels` are written under one name. -/
theorem itemPair_eq {key : String} (hne : key ≠ Key.labels) (op : Comparator) (item : String) :
    itemPair key op item = ((itemPair key op "").1, item) := by
  unfold itemPair
  rw [if_neg hne, if_neg hne]
  cases Key.after? Key.namedLabel key with
  | some label => rfl
  | none => rfl

/-- Items under one name are one parameter. -/
theorem fieldParams_of_items (h : f.Addressed c) (hrange : f.value.isTimeRange = false)
    (hne : f.key ≠ Key.labels) (hitems : f.value.items ≠ [])
    (hplain : ∀ item ∈ f.value.items, Text.decodeComponent item = item) :
    fieldParams (Query.ofPairs (pairs f)) c =
      [⟨f.key, f.comparator.token, ParamValues.ofList f.value.items⟩] := by
  obtain ⟨v, hv⟩ := ParamValue.exists_ofList? hitems
  have hpairs : pairs f = f.value.items.map ((itemPair f.key f.comparator "").1, ·) := by
    rw [pairs_of_items hrange]
    exact List.map_congr_left fun item _ => itemPair_eq hne f.comparator item
  obtain ⟨parsed, hparse, hfield, hop⟩ := parse?_itemPair h ""
  have hof : SearchParam.ofParam? ((itemPair f.key f.comparator "").1, v) =
      some ⟨parsed, ParamValues.ofList f.value.items⟩ := by
    simp only [SearchParam.ofParam?, SearchParam.decodeValue?_of_ofList? hv hplain, hparse,
      Option.bind_eq_bind, Option.bind_some]
  have hparam := fieldParam_of_field_ne hparse (hfield ▸ hne) (ParamValues.ofList f.value.items)
  rw [hpairs, Query.ofPairs_map_pair hv, fieldParams, SearchParam.ofQuery,
    Query.toList_insert_empty, List.filterMap_cons_some hof, List.filterMap_nil, List.map_singleton,
    hparam, hfield, hop]

/-- A text is read back as it was. -/
theorem fieldValue_of_text {op : Comparator} (htext : (k.isMultiSelect && !op.isText) = false)
    (field operation value : String) :
    (fieldValue k field op [⟨field, operation, ParamValues.ofList [value]⟩]).1 = .text value := by
  simp [fieldValue, htext, ParamValues.ofList, ParamValues.first?, ParamValues.toList]

/-- A list is read back as it was, if it is not a single item with a comma. -/
theorem fieldValue_of_list {op : Comparator} (hlist : (k.isMultiSelect && !op.isText) = true)
    {values : List String} (hcomma : ∀ value, values = [value] → ',' ∉ value.toList)
    (field operation : String) :
    (fieldValue k field op [⟨field, operation, ParamValues.ofList values⟩]).1 = .list values := by
  simp only [fieldValue, hlist, if_true, List.flatMap_cons, List.flatMap_nil, List.append_nil]
  rcases values with _ | ⟨value, _ | ⟨second, rest⟩⟩
  · rfl
  · simp only [ParamValues.ofList, Text.splitOn_of_notMem (hcomma value rfl), List.map_singleton,
      String.ofList_toList, ite_self]
  · rfl

/-! ## Entries of labels -/

/-- The name of a label in an entry, if it has one. -/
def entryName? (entry : String) : Option String :=
  (Text.cut? ':' entry.toList).map fun cut => String.ofList cut.1

/-- An entry of the key `labels` whose name can stand in brackets and whose value, or the whole of
it without a name, is left alone by percent decoding. -/
def IsPlainEntry (entry : String) : Prop :=
  match Text.cut? ':' entry.toList with
  | some (name, value) =>
    ParamName.IsLabelName (String.ofList name) ∧
      Text.decodeComponent (String.ofList value) = String.ofList value
  | none => Text.decodeComponent entry = entry

instance : DecidablePred IsPlainEntry := fun entry =>
  match hcut : Text.cut? ':' entry.toList with
  | some (name, value) =>
    decidable_of_iff (ParamName.IsLabelName (String.ofList name) ∧
      Text.decodeComponent (String.ofList value) = String.ofList value)
      (by rw [IsPlainEntry, hcut])
  | none => decidable_of_iff (Text.decodeComponent entry = entry) (by rw [IsPlainEntry, hcut])

theorem parse?_labelPair_of_plain {entry : String} (h : IsPlainEntry entry) (op : Comparator) :
    ParamName.parse? (labelPair op entry).1 = some ⟨Key.labels, op.token, entryName? entry⟩ := by
  unfold IsPlainEntry at h
  unfold labelPair entryName?
  cases hcut : Text.cut? ':' entry.toList with
  | some cut =>
    rw [hcut] at h
    exact ParamName.parse?_ofLabel_of_isLabelName h.1 op
  | none => exact ParamName.parse?_ofKey ParamName.isField_labels op

theorem decodeComponent_labelPair {entry : String} (h : IsPlainEntry entry) (op : Comparator) :
    Text.decodeComponent (labelPair op entry).2 = (labelPair op entry).2 := by
  unfold IsPlainEntry at h
  unfold labelPair
  cases hcut : Text.cut? ':' entry.toList with
  | some cut =>
    rw [hcut] at h
    exact h.2
  | none =>
    rw [hcut] at h
    exact h

/-- A value with the name of its label in front, as it is read. -/
def withName (label : Option String) (value : String) : String :=
  match label with
  | some label => label ++ ":" ++ value
  | none => value

theorem withName_labelPair (op : Comparator) (entry : String) :
    withName (entryName? entry) (labelPair op entry).2 = entry := by
  unfold labelPair entryName?
  cases hcut : Text.cut? ':' entry.toList with
  | some cut =>
    have hentry := Text.eq_of_cut? hcut
    simp only [Option.map_some, withName]
    rw [← String.toList_inj, hentry]
    simp
  | none => rfl

/-- The values of a parameter carry the name of its label. -/
theorem values_searchParam (p : SearchParam) :
    p.values = p.given.map (withName p.name.labelName) := by
  unfold SearchParam.values
  cases p.name.labelName with
  | none => exact (ParamValues.map_id p.given).symm
  | some label => rfl

/-- The values of a field, which carry the names of their labels where `labels` is a key. -/
theorem values_fieldParam (c : Configuration) (p : SearchParam) :
    (fieldParam c p).values =
      p.given.map (if c.has Key.labels then withName p.name.labelName else id) := by
  unfold fieldParam
  cases hlabel : p.name.labelName with
  | none =>
    have hname : withName none = id := rfl
    rw [hname, ite_self, ParamValues.map_id]
  | some label =>
    by_cases hhas : c.has Key.labels = true
    · simp only [hhas, if_true]
      rw [values_searchParam, hlabel]
    · simp only [hhas]
      exact (ParamValues.map_id p.given).symm

/-- Where `labels` is a key, the values of its fields are read with the names of the labels. -/
theorem toList_values_fieldParam (hhas : c.has Key.labels = true) (p : SearchParam) :
    (fieldParam c p).values.toList = p.given.toList.map (withName p.name.labelName) := by
  rw [values_fieldParam, if_pos hhas, ParamValues.toList_map]

theorem valuesOf_labelPair (name : String) (op : Comparator) (entries : List String) :
    Query.valuesOf name (entries.map (labelPair op)) =
      (entries.filter fun entry => (labelPair op entry).1 == name).map fun entry =>
        (labelPair op entry).2 := by
  simp [Query.valuesOf, List.filter_map, Function.comp_def]

/-- The values under one name are read as the entries with that name, in their order. -/
theorem values_of_labelPair (hhas : c.has Key.labels = true) {op : Comparator}
    {entries : List String} (hplain : ∀ entry ∈ entries, IsPlainEntry entry) {name : String}
    {v : ParamValue} (hget : (Query.ofPairs (entries.map (labelPair op))).get? name = some v) :
    ∃ p, SearchParam.ofParam? (name, v) = some p ∧
      (fieldParam c p).values.toList =
        entries.filter fun entry => (labelPair op entry).1 == name := by
  rw [Query.get?_ofPairs, valuesOf_labelPair] at hget
  have hmem : ∀ entry ∈ entries.filter (fun entry => (labelPair op entry).1 == name),
      IsPlainEntry entry ∧ (labelPair op entry).1 = name := by
    intro entry hentry
    obtain ⟨hentry, hname⟩ := List.mem_filter.mp hentry
    exact ⟨hplain entry hentry, beq_iff_eq.mp hname⟩
  generalize (entries.filter fun entry => (labelPair op entry).1 == name) = group at hget hmem
  have hne : group ≠ [] := by
    rintro rfl
    simp [ParamValue.ofList?] at hget
  obtain ⟨entry, hentry⟩ := List.exists_mem_of_ne_nil group hne
  have hparse : ParamName.parse? name = some ⟨Key.labels, op.token, entryName? entry⟩ := by
    rw [← (hmem entry hentry).2]
    exact parse?_labelPair_of_plain (hmem entry hentry).1 op
  have hdecode : ∀ value ∈ group.map (fun entry => (labelPair op entry).2),
      Text.decodeComponent value = value := by
    intro value hvalue
    obtain ⟨other, hother, rfl⟩ := List.mem_map.mp hvalue
    exact decodeComponent_labelPair (hmem other hother).1 op
  refine ⟨⟨⟨Key.labels, op.token, entryName? entry⟩,
    ParamValues.ofList (group.map fun entry => (labelPair op entry).2)⟩, ?_, ?_⟩
  · simp only [SearchParam.ofParam?, SearchParam.decodeValue?_of_ofList? hget hdecode, hparse,
      Option.bind_eq_bind, Option.bind_some]
  · rw [toList_values_fieldParam hhas, ParamValues.toList_ofList, List.map_map]
    refine (List.map_congr_left ?_).trans (List.map_id' _)
    intro other hother
    -- entries with one name have the same label in it
    have hparse' := parse?_labelPair_of_plain (hmem other hother).1 op
    rw [(hmem other hother).2, hparse] at hparse'
    have hlabel : entryName? entry = entryName? other := by
      simpa using hparse'
    simp only [Function.comp_apply, hlabel]
    exact withName_labelPair op other

/-- Entries of labels are read in the order of the names that they are written under. -/
theorem flatMap_values_labelPair (hhas : c.has Key.labels = true) (op : Comparator)
    {entries : List String} (hplain : ∀ entry ∈ entries, IsPlainEntry entry) :
    (fieldParams (Query.ofPairs (entries.map (labelPair op))) c).flatMap (·.values.toList) =
      sortOn (fun entry => (labelPair op entry).1) entries := by
  have hparams : ∀ param ∈ (Query.ofPairs (entries.map (labelPair op))).toList,
      ∃ p, SearchParam.ofParam? param = some p ∧
        (fieldParam c p).values.toList =
          entries.filter fun entry => (labelPair op entry).1 == param.1 := by
    intro param hparam
    exact values_of_labelPair hhas hplain (Query.mem_toList.mp hparam)
  have hnames : ∀ entry ∈ entries,
      (labelPair op entry).1 ∈ (Query.ofPairs (entries.map (labelPair op))).toList.map (·.1) := by
    intro entry hentry
    have hpair : labelPair op entry ∈ entries.map (labelPair op) := List.mem_map_of_mem hentry
    obtain ⟨-, v, -, hmem⟩ := Query.exists_valuesOf hpair
    exact List.mem_map_of_mem hmem
  have hsorted : ((Query.ofPairs (entries.map (labelPair op))).toList.map (·.1)).Pairwise (· < ·) :=
    List.pairwise_map.mpr (Query.ofPairs (entries.map (labelPair op))).params.sorted
  rw [← flatMap_filter_eq_sortOn hsorted hnames, List.flatMap_map, fieldParams, SearchParam.ofQuery]
  clear hnames hsorted
  generalize (Query.ofPairs (entries.map (labelPair op))).toList = params at hparams
  induction params with
  | nil => rfl
  | cons param rest ih =>
    obtain ⟨p, hp, hvalues⟩ := hparams param List.mem_cons_self
    rw [List.filterMap_cons_some hp, List.map_cons, List.flatMap_cons, hvalues, List.flatMap_cons,
      ih fun other hother => hparams other (List.mem_cons_of_mem param hother)]

/-- The value of the key `labels` is all that is read under it. -/
theorem fieldValue_labels {op : Comparator} (hlist : (k.isMultiSelect && !op.isText) = true)
    (ps : List FieldParam) :
    (fieldValue k Key.labels op ps).1 = .list (ps.flatMap (·.values.toList)) := by
  simp only [fieldValue, hlist, if_true, FilterValue.list.injEq]
  congr 1
  funext p
  cases p.values with
  | one value => rfl
  | many values => rfl

end Bracketed

end FilterBar
