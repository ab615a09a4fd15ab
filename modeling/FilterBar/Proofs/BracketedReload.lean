import FilterBar.Proofs.DateText
import FilterBar.Proofs.Fields
import FilterBar.Proofs.ParamName
import FilterBar.Proofs.Rewriting

/-!
# Reading what the bracketed format has written

The names that a criterion is written under count for its key, and those of a range of time for the
two dates.  So criteria with distinct keys are written under distinct names, and each of them is read
back from its own parameters alone.
-/

namespace FilterBar

/-- The names that a criterion is written under are read as its key, and as the dates of a range. -/
structure Criterion.Addressed (c : Configuration) (f : Criterion) : Prop where
  has : c.has f.key = true
  keepsRange : f.KeepsRange
  isField : ParamName.IsField f.key
  notDate : Key.isDate f.key = false
  isLabelName : ∀ label, Key.after? Key.namedLabel f.key = some label →
    ParamName.IsLabelName label ∧ c.has Key.labels = false

/-- The parameters of a criterion count for a field. -/
def Criterion.ownsField (f : Criterion) (field : String) : Bool :=
  if f.value.isTimeRange then Key.isDate field else field == f.key

namespace Bracketed

variable {c : Configuration} {f : Criterion} {fs : List Criterion} {pair : String × String}

/-! ## Names and their fields -/

theorem parse?_labelPair (op : Comparator) (entry : String) :
    ∃ label, ParamName.parse? (labelPair op entry).1 = some ⟨Key.labels, op.token, label⟩ := by
  unfold labelPair
  cases Text.cut? ':' entry.toList with
  | some cut => exact ⟨_, ParamName.parse?_ofLabel op _⟩
  | none => exact ⟨_, ParamName.parse?_ofKey ParamName.isField_labels op⟩

theorem fieldName_labels (h : c.has Key.labels = true) (operation : String)
    (label : Option String) : fieldName c ⟨Key.labels, operation, label⟩ = Key.labels := by
  cases label with
  | none => rfl
  | some label => simp [fieldName, h]

/-- Each name of a criterion that is no range of time counts for its key. -/
theorem parse?_itemPair (h : f.Addressed c) (item : String) :
    ∃ p, ParamName.parse? (itemPair f.key f.comparator item).1 = some p ∧
      fieldName c p = f.key ∧ p.operation = f.comparator.token := by
  by_cases hlabels : f.key = Key.labels
  · obtain ⟨label, hparse⟩ := parse?_labelPair f.comparator item
    have hhas : c.has Key.labels = true := hlabels ▸ h.has
    refine ⟨_, ?_, fieldName_labels hhas f.comparator.token label |>.trans hlabels.symm, rfl⟩
    rw [itemPair, if_pos hlabels, hparse]
  · cases hname : Key.after? Key.namedLabel f.key with
    | some label =>
      obtain ⟨hlabel, hnone⟩ := h.isLabelName label hname
      refine ⟨⟨Key.labels, f.comparator.token, some label⟩, ?_, ?_, rfl⟩
      · simp only [itemPair, if_neg hlabels, hname]
        exact ParamName.parse?_ofLabel_of_isLabelName hlabel f.comparator
      · simp only [fieldName, hnone, Bool.false_eq_true, if_false]
        exact (Key.after?_eq_some.mp hname).symm
    | none =>
      refine ⟨⟨f.key, f.comparator.token, none⟩, ?_, rfl, rfl⟩
      simp only [itemPair, if_neg hlabels, hname]
      exact ParamName.parse?_ofKey h.isField f.comparator

theorem parse?_of_mem_pairs (h : f.Addressed c) (hrange : f.value.isTimeRange = false)
    (hpair : pair ∈ pairs f) :
    ∃ p, ParamName.parse? pair.1 = some p ∧ fieldName c p = f.key ∧
      p.operation = f.comparator.token := by
  rw [pairs_of_items hrange] at hpair
  obtain ⟨item, -, rfl⟩ := List.mem_map.mp hpair
  exact parse?_itemPair h item

theorem fieldOf?_of_mem_pairs (h : f.Addressed c) (hrange : f.value.isTimeRange = false)
    (hpair : pair ∈ pairs f) : fieldOf? c pair.1 = some f.key := by
  obtain ⟨p, hparse, hfield, -⟩ := parse?_of_mem_pairs h hrange hpair
  rw [fieldOf?, hparse, Option.map_some, hfield]

theorem fieldOf?_ofKey {key : String} (h : ParamName.IsField key) (c : Configuration)
    (op : Comparator) : fieldOf? c (ParamName.ofKey key op) = some key := by
  rw [fieldOf?, ParamName.parse?_ofKey h]
  rfl

theorem isField_startDate : ParamName.IsField Key.startDate := by
  decide +kernel

theorem isField_endDate : ParamName.IsField Key.endDate := by
  decide +kernel

theorem ownsField_of_isDate {start stop : Instant} (hvalue : f.value = .timeRange start stop)
    {field : String} (hdate : Key.isDate field = true) : f.ownsField field = true := by
  simpa [Criterion.ownsField, hvalue, FilterValue.isTimeRange] using hdate

/-- The field that a name of a criterion counts for is one of its own. -/
theorem ownsField_of_mem_pairs (h : f.Addressed c) (hpair : pair ∈ pairs f) :
    ∃ field, fieldOf? c pair.1 = some field ∧ f.ownsField field = true := by
  rcases f.value.isTimeRange_or with hrange | ⟨start, stop, hvalue⟩
  · refine ⟨f.key, fieldOf?_of_mem_pairs h hrange hpair, ?_⟩
    simp [Criterion.ownsField, hrange]
  · rw [pairs_of_timeRange hvalue] at hpair
    rcases List.mem_pair.mp hpair with rfl | rfl
    · exact ⟨Key.startDate, fieldOf?_ofKey isField_startDate c _, ownsField_of_isDate hvalue rfl⟩
    · exact ⟨Key.endDate, fieldOf?_ofKey isField_endDate c _, ownsField_of_isDate hvalue rfl⟩

theorem eq_key_of_ownsField (hrange : f.value.isTimeRange = false) {field : String}
    (h : f.ownsField field = true) : field = f.key := by
  simpa [Criterion.ownsField, hrange] using h

theorem isDate_of_ownsField (hrange : f.value.isTimeRange = true) {field : String}
    (h : f.ownsField field = true) : Key.isDate field = true := by
  simpa [Criterion.ownsField, hrange] using h

/-- A field belongs to the criteria of one key only. -/
theorem key_eq_of_ownsField {g : Criterion} (hf : f.Addressed c) (hg : g.Addressed c)
    {field : String} (hfield : f.ownsField field = true) (hfield' : g.ownsField field = true) :
    f.key = g.key := by
  by_cases hrange : f.value.isTimeRange = true
  · by_cases hrange' : g.value.isTimeRange = true
    · rw [hf.keepsRange hrange, hg.keepsRange hrange']
    · have hkey := eq_key_of_ownsField (Bool.eq_false_iff.mpr hrange') hfield'
      have hdate := isDate_of_ownsField hrange hfield
      rw [hkey, hg.notDate] at hdate
      contradiction
  · have hkey := eq_key_of_ownsField (Bool.eq_false_iff.mpr hrange) hfield
    by_cases hrange' : g.value.isTimeRange = true
    · have hdate := isDate_of_ownsField hrange' hfield'
      rw [hkey, hf.notDate] at hdate
      contradiction
    · exact hkey.symm.trans (eq_key_of_ownsField (Bool.eq_false_iff.mpr hrange') hfield')

/-! ## The parameters of a field in what is written -/

/-- Criteria with distinct keys share no name. -/
theorem pairwise_names_of_addressed (hkeys : (fs.map Criterion.key).Nodup)
    (h : ∀ f ∈ fs, f.Addressed c) :
    fs.Pairwise fun f g => ∀ pair ∈ pairs g, pair.1 ∉ (pairs f).map (·.1) := by
  have hne : fs.Pairwise fun f g => f.key ≠ g.key := List.pairwise_map.mp hkeys
  refine hne.imp_of_mem ?_
  intro f g hf hg hkey pair hpair hmem
  obtain ⟨pair', hpair', hname⟩ := List.mem_map.mp hmem
  obtain ⟨field, hfield, hown⟩ := ownsField_of_mem_pairs (h g hg) hpair
  obtain ⟨field', hfield', hown'⟩ := ownsField_of_mem_pairs (h f hf) hpair'
  rw [hname, hfield] at hfield'
  obtain rfl := Option.some.inj hfield'
  exact hkey (key_eq_of_ownsField (h f hf) (h g hg) hown' hown)

theorem encode_eq_ofPairs_of_addressed (hkeys : (fs.map Criterion.key).Nodup)
    (h : ∀ f ∈ fs, f.Addressed c) : encode fs = Query.ofPairs (fs.flatMap pairs) :=
  encode_eq_ofPairs (pairwise_names_of_addressed hkeys h)

/-- The parameters of a field are made of the pairs whose names count for it. -/
theorem filter_fieldParams_encode (hkeys : (fs.map Criterion.key).Nodup)
    (h : ∀ f ∈ fs, f.Addressed c) (field : String) :
    (fieldParams (encode fs) c).filter (·.field == field) =
      fieldParams (Query.ofPairs ((fs.flatMap pairs).filter fun pair =>
        (fieldOf? c pair.1).any (· == field))) c := by
  rw [filter_fieldParams _ c (· == field), encode_eq_ofPairs_of_addressed hkeys h,
    Query.retain_ofPairs fun name => (fieldOf? c name).any (· == field)]

theorem any_fieldOf?_eq_false (h : f.Addressed c) {field : String}
    (hfield : f.ownsField field = false) (hpair : pair ∈ pairs f) :
    (fieldOf? c pair.1).any (· == field) = false := by
  obtain ⟨other, hother, hown⟩ := ownsField_of_mem_pairs h hpair
  have hne : other ≠ field := by
    rintro rfl
    rw [hfield] at hown
    contradiction
  simpa [hother] using hne

/-- A field of one criterion has the parameters of that criterion only. -/
theorem filter_fieldParams_of_owner (hkeys : (fs.map Criterion.key).Nodup)
    (h : ∀ f ∈ fs, f.Addressed c) (hf : f ∈ fs) {field : String}
    (hfield : f.ownsField field = true) :
    (fieldParams (encode fs) c).filter (·.field == field) =
      fieldParams (Query.ofPairs ((pairs f).filter fun pair =>
        (fieldOf? c pair.1).any (· == field))) c := by
  rw [filter_fieldParams_encode hkeys h, filter_flatMap_of_owner hkeys hf]
  intro g hg hne pair hpair
  apply any_fieldOf?_eq_false (h g hg) _ hpair
  rw [Bool.eq_false_iff]
  intro hown
  exact hne (key_eq_of_ownsField (h g hg) (h f hf) hown hfield)

theorem filter_fieldParams_of_no_owner (hkeys : (fs.map Criterion.key).Nodup)
    (h : ∀ f ∈ fs, f.Addressed c) {field : String} (hfield : ∀ f ∈ fs, f.ownsField field = false) :
    (fieldParams (encode fs) c).filter (·.field == field) = [] := by
  have hnone : (fs.flatMap pairs).filter (fun pair => (fieldOf? c pair.1).any (· == field)) = [] := by
    rw [List.filter_eq_nil_iff]
    intro pair hpair hany
    obtain ⟨f, hf, hmem⟩ := List.mem_flatMap.mp hpair
    rw [any_fieldOf?_eq_false (h f hf) (hfield f hf) hmem] at hany
    contradiction
  rw [filter_fieldParams_encode hkeys h, hnone]
  rfl

/-! ## Dates -/

/-- One parameter with a value that is left as it is by decoding. -/
theorem fieldParams_ofPairs_date {field : String} (hfield : ParamName.IsField field)
    (c : Configuration) (op : Comparator) (t : Instant) :
    fieldParams (Query.ofPairs [(ParamName.ofKey field op, String.ofList t.millisText)]) c =
      [⟨field, op.token, .one (String.ofList t.millisText)⟩] := by
  have hparam : SearchParam.ofParam? (ParamName.ofKey field op, .one (String.ofList t.millisText)) =
      some ⟨⟨field, op.token, none⟩, .one (String.ofList t.millisText)⟩ := by
    simp only [SearchParam.ofParam?, SearchParam.decodeValue?, ParamName.parse?_ofKey hfield,
      t.decodeComponent_millisText]
    rfl
  have hvalue : ParamValue.ofList? [String.ofList t.millisText] =
      some (.one (String.ofList t.millisText)) := rfl
  have hquery := Query.ofPairs_map_pair hvalue (ParamName.ofKey field op)
  rw [List.map_singleton] at hquery
  rw [hquery, fieldParams, SearchParam.ofQuery, Query.toList_insert_empty,
    List.filterMap_cons_some hparam]
  rfl

theorem dateOf?_of_filter {q : Query} {ps : List FieldParam} {field operation date : String}
    (h : ps.filter (·.field == field) = [⟨field, operation, .one date⟩]) :
    dateOf? q ps field = some (operation, date) := by
  rw [dateOf?, h]
  rfl

/-- The dates of a range of time are read back with its comparator. -/
theorem timeRange?_encode_of_timeRange (hkeys : (fs.map Criterion.key).Nodup)
    (h : ∀ f ∈ fs, f.Addressed c) (hf : f ∈ fs) (hyears : f.HasFourDigitYears)
    {start stop : Instant} (hvalue : f.value = .timeRange start stop) :
    timeRange? (encode fs) c (fieldParams (encode fs) c) =
      (c.find? Key.timeRange).map fun k =>
        Criterion.ofTimeRange k start.wholeMillis stop.wholeMillis f.comparator := by
  rw [Criterion.HasFourDigitYears, hvalue] at hyears
  have hne : Key.startDate ≠ Key.endDate := by decide
  have hstart : dateOf? (encode fs) (fieldParams (encode fs) c) Key.startDate =
      some (f.comparator.token, String.ofList start.millisText) := by
    apply dateOf?_of_filter
    rw [filter_fieldParams_of_owner hkeys h hf (ownsField_of_isDate hvalue rfl), pairs_of_timeRange hvalue,
      List.filter_cons_of_pos, List.filter_cons_of_neg, List.filter_nil,
      fieldParams_ofPairs_date isField_startDate]
    · simp [fieldOf?_ofKey isField_endDate, Ne.symm hne]
    · simp [fieldOf?_ofKey isField_startDate]
  have hstop : dateOf? (encode fs) (fieldParams (encode fs) c) Key.endDate =
      some (f.comparator.token, String.ofList stop.millisText) := by
    apply dateOf?_of_filter
    rw [filter_fieldParams_of_owner hkeys h hf (ownsField_of_isDate hvalue rfl), pairs_of_timeRange hvalue,
      List.filter_cons_of_neg, List.filter_cons_of_pos, List.filter_nil,
      fieldParams_ofPairs_date isField_endDate]
    · simp [fieldOf?_ofKey isField_endDate]
    · simp [fieldOf?_ofKey isField_startDate, hne]
  simp only [timeRange?, hstart, hstop, Option.bind_eq_bind, Option.bind_some,
    start.parse?_millisText hyears.1, stop.parse?_millisText hyears.2, Comparator.ofToken?_token]
  cases c.find? Key.timeRange <;> rfl

/-- Without a range of time no date is read. -/
theorem timeRange?_encode_of_none (hkeys : (fs.map Criterion.key).Nodup)
    (h : ∀ f ∈ fs, f.Addressed c) (hnone : ∀ f ∈ fs, f.value.isTimeRange = false) :
    timeRange? (encode fs) c (fieldParams (encode fs) c) = none := by
  have hfields : (fieldParams (encode fs) c).filter (·.field == Key.startDate) = [] := by
    apply filter_fieldParams_of_no_owner hkeys h
    intro f hf
    rw [Bool.eq_false_iff]
    intro hown
    have hdate := (h f hf).notDate
    rw [← eq_key_of_ownsField (hnone f hf) hown] at hdate
    exact absurd hdate (by decide)
  have hbare : (encode fs).get? Key.startDate = none := by
    apply get?_encode_of_notMem
    intro f _ hmem
    obtain ⟨pair, hpair, hname⟩ := List.mem_map.mp hmem
    have hopening := opening_of_mem_pairs hpair
    rw [hname] at hopening
    exact absurd hopening (by decide)
  have hdate : dateOf? (encode fs) (fieldParams (encode fs) c) Key.startDate = none := by
    rw [dateOf?, hfields, Query.first?, hbare]
    rfl
  rw [timeRange?, hdate]
  rfl

/-! ## Each criterion is read back from its own parameters -/

/-- The criterion that is read back from what a criterion is written as. -/
def reread? (c : Configuration) (f : Criterion) : Option Criterion :=
  match f.value with
  | .timeRange start stop =>
    (c.find? Key.timeRange).map fun k =>
      Criterion.ofTimeRange k start.wholeMillis stop.wholeMillis f.comparator
  | _ => fieldCriterion? c f.key (fieldParams (Query.ofPairs (pairs f)) c)

theorem reread?_of_items (hrange : f.value.isTimeRange = false) :
    reread? c f = fieldCriterion? c f.key (fieldParams (Query.ofPairs (pairs f)) c) := by
  cases hvalue : f.value with
  | timeRange start stop => simp [hvalue, FilterValue.isTimeRange] at hrange
  | text value => rw [reread?, hvalue]
  | list values => rw [reread?, hvalue]

theorem reread?_of_timeRange {start stop : Instant} (hvalue : f.value = .timeRange start stop) :
    reread? c f = (c.find? Key.timeRange).map fun k =>
      Criterion.ofTimeRange k start.wholeMillis stop.wholeMillis f.comparator := by
  rw [reread?, hvalue]

/-- What is read back is on the key that was written. -/
theorem key_of_reread? (h : f.Addressed c) {g : Criterion} (hg : reread? c f = some g) :
    g.key = f.key := by
  rcases f.value.isTimeRange_or with hrange | ⟨start, stop, hvalue⟩
  · rw [reread?_of_items hrange] at hg
    exact key_of_fieldCriterion? hg
  · rw [reread?_of_timeRange hvalue] at hg
    obtain ⟨k, -, rfl⟩ := Option.map_eq_some_iff.mp hg
    exact (h.keepsRange (by rw [hvalue]; rfl)).symm

theorem fieldCriterion?_encode (hkeys : (fs.map Criterion.key).Nodup)
    (h : ∀ f ∈ fs, f.Addressed c) (hf : f ∈ fs) (hrange : f.value.isTimeRange = false) :
    fieldCriterion? c f.key ((fieldParams (encode fs) c).filter (·.field == f.key)) =
      reread? c f := by
  have hown : f.ownsField f.key = true := by simp [Criterion.ownsField, hrange]
  have hall : (pairs f).filter (fun pair => (fieldOf? c pair.1).any (· == f.key)) = pairs f := by
    rw [List.filter_eq_self]
    intro pair hpair
    simp [fieldOf?_of_mem_pairs (h f hf) hrange hpair]
  rw [filter_fieldParams_of_owner hkeys h hf hown, hall, reread?_of_items hrange]

theorem mem_fieldCriteria_encode (hkeys : (fs.map Criterion.key).Nodup)
    (h : ∀ f ∈ fs, f.Addressed c) {g : Criterion} :
    g ∈ fieldCriteria c (fieldParams (encode fs) c) ↔
      ∃ f ∈ fs, f.value.isTimeRange = false ∧ reread? c f = some g := by
  rw [mem_fieldCriteria]
  constructor
  · rintro ⟨hdate, hg⟩
    by_cases howner : ∃ f ∈ fs, f.ownsField g.key = true
    · obtain ⟨f, hf, hown⟩ := howner
      have hrange : f.value.isTimeRange = false := by
        rw [Bool.eq_false_iff]
        intro hrange
        rw [isDate_of_ownsField hrange hown] at hdate
        contradiction
      rw [eq_key_of_ownsField hrange hown, fieldCriterion?_encode hkeys h hf hrange] at hg
      exact ⟨f, hf, hrange, hg⟩
    · have hnone : ∀ f ∈ fs, f.ownsField g.key = false := by
        intro f hf
        rw [Bool.eq_false_iff]
        intro hown
        exact howner ⟨f, hf, hown⟩
      rw [filter_fieldParams_of_no_owner hkeys h hnone, fieldCriterion?_nil] at hg
      contradiction
  · rintro ⟨f, hf, hrange, hg⟩
    rw [key_of_reread? (h f hf) hg, fieldCriterion?_encode hkeys h hf hrange]
    exact ⟨(h f hf).notDate, hg⟩

/-- What is read from a written query is what is read back from each criterion. -/
theorem mem_decode_encode (hkeys : (fs.map Criterion.key).Nodup) (h : ∀ f ∈ fs, f.Addressed c)
    (hyears : ∀ f ∈ fs, f.HasFourDigitYears) {g : Criterion} :
    g ∈ decode (encode fs) c ↔ ∃ f ∈ fs, reread? c f = some g := by
  rw [mem_decode, mem_fieldCriteria_encode hkeys h]
  by_cases hranges : ∃ r ∈ fs, r.value.isTimeRange = true
  · obtain ⟨r, hr, hrange⟩ := hranges
    have hread : timeRange? (encode fs) c (fieldParams (encode fs) c) = reread? c r := by
      obtain ⟨start, stop, hvalue⟩ := FilterValue.exists_of_isTimeRange hrange
      rw [timeRange?_encode_of_timeRange hkeys h hr (hyears r hr) hvalue,
        reread?_of_timeRange hvalue]
    rw [hread]
    constructor
    · rintro (hg | ⟨⟨f, hf, -, hg⟩, -⟩)
      · exact ⟨r, hr, hg⟩
      · exact ⟨f, hf, hg⟩
    · rintro ⟨f, hf, hg⟩
      by_cases hfr : f = r
      · exact Or.inl (hfr ▸ hg)
      -- no second criterion has the key of the range
      · have hkey : f.key ≠ Key.timeRange := by
          rw [← (h r hr).keepsRange hrange]
          intro hkey
          exact hfr (Keyed.eq_of_key_eq hkeys hf hr hkey)
        have hrange' : f.value.isTimeRange = false := by
          rw [Bool.eq_false_iff]
          intro hrange'
          exact hkey ((h f hf).keepsRange hrange')
        refine Or.inr ⟨⟨f, hf, hrange', hg⟩, fun _ _ => ?_⟩
        rw [key_of_reread? (h f hf) hg]
        exact hkey
  · have hnone : ∀ f ∈ fs, f.value.isTimeRange = false := by
      intro f hf
      rw [Bool.eq_false_iff]
      intro hrange
      exact hranges ⟨f, hf, hrange⟩
    rw [timeRange?_encode_of_none hkeys h hnone]
    constructor
    · rintro (hg | ⟨⟨f, hf, -, hg⟩, -⟩)
      · contradiction
      · exact ⟨f, hf, hg⟩
    · rintro ⟨f, hf, hg⟩
      refine Or.inr ⟨⟨f, hf, hnone f hf, hg⟩, ?_⟩
      intro range hread
      contradiction

/-- Each criterion is read back from its own parameters, and nothing else is read. -/
theorem decode_encode_perm (hkeys : (fs.map Criterion.key).Nodup) (h : ∀ f ∈ fs, f.Addressed c)
    (hyears : ∀ f ∈ fs, f.HasFourDigitYears) :
    (decode (encode fs) c).Perm (fs.filterMap (reread? c)) := by
  have hreread : ((fs.filterMap (reread? c)).map Criterion.key).Nodup := by
    refine (Keyed.map_filterMap_sublist ?_).nodup hkeys
    intro f hf g hg
    exact key_of_reread? (h f hf) hg
  refine (List.perm_ext_iff_of_nodup (nodup_keys_decode _ c).of_map hreread.of_map).mpr ?_
  intro g
  rw [mem_decode_encode hkeys h hyears, List.mem_filterMap]

end Bracketed

end FilterBar
