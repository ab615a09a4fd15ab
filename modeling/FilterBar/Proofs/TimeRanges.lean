import FilterBar.Proofs.FieldParams
import FilterBar.Proofs.FlatParams
import FilterBar.View.Configuration

/-!
# The range of time of a query

A query is read as a range of time exactly where both of its ends can be read and `timeRange` is a
key.  In the bracketed format an end is taken from the last parameter of its field, and from the bare
name only where the field has no parameter; in the flat format there is nothing but the bare name.
The range is then the only filter on its key: it takes the place of a duration.
-/

namespace FilterBar

namespace Keyed

variable {α : Type} {key : α → String} {x : α} {xs : List α}

/-- Where keys are distinct, a member is the only one with its key. -/
theorem filter_key_eq_singleton (h : (xs.map key).Nodup) (hx : x ∈ xs) :
    (xs.filter fun y => key y = key x) = [x] := by
  obtain ⟨before, after, rfl⟩ := List.append_of_mem hx
  have hothers := key_ne_of_nodup h
  have hnone : (before ++ after).filter (fun y => key y = key x) = [] := by
    rw [List.filter_eq_nil_iff]
    intro y hy
    simpa using hothers y hy
  rw [List.filter_append, List.append_eq_nil_iff] at hnone
  rw [List.filter_append, List.filter_cons_of_pos (by simp), hnone.1, hnone.2, List.nil_append]

/-- A member that is added after all others with its key are dropped is the only one with it. -/
theorem filter_drop_append (key : α → String) (x : α) (xs : List α) :
    ((drop key (key x) xs ++ [x]).filter fun y => key y = key x) = [x] := by
  have hnone : (drop key (key x) xs).filter (fun y => key y = key x) = [] := by
    rw [List.filter_eq_nil_iff]
    intro y hy
    simpa using (List.mem_filter.mp hy).2
  rw [List.filter_append, hnone, List.nil_append, List.filter_cons_of_pos (by simp),
    List.filter_nil]

end Keyed

/-! ## What counts for the ends of a range -/

/-- The filter parameters with a value whose field is that of a date, in the order of their names. -/
def dateParams (q : Query) (field : String) : List (String × ParamValue) :=
  q.toList.filter fun param =>
    (ParamName.parse? param.1).any (·.field == field) && !param.2.isNull

/-- The date in a parameter: its first value without escapes, and the empty text if it has none. -/
def dateText (v : ParamValue) : String :=
  (v.first?.map Text.decodeComponent).getD ""

/-- The text that counts for one end of a range of time. -/
def endText? (q : Query) : UrlFormat → String → Option String
  | .bracketed, field =>
    match (dateParams q field).getLast? with
    | some param => some (dateText param.2)
    | none => q.first? field
  | .flat, field => q.first? field

/-- The operation that stands with one end of a range of time; the bare name has that of equality. -/
def endOperation (q : Query) : UrlFormat → String → String
  | .bracketed, field =>
    match (dateParams q field).getLast? with
    | some param => (Bracketed.operationOf? param.1).getD ""
    | none => Comparator.equals.token
  | .flat, _ => Comparator.equals.token

/-- One end of a range of time: what counts for it can be read as an instant. -/
def rangeEnd? (q : Query) (format : UrlFormat) (field : String) : Option Instant :=
  (endText? q format field).bind Instant.parse?

/-- The comparator of a range of time: that of its start, or equality if there is no such one. -/
def rangeComparator (q : Query) (format : UrlFormat) : Comparator :=
  (Comparator.ofToken? (endOperation q format Key.startDate)).getD .equals

namespace Bracketed

variable {q : Query} {c : Configuration} {field : String} {param : String × ParamValue}

/-- A name counts for a date only as the name of that field, and then without a label. -/
theorem fieldName_eq_iff_of_isDate (hdate : Key.isDate field = true) {name : String}
    {p : ParamName} (h : ParamName.parse? name = some p) :
    fieldName c p = field ↔ p.field = field := by
  have hlabels : Key.labels ≠ field := by
    rintro rfl
    exact absurd hdate (by decide)
  cases hlabel : p.labelName with
  | none => rw [fieldName, hlabel]
  | some label =>
    have hnamed : Key.namedLabel ++ label ≠ field := by
      have hhead : (Key.namedLabel ++ label).toList.head? = some 'l' := by
        rw [String.toList_append, List.head?_append_of_ne_nil _ (by decide)]
        decide
      rintro rfl
      rw [Key.isDate_eq_false (by rw [hhead]; decide) (by rw [hhead]; decide)] at hdate
      contradiction
    have hfield := field_of_labelName h hlabel
    by_cases hhas : c.has Key.labels = true
    · simp only [fieldName, hlabel, hhas, if_true]
    · simp only [fieldName, hlabel, hhas, hfield]
      exact iff_of_false hnamed hlabels

theorem labelName_of_isDate (hdate : Key.isDate field = true) {name : String} {p : ParamName}
    (h : ParamName.parse? name = some p) (hfield : p.field = field) : p.labelName = none := by
  cases hlabel : p.labelName with
  | none => rfl
  | some label =>
    rw [← hfield, field_of_labelName h hlabel] at hdate
    exact absurd hdate (by decide)

theorem paramsOf_of_isDate (hdate : Key.isDate field = true) (q : Query) (c : Configuration) :
    paramsOf q c field = dateParams q field := by
  apply List.filter_congr
  intro param _
  congr 1
  rw [fieldOf?]
  cases hparse : ParamName.parse? param.1 with
  | none => rfl
  | some p =>
    rw [Option.map_some, Option.some_beq_some, Option.any_some, Bool.eq_iff_iff, beq_iff_eq,
      beq_iff_eq, fieldName_eq_iff_of_isDate hdate hparse]

theorem exists_of_mem_dateParams (h : param ∈ dateParams q field) :
    ∃ p, ParamName.parse? param.1 = some p ∧ p.field = field := by
  obtain ⟨-, hparam⟩ := List.mem_filter.mp h
  obtain ⟨hany, -⟩ := Bool.and_eq_true_iff.mp hparam
  cases hparse : ParamName.parse? param.1 with
  | none =>
    rw [hparse] at hany
    contradiction
  | some p =>
    rw [hparse, Option.any_some, beq_iff_eq] at hany
    exact ⟨p, rfl, hany⟩

theorem readValues_of_isDate (hdate : Key.isDate field = true) (h : param ∈ dateParams q field) :
    readValues c param = param.2.values.map Text.decodeComponent := by
  obtain ⟨p, hparse, hfield⟩ := exists_of_mem_dateParams h
  apply List.map_congr_left
  intro value _
  rw [readValue_of_parse? hparse, labelName_of_isDate hdate hparse hfield]
  split
  · rfl
  · rfl

theorem dateOf?_fieldParams (hdate : Key.isDate field = true) (q : Query) (c : Configuration) :
    dateOf? q (fieldParams q c) field =
      (endText? q .bracketed field).map fun date => (endOperation q .bracketed field, date) := by
  have hlast := getLast?_fieldParams q c field
  rw [paramsOf_of_isDate hdate] at hlast
  rw [dateOf?, endText?, endOperation]
  cases hparams : (dateParams q field).getLast? with
  | none =>
    rw [hparams, Option.map_none, Option.map_eq_none_iff] at hlast
    rw [hlast]
  | some param =>
    rw [hparams, Option.map_some, Option.map_eq_some_iff] at hlast
    obtain ⟨p, hp, hread⟩ := hlast
    have hvalues := values_of_readParam? hread.symm
    rw [readValues_of_isDate hdate (List.mem_of_getLast? hparams)] at hvalues
    simp only [hp, operation_of_readParam? hread.symm, Option.map_some, Option.getD_some,
      ParamValues.first?, hvalues, List.head?_map, dateText, ParamValue.first?]

end Bracketed

/-- The range of time of a query. -/
def rangeCriterion? (q : Query) (c : Configuration) : UrlFormat → Option Criterion
  | .bracketed => Bracketed.timeRange? q c (Bracketed.fieldParams q c)
  | .flat => Flat.timeRange? q c

variable {q : Query} {c : Configuration} {format : UrlFormat} {g : Criterion}

/-- A range of time is read from its two ends. -/
theorem rangeCriterion?_eq_some : rangeCriterion? q c format = some g ↔
    ∃ k start stop, c.find? Key.timeRange = some k ∧
      rangeEnd? q format Key.startDate = some start ∧
      rangeEnd? q format Key.endDate = some stop ∧
      g = Criterion.ofTimeRange k start stop (rangeComparator q format) := by
  cases format with
  | bracketed =>
    simp only [rangeCriterion?, Bracketed.timeRange?, rangeEnd?, rangeComparator,
      Bracketed.dateOf?_fieldParams (show Key.isDate Key.startDate = true by decide),
      Bracketed.dateOf?_fieldParams (show Key.isDate Key.endDate = true by decide),
      Option.bind_eq_bind, Option.bind_eq_some_iff, Option.map_eq_some_iff, Option.some.injEq]
    constructor
    · rintro ⟨_, ⟨a, ha, rfl⟩, _, ⟨b, hb, rfl⟩, k, hk, start, hstart, stop, hstop, rfl⟩
      exact ⟨k, start, stop, hk, ⟨a, ha, hstart⟩, ⟨b, hb, hstop⟩, rfl⟩
    · rintro ⟨k, start, stop, hk, ⟨a, ha, hstart⟩, ⟨b, hb, hstop⟩, rfl⟩
      exact ⟨_, ⟨a, ha, rfl⟩, _, ⟨b, hb, rfl⟩, k, hk, start, hstart, stop, hstop, rfl⟩
  | flat =>
    have hequals : rangeComparator q .flat = .equals := by
      rw [rangeComparator, endOperation, Comparator.ofToken?_token, Option.getD_some]
    simp only [rangeCriterion?, Flat.timeRange?, rangeEnd?, endText?, hequals,
      Option.bind_eq_bind, Option.bind_eq_some_iff, Option.some.injEq]
    constructor
    · rintro ⟨a, ha, start, hstart, b, hb, stop, hstop, k, hk, rfl⟩
      exact ⟨k, start, stop, hk, ⟨a, ha, hstart⟩, ⟨b, hb, hstop⟩, rfl⟩
    · rintro ⟨k, start, stop, hk, ⟨a, ha, hstart⟩, ⟨b, hb, hstop⟩, rfl⟩
      exact ⟨a, ha, start, hstart, b, hb, stop, hstop, k, hk, rfl⟩

/-- The filters with a range of time as their value are the range of time of the query. -/
theorem mem_decodeCriteria_isTimeRange :
    (g ∈ decodeCriteria q c format ∧ g.value.isTimeRange = true) ↔
      rangeCriterion? q c format = some g := by
  cases format with
  | bracketed =>
    rw [decodeCriteria, Bracketed.mem_decode, rangeCriterion?]
    constructor
    · rintro ⟨hrange | ⟨hfield, -⟩, hvalue⟩
      · exact hrange
      · rw [Bracketed.isTimeRange_of_mem_fieldCriteria hfield] at hvalue
        contradiction
    · intro hrange
      exact ⟨Or.inl hrange, Bracketed.isTimeRange_of_timeRange? hrange⟩
  | flat =>
    rw [decodeCriteria, Flat.mem_decode, rangeCriterion?]
    constructor
    · rintro ⟨hrange | ⟨hparam | hdetails, -⟩, hvalue⟩
      · exact hrange
      · obtain ⟨param, -, hparam⟩ := List.mem_filterMap.mp hparam
        rw [Flat.isTimeRange_of_paramCriterion? hparam] at hvalue
        contradiction
      · rw [Flat.isTimeRange_of_details? hdetails] at hvalue
        contradiction
    · intro hrange
      exact ⟨Or.inl hrange, Flat.isTimeRange_of_timeRange? hrange⟩

/-- The range of time of a query is the only filter on its key. -/
theorem filter_decodeCriteria_of_rangeCriterion? (h : rangeCriterion? q c format = some g) :
    (decodeCriteria q c format).filter (fun f => f.key = Key.timeRange) = [g] := by
  cases format with
  | bracketed =>
    have hmem : g ∈ Bracketed.decode q c := Bracketed.mem_decode.mpr (Or.inl h)
    have honly := Keyed.filter_key_eq_singleton (Bracketed.nodup_keys_decode q c) hmem
    rwa [Bracketed.key_of_timeRange? h] at honly
  | flat =>
    have hdecode : Flat.decode q c =
        Keyed.drop Criterion.key Key.timeRange
          (q.toList.filterMap (Flat.paramCriterion? c) ++ (Flat.details? q c).toList) ++ [g] := by
      rw [Flat.decode, show Flat.timeRange? q c = some g from h]
    rw [decodeCriteria, hdecode, ← Flat.key_of_timeRange? h]
    exact Keyed.filter_drop_append Criterion.key g _

/-- A query is read as a filter with a range of time exactly where `timeRange` is a key and both ends
can be read.  Such a filter has that key and these two ends, and no other filter has the key. -/
theorem timeRange_of_query (q : Query) (c : Configuration) (format : UrlFormat) :
    ((∃ f ∈ decodeCriteria q c format, f.value.isTimeRange = true) ↔
      c.has Key.timeRange = true ∧ (rangeEnd? q format Key.startDate).isSome = true ∧
        (rangeEnd? q format Key.endDate).isSome = true) ∧
    ∀ f ∈ decodeCriteria q c format, f.value.isTimeRange = true →
      f.key = Key.timeRange ∧
      (∃ start stop, rangeEnd? q format Key.startDate = some start ∧
        rangeEnd? q format Key.endDate = some stop ∧ f.value = .timeRange start stop) ∧
      (decodeCriteria q c format).filter (fun g => g.key = Key.timeRange) = [f] := by
  constructor
  · rw [Configuration.has_iff_find?, Option.isSome_iff_exists, Option.isSome_iff_exists]
    constructor
    · rintro ⟨f, hf⟩
      obtain ⟨k, start, stop, hk, hstart, hstop, -⟩ :=
        rangeCriterion?_eq_some.mp (mem_decodeCriteria_isTimeRange.mp hf)
      exact ⟨⟨k, hk⟩, ⟨start, hstart⟩, ⟨stop, hstop⟩⟩
    · rintro ⟨⟨k, hk⟩, ⟨start, hstart⟩, ⟨stop, hstop⟩⟩
      have hrange := rangeCriterion?_eq_some.mpr ⟨k, start, stop, hk, hstart, hstop, rfl⟩
      exact ⟨_, mem_decodeCriteria_isTimeRange.mpr hrange⟩
  · intro f hf hvalue
    have hrange := mem_decodeCriteria_isTimeRange.mp ⟨hf, hvalue⟩
    have honly := filter_decodeCriteria_of_rangeCriterion? hrange
    obtain ⟨k, start, stop, -, hstart, hstop, rfl⟩ := rangeCriterion?_eq_some.mp hrange
    exact ⟨rfl, ⟨start, stop, hstart, hstop, rfl⟩, honly⟩

/-- A start under two operations, of which the last one counts, a bare end, and a duration that the
range displaces. -/
example :
    let q := Query.ofList [("filters[timeRange][EQUALS]", .one "PT24H"),
      ("filters[startDate][LESS_THAN]", .one "2024-03-02T00:00:00Z"),
      ("filters[startDate][GREATER_THAN]", .one "2024-03-01T00:00:00Z"),
      ("endDate", .one "2024-03-09T00:00:00Z")]
    (decodeCriteria q View.executions.configuration .bracketed).map (fun f => (f.key, f.valueLabel)) =
      [(Key.timeRange, "2024-03-02 - 2024-03-09")] := by
  decide +kernel

end FilterBar
