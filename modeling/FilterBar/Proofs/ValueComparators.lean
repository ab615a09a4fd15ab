import FilterBar.Proofs.ReadValues
import FilterBar.Proofs.TimeRanges

/-!
# Values and the comparator they are read under

The bracketed format collects the parameters of a field into one filter, whose comparator is that of
the first of them.  A text is taken from this parameter.  A list gathers the values of all parameters
of the field, so its items stand under the comparator of the filter only where the parameters agree in
their operation.  Of a range of time the start gives the comparator, and the operation of the end is
not read.
-/

namespace FilterBar.Bracketed

/-- The pieces between the commas of a single value. -/
def piecesOf (c : Configuration) (param : String × ParamValue) : List String :=
  match param.2 with
  | .one value => (Text.splitOn ',' (readValue c param.1 value).toList).map String.ofList
  | _ => []

/-- An item comes from a parameter: it is one of its values or a piece of a single value. -/
def ComesFrom (c : Configuration) (param : String × ParamValue) (item : String) : Prop :=
  item ∈ readValues c param ∨ item ∈ piecesOf c param

instance (c : Configuration) (param : String × ParamValue) (item : String) :
    Decidable (ComesFrom c param item) :=
  inferInstanceAs (Decidable (_ ∨ _))

/-- A parameter stands under a comparator: its operation is the token of the comparator. -/
def StandsUnder (op : Comparator) (param : String × ParamValue) : Prop :=
  operationOf? param.1 = some op.token

instance (op : Comparator) (param : String × ParamValue) : Decidable (StandsUnder op param) :=
  inferInstanceAs (Decidable (_ = _))

/-- Parameters agree in their operation. -/
def AgreeInOperation (params : List (String × ParamValue)) : Prop :=
  ∀ a ∈ params, ∀ b ∈ params, operationOf? a.1 = operationOf? b.1

instance (params : List (String × ParamValue)) : Decidable (AgreeInOperation params) :=
  inferInstanceAs (Decidable (∀ a ∈ params, ∀ b ∈ params, operationOf? a.1 = operationOf? b.1))

variable {q : Query} {c : Configuration} {f : Criterion} {field item : String}
  {param : String × ParamValue} {p : FieldParam}

theorem standsUnder_of_readParam? {op : Comparator} (hread : readParam? c param = some p)
    (hop : Comparator.ofToken? p.operation = some op) : StandsUnder op param := by
  rw [StandsUnder, operation_of_readParam? hread, Comparator.eq_token_of_ofToken? hop]

/-- What a parameter adds to the list of its field comes from it. -/
theorem comesFrom_of_mem_fieldItems (hread : readParam? c param = some p)
    (hitem : item ∈ fieldItems field p) : ComesFrom c param item := by
  have hvalues := values_of_readParam? hread
  rw [fieldItems] at hitem
  split at hitem
  next values hmany =>
    rw [hmany] at hvalues
    exact Or.inl (hvalues ▸ hitem)
  next text hone =>
    obtain ⟨value, hparam, rfl⟩ := value_of_readParam? hread hone
    split at hitem
    · rw [hone] at hvalues
      exact Or.inl (hvalues ▸ hitem)
    · right
      rw [piecesOf, hparam]
      exact hitem

/-- The first parameter of a field stands under the comparator of the filter. -/
theorem exists_first_param (hf : f ∈ fieldCriteria c (fieldParams q c)) :
    ∃ k first rest param others, c.find? f.key = some k ∧
      (fieldParams q c).filter (·.field == f.key) = first :: rest ∧
      f.value = (fieldValue k f.key f.comparator (first :: rest)).1 ∧
      paramsOf q c f.key = param :: others ∧ readParam? c param = some first ∧
      StandsUnder f.comparator param := by
  obtain ⟨k, first, rest, hk, hps, hop, hparts⟩ := exists_of_mem_fieldCriteria hf
  obtain ⟨param, others, hparams, hread⟩ := exists_of_fieldParams_cons hps
  exact ⟨k, first, rest, param, others, hk, hps, congrArg Criterion.value hparts, hparams, hread,
    standsUnder_of_readParam? hread hop⟩

/-- A text is the first value of the first parameter of its field. -/
theorem exists_param_of_text (hf : f ∈ fieldCriteria c (fieldParams q c)) {text : String}
    (hvalue : f.value = .text text) :
    ∃ first others, paramsOf q c f.key = first :: others ∧ StandsUnder f.comparator first ∧
      text = (readValues c first).headD "" := by
  obtain ⟨k, first, rest, param, others, -, -, hfield, hparams, hread, hunder⟩ :=
    exists_first_param hf
  refine ⟨param, others, hparams, hunder, ?_⟩
  rw [hvalue] at hfield
  by_cases hlist : (k.isMultiSelect && !f.comparator.isText) = true
  · rw [fieldValue_eq_list hlist] at hfield
    contradiction
  · rw [fieldValue, if_neg hlist, List.head?_cons, Option.bind_some, ParamValues.first?,
      values_of_readParam? hread] at hfield
    rw [FilterValue.text.inj hfield, List.headD_eq_head?_getD]

/-- An item of a list comes from one of the parameters of its field, under the comparator of the
filter if these agree in their operation. -/
theorem exists_param_of_list (hf : f ∈ fieldCriteria c (fieldParams q c)) {items : List String}
    (hvalue : f.value = .list items) :
    ∃ first others, paramsOf q c f.key = first :: others ∧ StandsUnder f.comparator first ∧
      ∀ item ∈ items, ∃ param ∈ paramsOf q c f.key, ComesFrom c param item ∧
        (AgreeInOperation (paramsOf q c f.key) → StandsUnder f.comparator param) := by
  obtain ⟨k, first, rest, param, others, -, hps, hfield, hparams, -, hunder⟩ :=
    exists_first_param hf
  refine ⟨param, others, hparams, hunder, ?_⟩
  intro item hitem
  rw [hvalue] at hfield
  by_cases hlist : (k.isMultiSelect && !f.comparator.isText) = true
  · rw [fieldValue_eq_list hlist, ← hps] at hfield
    rw [FilterValue.list.inj hfield] at hitem
    obtain ⟨p, hp, hpitem⟩ := List.mem_flatMap.mp hitem
    obtain ⟨other, hother, hread⟩ := exists_of_mem_fieldParams hp
    refine ⟨other, hother, comesFrom_of_mem_fieldItems hread hpitem, ?_⟩
    intro hagree
    have hfirst : param ∈ paramsOf q c f.key := hparams ▸ List.mem_cons_self
    rw [StandsUnder, hagree other hother param hfirst]
    exact hunder
  · rw [fieldValue, if_neg hlist] at hfield
    contradiction

theorem rangeEnd?_of_getLast? (hparam : (dateParams q field).getLast? = some param) :
    rangeEnd? q .bracketed field = Instant.parse? (dateText param.2) := by
  rw [rangeEnd?, endText?, hparam, Option.bind_some]

/-- A range of time with a start that is no bare date has the comparator of that parameter. -/
theorem rangeComparator_of_standsUnder {op : Comparator}
    (hparam : (dateParams q Key.startDate).getLast? = some param) (hunder : StandsUnder op param) :
    rangeComparator q .bracketed = op := by
  rw [StandsUnder] at hunder
  simp only [rangeComparator, endOperation, hparam, hunder, Option.getD_some,
    Comparator.ofToken?_token]

/-- Every value of a filter comes from a parameter of its field, and the first parameter of the field
stands under the comparator of the filter.  A text comes from this parameter, and an item of a list
from a parameter under the same comparator if those of the field agree in their operation.  Of a range
of time that is taken from such parameters the start stands under the comparator of the filter if it
stands under any, and the end does if it stands under the same. -/
theorem comparator_of_values (hf : f ∈ decode q c) :
    match f.value with
    | .text text =>
      ∃ first others, paramsOf q c f.key = first :: others ∧ StandsUnder f.comparator first ∧
        text = (readValues c first).headD ""
    | .list items =>
      ∃ first others, paramsOf q c f.key = first :: others ∧ StandsUnder f.comparator first ∧
        ∀ item ∈ items, ∃ param ∈ paramsOf q c f.key, ComesFrom c param item ∧
          (AgreeInOperation (paramsOf q c f.key) → StandsUnder f.comparator param)
    | .timeRange start stop =>
      (∀ startParam, (dateParams q Key.startDate).getLast? = some startParam →
        Instant.parse? (dateText startParam.2) = some start ∧
          ∀ op, StandsUnder op startParam → f.comparator = op) ∧
      ∀ endParam, (dateParams q Key.endDate).getLast? = some endParam →
        Instant.parse? (dateText endParam.2) = some stop ∧
          ∀ startParam op, (dateParams q Key.startDate).getLast? = some startParam →
            StandsUnder op startParam → StandsUnder op endParam →
              StandsUnder f.comparator endParam := by
  have hread (hrange : f.value.isTimeRange = false) : f ∈ fieldCriteria c (fieldParams q c) :=
    mem_fieldCriteria_of_mem_decode hf hrange
  split
  next text hvalue => exact exists_param_of_text (hread (by rw [hvalue]; rfl)) hvalue
  next items hvalue => exact exists_param_of_list (hread (by rw [hvalue]; rfl)) hvalue
  next start stop hvalue =>
    have hrange : f.value.isTimeRange = true := by
      rw [hvalue]
      rfl
    have hcriterion : rangeCriterion? q c .bracketed = some f :=
      mem_decodeCriteria_isTimeRange.mp ⟨hf, hrange⟩
    obtain ⟨k, start', stop', -, hstart, hstop, rfl⟩ := rangeCriterion?_eq_some.mp hcriterion
    obtain ⟨rfl, rfl⟩ := FilterValue.timeRange.inj hvalue
    constructor
    · intro startParam hstartParam
      exact ⟨rangeEnd?_of_getLast? hstartParam ▸ hstart,
        fun op hunder => rangeComparator_of_standsUnder hstartParam hunder⟩
    · intro endParam hendParam
      refine ⟨rangeEnd?_of_getLast? hendParam ▸ hstop, ?_⟩
      intro startParam op hstartParam hunder hsame
      have hop : rangeComparator q .bracketed = op :=
        rangeComparator_of_standsUnder hstartParam hunder
      exact hop ▸ hsame

/-- Labels of two names under one comparator: each entry of the filter stands under it. -/
theorem comparator_of_values_labels :
    let q := Query.ofList [("filters[labels][NOT_EQUALS][env]", .one "prod"),
      ("filters[labels][NOT_EQUALS][team]", .many [some "data", none, some "a,b"])]
    let c := View.executions.configuration
    let items := ["env:prod", "team:data", "team:a,b"]
    let f := Criterion.ofParts labelsKey Key.labels .notEquals (.list items) (commaList items)
    f ∈ decode q c ∧ AgreeInOperation (paramsOf q c Key.labels) ∧
      ∀ item ∈ items, ∃ param ∈ paramsOf q c Key.labels, ComesFrom c param item ∧
        StandsUnder .notEquals param := by
  intro q c items f
  have hf : f ∈ decode q c := by decide +kernel
  have hagree : AgreeInOperation (paramsOf q c Key.labels) := by decide +kernel
  obtain ⟨_, _, -, -, hitems⟩ := comparator_of_values hf
  refine ⟨hf, hagree, ?_⟩
  intro item hitem
  obtain ⟨param, hparam, hcomes, hunder⟩ := hitems item hitem
  exact ⟨param, hparam, hcomes, hunder hagree⟩

/-- A namespace that is excluded beside one that is asked for: both are read as asked for, and no
parameter with the second one stands under the comparator of the filter.  So it is with the end of a
range of time whose operation is another one than that of the start. -/
theorem comparator_not_of_all_values :
    let q := Query.ofList [("filters[namespace][IN]", .one "a"),
      ("filters[namespace][NOT_IN]", .one "b"),
      ("filters[startDate][GREATER_THAN]", .one "2024-03-01T00:00:00Z"),
      ("filters[endDate][LESS_THAN]", .one "2024-03-09T00:00:00Z")]
    let c := View.executions.configuration
    (∃ f ∈ decode q c, "b" ∈ f.value.items ∧
      ∀ param ∈ paramsOf q c f.key, ComesFrom c param "b" → ¬ StandsUnder f.comparator param) ∧
    ∃ f ∈ decode q c, f.value.isTimeRange = true ∧
      ∀ param ∈ dateParams q Key.endDate, ¬ StandsUnder f.comparator param := by
  decide +kernel

end FilterBar.Bracketed
