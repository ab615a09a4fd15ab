import FilterBar.Proofs.BracketedValues

/-!
# The parameters of a field

What the bracketed format reads for a field comes from the parameters whose names count for it.  The
reader takes each of them apart: it keeps the operation of the name, and the values without escapes
and, where `labels` is a key, with the name of their label in front.
-/

namespace FilterBar

theorem Comparator.eq_token_of_ofToken? {text : String} {op : Comparator}
    (h : ofToken? text = some op) : text = op.token := by
  have htoken := List.find?_some h
  exact (of_decide_eq_true htoken).symm

theorem SearchParam.toList_of_decodeValue? {v : ParamValue} {given : ParamValues}
    (h : decodeValue? v = some given) : given.toList = v.values.map Text.decodeComponent := by
  cases v with
  | null => contradiction
  | one value =>
    obtain rfl := Option.some.inj h
    rfl
  | many values =>
    obtain rfl := Option.some.inj h
    rfl

namespace Bracketed

/-- The parameters with a value whose names count for a field, in the order of their names. -/
def paramsOf (q : Query) (c : Configuration) (field : String) : List (String × ParamValue) :=
  q.toList.filter fun param => fieldOf? c param.1 == some field && !param.2.isNull

/-- The operation in the name of a filter parameter. -/
def operationOf? (name : String) : Option String :=
  (ParamName.parse? name).map (·.operation)

/-- A value under a name without its escapes, and where `labels` is a key with the name of its label
in front. -/
def readValue (c : Configuration) (name value : String) : String :=
  if c.has Key.labels then
    withName ((ParamName.parse? name).bind (·.labelName)) (Text.decodeComponent value)
  else Text.decodeComponent value

def readValues (c : Configuration) (param : String × ParamValue) : List String :=
  param.2.values.map (readValue c param.1)

/-- A parameter as the reader of its field takes it. -/
def readParam? (c : Configuration) (param : String × ParamValue) : Option FieldParam :=
  (SearchParam.ofParam? param).map (fieldParam c)

variable {q : Query} {c : Configuration} {field : String} {param : String × ParamValue}
  {p : FieldParam}

theorem fieldParams_eq (q : Query) (c : Configuration) :
    fieldParams q c = q.toList.filterMap (readParam? c) := by
  rw [fieldParams, SearchParam.ofQuery, List.map_filterMap]
  rfl

/-- Filter parameters with a value are read, and no others. -/
theorem isSome_readParam? :
    (readParam? c param).isSome = ((fieldOf? c param.1).isSome && !param.2.isNull) := by
  rw [readParam?, Option.isSome_map, SearchParam.ofParam?, fieldOf?, Option.isSome_map]
  cases param.2 <;> cases ParamName.parse? param.1 <;> rfl

theorem field_of_readParam? (h : readParam? c param = some p) :
    fieldOf? c param.1 = some p.field := by
  obtain ⟨sp, hsp, rfl⟩ := Option.map_eq_some_iff.mp h
  exact fieldOf?_eq_of_ofParam? hsp

theorem operation_of_readParam? (h : readParam? c param = some p) :
    operationOf? param.1 = some p.operation := by
  obtain ⟨sp, hsp, rfl⟩ := Option.map_eq_some_iff.mp h
  rw [operationOf?, parse?_of_ofParam? hsp, operation_fieldParam]
  rfl

theorem readValue_of_parse? {name : String} {parsed : ParamName}
    (h : ParamName.parse? name = some parsed) (value : String) :
    readValue c name value = (if c.has Key.labels then withName parsed.labelName else id)
      (Text.decodeComponent value) := by
  rw [readValue, h, Option.bind_some]
  split
  · rfl
  · rfl

theorem values_of_readParam? (h : readParam? c param = some p) :
    p.values.toList = readValues c param := by
  obtain ⟨sp, hsp, rfl⟩ := Option.map_eq_some_iff.mp h
  rw [values_fieldParam, ParamValues.toList_map,
    SearchParam.toList_of_decodeValue? (decodeValue?_of_ofParam? hsp), List.map_map, readValues]
  apply List.map_congr_left
  intro value _
  exact (readValue_of_parse? (parse?_of_ofParam? hsp) value).symm

/-- A single value is read from a name that stands once. -/
theorem value_of_readParam? (h : readParam? c param = some p) {text : String}
    (hone : p.values = .one text) :
    ∃ value, param.2 = .one value ∧ text = readValue c param.1 value := by
  have hvalues := values_of_readParam? h
  rw [hone] at hvalues
  obtain ⟨sp, hsp, rfl⟩ := Option.map_eq_some_iff.mp h
  have hgiven := decodeValue?_of_ofParam? hsp
  rw [values_fieldParam] at hone
  cases hparam : param.2 with
  | null =>
    rw [hparam] at hgiven
    contradiction
  | one value =>
    rw [readValues, hparam] at hvalues
    exact ⟨value, rfl, List.head_eq_of_cons_eq hvalues⟩
  | many values =>
    rw [hparam] at hgiven
    rw [← Option.some.inj hgiven] at hone
    contradiction

/-- The parameters of a field are read one by one. -/
theorem map_some_filter_fieldParams (q : Query) (c : Configuration) (field : String) :
    ((fieldParams q c).filter (·.field == field)).map some =
      (paramsOf q c field).map (readParam? c) := by
  rw [fieldParams_eq, paramsOf]
  induction q.toList with
  | nil => rfl
  | cons param rest ih =>
    have hsome : (readParam? c param).isSome = _ := isSome_readParam?
    cases hread : readParam? c param with
    | none =>
      have hskip : (fieldOf? c param.1 == some field && !param.2.isNull) = false := by
        rw [hread, Option.isSome_none] at hsome
        cases hfield : fieldOf? c param.1 with
        | none => rfl
        | some name =>
          rw [hfield, Option.isSome_some, Bool.true_and] at hsome
          rw [← hsome, Bool.and_false]
      rw [List.filterMap_cons_none hread, List.filter_cons, if_neg (Bool.eq_false_iff.mp hskip)]
      exact ih
    | some p =>
      have hfield := field_of_readParam? hread
      rw [hread, hfield, Option.isSome_some, Option.isSome_some, Bool.true_and] at hsome
      rw [List.filterMap_cons_some hread, List.filter_cons, List.filter_cons, hfield, ← hsome,
        Bool.and_true, Option.some_beq_some]
      split
      · rw [List.map_cons, List.map_cons, ih, hread]
      · exact ih

theorem exists_of_mem_fieldParams (hp : p ∈ (fieldParams q c).filter (·.field == field)) :
    ∃ param ∈ paramsOf q c field, readParam? c param = some p := by
  have hmem := List.mem_map_of_mem (f := some) hp
  rw [map_some_filter_fieldParams] at hmem
  exact List.mem_map.mp hmem

theorem exists_of_fieldParams_cons {rest : List FieldParam}
    (h : (fieldParams q c).filter (·.field == field) = p :: rest) :
    ∃ param others, paramsOf q c field = param :: others ∧ readParam? c param = some p := by
  have hmap := map_some_filter_fieldParams q c field
  rw [h, List.map_cons] at hmap
  obtain ⟨param, others, hparams, hread, -⟩ := List.map_eq_cons_iff.mp hmap.symm
  exact ⟨param, others, hparams, hread⟩

theorem getLast?_fieldParams (q : Query) (c : Configuration) (field : String) :
    (((fieldParams q c).filter (·.field == field)).getLast?).map some =
      (paramsOf q c field).getLast?.map (readParam? c) := by
  rw [← List.getLast?_map, map_some_filter_fieldParams, List.getLast?_map]

end Bracketed

end FilterBar
