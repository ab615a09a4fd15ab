import FilterBar.Proofs.CreatedFilters

/-!
# Comma lists and repeated parameters

The values of a key that takes several may stand in a query with commas between them, or the name of
their parameter may be repeated.  Wherever such a parameter is set, both formats read the same filters
from the two, whatever else the query holds.  Only its own values can tell them apart: a value with a
comma, and one with an escape, which may stand for a comma.
-/

namespace FilterBar

/-! ## A parameter in its place -/

theorem Key.ne_of_isDate {name field : String} (hname : isDate name = false)
    (hfield : isDate field = true) : name ≠ field := by
  rintro rfl
  rw [hname] at hfield
  contradiction

/-- What is set under a name stands in the place of that name. -/
theorem Table.exists_insertEntry_eq {α : Type} (name : String) (l : List (String × α)) :
    ∃ before after, ∀ value, insertEntry name value l = before ++ (name, value) :: after := by
  induction l with
  | nil => exact ⟨[], [], fun _ => rfl⟩
  | cons entry rest ih =>
    obtain ⟨before, after, hrest⟩ := ih
    by_cases hlt : name < entry.1
    · exact ⟨[], entry :: rest, fun _ => by rw [insertEntry, if_pos hlt, List.nil_append]⟩
    · by_cases hgt : entry.1 < name
      · refine ⟨entry :: before, after, fun value => ?_⟩
        rw [insertEntry, if_neg hlt, if_pos hgt, hrest, List.cons_append]
      · exact ⟨[], rest, fun _ => by rw [insertEntry, if_neg hlt, if_neg hgt, List.nil_append]⟩

namespace Query

variable {name field : String}

theorem exists_toList_insert (q : Query) (name : String) :
    ∃ before after, ∀ value, (q.insert name value).toList = before ++ (name, value) :: after :=
  Table.exists_insertEntry_eq name q.params.entries

/-- The bare dates of a query stay when another parameter is set. -/
theorem first?_insert_of_isDate (hname : Key.isDate name = false) (hfield : Key.isDate field = true)
    (q : Query) (value : ParamValue) : (q.insert name value).first? field = q.first? field := by
  rw [first?, get?_insert, if_neg (Key.ne_of_isDate hname hfield), first?]

end Query

/-! ## The two ways to give several values -/

namespace ParamValue

/-- Values under one name, with commas between them. -/
def joined (values : List String) : ParamValue :=
  one (String.intercalate "," values)

/-- Values under a name that is repeated for each of them. -/
def repeated (values : List String) : ParamValue :=
  many (values.map some)

end ParamValue

namespace Text

variable {values : List String}

/-- A text that can stand between commas: it is not empty, and no comma is in it or comes out of an
escape. -/
def IsListItem (value : String) : Prop :=
  value ≠ "" ∧ ',' ∉ value.toList ∧ '%' ∉ value.toList

instance (value : String) : Decidable (IsListItem value) :=
  inferInstanceAs (Decidable (_ ∧ _ ∧ _))

theorem toList_joined (values : List String) :
    (String.intercalate "," values).toList = [','].intercalate (values.map String.toList) :=
  String.toList_intercalate

/-- A comma list is cut at the commas between its values. -/
theorem splitOn_joined (hne : values ≠ []) (h : ∀ value ∈ values, IsListItem value) :
    splitOn ',' (String.intercalate "," values).toList = values.map String.toList := by
  rw [toList_joined, splitOn_eq_splitOn]
  apply List.splitOn_intercalate
  · intro piece hpiece
    obtain ⟨value, hvalue, rfl⟩ := List.mem_map.mp hpiece
    exact (h value hvalue).2.1
  · exact mt List.map_eq_nil_iff.mp hne

theorem decodeComponent_joined (h : ∀ value ∈ values, IsListItem value) :
    decodeComponent (String.intercalate "," values) = String.intercalate "," values := by
  apply decodeComponent_of_notMem
  intro hmem
  rw [toList_joined] at hmem
  rcases mem_joined hmem with hcomma | ⟨piece, hpiece, hin⟩
  · contradiction
  · obtain ⟨value, hvalue, rfl⟩ := List.mem_map.mp hpiece
    exact (h value hvalue).2.2 hin

theorem map_ofList_map_toList (values : List String) :
    (values.map String.toList).map String.ofList = values := by
  rw [List.map_map]
  exact (List.map_congr_left fun value _ => String.ofList_toList).trans (List.map_id' values)

theorem map_decodeComponent_repeated (h : ∀ value ∈ values, IsListItem value) :
    ((values.map some).filterMap id).map decodeComponent = values := by
  have hsome : (values.map some).filterMap id = values := by
    rw [List.filterMap_map]
    exact List.filterMap_some
  rw [hsome]
  exact (List.map_congr_left fun value hvalue =>
    decodeComponent_of_notMem (h value hvalue).2.2).trans (List.map_id' values)

end Text

/-! ## The bracketed format -/

namespace Bracketed

variable {c : Configuration} {k : FilterKey} {p p' : FieldParam} {key : String}
  {op : Comparator} {values : List String}

/-- Two parameters of one field that stand under the same operation and add the same items. -/
structure AddSame (p p' : FieldParam) : Prop where
  field : p'.field = p.field
  operation : p'.operation = p.operation
  items : fieldItems p.field p' = fieldItems p.field p

/-- A text is what the first parameter of a field says, a list what all of them say together. -/
theorem fieldValue_of_addSame (h : AddSame p p') (hmulti : k.isMultiSelect = true)
    (before after : List FieldParam) (op : Comparator) (hop : before = [] → op.isText = false) :
    fieldValue k p.field op (before ++ p' :: after) =
      fieldValue k p.field op (before ++ p :: after) := by
  by_cases hlist : (k.isMultiSelect && !op.isText) = true
  · have hvalue : (fieldValue k p.field op (before ++ p' :: after)).1 =
        (fieldValue k p.field op (before ++ p :: after)).1 := by
      rw [fieldValue_eq_list hlist, fieldValue_eq_list hlist, List.flatMap_append,
        List.flatMap_append, List.flatMap_cons, List.flatMap_cons, h.items]
    exact Prod.ext hvalue (by rw [label_fieldValue, label_fieldValue, hvalue])
  · cases before with
    | nil => simp [hmulti, hop rfl] at hlist
    | cons first rest => simp only [fieldValue, if_neg hlist, List.cons_append, List.head?_cons]

theorem fieldCriterion?_of_addSame (h : AddSame p p') (hk : c.find? p.field = some k)
    (hmulti : k.isMultiSelect = true) (hp : p.operation = op.token) (hop : op.isText = false)
    (before after : List FieldParam) :
    fieldCriterion? c p.field (before ++ p' :: after) =
      fieldCriterion? c p.field (before ++ p :: after) := by
  have hvalue := fieldValue_of_addSame h hmulti before after
  -- in front the parameter gives the comparator, behind another one it can only add to a list
  cases before with
  | nil =>
    have hfirst := hvalue op fun _ => hop
    simp only [List.nil_append] at hfirst ⊢
    simp only [fieldCriterion?, hk, List.head?_cons, h.operation, hp, Comparator.ofToken?_token,
      Option.bind_eq_bind, Option.bind_some, hfirst]
  | cons first rest =>
    have hlater (op : Comparator) := hvalue op fun hnil => absurd hnil (List.cons_ne_nil first rest)
    simp only [List.cons_append] at hlater ⊢
    simp only [fieldCriterion?, hk, List.head?_cons, Option.bind_eq_bind, Option.bind_some, hlater]

theorem fieldCriteria_of_addSame (h : AddSame p p') (hk : c.find? p.field = some k)
    (hmulti : k.isMultiSelect = true) (hp : p.operation = op.token) (hop : op.isText = false)
    (hdate : Key.isDate p.field = false) (before after : List FieldParam) :
    fieldCriteria c (before ++ p' :: after) = fieldCriteria c (before ++ p :: after) := by
  have hkept (r : FieldParam) (hr : r.field = p.field) :
      (before ++ r :: after).filter (fun r => !Key.isDate r.field) =
        before.filter (fun r => !Key.isDate r.field) ++
          r :: after.filter (fun r => !Key.isDate r.field) := by
    rw [List.filter_append, List.filter_cons_of_pos (by simp [hr, hdate])]
  simp only [fieldCriteria, hkept p' h.field, hkept p rfl, List.map_append, List.map_cons, h.field]
  apply List.filterMap_congr
  intro field _
  by_cases hfield : field = p.field
  · subst hfield
    rw [List.filter_append, List.filter_append, List.filter_cons_of_pos (by simp [h.field]),
      List.filter_cons_of_pos (by simp)]
    exact fieldCriterion?_of_addSame h hk hmulti hp hop _ _
  · have hother : (p.field == field) = false := beq_false_of_ne (Ne.symm hfield)
    rw [List.filter_append, List.filter_append, List.filter_cons_of_neg (by simp [h.field, hother]),
      List.filter_cons_of_neg (by simp [hother])]

/-- No date is read from a parameter of another field. -/
theorem timeRange?_of_addSame (h : AddSame p p') (hdate : Key.isDate p.field = false)
    {q q' : Query} (hq : ∀ field, Key.isDate field = true → q'.first? field = q.first? field)
    (before after : List FieldParam) :
    timeRange? q' c (before ++ p' :: after) = timeRange? q c (before ++ p :: after) := by
  have hdateOf (field : String) (hfield : Key.isDate field = true) :
      dateOf? q' (before ++ p' :: after) field = dateOf? q (before ++ p :: after) field := by
    have hother : (p.field == field) = false := beq_false_of_ne (Key.ne_of_isDate hdate hfield)
    rw [dateOf?, dateOf?, List.filter_append, List.filter_append,
      List.filter_cons_of_neg (by simp [h.field, hother]),
      List.filter_cons_of_neg (by simp [hother]), hq field hfield]
  rw [timeRange?, timeRange?, hdateOf _ (by decide), hdateOf _ (by decide)]

/-! ## Setting the parameter of a key -/

/-- The parameter of a key stands under the key and the comparator, with its values unescaped. -/
theorem readParam?_ofKey (h : ParamName.IsField key) (c : Configuration) (op : Comparator)
    (v : ParamValue) : readParam? c (ParamName.ofKey key op, v) =
      (SearchParam.decodeValue? v).map fun given => ⟨key, op.token, given⟩ := by
  rw [readParam?, SearchParam.ofParam?, ParamName.parse?_ofKey h]
  cases SearchParam.decodeValue? v with
  | none => rfl
  | some given => rfl

theorem readParam?_joined (hfield : ParamName.IsField key)
    (h : ∀ value ∈ values, Text.IsListItem value) (c : Configuration) (op : Comparator) :
    readParam? c (ParamName.ofKey key op, .joined values) =
      some ⟨key, op.token, .one (String.intercalate "," values)⟩ := by
  rw [readParam?_ofKey hfield, ParamValue.joined, SearchParam.decodeValue?,
    Text.decodeComponent_joined h, Option.map_some]

theorem readParam?_repeated (hfield : ParamName.IsField key)
    (h : ∀ value ∈ values, Text.IsListItem value) (c : Configuration) (op : Comparator) :
    readParam? c (ParamName.ofKey key op, .repeated values) =
      some ⟨key, op.token, .many values⟩ := by
  rw [readParam?_ofKey hfield, ParamValue.repeated, SearchParam.decodeValue?,
    Text.map_decodeComponent_repeated h, Option.map_some]

theorem addSame_joined (hkey : key ≠ Key.labels) (hne : values ≠ [])
    (h : ∀ value ∈ values, Text.IsListItem value) (operation : String) :
    AddSame ⟨key, operation, .many values⟩
      ⟨key, operation, .one (String.intercalate "," values)⟩ where
  field := rfl
  operation := rfl
  items := by
    simp only [fieldItems, if_neg hkey, Text.splitOn_joined hne h, Text.map_ofList_map_toList]

theorem isDate_ofKey (key : String) (op : Comparator) :
    Key.isDate (ParamName.ofKey key op) = false := by
  have hhead : (ParamName.ofKey key op).toList.head? = some 'f' := by
    simp [ParamName.ofKey, ParamName.opening]
  apply Key.isDate_eq_false
  · rw [hhead]; decide
  · rw [hhead]; decide

/-- The parameter that is set is read in its place among the others. -/
theorem exists_fieldParams_insert (q : Query) (c : Configuration) (name : String) :
    ∃ before after, ∀ v p, readParam? c (name, v) = some p →
      fieldParams (q.insert name v) c = before ++ p :: after := by
  obtain ⟨before, after, hlist⟩ := q.exists_toList_insert name
  refine ⟨before.filterMap (readParam? c), after.filterMap (readParam? c), fun v p hp => ?_⟩
  rw [fieldParams_eq, hlist, List.filterMap_append, List.filterMap_cons_some hp]

theorem decode_insert_joined (hk : c.find? key = some k) (hmulti : k.isMultiSelect = true)
    (hkey : key ≠ Key.labels) (hdate : Key.isDate key = false) (hfield : ParamName.IsField key)
    (hop : op.isText = false) (hne : values ≠ []) (h : ∀ value ∈ values, Text.IsListItem value)
    (q : Query) :
    decode (q.insert (ParamName.ofKey key op) (.joined values)) c =
      decode (q.insert (ParamName.ofKey key op) (.repeated values)) c := by
  have hsame := addSame_joined hkey hne h op.token
  have hbare (field : String) (hf : Key.isDate field = true) :
      (q.insert (ParamName.ofKey key op) (.joined values)).first? field =
        (q.insert (ParamName.ofKey key op) (.repeated values)).first? field := by
    rw [Query.first?_insert_of_isDate (isDate_ofKey key op) hf,
      Query.first?_insert_of_isDate (isDate_ofKey key op) hf]
  obtain ⟨before, after, hparams⟩ := exists_fieldParams_insert q c (ParamName.ofKey key op)
  simp only [decode, hparams _ _ (readParam?_joined hfield h c op),
    hparams _ _ (readParam?_repeated hfield h c op),
    fieldCriteria_of_addSame hsame hk hmulti rfl hop hdate,
    timeRange?_of_addSame hsame hdate hbare]

end Bracketed

/-! ## The flat format -/

namespace Flat

variable {c : Configuration} {k : FilterKey} {key : String} {values : List String}

/-- A parameter that is no date counts by its criterion and its details. -/
theorem decode_insert_congr {v w : ParamValue} (hdate : Key.isDate key = false)
    (hparam : paramCriterion? c (key, v) = paramCriterion? c (key, w))
    (hdetails : paramDetails (key, v) = paramDetails (key, w)) (q : Query) :
    decode (q.insert key v) c = decode (q.insert key w) c := by
  obtain ⟨before, after, hlist⟩ := q.exists_toList_insert key
  have hfirst (field : String) (hfield : Key.isDate field = true) :
      (q.insert key v).first? field = (q.insert key w).first? field := by
    rw [Query.first?_insert_of_isDate hdate hfield, Query.first?_insert_of_isDate hdate hfield]
  have hrange : timeRange? (q.insert key v) c = timeRange? (q.insert key w) c := by
    rw [timeRange?, timeRange?, hfirst _ (by decide), hfirst _ (by decide)]
  simp only [decode, details?, hrange, hlist, List.filterMap_append, List.filterMap_cons, hparam,
    List.flatMap_append, List.flatMap_cons, hdetails]

theorem paramValue_joined (hmulti : k.isMultiSelect = true) (hne : values ≠ [])
    (h : ∀ value ∈ values, Text.IsListItem value) :
    paramValue k (.joined values) = paramValue k (.repeated values) := by
  have hkept : (values.map String.toList).filter (!·.isEmpty) = values.map String.toList := by
    rw [List.filter_eq_self]
    intro piece hpiece
    obtain ⟨value, hvalue, rfl⟩ := List.mem_map.mp hpiece
    simpa using (h value hvalue).1
  rw [ParamValue.joined, paramValue_of_isMultiSelect hmulti (Text.decodeComponent_joined h),
    Text.splitOn_joined hne h, hkept, Text.map_ofList_map_toList, ParamValue.repeated, paramValue,
    Text.map_decodeComponent_repeated h]

theorem decode_insert_joined (hk : c.find? key = some k) (hmulti : k.isMultiSelect = true)
    (hreserved : isReserved key = false) (hdetail : Key.after? detailOpening key = none)
    (hne : values ≠ []) (h : ∀ value ∈ values, Text.IsListItem value) (q : Query) :
    decode (q.insert key (.joined values)) c = decode (q.insert key (.repeated values)) c := by
  apply decode_insert_congr (isReserved_eq_false hreserved)
  · simp only [paramCriterion?, hk, Option.map_some, paramValue_joined hmulti hne h]
  · simp only [paramDetails, hdetail]

end Flat

/-! ## Both formats -/

/-- Setting the parameter of a key that takes several values to a comma list and setting it to the
repeated values leave queries from which the same filters are read.  In the bracketed format the
parameter may stand under any comparator that is not for texts, and beside other parameters of its
field.  Only the identifiers of the filters depend on the supply. -/
theorem comma_list_reads_as_repeated (c : Configuration) (key : String) (k : FilterKey)
    (hk : c.find? key = some k) (hmulti : k.isMultiSelect = true) (values : List String)
    (hne : values ≠ []) (h : ∀ value ∈ values, Text.IsListItem value) (q : Query)
    (ids ids' : IdSupply) :
    (key ≠ Key.labels → Key.isDate key = false → ParamName.IsField key →
      ∀ op : Comparator, op.isText = false →
        (decodeFilters ids (q.insert (ParamName.ofKey key op) (.joined values)) c
            .bracketed).1.map Filter.toCriterion =
          (decodeFilters ids' (q.insert (ParamName.ofKey key op) (.repeated values)) c
            .bracketed).1.map Filter.toCriterion) ∧
    (Flat.isReserved key = false → Key.after? Flat.detailOpening key = none →
      (decodeFilters ids (q.insert key (.joined values)) c .flat).1.map Filter.toCriterion =
        (decodeFilters ids' (q.insert key (.repeated values)) c .flat).1.map Filter.toCriterion) := by
  simp only [decodeFilters, IdSupply.issueAll_toCriterion, decodeCriteria]
  constructor
  · intro hkey hdate hfield op hop
    exact Bracketed.decode_insert_joined hk hmulti hkey hdate hfield hop hne h q
  · intro hreserved hdetail
    exact Flat.decode_insert_joined hk hmulti hreserved hdetail hne h q

/-- Two states of executions, in a comma list and repeated, beside a flow and a parameter of another
part of the page. -/
theorem comma_list_reads_as_repeated_executions :
    let c := View.executions.configuration
    let states := ["FAILED", "WARNING"]
    let bracketed := Query.ofList [("filters[flowId][EQUALS]", .one "daily"), ("page", .one "2")]
    let flat := Query.ofList [("flowId", .one "daily"), ("page", .one "2")]
    let state := ParamName.ofKey "state" .isIn
    (decodeFilters ⟨0, 0⟩ (bracketed.insert state (.one "FAILED,WARNING")) c
          .bracketed).1.map Filter.toCriterion =
        (decodeFilters ⟨7, 1⟩ (bracketed.insert state (.many [some "FAILED", some "WARNING"])) c
          .bracketed).1.map Filter.toCriterion ∧
      (decodeFilters ⟨0, 0⟩ (flat.insert "state" (.one "FAILED,WARNING")) c
          .flat).1.map Filter.toCriterion =
        (decodeFilters ⟨7, 1⟩ (flat.insert "state" (.many [some "FAILED", some "WARNING"])) c
          .flat).1.map Filter.toCriterion ∧
      (decodeCriteria (flat.insert "state" (.one "FAILED,WARNING")) c .flat).map Criterion.value =
        [.text "daily", .list states] := by
  intro c states bracketed flat state
  have hk : c.find? "state" = some stateKey := by decide +kernel
  have hitems : ∀ value ∈ states, Text.IsListItem value := by decide
  have hboth (q : Query) := comma_list_reads_as_repeated c "state" stateKey hk rfl states
    (List.cons_ne_nil _ _) hitems q ⟨0, 0⟩ ⟨7, 1⟩
  refine ⟨?_, ?_, by decide +kernel⟩
  · exact (hboth bracketed).1 (by decide) (by decide) (by decide +kernel) .isIn rfl
  · exact (hboth flat).2 (by decide) (by decide)

end FilterBar
