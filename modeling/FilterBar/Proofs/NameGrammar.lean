import Mathlib.Data.List.Forall2
import FilterBar.Proofs.FieldParams
import FilterBar.Proofs.NamePattern

/-!
# The grammar of parameter names

A name is that of a filter parameter exactly if it is `filters[field][operation]` and a free rest,
where neither part holds what ends it.  There is one way at most to take a name apart like this, and
the reader of names finds it.  So the entries that are read from a query are those of its parameters
with such a name and a value, one each and in their order.
-/

namespace FilterBar

namespace ParamName

variable {s field operation label rest : List Char}

/-! ## The readers of the parts -/

theorem eq_of_readField? (h : readField? s = some (field, rest)) :
    s = field ++ ']' :: '[' :: rest ∧ '\n' ∉ field ∧ ¬[']', '['] <:+: field := by
  induction s generalizing field with
  | nil =>
    rw [readField?] at h
    contradiction
  | cons c tail ih =>
    by_cases hshape : ∃ more, c :: tail = ']' :: '[' :: more
    · obtain ⟨more, heq⟩ := hshape
      rw [heq, readField?, Option.some.injEq, Prod.mk.injEq] at h
      obtain ⟨rfl, rfl⟩ := h
      exact ⟨heq, by simp, by simp⟩
    · have hshape : ∀ more, c :: tail ≠ ']' :: '[' :: more := not_exists.mp hshape
      rw [readField?_cons hshape] at h
      by_cases hline : c = '\n'
      · rw [if_pos hline] at h
        contradiction
      · rw [if_neg hline, Option.map_eq_some_iff] at h
        obtain ⟨read, hread, heq⟩ := h
        obtain ⟨rfl, rfl⟩ := Prod.mk.inj heq
        obtain ⟨rfl, hnoline, hnoend⟩ := ih hread
        refine ⟨rfl, by simp [hnoline, Ne.symm hline], ?_⟩
        rw [List.infix_cons_iff, not_or]
        refine ⟨?_, hnoend⟩
        -- an end of the longer field at its front would be one that the reader stops at
        rintro ⟨more, hmore⟩
        obtain ⟨rfl, hfield⟩ := List.cons_eq_cons.mp hmore
        exact hshape _ (by rw [← hfield]; rfl)

theorem eq_of_readBracketed? (h : readBracketed? s = some (operation, rest)) :
    s = operation ++ ']' :: rest ∧ '\n' ∉ operation ∧ ']' ∉ operation := by
  induction s generalizing operation with
  | nil =>
    rw [readBracketed?] at h
    contradiction
  | cons c tail ih =>
    rw [readBracketed?] at h
    by_cases hc : c = ']'
    · rw [if_pos hc, Option.some.injEq, Prod.mk.injEq] at h
      obtain ⟨rfl, rfl⟩ := h
      exact ⟨by rw [hc, List.nil_append], by simp, by simp⟩
    · by_cases hline : c = '\n'
      · rw [if_neg hc, if_pos hline] at h
        contradiction
      · rw [if_neg hc, if_neg hline, Option.map_eq_some_iff] at h
        obtain ⟨read, hread, heq⟩ := h
        obtain ⟨rfl, rfl⟩ := Prod.mk.inj heq
        obtain ⟨rfl, hnoline, hnoend⟩ := ih hread
        exact ⟨rfl, by simp [hnoline, Ne.symm hline], by simp [hnoend, Ne.symm hc]⟩

theorem readField?_eq_some_iff : readField? s = some (field, rest) ↔
    s = field ++ ']' :: '[' :: rest ∧ '\n' ∉ field ∧ ¬[']', '['] <:+: field := by
  constructor
  · exact eq_of_readField?
  · rintro ⟨rfl, hline, hend⟩
    exact readField?_append hline hend rest

theorem readBracketed?_eq_some_iff : readBracketed? s = some (operation, rest) ↔
    s = operation ++ ']' :: rest ∧ '\n' ∉ operation ∧ ']' ∉ operation := by
  constructor
  · exact eq_of_readBracketed?
  · rintro ⟨rfl, hline, hend⟩
    exact readBracketed?_append hline hend rest

theorem readLabelName?_eq_some_iff : readLabelName? s = some label ↔
    ∃ more, s = '[' :: (label ++ ']' :: more) ∧ label ≠ [] ∧ '\n' ∉ label ∧ ']' ∉ label := by
  constructor
  · intro h
    unfold readLabelName? at h
    split at h
    next rest =>
      split at h
      next name more hread =>
        obtain ⟨rfl, hline, hend⟩ := eq_of_readBracketed? hread
        by_cases hempty : name.isEmpty = true
        · rw [if_pos hempty] at h
          contradiction
        · rw [if_neg hempty] at h
          obtain rfl := Option.some.inj h
          exact ⟨more, rfl, by simpa using hempty, hline, hend⟩
      next => contradiction
    next => contradiction
  · rintro ⟨more, rfl, hne, hline, hend⟩
    rw [readLabelName?, readBracketed?_append hline hend]
    exact if_neg (by simpa using hne)

/-! ## Names taken apart -/

/-- A text that can stand as the operation of a name: nothing in it ends the operation. -/
def IsOperation (operation : String) : Prop :=
  '\n' ∉ operation.toList ∧ ']' ∉ operation.toList

instance (operation : String) : Decidable (IsOperation operation) :=
  inferInstanceAs (Decidable (_ ∧ _))

/-- A name is `filters[field][operation]` and a rest. -/
structure Spells (name field operation rest : String) : Prop where
  isField : IsField field
  isOperation : IsOperation operation
  name_eq : name = opening ++ field ++ "][" ++ operation ++ "]" ++ rest

/-- A name that can be taken apart. -/
def IsFilterName (name : String) : Prop :=
  ∃ field operation rest, Spells name field operation rest

/-- The rest of a name begins with a label in brackets. -/
def NamesLabel (rest label : String) : Prop :=
  IsLabelName label ∧ ∃ more, rest = "[" ++ label ++ "]" ++ more

/-- The readers take a name apart as it is spelt. -/
theorem spells_iff {name field operation rest : String} : Spells name field operation rest ↔
    ∃ behindOpening behindField, opening.toList.isPrefixOf? name.toList = some behindOpening ∧
      readField? behindOpening = some (field.toList, behindField) ∧
      readBracketed? behindField = some (operation.toList, rest.toList) := by
  simp only [List.isPrefixOf?_eq_some_iff_append_eq, readField?_eq_some_iff,
    readBracketed?_eq_some_iff]
  constructor
  · rintro ⟨hfield, hoperation, rfl⟩
    refine ⟨_, _, ?_, ⟨rfl, hfield⟩, rfl, hoperation⟩
    simp [String.toList_append]
  · rintro ⟨_, _, hname, ⟨rfl, hfield⟩, rfl, hoperation⟩
    refine ⟨hfield, hoperation, ?_⟩
    rw [← String.toList_inj, ← hname]
    simp [String.toList_append]

/-- There is one way at most to take a name apart. -/
theorem Spells.unique {name field operation rest field' operation' rest' : String}
    (h : Spells name field operation rest) (h' : Spells name field' operation' rest') :
    field = field' ∧ operation = operation' ∧ rest = rest' := by
  obtain ⟨_, _, hopening, hfield, hoperation⟩ := spells_iff.mp h
  obtain ⟨_, _, hopening', hfield', hoperation'⟩ := spells_iff.mp h'
  obtain rfl := Option.some.inj (hopening.symm.trans hopening')
  obtain ⟨hfieldEq, rfl⟩ := Prod.mk.inj (Option.some.inj (hfield.symm.trans hfield'))
  obtain ⟨hoperationEq, hrestEq⟩ :=
    Prod.mk.inj (Option.some.inj (hoperation.symm.trans hoperation'))
  exact ⟨String.toList_inj.mp hfieldEq, String.toList_inj.mp hoperationEq,
    String.toList_inj.mp hrestEq⟩

theorem namesLabel_iff {rest label : String} :
    NamesLabel rest label ↔ (readLabelName? rest.toList).map String.ofList = some label := by
  rw [Option.map_eq_some_iff]
  constructor
  · rintro ⟨⟨hne, hline, hend⟩, more, rfl⟩
    refine ⟨label.toList, readLabelName?_eq_some_iff.mpr ⟨more.toList, ?_, ?_, hline, hend⟩,
      String.ofList_toList⟩
    · simp [String.toList_append]
    · rwa [Ne, String.toList_eq_nil_iff]
  · rintro ⟨chars, hchars, rfl⟩
    obtain ⟨more, hrest, hne, hline, hend⟩ := readLabelName?_eq_some_iff.mp hchars
    refine ⟨⟨?_, ?_, ?_⟩, String.ofList more, ?_⟩
    · rwa [Ne, ← String.toList_eq_nil_iff, String.toList_ofList]
    · rwa [String.toList_ofList]
    · rwa [String.toList_ofList]
    · rw [← String.toList_inj, hrest]
      simp [String.toList_append]

/-- Only one label can stand at the front of a rest. -/
theorem NamesLabel.unique {rest label label' : String} (h : NamesLabel rest label)
    (h' : NamesLabel rest label') : label = label' :=
  Option.some.inj ((namesLabel_iff.mp h).symm.trans (namesLabel_iff.mp h'))

theorem parse?_of_spells {name field operation rest : String}
    (h : Spells name field operation rest) : parse? name = some ⟨field, operation,
      (if field = Key.labels then readLabelName? rest.toList else none).map String.ofList⟩ := by
  obtain ⟨_, _, hopening, hfield, hoperation⟩ := spells_iff.mp h
  simp only [parse?, hopening, hfield, hoperation, Option.bind_eq_bind, Option.bind_some,
    String.ofList_toList]

theorem exists_spells_of_parse? {name : String} {p : ParamName} (h : parse? name = some p) :
    ∃ rest, Spells name p.field p.operation rest := by
  simp only [parse?, Option.bind_eq_bind, Option.bind_eq_some_iff, Option.some.injEq] at h
  obtain ⟨behindOpening, hopening, ⟨field, behindField⟩, hfield, ⟨operation, rest⟩, hoperation,
    rfl⟩ := h
  refine ⟨String.ofList rest, spells_iff.mpr ⟨behindOpening, behindField, hopening, ?_, ?_⟩⟩
  · rw [hfield, String.toList_ofList]
  · rw [hoperation, String.toList_ofList, String.toList_ofList]

/-- The parts that are read from a name are those that spell it, with the label at the front of the
rest if the field is that of labels. -/
theorem parse?_eq_some_iff {name : String} {p : ParamName} : parse? name = some p ↔
    ∃ rest, Spells name p.field p.operation rest ∧
      ∀ label, p.labelName = some label ↔ p.field = Key.labels ∧ NamesLabel rest label := by
  have hlabel (field rest label : String) :
      (if field = Key.labels then readLabelName? rest.toList else none).map String.ofList =
        some label ↔ field = Key.labels ∧ NamesLabel rest label := by
    by_cases hfield : field = Key.labels
    · rw [if_pos hfield, namesLabel_iff, and_iff_right hfield]
    · simp [hfield]
  constructor
  · intro h
    obtain ⟨rest, hspells⟩ := exists_spells_of_parse? h
    refine ⟨rest, hspells, fun label => ?_⟩
    rw [← hlabel, ← Option.some.inj ((parse?_of_spells hspells).symm.trans h)]
  · rintro ⟨rest, hspells, hp⟩
    have hname : (if p.field = Key.labels then readLabelName? rest.toList else none).map
        String.ofList = p.labelName :=
      Option.ext fun label => (hlabel p.field rest label).trans (hp label).symm
    rw [parse?_of_spells hspells, hname]

theorem isSome_parse? {name : String} : (parse? name).isSome = true ↔ IsFilterName name := by
  rw [Option.isSome_iff_exists]
  constructor
  · rintro ⟨p, hp⟩
    obtain ⟨rest, hspells⟩ := exists_spells_of_parse? hp
    exact ⟨p.field, p.operation, rest, hspells⟩
  · rintro ⟨field, operation, rest, hspells⟩
    exact ⟨_, parse?_of_spells hspells⟩

instance (name : String) : Decidable (IsFilterName name) :=
  decidable_of_iff _ isSome_parse?

end ParamName

namespace SearchParam

open ParamName

/-! ## Entries -/

/-- An entry holds the parts of the name of a parameter and its values without escapes, behind the
name of the label if there is one. -/
structure IsEntryOf (param : String × ParamValue) (p : SearchParam) : Prop where
  spells : ∃ rest, Spells param.1 p.name.field p.name.operation rest ∧
    ∀ label, p.name.labelName = some label ↔ p.name.field = Key.labels ∧ NamesLabel rest label
  values : (∃ value, param.2 = .one value ∧
      p.values = .one (Bracketed.withName p.name.labelName (Text.decodeComponent value))) ∨
    ∃ values, param.2 = .many values ∧
      p.values = .many ((values.filterMap id).map fun value =>
        Bracketed.withName p.name.labelName (Text.decodeComponent value))

theorem isEntryOf_of_ofParam? {param : String × ParamValue} {p : SearchParam}
    (h : ofParam? param = some p) : IsEntryOf param p := by
  have hgiven := Bracketed.decodeValue?_of_ofParam? h
  refine ⟨parse?_eq_some_iff.mp (Bracketed.parse?_of_ofParam? h), ?_⟩
  rw [Bracketed.values_searchParam]
  cases hparam : param.2 with
  | null =>
    rw [hparam] at hgiven
    contradiction
  | one value =>
    rw [hparam] at hgiven
    rw [← Option.some.inj hgiven]
    exact Or.inl ⟨value, rfl, rfl⟩
  | many values =>
    rw [hparam] at hgiven
    rw [← Option.some.inj hgiven]
    exact Or.inr ⟨values, rfl, by rw [ParamValues.map, List.map_map]; rfl⟩

/-- A parameter with a value whose name can be taken apart. -/
def IsFilterParam (param : String × ParamValue) : Prop :=
  param.2 ≠ .null ∧ IsFilterName param.1

instance (param : String × ParamValue) : Decidable (IsFilterParam param) :=
  inferInstanceAs (Decidable (_ ∧ _))

theorem isSome_ofParam? {param : String × ParamValue} :
    (ofParam? param).isSome = true ↔ IsFilterParam param := by
  rw [IsFilterParam, ← isSome_parse?, ofParam?]
  cases parse? param.1 with
  | none => cases param.2 <;> simp [decodeValue?]
  | some name => cases param.2 <;> simp [decodeValue?]

/-- The filter parameters of a list are read one by one. -/
theorem forall₂_filterMap_ofParam? (params : List (String × ParamValue)) :
    List.Forall₂ IsEntryOf (params.filter fun param => decide (IsFilterParam param))
      (params.filterMap ofParam?) := by
  induction params with
  | nil => exact List.Forall₂.nil
  | cons param rest ih =>
    by_cases hread : IsFilterParam param
    · obtain ⟨p, hp⟩ := Option.isSome_iff_exists.mp (isSome_ofParam?.mpr hread)
      rw [List.filter_cons_of_pos (by simpa using hread), List.filterMap_cons_some hp]
      exact List.Forall₂.cons (isEntryOf_of_ofParam? hp) ih
    · have hnone : ofParam? param = none := by
        rw [← Option.not_isSome_iff_eq_none]
        exact mt isSome_ofParam?.mp hread
      rw [List.filter_cons_of_neg (by simpa using hread), List.filterMap_cons_none hnone]
      exact ih

/-- The entries that are read from a query are those of its parameters that have a value and a name
of the form `filters[field][operation]rest`, one each, in the order of the names.  There is one such
form at most for a name, and one label at most at the front of its rest.  The parts are those that
the first match of the pattern captures, and the names that are written for fields and for labels
are read back. -/
theorem ofQuery_by_grammar (q : Query) :
    List.Forall₂ IsEntryOf (q.toList.filter fun param => decide (IsFilterParam param)) (ofQuery q) ∧
      q.toList.Pairwise (fun param later => param.1 < later.1) ∧
      (∀ {name field operation rest field' operation' rest' : String},
        Spells name field operation rest → Spells name field' operation' rest' →
          field = field' ∧ operation = operation' ∧ rest = rest') ∧
      (∀ {rest label label' : String},
        NamesLabel rest label → NamesLabel rest label' → label = label') ∧
      (∀ name, parse? name = (pattern.captures? name.toList).bind ofCaptures?) ∧
      (∀ field, IsField field → ∀ op : Comparator,
        parse? (ofKey field op) = some ⟨field, op.token, none⟩) ∧
      (∀ label, IsLabelName label → ∀ op : Comparator,
        parse? (ofLabel op label) = some ⟨Key.labels, op.token, some label⟩) := by
  refine ⟨forall₂_filterMap_ofParam? q.toList, q.params.sorted, Spells.unique, NamesLabel.unique,
    parse?_eq_captures, ?_, ?_⟩
  · intro field hfield op
    exact parse?_ofKey hfield op
  · intro label hlabel op
    exact parse?_ofLabel_of_isLabelName hlabel op

/-- Brackets in a field, an empty label, a line feed in a name, a value with an escape, and a name
without a value. -/
theorem ofQuery_by_grammar_brackets :
    let q := Query.ofList [
      ("filters[a]]b][]c", .one "x"), ("filters[labels][EQUALS][team][]", .one "a%20b"),
      ("filters[labels][IN][]team]", .many [some "d", none]), ("filters[line\n][IN]", .one "e"),
      ("filters[state][IN]", .null), ("q", .one "f")]
    List.Forall₂ IsEntryOf
        [("filters[a]]b][]c", .one "x"), ("filters[labels][EQUALS][team][]", .one "a%20b"),
          ("filters[labels][IN][]team]", .many [some "d", none])]
        (ofQuery q) ∧
      (ofQuery q).map (fun p => (p.name, p.values)) = [
        (⟨"a]]b", "", none⟩, .one "x"), (⟨"labels", "EQUALS", some "team"⟩, .one "team:a b"),
        (⟨"labels", "IN", none⟩, .many ["d"])] ∧
      (∀ field operation rest, Spells "filters[a]]b][]c" field operation rest →
        field = "a]]b" ∧ operation = "" ∧ rest = "c") ∧
      (∀ label, NamesLabel "[team][]" label → label = "team") ∧
      parse? (ofKey "a]]b" .isIn) = some ⟨"a]]b", "IN", none⟩ ∧
      parse? (ofLabel .equals "te[am") = some ⟨"labels", "EQUALS", some "te[am"⟩ := by
  intro q
  obtain ⟨hentries, -, hname, hlabel, -, hkeys, hlabels⟩ := ofQuery_by_grammar q
  have hspells : Spells "filters[a]]b][]c" "a]]b" "" "c" :=
    ⟨by decide +kernel, by decide +kernel, by decide +kernel⟩
  have hteam : NamesLabel "[team][]" "team" :=
    ⟨by decide +kernel, "[]", by decide +kernel⟩
  refine ⟨?_, by decide +kernel, fun _ _ _ h => hname h hspells, fun _ h => hlabel h hteam,
    hkeys "a]]b" (by decide +kernel) .isIn, hlabels "te[am" (by decide +kernel) .equals⟩
  have hparams : (q.toList.filter fun param => decide (IsFilterParam param)) =
      [("filters[a]]b][]c", .one "x"), ("filters[labels][EQUALS][team][]", .one "a%20b"),
        ("filters[labels][IN][]team]", .many [some "d", none])] := by
    decide +kernel
  rwa [hparams] at hentries

end SearchParam

end FilterBar
