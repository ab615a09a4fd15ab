import Mathlib.Data.List.Basic
import FilterBar.Proofs.FormEncoding
import FilterBar.Proofs.Query

/-!
# Query strings are read back

A query string is cut at the separators that were put in when it was written, since no name and no
value holds one in its written form.  What comes back under a name is what the values under it leave
when they are added one after the other, and a bare name counts as one with the empty value.  So a
query is read back as it was exactly if every parameter of it is what added values leave.
-/

namespace FilterBar

namespace Text

/-! ## Cutting what was joined -/

theorem splitOn_eq_splitOn (sep : Char) (s : List Char) : splitOn sep s = s.splitOn sep := by
  induction s with
  | nil => rfl
  | cons c rest ih =>
    have hcons : (c :: rest).splitOn sep =
        if (c == sep) = true then [] :: rest.splitOn sep
        else (rest.splitOn sep).modifyHead (c :: ·) :=
      List.splitOnP_cons_eq_if_modifyHead c rest
    rw [splitOn, ih, hcons]
    by_cases hc : c = sep
    · rw [if_pos hc, if_pos (beq_iff_eq.mpr hc)]
    · rw [if_neg hc, if_neg (mt beq_iff_eq.mp hc)]
      cases hsplit : rest.splitOn sep with
      | nil => exact absurd hsplit (List.splitOn_ne_nil sep rest)
      | cons piece pieces => rfl

theorem mem_joined {sep c : Char} {pieces : List (List Char)} (h : c ∈ [sep].intercalate pieces) :
    c = sep ∨ ∃ piece ∈ pieces, c ∈ piece := by
  induction pieces with
  | nil => simp at h
  | cons piece rest ih =>
    cases rest with
    | nil =>
      rw [List.intercalate_singleton] at h
      exact Or.inr ⟨piece, List.mem_cons_self, h⟩
    | cons next rest =>
      rw [List.intercalate_cons_cons, List.append_assoc] at h
      rcases List.mem_append.mp h with hpiece | h
      · exact Or.inr ⟨piece, List.mem_cons_self, hpiece⟩
      rcases List.mem_cons.mp h with hsep | hrest
      · exact Or.inl hsep
      · exact (ih hrest).imp_right fun ⟨other, hother, hc⟩ =>
          ⟨other, List.mem_cons_of_mem piece hother, hc⟩

theorem getD_isPrefixOf?_of_notMem {c : Char} {s : List Char} (h : c ∉ s) :
    ([c].isPrefixOf? s).getD s = s := by
  cases hprefix : [c].isPrefixOf? s with
  | none => rfl
  | some rest =>
    rw [List.isPrefixOf?_eq_some_iff_append_eq] at hprefix
    rw [← hprefix] at h
    exact absurd List.mem_cons_self h

theorem cut?_append {sep : Char} {before : List Char} (h : sep ∉ before) (after : List Char) :
    cut? sep (before ++ sep :: after) = some (before, after) := by
  induction before with
  | nil => simp [cut?]
  | cons c rest ih =>
    obtain ⟨hc, hrest⟩ := not_or.mp (mt List.mem_cons.mpr h)
    rw [List.cons_append, cut?, if_neg (Ne.symm hc), ih hrest]
    rfl

theorem cut?_of_notMem {sep : Char} {s : List Char} (h : sep ∉ s) : cut? sep s = none := by
  induction s with
  | nil => rfl
  | cons c rest ih =>
    obtain ⟨hc, hrest⟩ := not_or.mp (mt List.mem_cons.mpr h)
    rw [cut?, if_neg (Ne.symm hc), ih hrest]
    rfl

end Text

open Text

/-! ## Parameters in normal form -/

namespace ParamValue

/-- What values leave that are added under one name: a single one, or a list of at least two. -/
def IsNormal : ParamValue → Prop
  | null => False
  | one _ => True
  | many values => 2 ≤ values.length ∧ none ∉ values

theorem isNormal_of_ofList? {values : List String} {v : ParamValue} (h : ofList? values = some v) :
    v.IsNormal := by
  match values with
  | [] => simp [ofList?] at h
  | [_] =>
    obtain rfl := Option.some.inj h
    trivial
  | _ :: _ :: _ =>
    obtain rfl := Option.some.inj h
    simp [IsNormal]

/-- What is read back for a parameter that is written: a bare name has the empty value, unless the
name is empty too, and a list has its values without the bare occurrences. -/
def normal? (name : String) : ParamValue → Option ParamValue
  | null => if name = "" then none else some (one "")
  | one value => some (one value)
  | many values => ofList? (values.filterMap id)

/-- Without bare occurrences a list is that of its values. -/
theorem map_some_filterMap {values : List (Option String)} (h : none ∉ values) :
    (values.filterMap id).map some = values := by
  rw [List.map_filterMap_some_eq_filter_map_isSome, List.map_id, List.filter_eq_self]
  intro value hvalue
  rw [Option.isSome_iff_ne_none]
  rintro rfl
  exact h hvalue

theorem length_filterMap {values : List (Option String)} (h : none ∉ values) :
    (values.filterMap id).length = values.length := by
  have hlength := congrArg List.length (map_some_filterMap h)
  rwa [List.length_map] at hlength

theorem normal?_of_isNormal {v : ParamValue} (h : v.IsNormal) (name : String) :
    v.normal? name = some v := by
  cases v with
  | null => contradiction
  | one value => rfl
  | many values =>
    obtain ⟨hlength, hnone⟩ := h
    have hvalues := map_some_filterMap hnone
    rw [normal?]
    generalize values.filterMap id = given at hvalues
    subst hvalues
    match given, hlength with
    | _ :: _ :: _, _ => rfl

end ParamValue

namespace Query

/-- Every parameter is what values leave that are added under its name. -/
def IsNormal (q : Query) : Prop :=
  ∀ name v, q.get? name = some v → v.IsNormal

theorem isNormal_ofPairs (pairs : List (String × String)) : (ofPairs pairs).IsNormal := by
  intro name v hget
  rw [get?_ofPairs] at hget
  exact ParamValue.isNormal_of_ofList? hget

theorem isNormal_parse (raw : String) : (parse raw).IsNormal :=
  isNormal_ofPairs _

/-! ## Pieces of a query string -/

theorem isSeparator_of_mem_writePair {name value : String} {c : Char}
    (h : c ∈ writePair name value) : c = '=' ∨ Form.isSeparator c = false := by
  rcases List.mem_append.mp h with hname | hvalue
  · exact Or.inr (Form.isSeparator_of_mem_encode hname)
  · rcases List.mem_cons.mp hvalue with heq | hvalue
    · exact Or.inl heq
    · exact Or.inr (Form.isSeparator_of_mem_encode hvalue)

/-- A piece holds no separator but the one between name and value. -/
theorem isSeparator_of_mem_writeParam {param : String × ParamValue} {piece : List Char}
    (hpiece : piece ∈ writeParam param) {c : Char} (hc : c ∈ piece) :
    c = '=' ∨ Form.isSeparator c = false := by
  obtain ⟨name, v⟩ := param
  cases v with
  | null =>
    rw [List.mem_singleton.mp hpiece] at hc
    exact Or.inr (Form.isSeparator_of_mem_encode hc)
  | one value =>
    rw [List.mem_singleton.mp hpiece] at hc
    exact isSeparator_of_mem_writePair hc
  | many values =>
    obtain ⟨value, -, rfl⟩ := List.mem_map.mp hpiece
    exact isSeparator_of_mem_writePair hc

theorem readPair_writePair (name value : String) : readPair (writePair name value) = (name, value) := by
  have hname : '=' ∉ Form.encode name := by
    intro hmem
    exact absurd (Form.isSeparator_of_mem_encode hmem) (by decide)
  simp only [readPair, writePair, cut?_append hname, Form.decode_encode]

theorem readPair_encode (name : String) : readPair (Form.encode name) = (name, "") := by
  have hname : '=' ∉ Form.encode name := by
    intro hmem
    exact absurd (Form.isSeparator_of_mem_encode hmem) (by decide)
  simp only [readPair, cut?_of_notMem hname, Form.decode_encode]

theorem isEmpty_encode (name : String) : (Form.encode name).isEmpty = (name == "") := by
  by_cases hname : name = ""
  · subst hname
    rfl
  · have hne : Form.encode name ≠ [] := by
      intro hnil
      apply hname
      rw [← Form.decode_encode name, hnil]
      rfl
    rw [beq_false_of_ne hname, List.isEmpty_eq_false_iff]
    exact hne

/-- The names and values that a parameter is written as. -/
def paramPairs : String × ParamValue → List (String × String)
  | (name, .null) => if name = "" then [] else [(name, "")]
  | (name, .one value) => [(name, value)]
  | (name, .many values) => (values.filterMap id).map (name, ·)

theorem isEmpty_writePair (name value : String) : (writePair name value).isEmpty = false := by
  simp [writePair]

/-- The pieces of a parameter that are not empty are read as its names and values. -/
theorem map_readPair_writeParam (param : String × ParamValue) :
    ((writeParam param).filter (!·.isEmpty)).map readPair = paramPairs param := by
  obtain ⟨name, v⟩ := param
  cases v with
  | null =>
    by_cases hname : name = ""
    · simp [writeParam, paramPairs, isEmpty_encode, hname]
    · simp [writeParam, paramPairs, isEmpty_encode, hname, readPair_encode]
  | one value => simp [writeParam, paramPairs, isEmpty_writePair, readPair_writePair]
  | many values =>
    simp [writeParam, paramPairs, List.filter_map, Function.comp_def, isEmpty_writePair,
      readPair_writePair]

/-! ## Reading a query string -/

/-- What was joined is read piece by piece. -/
theorem readPairs_joinPieces {pieces : List (List Char)} (h : ∀ piece ∈ pieces, '&' ∉ piece) :
    readPairs (joinPieces pieces) = (pieces.filter (!·.isEmpty)).map readPair := by
  have hdrop : (pieces.dropWhile (·.isEmpty)).filter (!·.isEmpty) = pieces.filter (!·.isEmpty) := by
    induction pieces with
    | nil => rfl
    | cons piece rest ih =>
      rw [List.dropWhile_cons]
      split
      next hempty =>
        rw [ih fun other hother => h other (List.mem_cons_of_mem piece hother),
          List.filter_cons_of_neg (by simp [hempty])]
      next => rfl
  have hrest : ∀ piece ∈ pieces.dropWhile (·.isEmpty), '&' ∉ piece := by
    intro piece hpiece
    exact h piece ((List.dropWhile_sublist _).subset hpiece)
  rw [readPairs, joinPieces, ← hdrop]
  generalize pieces.dropWhile (·.isEmpty) = kept at hrest
  by_cases hnil : kept = []
  · subst hnil
    rfl
  · rw [splitOn_eq_splitOn, List.splitOn_intercalate '&' hrest hnil]

/-- A query that is written is read from the names and values of its parameters. -/
theorem parse_render_eq_ofPairs (q : Query) :
    parse (render q) = ofPairs (q.toList.flatMap paramPairs) := by
  have hsep : ∀ piece ∈ q.toList.flatMap writeParam, ∀ c ∈ piece,
      c = '=' ∨ Form.isSeparator c = false := by
    intro piece hpiece c hc
    obtain ⟨param, -, hparam⟩ := List.mem_flatMap.mp hpiece
    exact isSeparator_of_mem_writeParam hparam hc
  have hamp : ∀ piece ∈ q.toList.flatMap writeParam, '&' ∉ piece := by
    intro piece hpiece hmem
    exact absurd (hsep piece hpiece '&' hmem) (by decide)
  have hquestion : '?' ∉ joinPieces (q.toList.flatMap writeParam) := by
    intro hmem
    rcases mem_joined hmem with heq | ⟨piece, hpiece, hc⟩
    · exact absurd heq (by decide)
    · exact absurd (hsep piece ((List.dropWhile_sublist _).subset hpiece) '?' hc) (by decide)
  rw [parse, render, String.toList_ofList, getD_isPrefixOf?_of_notMem hquestion,
    readPairs_joinPieces hamp, List.filter_flatMap, List.map_flatMap]
  simp only [map_readPair_writeParam]

/-! ## What is read back -/

/-- The only parameter with a given name is the one that is held under it. -/
theorem toList_retain_name (q : Query) (name : String) :
    (q.retain fun other _ => other == name).toList =
      ((q.get? name).map fun v => (name, v)).toList := by
  have hget (other : String) : (q.retain fun other _ => other == name).get? other =
      if name = other then q.get? name else none := by
    rw [get?_retain]
    by_cases hother : name = other
    · subst hother
      cases q.get? name <;> simp
    · rw [if_neg hother]
      cases q.get? other <;> simp [Ne.symm hother]
  cases hname : q.get? name with
  | none =>
    have hempty : (q.retain fun other _ => other == name) = empty := by
      apply ext_get?
      intro other
      rw [hget, hname, get?_empty, ite_self]
    rw [hempty]
    rfl
  | some v =>
    have hsingle : (q.retain fun other _ => other == name) = empty.insert name v := by
      apply ext_get?
      intro other
      rw [hget, hname, get?_insert, get?_empty]
    rw [hsingle, toList_insert_empty]
    rfl

theorem valuesOf_paramPairs_of_ne {name : String} {param : String × ParamValue}
    (h : (param.1 == name) = false) : valuesOf name (paramPairs param) = [] := by
  rw [valuesOf_eq_nil]
  intro hmem
  obtain ⟨pair, hpair, rfl⟩ := List.mem_map.mp hmem
  have hname : pair.1 = param.1 := by
    obtain ⟨name, v⟩ := param
    cases v with
    | null =>
      simp only [paramPairs] at hpair
      split at hpair
      · simp at hpair
      · rw [List.mem_singleton.mp hpair]
    | one value => rw [List.mem_singleton.mp hpair]
    | many values =>
      obtain ⟨value, -, rfl⟩ := List.mem_map.mp hpair
      rfl
  rw [hname, beq_self_eq_true] at h
  contradiction

/-- The values of a parameter leave its normal form. -/
theorem ofList?_valuesOf_paramPairs (name : String) (v : ParamValue) :
    ParamValue.ofList? (valuesOf name (paramPairs (name, v))) = v.normal? name := by
  cases v with
  | null =>
    by_cases hname : name = ""
    · simp [paramPairs, valuesOf, ParamValue.normal?, ParamValue.ofList?, hname]
    · simp [paramPairs, valuesOf, ParamValue.normal?, ParamValue.ofList?, hname]
  | one value => simp [paramPairs, valuesOf, ParamValue.normal?, ParamValue.ofList?]
  | many values =>
    simp [paramPairs, valuesOf, ParamValue.normal?, List.filter_map, Function.comp_def]

/-- A query that is written is read back with every parameter in its normal form. -/
theorem get?_parse_render (q : Query) (name : String) :
    (parse (render q)).get? name = (q.get? name).bind (ParamValue.normal? name) := by
  have hvalues : valuesOf name (q.toList.flatMap paramPairs) =
      (((q.get? name).map fun v => (name, v)).toList).flatMap fun param =>
        valuesOf name (paramPairs param) := by
    rw [← toList_retain_name, flatMap_retain q (· == name) _ fun _ hparam =>
      valuesOf_paramPairs_of_ne hparam]
    simp only [valuesOf, List.filter_flatMap, List.map_flatMap]
  rw [parse_render_eq_ofPairs, get?_ofPairs, hvalues]
  cases q.get? name with
  | none => rfl
  | some v =>
    rw [Option.map_some, Option.toList_some, List.flatMap_singleton, Option.bind_some]
    exact ofList?_valuesOf_paramPairs name v

/-- Exactly the queries in normal form are read back as they were. -/
theorem parse_render_eq_self_iff {q : Query} : parse (render q) = q ↔ q.IsNormal := by
  constructor
  · intro hself
    rw [← hself]
    exact isNormal_parse (render q)
  · intro hnormal
    apply ext_get?
    intro name
    rw [get?_parse_render]
    cases hget : q.get? name with
    | none => rfl
    | some v => exact ParamValue.normal?_of_isNormal (hnormal name v hget) name

/-- Writing a query and reading it back puts every parameter in its normal form and changes nothing
else: a single value stays, a bare name has the empty value, and a list has its values without the
bare occurrences.  So what was read from any text comes back unchanged. -/
theorem parse_render_normalizes :
    (∀ (q : Query) (name : String),
      (parse (render q)).get? name = (q.get? name).bind (ParamValue.normal? name)) ∧
      ∀ raw : String, parse (render (parse raw)) = parse raw := by
  constructor
  · exact get?_parse_render
  · intro raw
    exact parse_render_eq_self_iff.mpr (isNormal_parse raw)

end Query

end FilterBar
