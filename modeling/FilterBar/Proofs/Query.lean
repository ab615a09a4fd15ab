import Mathlib.Data.List.Basic
import FilterBar.Query.Text

/-!
# What a query holds

What is held under a name after a query is merged with another or after values are added to it, and
which parts of a query a reader of its list of parameters depends on.  Values that are added under
one name end up as `ParamValue.ofList?` of their list, in the order in which they were added.
-/

namespace FilterBar

namespace Table

variable {α : Type u}

theorem get?_empty (name : String) : (empty : Table α).get? name = none := rfl

theorem get?_foldl_insert (l : List (String × α)) (hl : l.Pairwise fun a b => a.1 < b.1)
    (t : Table α) (name : String) :
    (l.foldl (fun t e => t.insert e.1 e.2) t).get? name =
      ((l.find? (·.1 = name)).map (·.2)).or (t.get? name) := by
  induction l generalizing t with
  | nil => simp
  | cons e rest ih =>
    obtain ⟨hall, hrest⟩ := List.pairwise_cons.mp hl
    rw [List.foldl_cons, ih hrest, get?_insert]
    by_cases hname : e.1 = name
    · have hnone : rest.find? (·.1 = name) = none := by
        rw [List.find?_eq_none]
        intro x hx hxname
        have hlt := hall x hx
        rw [hname, of_decide_eq_true hxname] at hlt
        exact String.lt_irrefl _ hlt
      simp [hname, hnone]
    · simp [hname]

/-- A merged table holds what the second table holds, and elsewhere what the first does. -/
theorem get?_merge (t other : Table α) (name : String) :
    (t.merge other).get? name = (other.get? name).or (t.get? name) := by
  rw [merge, get?_foldl_insert other.entries other.sorted]
  rfl

end Table

namespace ParamValue

/-- What values leave under a name where nothing was: a list from the second value on. -/
def ofList? : List String → Option ParamValue
  | [] => none
  | [value] => some (one value)
  | values => some (many (values.map some))

theorem append_ofList? (values : List String) (value : String) :
    some (append value (ofList? values)) = ofList? (values ++ [value]) := by
  match values with
  | [] => rfl
  | [_] => rfl
  | _ :: _ :: _ => simp [ofList?, append]

/-- The values under a name are those that were added, nothing standing for no value. -/
theorem values_of_ofList? {values : List String} {v : ParamValue} (h : ofList? values = some v) :
    v.values = values := by
  match values with
  | [] => simp [ofList?] at h
  | [_] =>
    obtain rfl := Option.some.inj h
    rfl
  | _ :: _ :: _ =>
    obtain rfl := Option.some.inj h
    simp [ParamValue.values, List.filterMap_map]

theorem ofList?_eq_none {values : List String} : ofList? values = none ↔ values = [] := by
  match values with
  | [] => simp [ofList?]
  | [_] => simp [ofList?]
  | _ :: _ :: _ => simp [ofList?]

theorem exists_ofList? {values : List String} (h : values ≠ []) : ∃ v, ofList? values = some v :=
  Option.ne_none_iff_exists'.mp (mt ofList?_eq_none.mp h)

/-- Values that were added leave no bare name. -/
theorem ne_null_of_ofList? {values : List String} {v : ParamValue} (h : ofList? values = some v) :
    v ≠ null := by
  match values with
  | [] => simp [ofList?] at h
  | [_] => simp [ofList?] at h; simp [← h]
  | _ :: _ :: _ => simp [ofList?] at h; simp [← h]

end ParamValue

namespace Query

theorem get?_empty (name : String) : empty.get? name = none := rfl

/-- A merged query holds what the second query holds, and elsewhere what the first does. -/
theorem get?_merge (q other : Query) (name : String) :
    (q.merge other).get? name = (other.get? name).or (q.get? name) :=
  Table.get?_merge q.params other.params name

theorem mem_toList {q : Query} {name : String} {value : ParamValue} :
    (name, value) ∈ q.toList ↔ q.get? name = some value :=
  Table.mem_entries

/-! ## Adding values -/

/-- Adds pairs of a name and a value one after the other. -/
def appendPairs (q : Query) (pairs : List (String × String)) : Query :=
  pairs.foldl (fun q pair => q.append pair.1 pair.2) q

/-- The values that pairs give to a name. -/
def valuesOf (name : String) (pairs : List (String × String)) : List String :=
  (pairs.filter (·.1 == name)).map (·.2)

theorem valuesOf_eq_nil {name : String} {pairs : List (String × String)} :
    valuesOf name pairs = [] ↔ name ∉ pairs.map (·.1) := by
  simp only [valuesOf, List.map_eq_nil_iff, List.filter_eq_nil_iff, beq_iff_eq, List.mem_map,
    not_exists, not_and]

theorem valuesOf_flatMap {α : Type} (name : String) (xs : List α)
    (pairs : α → List (String × String)) :
    valuesOf name (xs.flatMap pairs) = xs.flatMap fun x => valuesOf name (pairs x) := by
  simp only [valuesOf, List.filter_flatMap, List.map_flatMap]

theorem appendAll_eq_appendPairs (q : Query) (name : String) (values : List String) :
    q.appendAll name values = q.appendPairs (values.map (name, ·)) := by
  simp [appendAll, appendPairs, List.foldl_map]

/-- Pairs are added to the values that a name has. -/
theorem get?_appendPairs (q : Query) (values : List String) {name : String}
    (h : q.get? name = ParamValue.ofList? values) (pairs : List (String × String)) :
    (q.appendPairs pairs).get? name = ParamValue.ofList? (values ++ valuesOf name pairs) := by
  induction pairs generalizing q values with
  | nil => simpa [appendPairs, valuesOf] using h
  | cons pair rest ih =>
    have hstep : (q.append pair.1 pair.2).get? name =
        ParamValue.ofList? (values ++ valuesOf name [pair]) := by
      rw [append, get?_insert]
      by_cases hname : pair.1 = name
      · subst hname
        simp [valuesOf, h, ParamValue.append_ofList?]
      · simp [valuesOf, hname, h]
    have happ : valuesOf name (pair :: rest) = valuesOf name [pair] ++ valuesOf name rest := by
      rw [← List.singleton_append, valuesOf, List.filter_append, List.map_append]
      rfl
    rw [happ, ← List.append_assoc]
    exact ih _ _ hstep

/-- A query made of pairs holds under a name the values that they give to it. -/
theorem get?_ofPairs (pairs : List (String × String)) (name : String) :
    (ofPairs pairs).get? name = ParamValue.ofList? (valuesOf name pairs) :=
  get?_appendPairs empty [] rfl pairs

/-- Every pair leaves values under its name. -/
theorem exists_valuesOf {pair : String × String} {pairs : List (String × String)}
    (h : pair ∈ pairs) :
    valuesOf pair.1 pairs ≠ [] ∧ ∃ v, ParamValue.ofList? (valuesOf pair.1 pairs) = some v ∧
      (pair.1, v) ∈ (ofPairs pairs).toList := by
  have hvalues : valuesOf pair.1 pairs ≠ [] := by
    rw [Ne, valuesOf_eq_nil, not_not]
    exact List.mem_map_of_mem h
  obtain ⟨v, hv⟩ := ParamValue.exists_ofList? hvalues
  refine ⟨hvalues, v, hv, ?_⟩
  rw [mem_toList, get?_ofPairs, hv]

/-- A name that holds something is that of a pair. -/
theorem exists_pair_of_mem_toList {pairs : List (String × String)} {param : String × ParamValue}
    (h : param ∈ (ofPairs pairs).toList) : ∃ pair ∈ pairs, pair.1 = param.1 := by
  have hget := mem_toList.mp h
  rw [get?_ofPairs] at hget
  by_contra hnone
  have hname : param.1 ∉ pairs.map (·.1) := by
    intro hmem
    obtain ⟨pair, hpair, heq⟩ := List.mem_map.mp hmem
    exact hnone ⟨pair, hpair, heq⟩
  rw [valuesOf_eq_nil.mpr hname] at hget
  contradiction

/-- The parameters of pairs that satisfy a test on their names. -/
theorem retain_ofPairs (keep : String → Bool) (pairs : List (String × String)) :
    ((ofPairs pairs).retain fun name _ => keep name) =
      ofPairs (pairs.filter fun pair => keep pair.1) := by
  apply ext_get?
  intro name
  rw [get?_retain, get?_ofPairs, get?_ofPairs, valuesOf, valuesOf, List.filter_filter]
  by_cases hname : keep name = true
  · have hfilter : pairs.filter (fun pair => pair.1 == name && keep pair.1) =
        pairs.filter (·.1 == name) := by
      apply List.filter_congr
      intro pair _
      by_cases heq : pair.1 = name
      · simp [heq, hname]
      · simp [heq]
    rw [hfilter]
    cases ParamValue.ofList? ((pairs.filter (·.1 == name)).map (·.2)) <;> simp [hname]
  · have hfilter : pairs.filter (fun pair => pair.1 == name && keep pair.1) = [] := by
      rw [List.filter_eq_nil_iff]
      intro pair _ hpair
      obtain ⟨heq, hkeep⟩ := Bool.and_eq_true_iff.mp hpair
      rw [beq_iff_eq.mp heq] at hkeep
      exact hname hkeep
    rw [hfilter]
    cases ParamValue.ofList? ((pairs.filter (·.1 == name)).map (·.2)) <;> simp [hname, ParamValue.ofList?]

/-- Values that are added under one name make up the only parameter. -/
theorem ofPairs_map_pair {values : List String} {v : ParamValue}
    (h : ParamValue.ofList? values = some v) (name : String) :
    ofPairs (values.map (name, ·)) = empty.insert name v := by
  apply ext_get?
  intro other
  rw [get?_ofPairs, get?_insert, get?_empty]
  by_cases hname : name = other
  · have hvalues : valuesOf other (values.map (name, ·)) = values := by
      simp [valuesOf, List.filter_map, Function.comp_def, hname]
    rw [hvalues, h, if_pos hname]
  · have hvalues : valuesOf other (values.map (name, ·)) = [] := by
      simp [valuesOf, List.filter_map, Function.comp_def, beq_false_of_ne hname]
    rw [hvalues, if_neg hname]
    rfl

theorem toList_insert_empty (name : String) (v : ParamValue) :
    (empty.insert name v).toList = [(name, v)] := rfl

/-- Names that pairs do not mention keep what they hold. -/
theorem get?_appendPairs_of_notMem {name : String} {pairs : List (String × String)}
    (h : name ∉ pairs.map (·.1)) (q : Query) : (q.appendPairs pairs).get? name = q.get? name := by
  induction pairs generalizing q with
  | nil => rfl
  | cons pair rest ih =>
    obtain ⟨hne, hrest⟩ := not_or.mp (mt List.mem_cons.mpr h)
    have hstep : (q.append pair.1 pair.2).get? name = q.get? name := by
      rw [append, get?_insert, if_neg (Ne.symm hne)]
    exact (ih hrest _).trans hstep

theorem get?_insertOne_of_ne {name other : String} (h : name ≠ other) (q : Query) (value : String) :
    (q.insertOne name value).get? other = q.get? other := by
  rw [insertOne, get?_insert, if_neg h]

/-- Under a name that is not in use, setting a value and adding it are the same. -/
theorem insertOne_eq_append {q : Query} {name : String} (h : q.get? name = none) (value : String) :
    q.insertOne name value = q.append name value := by
  rw [append, h]
  rfl

theorem insertOne_insertOne_eq_appendPairs {q : Query} {name other : String} (hne : name ≠ other)
    (hname : q.get? name = none) (hother : q.get? other = none) (value otherValue : String) :
    (q.insertOne name value).insertOne other otherValue =
      q.appendPairs [(name, value), (other, otherValue)] := by
  have hfree : (q.insertOne name value).get? other = none := by
    rw [get?_insertOne_of_ne hne, hother]
  rw [insertOne_eq_append hfree, insertOne_eq_append hname]
  rfl

/-! ## Reading the list of parameters -/

theorem toList_retain (q : Query) (keep : String → Bool) :
    (q.retain fun name _ => keep name).toList = q.toList.filter fun param => keep param.1 := rfl

/-- Parameters that a reader passes over can be left out. -/
theorem flatMap_retain {β : Type} (q : Query) (keep : String → Bool)
    (f : String × ParamValue → List β) (hf : ∀ param, keep param.1 = false → f param = []) :
    (q.retain fun name _ => keep name).toList.flatMap f = q.toList.flatMap f := by
  rw [toList_retain]
  induction q.toList with
  | nil => rfl
  | cons param rest ih =>
    by_cases h : keep param.1 = true
    · simp [h, ih]
    · have hnil : f param = [] := hf param (Bool.eq_false_iff.mpr h)
      simp [h, hnil, ih]

theorem filterMap_retain {β : Type} (q : Query) (keep : String → Bool)
    (f : String × ParamValue → Option β) (hf : ∀ param, keep param.1 = false → f param = none) :
    (q.retain fun name _ => keep name).toList.filterMap f = q.toList.filterMap f := by
  rw [List.filterMap_eq_flatMap_toList, List.filterMap_eq_flatMap_toList]
  apply flatMap_retain
  intro param hparam
  rw [hf param hparam]
  rfl

/-- Queries that agree on the names of a kind are equal once the other names are left out. -/
theorem retain_eq_retain {p q : Query} {keep : String → Bool}
    (h : ∀ name, keep name = true → p.get? name = q.get? name) :
    (p.retain fun name _ => keep name) = q.retain fun name _ => keep name := by
  apply ext_get?
  intro name
  rw [get?_retain, get?_retain]
  by_cases hname : keep name = true
  · rw [h name hname]
  · have hfalse : keep name = false := Bool.eq_false_iff.mpr hname
    rw [hfalse]
    cases p.get? name <;> cases q.get? name <;> simp

end Query

end FilterBar
