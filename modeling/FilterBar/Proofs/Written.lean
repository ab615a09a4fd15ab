import FilterBar.Proofs.Query
import FilterBar.Proofs.Names

/-!
# What the formats write

Each format writes a criterion as pairs of a name and a value.  A query is changed under the names of
these pairs only, and where none of them is in use yet writing adds the pairs to the query.  So
criteria that share no name are written as the query of all their pairs.
-/

namespace FilterBar

open Text

/-- A value is a range of time or made of items. -/
theorem FilterValue.isTimeRange_or (v : FilterValue) :
    v.isTimeRange = false ∨ ∃ start stop, v = .timeRange start stop := by
  cases v with
  | timeRange start stop => exact Or.inr ⟨start, stop, rfl⟩
  | text value => exact Or.inl rfl
  | list values => exact Or.inl rfl

theorem FilterValue.exists_of_isTimeRange {v : FilterValue} (h : v.isTimeRange = true) :
    ∃ start stop, v = .timeRange start stop := by
  rcases v.isTimeRange_or with hitems | hrange
  · rw [h] at hitems
    contradiction
  · exact hrange

/-! ## Writing criteria one after the other -/

section Writing

variable {write : Query → Criterion → Query} {pairs : Criterion → List (String × String)}

/-- A name in none of the pairs keeps what it holds if that is so for each criterion. -/
theorem get?_foldl_of_notMem {name : String}
    (hframe : ∀ q f, name ∉ (pairs f).map (·.1) → (write q f).get? name = q.get? name)
    {fs : List Criterion} (h : ∀ f ∈ fs, name ∉ (pairs f).map (·.1)) (q : Query) :
    (fs.foldl write q).get? name = q.get? name := by
  induction fs generalizing q with
  | nil => rfl
  | cons f rest ih =>
    rw [List.foldl_cons, ih (fun g hg => h g (List.mem_cons_of_mem f hg)),
      hframe q f (h f List.mem_cons_self)]

/-- Criteria that share no name are written by adding all their pairs, if each of them is written by
adding its pairs to a query that has none of its names. -/
theorem foldl_eq_appendPairs
    (hwrite : ∀ q f, (∀ pair ∈ pairs f, q.get? pair.1 = none) → write q f = q.appendPairs (pairs f))
    {fs : List Criterion}
    (hdistinct : fs.Pairwise fun f g => ∀ pair ∈ pairs g, pair.1 ∉ (pairs f).map (·.1))
    {q : Query} (hfree : ∀ f ∈ fs, ∀ pair ∈ pairs f, q.get? pair.1 = none) :
    fs.foldl write q = q.appendPairs (fs.flatMap pairs) := by
  induction fs generalizing q with
  | nil => rfl
  | cons f rest ih =>
    obtain ⟨hf, hrest⟩ := List.pairwise_cons.mp hdistinct
    have hhead : write q f = q.appendPairs (pairs f) := hwrite q f (hfree f List.mem_cons_self)
    have hfree' : ∀ g ∈ rest, ∀ pair ∈ pairs g, (q.appendPairs (pairs f)).get? pair.1 = none := by
      intro g hg pair hpair
      rw [Query.get?_appendPairs_of_notMem (hf g hg pair hpair)]
      exact hfree g (List.mem_cons_of_mem f hg) pair hpair
    rw [List.foldl_cons, hhead, ih hrest hfree', List.flatMap_cons]
    simp [Query.appendPairs]

/-- Where no other criterion has pairs that satisfy a test, those of its owner are left. -/
theorem filter_flatMap_of_owner {fs : List Criterion} (hkeys : (fs.map Criterion.key).Nodup)
    {f : Criterion} (hf : f ∈ fs) {keep : String × String → Bool}
    (hother : ∀ g ∈ fs, g.key ≠ f.key → ∀ pair ∈ pairs g, keep pair = false) :
    (fs.flatMap pairs).filter keep = (pairs f).filter keep := by
  have hnil : ∀ g ∈ fs, g.key ≠ f.key → (pairs g).filter keep = [] := by
    intro g hg hne
    rw [List.filter_eq_nil_iff]
    intro pair hpair hkeep
    rw [hother g hg hne pair hpair] at hkeep
    contradiction
  clear hother
  induction fs with
  | nil => simp at hf
  | cons g rest ih =>
    obtain ⟨hg, hrest⟩ := List.nodup_cons.mp hkeys
    rw [List.flatMap_cons, List.filter_append]
    rcases List.mem_cons.mp hf with rfl | hf
    · have hempty : (rest.flatMap pairs).filter keep = [] := by
        rw [List.filter_flatMap, List.flatMap_eq_nil_iff]
        intro h hh
        apply hnil h (List.mem_cons_of_mem f hh)
        intro hkey
        exact hg (List.mem_map.mpr ⟨h, hh, hkey⟩)
      rw [hempty, List.append_nil]
    · have hne : g.key ≠ f.key := by
        intro hkey
        exact hg (List.mem_map.mpr ⟨f, hf, hkey.symm⟩)
      rw [hnil g List.mem_cons_self hne, List.nil_append,
        ih hrest hf fun h hh => hnil h (List.mem_cons_of_mem g hh)]

end Writing

/-! ## The bracketed format -/

namespace Bracketed

/-- The pair that an entry of the key `labels` is written as. -/
def labelPair (c : Comparator) (entry : String) : String × String :=
  match cut? ':' entry.toList with
  | some (name, value) => (ParamName.ofLabel c (String.ofList name), String.ofList value)
  | none => (ParamName.ofKey Key.labels c, entry)

/-- The pair that an item of a criterion on a key is written as. -/
def itemPair (key : String) (c : Comparator) (item : String) : String × String :=
  if key = Key.labels then labelPair c item
  else
    match Key.after? Key.namedLabel key with
    | some name => (ParamName.ofLabel c name, item)
    | none => (ParamName.ofKey key c, item)

/-- The pairs that a criterion is written as. -/
def pairs (f : Criterion) : List (String × String) :=
  match f.value with
  | .timeRange start stop =>
    [(ParamName.ofKey Key.startDate f.comparator, String.ofList start.millisText),
      (ParamName.ofKey Key.endDate f.comparator, String.ofList stop.millisText)]
  | value => value.items.map (itemPair f.key f.comparator)

theorem pairs_of_timeRange {f : Criterion} {start stop : Instant}
    (h : f.value = .timeRange start stop) :
    pairs f = [(ParamName.ofKey Key.startDate f.comparator, String.ofList start.millisText),
      (ParamName.ofKey Key.endDate f.comparator, String.ofList stop.millisText)] := by
  simp [pairs, h]

theorem pairs_of_items {f : Criterion} (h : f.value.isTimeRange = false) :
    pairs f = f.value.items.map (itemPair f.key f.comparator) := by
  cases hvalue : f.value with
  | timeRange start stop => simp [hvalue, FilterValue.isTimeRange] at h
  | text value => simp [pairs, hvalue]
  | list values => simp [pairs, hvalue]

theorem encodeLabel_eq (c : Comparator) (q : Query) (entry : String) :
    encodeLabel c q entry = q.append (labelPair c entry).1 (labelPair c entry).2 := by
  unfold encodeLabel labelPair
  cases cut? ':' entry.toList <;> rfl

/-- Writes items under a key: labels under their names, anything else under one name. -/
def writeItems (key : String) (c : Comparator) (q : Query) (items : List String) : Query :=
  if key = Key.labels then items.foldl (encodeLabel c) q
  else
    match Key.after? Key.namedLabel key with
    | some name => q.appendAll (ParamName.ofLabel c name) items
    | none => q.appendAll (ParamName.ofKey key c) items

theorem encodeOne_eq_writeItems {f : Criterion} (h : f.value.isTimeRange = false) (q : Query) :
    encodeOne q f = writeItems f.key f.comparator q f.value.items := by
  cases hvalue : f.value with
  | timeRange start stop => simp [hvalue, FilterValue.isTimeRange] at h
  | text value =>
    rw [encodeOne, hvalue]
    rfl
  | list values =>
    rw [encodeOne, hvalue]
    rfl

theorem writeItems_eq_appendPairs (key : String) (c : Comparator) (q : Query)
    (items : List String) : writeItems key c q items = q.appendPairs (items.map (itemPair key c)) := by
  rw [writeItems]
  by_cases hlabels : key = Key.labels
  · rw [if_pos hlabels, Query.appendPairs, List.foldl_map]
    congr 1
    funext q entry
    rw [encodeLabel_eq, itemPair, if_pos hlabels]
  · rw [if_neg hlabels]
    cases hname : Key.after? Key.namedLabel key with
    | some name =>
      have hitem : itemPair key c = (ParamName.ofLabel c name, ·) := by
        funext item
        simp only [itemPair, if_neg hlabels, hname]
      rw [hitem]
      exact Query.appendAll_eq_appendPairs q _ _
    | none =>
      have hitem : itemPair key c = (ParamName.ofKey key c, ·) := by
        funext item
        simp only [itemPair, if_neg hlabels, hname]
      rw [hitem]
      exact Query.appendAll_eq_appendPairs q _ _

/-- A criterion that is no range of time is written by adding its pairs. -/
theorem encodeOne_of_items {f : Criterion} (h : f.value.isTimeRange = false) (q : Query) :
    encodeOne q f = q.appendPairs (pairs f) := by
  rw [encodeOne_eq_writeItems h, writeItems_eq_appendPairs, pairs_of_items h]

theorem encodeOne_of_timeRange {f : Criterion} {start stop : Instant}
    (h : f.value = .timeRange start stop) (q : Query) :
    encodeOne q f =
      (q.insertOne (ParamName.ofKey Key.startDate f.comparator) (String.ofList start.millisText)).insertOne
        (ParamName.ofKey Key.endDate f.comparator) (String.ofList stop.millisText) := by
  rw [encodeOne, h]

/-- Names that a criterion is not written under keep what they hold. -/
theorem get?_encodeOne_of_notMem {name : String} (q : Query) (f : Criterion)
    (h : name ∉ (pairs f).map (·.1)) : (encodeOne q f).get? name = q.get? name := by
  rcases f.value.isTimeRange_or with hrange | ⟨start, stop, hvalue⟩
  · rw [encodeOne_of_items hrange, Query.get?_appendPairs_of_notMem h]
  · rw [pairs_of_timeRange hvalue] at h
    simp only [List.map_cons, List.map_nil, List.mem_cons, List.not_mem_nil, or_false, not_or] at h
    rw [encodeOne_of_timeRange hvalue, Query.get?_insertOne_of_ne (Ne.symm h.2),
      Query.get?_insertOne_of_ne (Ne.symm h.1)]

theorem ofKey_startDate_ne_ofKey_endDate (c : Comparator) :
    ParamName.ofKey Key.startDate c ≠ ParamName.ofKey Key.endDate c := by
  intro h
  have hlength := congrArg String.length h
  simp only [ParamName.ofKey, String.length_append] at hlength
  have hstart : Key.startDate.length = 9 := rfl
  have hend : Key.endDate.length = 7 := rfl
  omega

/-- A criterion whose names are not in use is written by adding its pairs. -/
theorem encodeOne_eq_appendPairs (q : Query) (f : Criterion)
    (hfree : ∀ pair ∈ pairs f, q.get? pair.1 = none) : encodeOne q f = q.appendPairs (pairs f) := by
  rcases f.value.isTimeRange_or with hrange | ⟨start, stop, hvalue⟩
  · exact encodeOne_of_items hrange q
  · rw [pairs_of_timeRange hvalue] at hfree ⊢
    rw [encodeOne_of_timeRange hvalue]
    obtain ⟨hstart, hrest⟩ := List.forall_mem_cons.mp hfree
    exact Query.insertOne_insertOne_eq_appendPairs (ofKey_startDate_ne_ofKey_endDate _)
      hstart (hrest _ List.mem_cons_self) _ _

/-- Criteria that share no name are written as the query of all their pairs. -/
theorem encode_eq_ofPairs {fs : List Criterion}
    (h : fs.Pairwise fun f g => ∀ pair ∈ pairs g, pair.1 ∉ (pairs f).map (·.1)) :
    encode fs = Query.ofPairs (fs.flatMap pairs) :=
  foldl_eq_appendPairs encodeOne_eq_appendPairs h (fun _ _ _ _ => Query.get?_empty _)

theorem get?_encode_of_notMem {name : String} {fs : List Criterion}
    (h : ∀ f ∈ fs, name ∉ (pairs f).map (·.1)) : (encode fs).get? name = none :=
  get?_foldl_of_notMem (fun q f => get?_encodeOne_of_notMem q f) h Query.empty

end Bracketed

/-! ## The flat format -/

namespace Flat

/-- The pair that a detail is written as, if it has a name. -/
def detailPair? (entry : String) : Option (String × String) :=
  (cut? ':' entry.toList).map fun (name, value) =>
    (detailOpening ++ String.ofList name, String.ofList value)

/-- The pairs that a criterion is written as. -/
def pairs (f : Criterion) : List (String × String) :=
  match f.value with
  | .timeRange start stop =>
    [(Key.startDate, String.ofList start.millisText), (Key.endDate, String.ofList stop.millisText)]
  | .list values =>
    if f.key = Key.details then values.filterMap detailPair? else values.map (f.key, ·)
  | .text value => [(f.key, value)]

theorem pairs_of_timeRange {f : Criterion} {start stop : Instant}
    (h : f.value = .timeRange start stop) :
    pairs f = [(Key.startDate, String.ofList start.millisText),
      (Key.endDate, String.ofList stop.millisText)] := by
  simp only [pairs, h]

theorem encodeDetail_eq (q : Query) (entry : String) :
    encodeDetail q entry = q.appendPairs (detailPair? entry).toList := by
  unfold encodeDetail detailPair?
  cases cut? ':' entry.toList <;> rfl

theorem foldl_encodeDetail (q : Query) (entries : List String) :
    entries.foldl encodeDetail q = q.appendPairs (entries.filterMap detailPair?) := by
  induction entries generalizing q with
  | nil => rfl
  | cons entry rest ih =>
    rw [List.foldl_cons, ih, encodeDetail_eq]
    cases hpair : detailPair? entry with
    | none => simp [hpair, Query.appendPairs]
    | some pair => simp [hpair, Query.appendPairs]

theorem encodeOne_of_list {f : Criterion} {values : List String} (h : f.value = .list values)
    (q : Query) : encodeOne q f = q.appendPairs (pairs f) := by
  simp only [encodeOne, pairs, h]
  by_cases hdetails : f.key = Key.details
  · rw [if_pos hdetails, if_pos hdetails, foldl_encodeDetail]
  · rw [if_neg hdetails, if_neg hdetails, Query.appendAll_eq_appendPairs]

/-- Names that a criterion is not written under keep what they hold. -/
theorem get?_encodeOne_of_notMem {name : String} (q : Query) (f : Criterion)
    (h : name ∉ (pairs f).map (·.1)) : (encodeOne q f).get? name = q.get? name := by
  cases hvalue : f.value with
  | timeRange start stop =>
    simp only [pairs, hvalue, List.map_cons, List.map_nil, List.mem_cons, List.not_mem_nil,
      or_false, not_or] at h
    simp only [encodeOne, hvalue]
    rw [Query.get?_insertOne_of_ne (Ne.symm h.2), Query.get?_insertOne_of_ne (Ne.symm h.1)]
  | text value =>
    simp only [pairs, hvalue, List.map_cons, List.map_nil, List.mem_singleton] at h
    simp only [encodeOne, hvalue]
    rw [Query.get?_insertOne_of_ne (Ne.symm h)]
  | list values => rw [encodeOne_of_list hvalue, Query.get?_appendPairs_of_notMem h]

/-- A criterion whose names are not in use is written by adding its pairs. -/
theorem encodeOne_eq_appendPairs (q : Query) (f : Criterion)
    (hfree : ∀ pair ∈ pairs f, q.get? pair.1 = none) : encodeOne q f = q.appendPairs (pairs f) := by
  cases hvalue : f.value with
  | timeRange start stop =>
    simp only [pairs, hvalue] at hfree ⊢
    simp only [encodeOne, hvalue]
    obtain ⟨hstart, hrest⟩ := List.forall_mem_cons.mp hfree
    have hne : Key.startDate ≠ Key.endDate := by decide
    exact Query.insertOne_insertOne_eq_appendPairs hne hstart (hrest _ List.mem_cons_self) _ _
  | text value =>
    simp only [pairs, hvalue] at hfree ⊢
    simp only [encodeOne, hvalue]
    exact Query.insertOne_eq_append (hfree (f.key, value) List.mem_cons_self) value
  | list values => exact encodeOne_of_list hvalue q

/-- Criteria that share no name are written as the query of all their pairs. -/
theorem encode_eq_ofPairs {fs : List Criterion}
    (h : fs.Pairwise fun f g => ∀ pair ∈ pairs g, pair.1 ∉ (pairs f).map (·.1)) :
    encode fs = Query.ofPairs (fs.flatMap pairs) :=
  foldl_eq_appendPairs encodeOne_eq_appendPairs h (fun _ _ _ _ => Query.get?_empty _)

theorem get?_encode_of_notMem {name : String} {fs : List Criterion}
    (h : ∀ f ∈ fs, name ∉ (pairs f).map (·.1)) : (encode fs).get? name = none :=
  get?_foldl_of_notMem (fun q f => get?_encodeOne_of_notMem q f) h Query.empty

end Flat

end FilterBar
