import FilterBar.Proofs.CanonicalForm
import FilterBar.Proofs.ViewKeys

/-!
# The order of the filters

In the views no parameter name has two owners among filters with distinct keys, if a range of time is
on the key of that name only.  So the query that is written does not depend on the order of the
filters, and a filter that takes the place of another is written as one that comes last.
-/

namespace FilterBar

variable {c : Configuration} {fs gs : List Criterion}

/-- Of criteria with distinct keys all are written that are on a key of the configuration. -/
theorem writtenCriteria_eq_filter (hkeys : (fs.map Criterion.key).Nodup) :
    writtenCriteria c fs = fs.filter c.isValid :=
  Keyed.lasts_eq_self (Keyed.nodup_map_filter c.isValid hkeys)

theorem writtenCriteria_perm (h : fs.Perm gs) (hkeys : (fs.map Criterion.key).Nodup) :
    (writtenCriteria c fs).Perm (writtenCriteria c gs) := by
  have hkeys' : (gs.map Criterion.key).Nodup := (h.map Criterion.key).nodup hkeys
  rw [writtenCriteria_eq_filter hkeys, writtenCriteria_eq_filter hkeys']
  exact h.filter c.isValid

theorem Bracketed.encode_perm (h : fs.Perm gs) (hkeys : (fs.map Criterion.key).Nodup)
    (haddressed : ∀ f ∈ fs, f.Addressed c) : encode fs = encode gs := by
  have hkeys' : (gs.map Criterion.key).Nodup := (h.map Criterion.key).nodup hkeys
  have haddressed' : ∀ f ∈ gs, f.Addressed c := fun f hf => haddressed f (h.mem_iff.mpr hf)
  calc encode fs
      = Query.ofPairs (fs.flatMap pairs) := encode_eq_ofPairs_of_addressed hkeys haddressed
    _ = Query.ofPairs (gs.flatMap pairs) :=
        Query.ofPairs_flatMap_of_perm h (pairwise_names_of_addressed hkeys haddressed)
    _ = encode gs := (encode_eq_ofPairs_of_addressed hkeys' haddressed').symm

theorem Flat.encode_perm (h : fs.Perm gs) (hkeys : (fs.map Criterion.key).Nodup)
    (hbare : ∀ f ∈ fs, f.Bare c) : encode fs = encode gs := by
  have hkeys' : (gs.map Criterion.key).Nodup := (h.map Criterion.key).nodup hkeys
  have hbare' : ∀ f ∈ gs, f.Bare c := fun f hf => hbare f (h.mem_iff.mpr hf)
  calc encode fs
      = Query.ofPairs (fs.flatMap pairs) := encode_eq_ofPairs_of_bare hkeys hbare
    _ = Query.ofPairs (gs.flatMap pairs) :=
        Query.ofPairs_flatMap_of_perm h (pairwise_names_of_bare hkeys hbare)
    _ = encode gs := (encode_eq_ofPairs_of_bare hkeys' hbare').symm

/-- In a view, criteria with distinct keys are written alike in every order. -/
theorem View.encodeCriteria_perm (v : View) (format : UrlFormat) (h : fs.Perm gs)
    (hkeys : (fs.map Criterion.key).Nodup) (hranges : ∀ f ∈ fs, f.KeepsRange) :
    encodeCriteria fs v.configuration format = encodeCriteria gs v.configuration format := by
  have hwritten : (writtenCriteria v.configuration fs).Perm (writtenCriteria v.configuration gs) :=
    writtenCriteria_perm h hkeys
  have hkeys' := nodup_keys_writtenCriteria v.configuration fs
  cases format with
  | bracketed =>
    apply Bracketed.encode_perm (c := v.configuration) hwritten hkeys'
    intro f hf
    obtain ⟨hmem, hhas⟩ := mem_writtenCriteria hf
    exact View.addressed hhas (hranges f hmem)
  | flat =>
    apply Flat.encode_perm (c := v.configuration) hwritten hkeys'
    intro f hf
    obtain ⟨hmem, hhas⟩ := mem_writtenCriteria hf
    exact View.bare hhas (hranges f hmem)

/-- In a view, lists of filters in another order are written over a query alike. -/
theorem View.updateQuery_perm (v : View) (o : UrlOptions) (h : fs.Perm gs)
    (hkeys : (fs.map Criterion.key).Nodup) (hranges : ∀ f ∈ fs, f.KeepsRange) (q : Query)
    (term : String) :
    updateQuery q fs term v.configuration o = updateQuery q gs term v.configuration o := by
  rw [updateQuery, updateQuery, View.encodeCriteria_perm v o.format h hkeys hranges]

/-- Adding and updating a filter of a view write the same query, if ranges of time are on their key. -/
theorem Session.urlOver_add_eq_update {v : View} {s : Session} {f : Filter}
    (hc : s.configuration = v.configuration) (hkeys : (s.filters.map (·.key)).Nodup)
    (hranges : Session.KeepRanges s.filters) (hf : f.toCriterion.KeepsRange) (q : Query) :
    (s.edit (.add f)).urlOver q = (s.edit (.update f)).urlOver q := by
  have hperm : (s.edit (.add f)).filters.Perm (s.edit (.update f)).filters :=
    Keyed.put_perm_drop_append hkeys
  have hkeys' : ((s.edit (.add f)).filters.map (·.key)).Nodup :=
    Keyed.nodup_map_put _ f s.filters hkeys
  have hranges' : Session.KeepRanges (s.edit (.add f)).filters :=
    Session.keepRanges_edit hranges (e := .add f) hf
  show updateQuery q _ s.search s.configuration s.options =
    updateQuery q _ s.search s.configuration s.options
  rw [hc]
  apply View.updateQuery_perm v s.options (hperm.map Filter.toCriterion)
  · rwa [List.map_map]
  · intro g hg
    obtain ⟨h, hh, rfl⟩ := List.mem_map.mp hg
    exact hranges' h hh

/-- In a view, filters with distinct keys are written alike in every order, if a range of time is on
the key of that name only.  Hence a session with such filters writes the same query, and nothing
else, whether such a filter is added or updated. -/
theorem View.order_of_filters_unseen (v : View) :
    (∀ (format : UrlFormat) (fs gs : List Criterion), fs.Perm gs → (fs.map Criterion.key).Nodup →
      (∀ f ∈ fs, f.KeepsRange) →
      encodeCriteria fs v.configuration format = encodeCriteria gs v.configuration format) ∧
    ∀ (s : Session) (f : Filter), s.configuration = v.configuration →
      (s.filters.map (·.key)).Nodup → (∀ g ∈ s.filters, g.toCriterion.KeepsRange) →
      f.toCriterion.KeepsRange →
      ∃ next,
        (s.step (.add f)).url = next ∧ (s.step (.add f)).written = s.written ++ [next] ∧
        (s.step (.update f)).url = next ∧ (s.step (.update f)).written = s.written ++ [next] := by
  constructor
  · intro format fs gs hperm hkeys hranges
    exact View.encodeCriteria_perm v format hperm hkeys hranges
  · intro s f hc hkeys hranges hf
    have hsame := Session.urlOver_add_eq_update hc hkeys hranges hf s.url
    refine ⟨(s.edit (.add f)).urlOver s.url, rfl, rfl, hsame.symm, ?_⟩
    rw [hsame]
    rfl

/-- Executions with a state, a range of time and labels, in two orders and both formats; then the state
of a session changes. -/
theorem View.order_of_filters_unseen_executions :
    let c := View.executions.configuration
    let day : Instant := ⟨⟨2024, 5, 1, by decide⟩,
      ⟨8, 0, 0, 0, by decide, by decide, by decide, by decide⟩⟩
    let range := Criterion.ofTimeRange (timeRangeKey "") day day .equals
    let state := Criterion.ofParts stateKey "state" .isIn (.list ["FAILED", "KILLED"]) "FAILED"
    let labels := Criterion.ofParts labelsKey "labels" .equals (.list ["env:prod", "env:dev"]) "env"
    let f : Filter :=
      { Criterion.ofParts stateKey "state" .notIn (.list ["RUNNING"]) "RUNNING" with id := "new" }
    let o : UrlOptions := { format := .flat }
    let added : Filter := { range with id := "range" }
    let url := Query.ofList [("state", .one "FAILED"), ("page", .one "2")]
    let s := (Session.start c o ⟨0, 0⟩ url).step (.add added)
    (∀ format, encodeCriteria [state, range, labels] c format =
        encodeCriteria [labels, state, range] c format) ∧
      s.filters.map (·.key) = ["state", "timeRange"] ∧
      (s.step (.add f)).url = (s.step (.update f)).url ∧
      (s.step (.add f)).written.length = 2 := by
  intro c day range state labels f o added url s
  obtain ⟨horder, hchange⟩ := View.order_of_filters_unseen .executions
  have hlists : ∀ format, encodeCriteria [state, range, labels] c format =
      encodeCriteria [labels, state, range] c format := by
    intro format
    exact horder format _ _ (by decide +kernel) (by decide +kernel) (by decide +kernel)
  have hkeys : s.filters.map (·.key) = ["state", "timeRange"] := by decide +kernel
  have hnodup : (s.filters.map (·.key)).Nodup := by
    rw [hkeys]
    decide
  have hwritten : s.written.length = 1 := by decide +kernel
  obtain ⟨next, hadd, hadded, hupdate, -⟩ :=
    hchange s f rfl hnodup (by decide +kernel) (by decide +kernel)
  refine ⟨hlists, hkeys, hadd.trans hupdate.symm, ?_⟩
  rw [hadded, List.length_append, hwritten]
  rfl

/-- A range of time on another key goes over the one that belongs there, or under it: where it stands
in the list is seen. -/
theorem View.order_of_stray_ranges_seen :
    let c := View.executions.configuration
    let first : Instant := ⟨⟨2024, 5, 1, by decide⟩,
      ⟨8, 0, 0, 0, by decide, by decide, by decide, by decide⟩⟩
    let second : Instant := ⟨⟨2024, 5, 2, by decide⟩,
      ⟨8, 0, 0, 0, by decide, by decide, by decide, by decide⟩⟩
    let range := Criterion.ofTimeRange (timeRangeKey "") first first .equals
    let stray := Criterion.ofParts stateKey "state" .equals (.timeRange second second) ""
    encodeCriteria [range, stray] c .bracketed ≠ encodeCriteria [stray, range] c .bracketed := by
  decide +kernel

end FilterBar
