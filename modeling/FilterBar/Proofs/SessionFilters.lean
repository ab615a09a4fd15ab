import FilterBar.Proofs.BracketedReload
import FilterBar.Proofs.SearchTerm
import FilterBar.Proofs.SessionUrl

/-!
# The filters of a session

In the bracketed format no two filters that are read have the same key, and no change by the user
brings a second filter on a key.  So the filters of a session have distinct keys in every state that
it can reach, and a change concerns one filter only: the others stay, in the order they are in.
-/

namespace FilterBar

/-- The filters of a bracketed query have distinct keys. -/
theorem nodup_keys_decodeFilters (ids : IdSupply) (q : Query) (c : Configuration) :
    ((decodeFilters ids q c .bracketed).1.map (·.key)).Nodup := by
  have hkeys : (decodeFilters ids q c .bracketed).1.map (·.key) =
      (Bracketed.decode q c).map Criterion.key :=
    map_decodeFilters Criterion.key ids q c .bracketed
  rw [hkeys]
  exact Bracketed.nodup_keys_decode q c

namespace Session

/-! ## Keys stay distinct -/

/-- A session in the bracketed format whose filters have distinct keys. -/
structure HasDistinctKeys (s : Session) : Prop where
  format : s.options.format = .bracketed
  keys : (s.filters.map (·.key)).Nodup

section Run

variable {s : Session}

theorem HasDistinctKeys.readUrl (h : HasDistinctKeys s) (q : Query) :
    HasDistinctKeys (s.readUrl q) where
  format := h.format
  keys := by
    show ((decodeFilters s.ids q s.configuration s.options.format).1.map (·.key)).Nodup
    rw [h.format]
    exact nodup_keys_decodeFilters s.ids q s.configuration

theorem nodup_keys_withoutId {filters : List Filter} (h : (filters.map (·.key)).Nodup)
    (id : String) : ((withoutId filters id).map (·.key)).Nodup := by
  unfold withoutId
  split
  · exact Keyed.nodup_map_filter _ h
  · exact h

theorem HasDistinctKeys.edit (h : HasDistinctKeys s) (e : Event) : HasDistinctKeys (s.edit e) where
  format := by
    rw [edit_options]
    exact h.format
  keys := by
    cases e with
    | add f => exact Keyed.nodup_map_put _ f s.filters h.keys
    | update f => exact Keyed.nodup_map_drop_append h.keys
    | remove id => exact nodup_keys_withoutId h.keys id
    | clear => exact List.nodup_nil
    | reset => exact Keyed.nodup_map_filter _ h.keys
    | search term => exact h.keys
    | navigate url => exact h.keys
    | synchronize url => exact h.keys

theorem HasDistinctKeys.step (h : HasDistinctKeys s) (e : Event) : HasDistinctKeys (s.step e) := by
  by_cases hchange : e.isChange = true
  · rw [step_of_isChange hchange]
    exact ⟨(h.edit e).format, (h.edit e).keys⟩
  · cases e with
    | navigate url => exact ⟨h.format, h.keys⟩
    | synchronize url => exact h.readUrl url
    | _ => exact absurd rfl hchange

theorem HasDistinctKeys.run (h : HasDistinctKeys s) (events : List Event) :
    HasDistinctKeys (s.run events) := by
  induction events generalizing s with
  | nil => exact h
  | cons e rest ih => exact ih (h.step e)

theorem hasDistinctKeys_start (c : Configuration) {o : UrlOptions} (ho : o.format = .bracketed)
    (ids : IdSupply) (url : Query) : HasDistinctKeys (start c o ids url) where
  format := ho
  keys := by
    show ((decodeFilters ids url c o.format).1.map (·.key)).Nodup
    rw [ho]
    exact nodup_keys_decodeFilters ids url c

end Run

/-! ## What a change leaves in place -/

section Change

variable {filters before after : List Filter} {g : Filter} {id : String}

/-- Where keys are distinct, the first filter with an identifier is all that is removed, whether or
not others have the same identifier. -/
theorem withoutId_append_cons (hkeys : ((before ++ g :: after).map (·.key)).Nodup) (hg : g.id = id)
    (hfirst : ∀ f ∈ before, f.id ≠ id) : withoutId (before ++ g :: after) id = before ++ after := by
  have hfind : (before ++ g :: after).find? (·.id == id) = some g := by
    have hbefore : before.find? (·.id == id) = none := by
      rw [List.find?_eq_none]
      intro f hf hid
      exact hfirst f hf (beq_iff_eq.mp hid)
    rw [List.find?_append, hbefore, Option.none_or]
    exact List.find?_cons_of_pos (beq_iff_eq.mpr hg)
  rw [withoutId, hfind]
  exact Keyed.drop_append_cons hkeys

theorem withoutId_eq_self (h : ∀ f ∈ filters, f.id ≠ id) : withoutId filters id = filters := by
  have hfind : filters.find? (·.id == id) = none := by
    rw [List.find?_eq_none]
    intro f hf hid
    exact h f hf (beq_iff_eq.mp hid)
  rw [withoutId, hfind]

end Change

/-- In every state that a session in the bracketed format can reach, the filters have distinct keys.
From there a filter that is added takes the place of the one with its key, or comes last; one that is
updated comes last instead of the one with its key; and one that is removed by an identifier is the
first with it.  The other filters stay, in the order they are in. -/
theorem filters_of_bracketed_run (c : Configuration) {o : UrlOptions} (ho : o.format = .bracketed)
    (ids : IdSupply) (url : Query) (events : List Event) :
    let s := (start c o ids url).run events
    (s.filters.map (·.key)).Nodup ∧
    (∀ f before g after, s.filters = before ++ g :: after → g.key = f.key →
      (s.step (.add f)).filters = before ++ f :: after ∧
      (s.step (.update f)).filters = before ++ after ++ [f]) ∧
    (∀ f, (∀ g ∈ s.filters, g.key ≠ f.key) →
      (s.step (.add f)).filters = s.filters ++ [f] ∧
      (s.step (.update f)).filters = s.filters ++ [f]) ∧
    (∀ id before g after, s.filters = before ++ g :: after → g.id = id →
      (∀ f ∈ before, f.id ≠ id) → (s.step (.remove id)).filters = before ++ after) ∧
    ∀ id, (∀ g ∈ s.filters, g.id ≠ id) → (s.step (.remove id)).filters = s.filters := by
  intro s
  have hkeys : (s.filters.map (·.key)).Nodup :=
    ((hasDistinctKeys_start c ho ids url).run events).keys
  refine ⟨hkeys, ?_, ?_, ?_, ?_⟩
  · intro f before g after hfilters hkey
    rw [hfilters] at hkeys
    constructor
    · have hbefore : ∀ h ∈ before, h.key ≠ f.key := by
        intro h hh
        rw [← hkey]
        exact Keyed.key_ne_of_nodup hkeys h (List.mem_append_left after hh)
      show Keyed.put (·.key) f s.filters = _
      rw [hfilters]
      exact Keyed.put_append_cons hbefore hkey
    · show Keyed.drop (·.key) f.key s.filters ++ [f] = _
      rw [hfilters, ← hkey, Keyed.drop_append_cons hkeys]
  · intro f hnew
    constructor
    · exact Keyed.put_eq_append hnew
    · show Keyed.drop (·.key) f.key s.filters ++ [f] = _
      rw [Keyed.drop_eq_self hnew]
  · intro id before g after hfilters hg hfirst
    rw [hfilters] at hkeys
    show withoutId s.filters id = _
    rw [hfilters]
    exact withoutId_append_cons hkeys hg hfirst
  · intro id hnone
    exact withoutId_eq_self hnone

/-- The executions are opened on two filters, a third one is added and a term is searched for.  Then
the filter in the middle is replaced, brought to the end, or removed. -/
theorem filters_of_bracketed_run_executions :
    let c := View.executions.configuration
    let o : UrlOptions := {}
    let url := Query.ofList
      [("filters[flowId][EQUALS]", .one "daily"), ("filters[state][IN]", .one "FAILED,KILLED")]
    let flow : Filter :=
      { Criterion.ofParts flowKey "flowId" .equals (.text "daily") "daily" with
        id := "flowId-EQUALS-0-0" }
    let old : Filter :=
      { Criterion.ofParts stateKey "state" .isIn (.list ["FAILED", "KILLED"]) "FAILED, KILLED" with
        id := "state-IN-0-1" }
    let labels : Filter :=
      { Criterion.ofParts labelsKey "labels" .equals (.list ["env:prod"]) "env:prod" with
        id := "labels" }
    let state : Filter :=
      { Criterion.ofParts stateKey "state" .notIn (.list ["RUNNING"]) "RUNNING" with id := "new" }
    let s := (start c o ⟨0, 0⟩ url).run [.add labels, .search "boom"]
    o.format = .bracketed ∧
      (s.filters.map (·.key)).Nodup ∧
      s.filters = [flow, old, labels] ∧
      (s.step (.add state)).filters = [flow, state, labels] ∧
      (s.step (.update state)).filters = [flow, labels, state] ∧
      (s.step (.remove "state-IN-0-1")).filters = [flow, labels] ∧
      (s.step (.remove "state")).filters = s.filters := by
  intro c o url flow old labels state s
  have ho : o.format = .bracketed := rfl
  obtain ⟨hkeys, hreplace, -, hremove, habsent⟩ :=
    filters_of_bracketed_run c ho ⟨0, 0⟩ url [.add labels, .search "boom"]
  have hfilters : s.filters = [flow, old, labels] := by decide +kernel
  obtain ⟨hadd, hupdate⟩ := hreplace state [flow] old [labels] hfilters rfl
  have hfirst : ∀ f ∈ [flow], f.id ≠ "state-IN-0-1" := by decide +kernel
  have hnone : ∀ f ∈ s.filters, f.id ≠ "state" := by
    rw [hfilters]
    decide +kernel
  exact ⟨ho, hkeys, hfilters, hadd, hupdate, hremove _ [flow] old [labels] hfilters rfl hfirst,
    habsent _ hnone⟩

end Session

end FilterBar
