import FilterBar.Proofs.QueryText
import FilterBar.Proofs.SessionUrl

/-!
# Every URL that is written can be read as text

A query in normal form is read back from its query string as it was.  Setting a value, adding one,
leaving parameters out and merging keep the normal form, and both formats write by these steps only.
So does a session, whose URLs are therefore in normal form as long as those that come from outside
are.
-/

namespace FilterBar

theorem ParamValue.isNormal_append {held : Option ParamValue} (h : ∀ v, held = some v → v.IsNormal)
    (value : String) : (append value held).IsNormal := by
  match held with
  | none => trivial
  | some .null => exact absurd (h .null rfl) id
  | some (.one first) => simp [append, IsNormal]
  | some (.many values) =>
    obtain ⟨hlength, hnone⟩ := h (.many values) rfl
    refine ⟨?_, ?_⟩
    · rw [List.length_append]
      omega
    · simpa using hnone

namespace Query

theorem isNormal_empty : empty.IsNormal := by
  intro name v hget
  rw [get?_empty] at hget
  contradiction

namespace IsNormal

variable {q other : Query}

theorem insert (h : q.IsNormal) {v : ParamValue} (hv : v.IsNormal) (name : String) :
    (q.insert name v).IsNormal := by
  intro held w hget
  rw [get?_insert] at hget
  split at hget
  · rwa [← Option.some.inj hget]
  · exact h held w hget

theorem insertOne (h : q.IsNormal) (name value : String) : (q.insertOne name value).IsNormal :=
  h.insert (v := .one value) trivial name

theorem append (h : q.IsNormal) (name value : String) : (q.append name value).IsNormal :=
  h.insert (ParamValue.isNormal_append (h name) value) name

theorem retain (h : q.IsNormal) (keep : String → ParamValue → Bool) : (q.retain keep).IsNormal := by
  intro name v hget
  rw [get?_retain, Option.filter_eq_some_iff] at hget
  exact h name v hget.1

theorem merge (h : q.IsNormal) (hother : other.IsNormal) : (q.merge other).IsNormal := by
  intro name v hget
  rw [get?_merge, Option.or_eq_some_iff] at hget
  rcases hget with hget | ⟨-, hget⟩
  · exact hother name v hget
  · exact h name v hget

/-- Steps that keep the normal form can be repeated. -/
theorem foldl {α : Type} {write : Query → α → Query}
    (hwrite : ∀ q x, q.IsNormal → (write q x).IsNormal) (h : q.IsNormal) (xs : List α) :
    (xs.foldl write q).IsNormal := by
  induction xs generalizing q with
  | nil => exact h
  | cons x rest ih => exact ih (hwrite q x h)

theorem appendPairs (h : q.IsNormal) (pairs : List (String × String)) :
    (q.appendPairs pairs).IsNormal :=
  h.foldl (fun _ pair hq => hq.append pair.1 pair.2) pairs

end IsNormal

end Query

/-! ## What the formats write -/

theorem Bracketed.isNormal_encodeOne {q : Query} (h : q.IsNormal) (f : Criterion) :
    (encodeOne q f).IsNormal := by
  rcases f.value.isTimeRange_or with hrange | ⟨start, stop, hvalue⟩
  · rw [encodeOne_of_items hrange]
    exact h.appendPairs (pairs f)
  · rw [encodeOne_of_timeRange hvalue]
    exact (h.insertOne _ _).insertOne _ _

theorem Flat.isNormal_encodeOne {q : Query} (h : q.IsNormal) (f : Criterion) :
    (encodeOne q f).IsNormal := by
  cases hvalue : f.value with
  | timeRange start stop =>
    rw [encodeOne, hvalue]
    exact (h.insertOne _ _).insertOne _ _
  | text value =>
    rw [encodeOne, hvalue]
    exact h.insertOne f.key value
  | list values =>
    rw [encodeOne_of_list hvalue]
    exact h.appendPairs (pairs f)

theorem isNormal_encodeCriteria (fs : List Criterion) (c : Configuration) (format : UrlFormat) :
    (encodeCriteria fs c format).IsNormal := by
  cases format with
  | bracketed =>
    exact Query.isNormal_empty.foldl (fun _ f hq => Bracketed.isNormal_encodeOne hq f) _
  | flat => exact Query.isNormal_empty.foldl (fun _ f hq => Flat.isNormal_encodeOne hq f) _

theorem Query.IsNormal.updateQuery {current : Query} (h : current.IsNormal) (fs : List Criterion)
    (term : String) (c : Configuration) (o : UrlOptions) :
    (updateQuery current fs term c o).IsNormal := by
  have hmerged := (h.retain fun name _ => !isOwnedParam c o.format name).merge
    (isNormal_encodeCriteria fs c o.format)
  rcases writeSearch_cases term c o with hnone | ⟨value, hvalue⟩
  · rw [FilterBar.updateQuery, hnone]
    exact hmerged
  · rw [FilterBar.updateQuery, hvalue]
    exact hmerged.insertOne _ _

namespace Session

/-! ## Sessions -/

/-- A URL that comes from outside was read from a text. -/
def Event.ComesFromText : Event → Prop
  | .navigate url => ∃ raw, url = Query.parse raw
  | _ => True

/-- The URL and every query that was written are in normal form. -/
structure KeepsNormal (s : Session) : Prop where
  url : s.url.IsNormal
  written : ∀ q ∈ s.written, q.IsNormal

variable {s : Session} {e : Event}

theorem KeepsNormal.edit (h : KeepsNormal s) (e : Event) : KeepsNormal (s.edit e) where
  url := by
    rw [edit_url]
    exact h.url
  written := by
    rw [edit_written]
    exact h.written

theorem KeepsNormal.writeUrl (h : KeepsNormal s) : KeepsNormal s.writeUrl := by
  have hnext : (s.urlOver s.url).IsNormal := h.url.updateQuery _ _ _ _
  refine ⟨hnext, ?_⟩
  intro q hq
  rcases List.mem_append.mp hq with hq | hq
  · exact h.written q hq
  · rw [List.mem_singleton.mp hq]
    exact hnext

theorem KeepsNormal.step (h : KeepsNormal s) (he : e.ComesFromText) : KeepsNormal (s.step e) := by
  by_cases hchange : e.isChange = true
  · rw [step_of_isChange hchange]
    exact (h.edit e).writeUrl
  · cases e with
    | navigate url =>
      obtain ⟨raw, rfl⟩ := he
      exact ⟨Query.isNormal_parse raw, h.written⟩
    | synchronize url => exact ⟨h.url, h.written⟩
    | _ => exact absurd rfl hchange

theorem KeepsNormal.run (h : KeepsNormal s) {events : List Event}
    (he : ∀ e ∈ events, e.ComesFromText) : KeepsNormal (s.run events) := by
  induction events generalizing s with
  | nil => exact h
  | cons e rest ih =>
    exact ih (h.step (he e List.mem_cons_self)) fun d hd => he d (List.mem_cons_of_mem e hd)

theorem keepsNormal_start (c : Configuration) (o : UrlOptions) (ids : IdSupply) (raw : String) :
    KeepsNormal (start c o ids (Query.parse raw)) where
  url := Query.isNormal_parse raw
  written := by
    intro q hq
    exact absurd hq List.not_mem_nil

/-- Every query that is written survives being turned into text and read back: what is written for
filters alone, and what a session writes if the queries from outside were read from texts,
whatever filters and search terms it is given. -/
theorem written_survives_text (c : Configuration) (o : UrlOptions) :
    (∀ fs : List Criterion, Query.parse (encodeCriteria fs c o.format).render =
      encodeCriteria fs c o.format) ∧
    ∀ (ids : IdSupply) (raw : String) (events : List Event), (∀ e ∈ events, e.ComesFromText) →
      ∀ q ∈ ((start c o ids (Query.parse raw)).run events).written, Query.parse q.render = q := by
  constructor
  · intro fs
    exact Query.parse_render_eq_self_iff.mpr (isNormal_encodeCriteria fs c o.format)
  · intro ids raw events he q hq
    have hnormal := (keepsNormal_start c o ids raw).run he
    exact Query.parse_render_eq_self_iff.mpr (hnormal.written q hq)

/-- In the executions, over a URL with a repeated name and a bare one, a label that holds separators
is added after a navigation. -/
theorem written_survives_text_label :
    let c := View.executions.configuration
    let o : UrlOptions := {}
    let label : Filter :=
      { Criterion.ofParts labelsKey "labels" .equals (.list ["a&b:=?", "%2B+ü:"]) "" with
        id := "label" }
    let events := [.search " a=b&c ", .navigate (Query.parse "?x=1&x&page"), .add label]
    let after := (start c o ⟨0, 0⟩ (Query.parse "=&q=old&q=older")).run events
    (∀ e ∈ events, e.ComesFromText) ∧ after.url ∈ after.written ∧
      Query.parse after.url.render = after.url := by
  intro c o label events after
  have he : ∀ e ∈ events, e.ComesFromText := by
    intro e hmem
    simp only [events, List.mem_cons, List.not_mem_nil, or_false] at hmem
    rcases hmem with rfl | rfl | rfl
    · trivial
    · exact ⟨_, rfl⟩
    · trivial
  have hwritten : after.url ∈ after.written := List.mem_append_right _ List.mem_cons_self
  exact ⟨he, hwritten,
    (written_survives_text c o).2 ⟨0, 0⟩ "=&q=old&q=older" events he after.url hwritten⟩

end Session

end FilterBar
