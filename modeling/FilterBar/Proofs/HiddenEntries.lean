import FilterBar.Completion.Basic

/-!
# What a user may not see

The values and completions that are offered depend on a directory only through what it shows: the
namespaces and the flows that the user may see, the tasks and the metrics.  A failed lookup shows as
an empty one.  So a user who may not read namespaces cannot tell two directories apart by their
namespaces, nor by their flows without the permission to read flows, and never by the flows of
another namespace than the one in view.
-/

namespace FilterBar

/-! ## Completion from two directories -/

namespace Completion

variable {d₁ d₂ : Directory}

/-- Typed values are completed from what the source of their key offers. -/
theorem values_congr (h : ∀ source, d₁.resolve source = d₂.resolve source)
    (score : Scorer) (v : View) (key typed : String) :
    values score d₁ v key typed = values score d₂ v key typed := by
  have hcandidates (k : LanguageKey) : valueCandidates d₁ k = valueCandidates d₂ k :=
    congrArg (List.map _) (h k.source)
  rw [values, values]
  split
  · rfl
  · rw [hcandidates]

/-- Keys and comparators are completed without the directory. -/
theorem complete_congr (h : ∀ source, d₁.resolve source = d₂.resolve source)
    (score : Scorer) (v : View) (input : String) (used : List String) :
    complete score d₁ v input used = complete score d₂ v input used := by
  rw [complete, complete]
  cases Text.cut? ':' (Text.trimStart input.toList) with
  | none => rfl
  | some parts =>
    obtain ⟨key, rest⟩ := parts
    cases hrest : Text.cut? ':' rest with
    | none => simp only [hrest]
    | some parts =>
      simp only [hrest]
      exact values_congr h score v _ _

end Completion

namespace Directory

variable {d d₁ d₂ : Directory}

/-- Two directories show the same entries. -/
structure ShowSame (d₁ d₂ : Directory) : Prop where
  namespaces : d₁.visibleNamespaces.getD [] = d₂.visibleNamespaces.getD []
  flows : d₁.visibleFlows.getD [] = d₂.visibleFlows.getD []
  tasksWithMetrics : d₁.tasksWithMetrics.getD [] = d₂.tasksWithMetrics.getD []
  metrics : d₁.metrics.getD [] = d₂.metrics.getD []

/-- In every view the same is offered from two directories, whatever the values are asked for and
whatever is typed. -/
structure OfferSame (d₁ d₂ : Directory) : Prop where
  values : ∀ v name, d₁.values v name = d₂.values v name
  complete : ∀ score v input used,
    Completion.complete score d₁ v input used = Completion.complete score d₂ v input used

/-! ## What is offered is what is shown -/

theorem plain_injective {l m : Option (List String)} (h : resolve.plain l = resolve.plain m) :
    l.getD [] = m.getD [] := by
  apply (List.map_inj_right _).mp h
  intro a b hab
  exact congrArg Choice.value hab

theorem ShowSame.resolve (h : ShowSame d₁ d₂) (source : ChoiceSource) :
    d₁.resolve source = d₂.resolve source := by
  cases source with
  | none => rfl
  | pickDate => rfl
  | fixed choices => rfl
  | namespaces => exact congrArg (List.map Choice.plain) h.namespaces
  | flowsOfNamespace => exact congrArg (List.map Choice.plain) h.flows
  | tasksWithMetrics => exact congrArg (List.map Choice.plain) h.tasksWithMetrics
  | metrics => exact congrArg (List.map Choice.plain) h.metrics

theorem ShowSame.offerSame (h : ShowSame d₁ d₂) : OfferSame d₁ d₂ where
  values := by
    intro v name
    rw [values, values]
    split
    · exact h.resolve _
    · rfl
  complete := Completion.complete_congr h.resolve

/-- Everything that is shown is offered in some view. -/
theorem OfferSame.showSame (h : OfferSame d₁ d₂) : ShowSame d₁ d₂ where
  namespaces := plain_injective (h.values .logs "namespace")
  flows := plain_injective (h.values .namespaceDashboards "flowId")
  tasksWithMetrics := plain_injective (h.values .flowMetrics "task")
  metrics := plain_injective (h.values .flowMetrics "metric")

/-- Two directories offer the same in all views exactly when they show the same entries. -/
theorem offerSame_iff : OfferSame d₁ d₂ ↔ ShowSame d₁ d₂ :=
  ⟨OfferSame.showSame, ShowSame.offerSame⟩

/-! ## Permissions -/

theorem visibleNamespaces_of_not_allows (h : ¬d.allows .namespaces .read) :
    d.visibleNamespaces = some [] :=
  if_neg h

theorem visibleFlows_of_not_allows (h : ¬d.allows .flows .read) : d.visibleFlows = some [] := by
  rw [visibleFlows]
  split
  · rfl
  · rw [if_neg h]

/-- Two directories agree in what the user may do, in the namespace in view, the tasks and the
metrics.  Their namespaces and flows may differ. -/
structure Alike (d₁ d₂ : Directory) : Prop where
  allows : d₁.allows = d₂.allows
  currentNamespace : d₁.currentNamespace = d₂.currentNamespace
  tasksWithMetrics : d₁.tasksWithMetrics = d₂.tasksWithMetrics
  metrics : d₁.metrics = d₂.metrics

namespace Alike

theorem visibleNamespaces (h : Alike d₁ d₂)
    (hnamespaces : d₁.allows .namespaces .read → d₁.namespaces = d₂.namespaces) :
    d₁.visibleNamespaces = d₂.visibleNamespaces := by
  by_cases hread : d₁.allows .namespaces .read
  · rw [Directory.visibleNamespaces, Directory.visibleNamespaces, ← h.allows, hnamespaces hread]
  · have hread' : ¬d₂.allows .namespaces .read := by rwa [← h.allows]
    rw [visibleNamespaces_of_not_allows hread, visibleNamespaces_of_not_allows hread']

theorem visibleFlows (h : Alike d₁ d₂)
    (hflows : d₁.allows .flows .read → ∀ here, d₁.currentNamespace = some here →
      d₁.flowsOf here = d₂.flowsOf here) :
    d₁.visibleFlows = d₂.visibleFlows := by
  by_cases hread : d₁.allows .flows .read
  · rw [Directory.visibleFlows, Directory.visibleFlows, ← h.allows, ← h.currentNamespace]
    cases hhere : d₁.currentNamespace with
    | none => rfl
    | some here => simp only [hflows hread here hhere]
  · have hread' : ¬d₂.allows .flows .read := by rwa [← h.allows]
    rw [visibleFlows_of_not_allows hread, visibleFlows_of_not_allows hread']

/-- Namespaces matter to a user who may read them, and of the flows those of the namespace in view to
a user who may read flows. -/
theorem offerSame (h : Alike d₁ d₂)
    (hnamespaces : d₁.allows .namespaces .read → d₁.namespaces = d₂.namespaces)
    (hflows : d₁.allows .flows .read → ∀ here, d₁.currentNamespace = some here →
      d₁.flowsOf here = d₂.flowsOf here) :
    OfferSame d₁ d₂ := by
  apply ShowSame.offerSame
  constructor
  · rw [h.visibleNamespaces hnamespaces]
  · rw [h.visibleFlows hflows]
  · rw [h.tasksWithMetrics]
  · rw [h.metrics]

end Alike

/-- Take two directories that agree in what the user may do, in the namespace in view, the tasks and
the metrics.  They offer the same in every view and for every input if the user may not read
namespaces and only these differ or fail to be looked up, if the user may not read flows and only
these differ, and, whatever the user may do, if only flows of other namespaces than the one in view
differ. -/
theorem hidden_entries_unseen (h : Alike d₁ d₂) :
    (¬d₁.allows .namespaces .read → d₁.flowsOf = d₂.flowsOf → OfferSame d₁ d₂) ∧
    (¬d₁.allows .flows .read → d₁.namespaces = d₂.namespaces → OfferSame d₁ d₂) ∧
    (d₁.namespaces = d₂.namespaces →
      (∀ name, d₁.currentNamespace = some name → d₁.flowsOf name = d₂.flowsOf name) →
      OfferSame d₁ d₂) := by
  refine ⟨?_, ?_, ?_⟩
  · intro hread hflows
    exact h.offerSame (fun hallowed => absurd hallowed hread) fun _ _ _ => by rw [hflows]
  · intro hread hnamespaces
    exact h.offerSame (fun _ => hnamespaces) fun hallowed => absurd hallowed hread
  · intro hnamespaces hhere
    exact h.offerSame (fun _ => hnamespaces) fun _ => hhere

/-- The lookup of namespaces fails in one directory and finds one in the other, flows differ in the
namespace in view and beside it.  A user who may not read what differs is offered the same, and a user
who may is not. -/
theorem hidden_entries_unseen_company :
    let directory (resource : Resource) (namespaces : Option (List String))
        (flowsOf : String → Option (List String)) : Directory :=
      { namespaces
        allows := fun r a => r = resource ∧ a = .read
        currentNamespace := some "company"
        flowsOf
        tasksWithMetrics := some ["log"]
        metrics := none }
    let flowsAt (place : String) (name : String) : Option (List String) :=
      if name = place then some ["hello"] else none
    let found := some ["company.team"]
    OfferSame (directory .flows none (flowsAt "company")) (directory .flows found (flowsAt "company")) ∧
      OfferSame (directory .namespaces found (flowsAt "company"))
        (directory .namespaces found (flowsAt "other")) ∧
      OfferSame (directory .flows found (flowsAt "other")) (directory .flows found fun _ => none) ∧
      (directory .namespaces found (flowsAt "company")).values .logs "namespace" =
        ["company", "company.team"].map Choice.plain ∧
      (directory .namespaces none (flowsAt "company")).values .logs "namespace" = [] ∧
      (directory .flows found (flowsAt "company")).values .namespaceDashboards "flowId" =
        ["hello"].map Choice.plain ∧
      (directory .flows found (flowsAt "other")).values .namespaceDashboards "flowId" = [] := by
  intro directory flowsAt found
  have halike (resource : Resource) (namespaces namespaces' : Option (List String))
      (flowsOf flowsOf' : String → Option (List String)) :
      Alike (directory resource namespaces flowsOf) (directory resource namespaces' flowsOf') :=
    ⟨rfl, rfl, rfl, rfl⟩
  refine ⟨?_, ?_, ?_, by decide, by decide, by decide, by decide⟩
  · exact (hidden_entries_unseen (halike _ _ _ _ _)).1 (by decide) rfl
  · exact (hidden_entries_unseen (halike _ _ _ _ _)).2.1 (by decide) rfl
  · refine (hidden_entries_unseen (halike _ _ _ _ _)).2.2 rfl ?_
    intro name hname
    obtain rfl := Option.some_inj.mp hname
    decide

end Directory

end FilterBar
