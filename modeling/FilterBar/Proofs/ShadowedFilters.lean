import FilterBar.Proofs.Rewriting
import FilterBar.View.Configuration

/-!
# Filters that are not written

Of the filters on one key the last is written, and none whose key the configuration lacks.  So a
query does not tell whether a filter list was padded with filters of unknown keys, or with filters
that a later one with their key shadows.
-/

namespace FilterBar

namespace Keyed

variable {α β : Type} {key : α → String} {keep : α → Bool} {xs ys : List α}

/-! ## The last members of the keys -/

/-- A member with its place in a list: no later member of the list has its key. -/
def IsLast (key : α → String) (xs : List α) (entry : α × Nat) : Prop :=
  ∀ later ∈ xs.drop (entry.2 + 1), key later ≠ key entry.1

instance (key : α → String) (xs : List α) : DecidablePred (IsLast key xs) := fun entry =>
  inferInstanceAs (Decidable (∀ later ∈ xs.drop (entry.2 + 1), key later ≠ key entry.1))

theorem lasts_cons_of_mem {x : α} (h : ∃ y ∈ xs, key y = key x) :
    lasts key (x :: xs) = lasts key xs := by
  obtain ⟨y, hy, hkey⟩ := h
  have hany : (xs.any fun z => key z == key x) = true :=
    List.any_eq_true.mpr ⟨y, hy, beq_iff_eq.mpr hkey⟩
  rw [lasts, if_pos hany]

theorem lasts_cons_of_forall_ne {x : α} (h : ∀ y ∈ xs, key y ≠ key x) :
    lasts key (x :: xs) = x :: lasts key xs := by
  have hany : ¬(xs.any fun z => key z == key x) = true := by
    intro hany
    obtain ⟨y, hy, hkey⟩ := List.any_eq_true.mp hany
    exact h y hy (beq_iff_eq.mp hkey)
  rw [lasts, if_neg hany]

/-- Of each key that occurs a member is kept. -/
theorem mem_map_lasts (name : String) : name ∈ (lasts key xs).map key ↔ name ∈ xs.map key := by
  induction xs with
  | nil => rfl
  | cons x rest ih =>
    by_cases hx : ∃ y ∈ rest, key y = key x
    · have hmem : key x ∈ rest.map key := by
        obtain ⟨y, hy, hkey⟩ := hx
        exact List.mem_map.mpr ⟨y, hy, hkey⟩
      rw [lasts_cons_of_mem hx, ih, List.map_cons, List.mem_cons]
      constructor
      · exact Or.inr
      · rintro (rfl | hname)
        · exact hmem
        · exact hname
    · have hne : ∀ y ∈ rest, key y ≠ key x := fun y hy hkey => hx ⟨y, hy, hkey⟩
      rw [lasts_cons_of_forall_ne hne, List.map_cons, List.map_cons, List.mem_cons, List.mem_cons,
        ih]

/-- The members that are kept are those that are the last of their keys, in the order of the list. -/
theorem lasts_eq_filter_zipIdx (key : α → String) (xs : List α) :
    lasts key xs = (xs.zipIdx.filter (IsLast key xs ·)).map (·.1) := by
  induction xs with
  | nil => rfl
  | cons x rest ih =>
    -- counted from the second member, a place has the same members behind it
    have htail : (rest.zipIdx 1).filter (IsLast key (x :: rest) ·) =
        (rest.zipIdx.filter (IsLast key rest ·)).map fun entry => (entry.1, entry.2 + 1) := by
      rw [List.zipIdx_succ, List.filter_map]
      rfl
    have hmap : (((rest.zipIdx.filter (IsLast key rest ·)).map fun entry =>
        (entry.1, entry.2 + 1)).map (·.1)) = lasts key rest := by
      rw [List.map_map, ih]
      rfl
    rw [List.zipIdx_cons, List.filter_cons, htail]
    by_cases hx : ∃ y ∈ rest, key y = key x
    · have hlast : ¬IsLast key (x :: rest) (x, 0) := by
        obtain ⟨y, hy, hkey⟩ := hx
        exact fun hlast => hlast y hy hkey
      rw [lasts_cons_of_mem hx, if_neg (by simpa using hlast), hmap]
    · have hne : ∀ y ∈ rest, key y ≠ key x := fun y hy hkey => hx ⟨y, hy, hkey⟩
      have hlast : IsLast key (x :: rest) (x, 0) := hne
      rw [lasts_cons_of_forall_ne hne, if_pos (by simpa using hlast), List.map_cons, hmap]

theorem lasts_lasts (key : α → String) (xs : List α) :
    lasts key (lasts key xs) = lasts key xs :=
  lasts_eq_self (nodup_map_lasts key xs)

theorem lasts_map (f : β → α) (zs : List β) :
    lasts key (zs.map f) = (lasts (fun z => key (f z)) zs).map f := by
  induction zs with
  | nil => rfl
  | cons z rest ih =>
    have hany : ((rest.map f).any fun x => key x == key (f z)) =
        rest.any fun y => key (f y) == key (f z) := List.any_map
    rw [List.map_cons, lasts, lasts, hany, ih]
    split
    · rfl
    · rfl

/-- A member that fails a test makes no difference to those that pass it. -/
theorem filter_lasts_cons_of_not {x : α} (hx : ¬keep x = true) :
    (lasts key (x :: xs)).filter keep = (lasts key xs).filter keep := by
  rw [lasts]
  split
  · rfl
  · rw [List.filter_cons_of_neg hx]

/-- Dropping all members of some keys and keeping the last of each key can change places. -/
theorem lasts_filter (hkeep : ∀ x y, key x = key y → keep x = keep y) (xs : List α) :
    lasts key (xs.filter keep) = (lasts key xs).filter keep := by
  induction xs with
  | nil => rfl
  | cons x rest ih =>
    by_cases hx : keep x = true
    · rw [List.filter_cons_of_pos hx]
      by_cases hlater : ∃ y ∈ rest, key y = key x
      · have hlater' : ∃ y ∈ rest.filter keep, key y = key x := by
          obtain ⟨y, hy, hkey⟩ := hlater
          exact ⟨y, List.mem_filter.mpr ⟨hy, (hkeep y x hkey).trans hx⟩, hkey⟩
        rw [lasts_cons_of_mem hlater', lasts_cons_of_mem hlater, ih]
      · have hne : ∀ y ∈ rest, key y ≠ key x := fun y hy hkey => hlater ⟨y, hy, hkey⟩
        have hne' : ∀ y ∈ rest.filter keep, key y ≠ key x := fun y hy =>
          hne y (List.mem_of_mem_filter hy)
        rw [lasts_cons_of_forall_ne hne', lasts_cons_of_forall_ne hne, List.filter_cons_of_pos hx,
          ih]
    · rw [List.filter_cons_of_neg hx, ih, filter_lasts_cons_of_not hx]

/-! ## Padding -/

/-- The second list is the first with members put in: such as fail a test, anywhere, and such as
have the key of a member of the first list, at a place before the last member with that key. -/
inductive IsPadded (key : α → String) (keep : α → Bool) : List α → List α → Prop
  | nil : IsPadded key keep [] []
  | member (x : α) {xs ys : List α} (h : IsPadded key keep xs ys) :
      IsPadded key keep (x :: xs) (x :: ys)
  | failing (x : α) {xs ys : List α} (hx : keep x = false) (h : IsPadded key keep xs ys) :
      IsPadded key keep xs (x :: ys)
  | shadowed (x : α) {xs ys : List α} (hx : ∃ y ∈ xs, key y = key x)
      (h : IsPadded key keep xs ys) : IsPadded key keep xs (x :: ys)

theorem IsPadded.sublist (h : IsPadded key keep xs ys) : xs.Sublist ys := by
  induction h with
  | nil => exact List.Sublist.refl _
  | member x _ ih => exact ih.cons_cons x
  | failing x _ _ ih => exact ih.cons x
  | shadowed x _ _ ih => exact ih.cons x

/-- Padding brings in no key of a member that passes the test. -/
theorem IsPadded.exists_key_iff (hkeep : ∀ x y, key x = key y → keep x = keep y)
    (h : IsPadded key keep xs ys) {x : α} (hx : keep x = true) :
    (∃ y ∈ ys, key y = key x) ↔ ∃ y ∈ xs, key y = key x := by
  refine ⟨?_, fun ⟨y, hy, hkey⟩ => ⟨y, h.sublist.subset hy, hkey⟩⟩
  induction h with
  | nil => exact id
  | member z _ ih =>
    rintro ⟨y, hy, hkey⟩
    rcases List.mem_cons.mp hy with rfl | hy
    · exact ⟨y, List.mem_cons_self, hkey⟩
    · obtain ⟨y', hy', hkey'⟩ := ih ⟨y, hy, hkey⟩
      exact ⟨y', List.mem_cons_of_mem z hy', hkey'⟩
  | failing z hz _ ih =>
    rintro ⟨y, hy, hkey⟩
    rcases List.mem_cons.mp hy with rfl | hy
    · rw [hkeep y x hkey, hx] at hz
      contradiction
    · exact ih ⟨y, hy, hkey⟩
  | shadowed z hz _ ih =>
    rintro ⟨y, hy, hkey⟩
    rcases List.mem_cons.mp hy with rfl | hy
    · obtain ⟨y', hy', hkey'⟩ := hz
      exact ⟨y', hy', hkey'.trans hkey⟩
    · exact ih ⟨y, hy, hkey⟩

/-- Of the members that pass the test the last of each key are the same with and without padding. -/
theorem IsPadded.filter_lasts_eq (hkeep : ∀ x y, key x = key y → keep x = keep y)
    (h : IsPadded key keep xs ys) :
    (lasts key ys).filter keep = (lasts key xs).filter keep := by
  induction h with
  | nil => rfl
  | @member x xs ys h ih =>
    by_cases hx : keep x = true
    · by_cases hlater : ∃ y ∈ xs, key y = key x
      · rw [lasts_cons_of_mem ((h.exists_key_iff hkeep hx).mpr hlater), lasts_cons_of_mem hlater, ih]
      · have hne : ∀ y ∈ xs, key y ≠ key x := fun y hy hkey => hlater ⟨y, hy, hkey⟩
        have hne' : ∀ y ∈ ys, key y ≠ key x := fun y hy hkey =>
          hlater ((h.exists_key_iff hkeep hx).mp ⟨y, hy, hkey⟩)
        rw [lasts_cons_of_forall_ne hne', lasts_cons_of_forall_ne hne, List.filter_cons_of_pos hx,
          List.filter_cons_of_pos hx, ih]
    · rw [filter_lasts_cons_of_not hx, filter_lasts_cons_of_not hx, ih]
  | failing x hx _ ih => rw [filter_lasts_cons_of_not (Bool.eq_false_iff.mp hx), ih]
  | shadowed x hx h ih =>
    obtain ⟨y, hy, hkey⟩ := hx
    rw [lasts_cons_of_mem ⟨y, h.sublist.subset hy, hkey⟩, ih]

end Keyed

/-! ## What is written of a filter list -/

variable {c : Configuration}

theorem Configuration.isValid_congr (c : Configuration) {f g : Filter} (h : f.key = g.key) :
    c.isValid f.toCriterion = c.isValid g.toCriterion :=
  congrArg c.has h

/-- The filters that are written: the last ones of their keys, of those on configured keys. -/
theorem writtenCriteria_map_toCriterion (c : Configuration) (fs : List Filter) :
    writtenCriteria c (fs.map Filter.toCriterion) =
      ((Keyed.lasts (fun f : Filter => f.key) fs).filter (c.isValid ·.toCriterion)).map
        Filter.toCriterion := by
  rw [writtenCriteria, List.filter_map, Keyed.lasts_map,
    ← Keyed.lasts_filter fun f g => c.isValid_congr]
  rfl

/-- A filter list is reduced to the filters that no later one on their key follows, in their order.
These are on distinct keys, on all that the list is on, and reducing them again changes nothing; it
is all the same whether filters on unconfigured keys are dropped before or after.  The query that is
written does not show filters on unconfigured keys wherever they stand in a list, nor filters before
the last one on their key. -/
theorem unconfigured_and_shadowed_unwritten (c : Configuration) (fs : List Filter) :
    let lasts : List Filter → List Filter := Keyed.lasts fun f => f.key
    let isValid : Filter → Bool := fun f => c.isValid f.toCriterion
    lasts fs = (fs.zipIdx.filter (Keyed.IsLast (fun f : Filter => f.key) fs ·)).map (·.1) ∧
      ((lasts fs).map (·.key)).Nodup ∧
      (∀ name, name ∈ (lasts fs).map (·.key) ↔ name ∈ fs.map (·.key)) ∧
      lasts (lasts fs) = lasts fs ∧
      lasts (fs.filter isValid) = (lasts fs).filter isValid ∧
      ∀ gs, Keyed.IsPadded (fun f : Filter => f.key) isValid fs gs → ∀ format,
        encodeCriteria (gs.map Filter.toCriterion) c format =
          encodeCriteria (fs.map Filter.toCriterion) c format := by
  intro lasts isValid
  have hvalid : ∀ f g : Filter, f.key = g.key → isValid f = isValid g := fun f g =>
    c.isValid_congr
  refine ⟨Keyed.lasts_eq_filter_zipIdx _ fs, Keyed.nodup_map_lasts _ fs, Keyed.mem_map_lasts,
    Keyed.lasts_lasts _ fs, Keyed.lasts_filter hvalid fs, ?_⟩
  intro gs hgs format
  have hwritten : writtenCriteria c (gs.map Filter.toCriterion) =
      writtenCriteria c (fs.map Filter.toCriterion) := by
    rw [writtenCriteria_map_toCriterion, writtenCriteria_map_toCriterion,
      hgs.filter_lasts_eq hvalid]
  cases format with
  | bracketed => exact congrArg Bracketed.encode hwritten
  | flat => exact congrArg Flat.encode hwritten

/-- An execution list is filtered by state and flow.  Neither a shadowed flow in front nor a color,
which executions have no key for, is seen in the query. -/
theorem unconfigured_and_shadowed_unwritten_executions :
    let c := View.executions.configuration
    let state : Filter :=
      { Criterion.ofParts stateKey "state" .isIn (.list ["FAILED"]) "FAILED" with id := "1" }
    let daily : Filter :=
      { Criterion.ofParts flowKey "flowId" .equals (.text "daily") "daily" with id := "2" }
    let weekly : Filter :=
      { Criterion.ofParts flowKey "flowId" .equals (.text "weekly") "weekly" with id := "3" }
    let color : Filter :=
      { Criterion.ofParts flowKey "color" .equals (.text "red") "red" with id := "4" }
    let fs := [state, daily]
    let gs := [weekly, state, color, daily, color]
    Keyed.IsPadded (fun f : Filter => f.key) (c.isValid ·.toCriterion) fs gs ∧
      (∀ format, encodeCriteria (gs.map Filter.toCriterion) c format =
        encodeCriteria (fs.map Filter.toCriterion) c format) ∧
      encodeCriteria (fs.map Filter.toCriterion) c .bracketed = Query.ofList
        [("filters[flowId][EQUALS]", .one "daily"), ("filters[state][IN]", .one "FAILED")] := by
  intro c state daily weekly color fs gs
  have hpadded : Keyed.IsPadded (fun f : Filter => f.key) (c.isValid ·.toCriterion) fs gs := by
    have hcolor : c.isValid color.toCriterion = false := by decide +kernel
    refine .shadowed weekly ⟨daily, by decide, rfl⟩ (.member state (.failing color hcolor ?_))
    exact .member daily (.failing color hcolor .nil)
  obtain ⟨-, -, -, -, -, hwritten⟩ := unconfigured_and_shadowed_unwritten c fs
  exact ⟨hpadded, hwritten gs hpadded, by decide +kernel⟩

end FilterBar
