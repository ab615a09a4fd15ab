import Mathlib.Data.List.Nodup
import FilterBar.Filter.Keyed

/-!
# Members told apart by their keys

`Keyed.lasts` keeps members of the list, at least one of each key that occurs, and no two of the same
key.  Where keys are distinct, putting or dropping a member concerns the one with its key only.
-/

namespace FilterBar.Keyed

variable {α : Type} {key : α → String} {x : α} {xs : List α}

theorem mem_of_mem_lasts (h : x ∈ lasts key xs) : x ∈ xs := by
  induction xs with
  | nil => exact h
  | cons y rest ih =>
    rw [lasts] at h
    split at h
    · exact List.mem_cons_of_mem y (ih h)
    · rcases List.mem_cons.mp h with rfl | h
      · exact List.mem_cons_self
      · exact List.mem_cons_of_mem y (ih h)

/-- No two members that are kept have the same key. -/
theorem nodup_map_lasts (key : α → String) (xs : List α) : ((lasts key xs).map key).Nodup := by
  induction xs with
  | nil => exact List.nodup_nil
  | cons y rest ih =>
    rw [lasts]
    split
    · exact ih
    next hlast =>
      refine List.nodup_cons.mpr ⟨?_, ih⟩
      intro hmem
      obtain ⟨z, hz, hkey⟩ := List.mem_map.mp hmem
      exact hlast (List.any_eq_true.mpr ⟨z, mem_of_mem_lasts hz, beq_iff_eq.mpr hkey⟩)

/-- Where keys are distinct, each member is the last of its key. -/
theorem lasts_eq_self (h : (xs.map key).Nodup) : lasts key xs = xs := by
  induction xs with
  | nil => rfl
  | cons y rest ih =>
    obtain ⟨hy, hrest⟩ := List.nodup_cons.mp h
    have hlast : (rest.any fun z => key z == key y) = false := by
      rw [List.any_eq_false]
      intro z hz hkey
      exact hy (List.mem_map.mpr ⟨z, hz, beq_iff_eq.mp hkey⟩)
    rw [lasts, hlast, ih hrest]
    rfl

/-- Members with distinct keys are told apart by their keys. -/
theorem eq_of_key_eq {y : α} (h : (xs.map key).Nodup) (hx : x ∈ xs) (hy : y ∈ xs)
    (hkey : key x = key y) : x = y :=
  List.inj_on_of_nodup_map h hx hy hkey

/-- Where keys are distinct, putting a member displaces the one with its key. -/
theorem mem_put_iff {z : α} (h : (xs.map key).Nodup) :
    z ∈ put key x xs ↔ z = x ∨ z ∈ xs ∧ key z ≠ key x := by
  induction xs with
  | nil => simp [put]
  | cons y rest ih =>
    obtain ⟨hy, hrest⟩ := List.nodup_cons.mp h
    rw [put]
    by_cases hkey : key y = key x
    · have hne : ∀ z ∈ rest, key z ≠ key x := by
        intro z hz hzx
        exact hy (List.mem_map.mpr ⟨z, hz, hzx.trans hkey.symm⟩)
      rw [if_pos hkey, List.mem_cons, List.mem_cons]
      constructor
      · rintro (rfl | hz)
        · exact Or.inl rfl
        · exact Or.inr ⟨Or.inr hz, hne z hz⟩
      · rintro (rfl | ⟨rfl | hz, hzx⟩)
        · exact Or.inl rfl
        · exact absurd hkey hzx
        · exact Or.inr hz
    · rw [if_neg hkey, List.mem_cons, List.mem_cons, ih hrest]
      constructor
      · rintro (rfl | rfl | ⟨hz, hzx⟩)
        · exact Or.inr ⟨Or.inl rfl, hkey⟩
        · exact Or.inl rfl
        · exact Or.inr ⟨Or.inr hz, hzx⟩
      · rintro (rfl | ⟨rfl | hz, hzx⟩)
        · exact Or.inr (Or.inl rfl)
        · exact Or.inl rfl
        · exact Or.inr (Or.inr ⟨hz, hzx⟩)

/-! ## Where a member is put and dropped -/

section Positions

variable {before after : List α} {y : α}

/-- Where keys are distinct, no other member has the key of a member. -/
theorem key_ne_of_nodup (h : ((before ++ y :: after).map key).Nodup) :
    ∀ z ∈ before ++ after, key z ≠ key y := by
  rw [List.map_append, List.map_cons, List.nodup_middle] at h
  intro z hz hkey
  apply (List.nodup_cons.mp h).1
  rw [← List.map_append]
  exact List.mem_map.mpr ⟨z, hz, hkey⟩

/-- A member takes the place of the first one with its key. -/
theorem put_append_cons (h : ∀ z ∈ before, key z ≠ key x) (hy : key y = key x) :
    put key x (before ++ y :: after) = before ++ x :: after := by
  induction before with
  | nil => rw [List.nil_append, put, if_pos hy, List.nil_append]
  | cons z rest ih =>
    rw [List.cons_append, put, if_neg (h z List.mem_cons_self),
      ih fun w hw => h w (List.mem_cons_of_mem z hw), List.cons_append]

/-- A member whose key is new comes last. -/
theorem put_eq_append (h : ∀ z ∈ xs, key z ≠ key x) : put key x xs = xs ++ [x] := by
  induction xs with
  | nil => rfl
  | cons z rest ih =>
    rw [put, if_neg (h z List.mem_cons_self), ih fun w hw => h w (List.mem_cons_of_mem z hw),
      List.cons_append]

theorem drop_eq_self {name : String} (h : ∀ z ∈ xs, key z ≠ name) : drop key name xs = xs := by
  rw [drop, List.filter_eq_self]
  intro z hz
  exact decide_eq_true (h z hz)

/-- Where keys are distinct, dropping the key of a member drops that member only. -/
theorem drop_append_cons (h : ((before ++ y :: after).map key).Nodup) :
    drop key (key y) (before ++ y :: after) = before ++ after := by
  have hothers := key_ne_of_nodup h
  have hdrop : drop key (key y) (before ++ after) = before ++ after := drop_eq_self hothers
  rw [drop, List.filter_append] at hdrop
  rw [drop, List.filter_append, List.filter_cons_of_neg (by simp), hdrop]

theorem nodup_map_filter (keep : α → Bool) (h : (xs.map key).Nodup) :
    ((xs.filter keep).map key).Nodup :=
  h.sublist (List.filter_sublist.map key)

/-- Dropping a key and adding a member with that key keeps keys distinct. -/
theorem nodup_map_drop_append (h : (xs.map key).Nodup) :
    ((drop key (key x) xs ++ [x]).map key).Nodup := by
  rw [List.map_append, List.map_singleton, List.nodup_append]
  refine ⟨nodup_map_filter _ h, List.nodup_singleton _, ?_⟩
  intro name hname other hother
  obtain ⟨z, hz, rfl⟩ := List.mem_map.mp hname
  rw [List.mem_singleton.mp hother]
  exact of_decide_eq_true (List.mem_filter.mp hz).2

/-- Where keys are distinct, the two ways to bring in a member give the same members. -/
theorem put_perm_drop_append (h : (xs.map key).Nodup) :
    (put key x xs).Perm (drop key (key x) xs ++ [x]) := by
  by_cases hkey : ∃ y ∈ xs, key y = key x
  · obtain ⟨y, hy, hyx⟩ := hkey
    obtain ⟨before, after, rfl⟩ := List.append_of_mem hy
    have hbefore : ∀ z ∈ before, key z ≠ key x := by
      intro z hz
      rw [← hyx]
      exact key_ne_of_nodup h z (List.mem_append_left after hz)
    rw [put_append_cons hbefore hyx, ← hyx, drop_append_cons h, List.append_assoc]
    have hcomm : ([x] ++ after).Perm (after ++ [x]) := List.perm_append_comm
    exact hcomm.append_left before
  · have hnone : ∀ z ∈ xs, key z ≠ key x := fun z hz hzx => hkey ⟨z, hz, hzx⟩
    rw [put_eq_append hnone, drop_eq_self hnone]

end Positions

/-! ## Reading members -/

variable {β : Type}

/-- If each member is read as something with its key, the keys that are read are keys of members. -/
theorem map_filterMap_sublist {keyOf : β → String} {read : α → Option β}
    (hread : ∀ x ∈ xs, ∀ y, read x = some y → keyOf y = key x) :
    ((xs.filterMap read).map keyOf).Sublist (xs.map key) := by
  induction xs with
  | nil => exact List.Sublist.refl _
  | cons x rest ih =>
    have hrest := ih fun z hz => hread z (List.mem_cons_of_mem x hz)
    cases hy : read x with
    | none =>
      rw [List.filterMap_cons_none hy]
      exact hrest.cons _
    | some y =>
      rw [List.filterMap_cons_some hy, List.map_cons, List.map_cons,
        hread x List.mem_cons_self y hy]
      exact hrest.cons_cons _

/-- If exactly the members that satisfy a test are read, what is seen of them can be told from them. -/
theorem map_filterMap_eq_map_filter {γ : Type} {read : α → Option β} {keep : α → Bool}
    {seen : β → γ} {expected : α → γ}
    (hkept : ∀ x ∈ xs, keep x = true → ∃ y, read x = some y ∧ seen y = expected x)
    (hleft : ∀ x ∈ xs, keep x = false → read x = none) :
    (xs.filterMap read).map seen = (xs.filter keep).map expected := by
  induction xs with
  | nil => rfl
  | cons x rest ih =>
    have hrest := ih (fun z hz => hkept z (List.mem_cons_of_mem x hz))
      fun z hz => hleft z (List.mem_cons_of_mem x hz)
    by_cases hx : keep x = true
    · obtain ⟨y, hy, hseen⟩ := hkept x List.mem_cons_self hx
      rw [List.filterMap_cons_some hy, List.filter_cons_of_pos hx, List.map_cons, List.map_cons,
        hseen, hrest]
    · have hnone := hleft x List.mem_cons_self (Bool.eq_false_iff.mpr hx)
      rw [List.filterMap_cons_none hnone, List.filter_cons_of_neg hx, hrest]

/-- If every member is read, what is seen of them can be told from them. -/
theorem map_filterMap_eq_map {γ : Type} {read : α → Option β} {seen : β → γ} {expected : α → γ}
    (h : ∀ x ∈ xs, ∃ y, read x = some y ∧ seen y = expected x) :
    (xs.filterMap read).map seen = xs.map expected := by
  have hkept : (xs.filterMap read).map seen = (xs.filter fun _ => true).map expected :=
    map_filterMap_eq_map_filter (fun x hx _ => h x hx) fun _ _ hfalse => nomatch hfalse
  rwa [List.filter_true] at hkept

end FilterBar.Keyed
