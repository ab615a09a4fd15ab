import Mathlib.Data.List.Basic

/-!
# Stable sorting by a text

A list sorted by a text keeps the order of members with the same text.  The two properties determine
it: sorted lists are equal if for each text they have the same members in the same order.
-/

namespace FilterBar

variable {α : Type} {key : α → String} {xs ys : List α}

/-- The members in increasing order of their texts, and in their order where texts are equal. -/
def sortOn (key : α → String) (xs : List α) : List α :=
  xs.mergeSort fun a b => key a ≤ key b

theorem sortOn_perm (key : α → String) (xs : List α) : (sortOn key xs).Perm xs :=
  List.mergeSort_perm xs _

theorem le_trans_of_key (key : α → String) (a b c : α) (hab : decide (key a ≤ key b) = true)
    (hbc : decide (key b ≤ key c) = true) : decide (key a ≤ key c) = true :=
  decide_eq_true (String.le_trans (of_decide_eq_true hab) (of_decide_eq_true hbc))

theorem le_total_of_key (key : α → String) (a b : α) :
    (decide (key a ≤ key b) || decide (key b ≤ key a)) = true := by
  rcases String.le_total (key a) (key b) with h | h
  · simp [h]
  · simp [h]

theorem pairwise_sortOn (key : α → String) (xs : List α) :
    (sortOn key xs).Pairwise fun a b => key a ≤ key b := by
  have hpairwise := List.pairwise_mergeSort (le_trans_of_key key) (le_total_of_key key) xs
  exact hpairwise.imp of_decide_eq_true

/-- Members with the same text keep their order. -/
theorem filter_sortOn (key : α → String) (xs : List α) (text : String) :
    (sortOn key xs).filter (key · == text) = xs.filter (key · == text) := by
  have hsorted : (xs.filter (key · == text)).Pairwise
      fun a b => decide (key a ≤ key b) = true := by
    apply List.pairwise_of_forall_mem_list
    intro a ha b hb
    rw [beq_iff_eq.mp (List.mem_filter.mp ha).2, beq_iff_eq.mp (List.mem_filter.mp hb).2]
    exact decide_eq_true (String.le_refl text)
  have hsub : (xs.filter (key · == text)).Sublist (sortOn key xs) :=
    List.sublist_mergeSort (le_trans_of_key key) (le_total_of_key key) hsorted List.filter_sublist
  have hsub' := hsub.filter (key · == text)
  rw [List.filter_filter] at hsub'
  simp only [Bool.and_self] at hsub'
  refine (hsub'.eq_of_length ?_).symm
  exact ((sortOn_perm key xs).filter _).length_eq.symm

/-- Sorted lists with the same members of each text, in the same order, are equal. -/
theorem eq_of_filter_eq (hx : xs.Pairwise fun a b => key a ≤ key b)
    (hy : ys.Pairwise fun a b => key a ≤ key b)
    (h : ∀ text, xs.filter (key · == text) = ys.filter (key · == text)) : xs = ys := by
  have hmem {us vs : List α} (huv : ∀ text, us.filter (key · == text) = vs.filter (key · == text))
      {a : α} (ha : a ∈ us) : a ∈ vs := by
    have hfilter : a ∈ us.filter (key · == key a) := List.mem_filter.mpr ⟨ha, beq_self_eq_true _⟩
    rw [huv] at hfilter
    exact List.mem_of_mem_filter hfilter
  induction xs generalizing ys with
  | nil =>
    cases ys with
    | nil => rfl
    | cons b ys => exact absurd (hmem (fun text => (h text).symm) List.mem_cons_self) (by simp)
  | cons a xs ih =>
    cases ys with
    | nil => exact absurd (hmem h List.mem_cons_self) (by simp)
    | cons b ys =>
      obtain ⟨ha, hxs⟩ := List.pairwise_cons.mp hx
      obtain ⟨hb, hys⟩ := List.pairwise_cons.mp hy
      -- each head comes first among all members, so both have the least text
      have hle : key a ≤ key b := by
        rcases List.mem_cons.mp (hmem (fun text => (h text).symm) List.mem_cons_self) with rfl | hba
        · exact String.le_refl _
        · exact ha b hba
      have hge : key b ≤ key a := by
        rcases List.mem_cons.mp (hmem h List.mem_cons_self) with rfl | hab
        · exact String.le_refl _
        · exact hb a hab
      have hkey : key a = key b := String.le_antisymm hle hge
      have hhead := h (key a)
      rw [List.filter_cons_of_pos (by simp), List.filter_cons_of_pos (by simp [hkey])] at hhead
      obtain ⟨rfl, -⟩ := List.cons.inj hhead
      congr 1
      apply ih hxs hys
      intro text
      have htext := h text
      rw [List.filter_cons, List.filter_cons] at htext
      split at htext
      · exact (List.cons.inj htext).2
      · exact htext

theorem filter_filter_eq_nil {text other : String} (h : other ≠ text) (key : α → String)
    (xs : List α) : (xs.filter (key · == other)).filter (key · == text) = [] := by
  rw [List.filter_eq_nil_iff]
  intro a ha hatext
  exact h ((beq_iff_eq.mp (List.mem_filter.mp ha).2).symm.trans (beq_iff_eq.mp hatext))

/-- Going through distinct texts finds the members of each text once. -/
theorem filter_flatMap_filter {texts : List String} (htexts : texts.Nodup)
    (key : α → String) (xs : List α) {text : String} (hmem : text ∈ texts) :
    (texts.flatMap fun other => xs.filter (key · == other)).filter (key · == text) =
      xs.filter (key · == text) := by
  rw [List.filter_flatMap]
  induction texts with
  | nil => simp at hmem
  | cons first rest ih =>
    obtain ⟨hfirst, hrest⟩ := List.nodup_cons.mp htexts
    rw [List.flatMap_cons]
    rcases List.mem_cons.mp hmem with rfl | hmem
    · have hnil : rest.flatMap (fun other =>
          (xs.filter (key · == other)).filter (key · == text)) = [] := by
        rw [List.flatMap_eq_nil_iff]
        intro other hother
        apply filter_filter_eq_nil
        rintro rfl
        exact hfirst hother
      rw [hnil, List.append_nil, List.filter_filter]
      simp only [Bool.and_self]
    · have hne : first ≠ text := by
        rintro rfl
        exact hfirst hmem
      rw [filter_filter_eq_nil hne, List.nil_append, ih hrest hmem]

/-- Going through all texts in increasing order sorts a list. -/
theorem flatMap_filter_eq_sortOn {texts : List String} (htexts : texts.Pairwise (· < ·))
    {key : α → String} {xs : List α} (h : ∀ x ∈ xs, key x ∈ texts) :
    texts.flatMap (fun text => xs.filter (key · == text)) = sortOn key xs := by
  have hsorted : (texts.flatMap fun text => xs.filter (key · == text)).Pairwise
      fun a b => key a ≤ key b := by
    rw [List.pairwise_flatMap]
    constructor
    · intro text _
      apply List.pairwise_of_forall_mem_list
      intro a ha b hb
      have hkey : key a = key b :=
        (beq_iff_eq.mp (List.mem_filter.mp ha).2).trans (beq_iff_eq.mp (List.mem_filter.mp hb).2).symm
      exact hkey ▸ String.le_refl (key a)
    · refine htexts.imp ?_
      intro text other hlt a ha b hb
      rw [beq_iff_eq.mp (List.mem_filter.mp ha).2, beq_iff_eq.mp (List.mem_filter.mp hb).2]
      exact String.not_lt.mp (String.lt_asymm hlt)
  have hnodup : texts.Nodup := by
    refine htexts.imp ?_
    rintro text other hlt rfl
    exact String.lt_irrefl _ hlt
  refine eq_of_filter_eq hsorted (pairwise_sortOn key xs) ?_
  intro text
  rw [filter_sortOn]
  by_cases hmem : text ∈ texts
  · exact filter_flatMap_filter hnodup key xs hmem
  · have hnone : xs.filter (key · == text) = [] := by
      rw [List.filter_eq_nil_iff]
      intro x hx hxtext
      exact hmem (beq_iff_eq.mp hxtext ▸ h x hx)
    rw [hnone, List.filter_eq_nil_iff]
    intro a ha hatext
    obtain ⟨other, hother, haother⟩ := List.mem_flatMap.mp ha
    rw [← beq_iff_eq.mp (List.mem_filter.mp haother).2, beq_iff_eq.mp hatext] at hother
    exact hmem hother

end FilterBar
