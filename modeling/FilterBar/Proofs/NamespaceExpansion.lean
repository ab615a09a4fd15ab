import Mathlib.Data.List.Induction
import FilterBar.Directory.Namespace
import FilterBar.Proofs.Fields
import FilterBar.Proofs.PresetIsolation
import FilterBar.Proofs.QueryText

/-!
# Namespaces after their ancestors

The paths that an id is taken apart into are the id without the dots at its front and everything that
stands in front of one of the other dots, the shortest first.  So each path comes after the one
directly above it, and this outlives joining such lists and leaving out what has occurred before.
Where a list has this order already, expansion finds nothing to add.
-/

namespace FilterBar.Namespace

open Text

/-- An id without the dots at its front. -/
def stripped (id : String) : List Char :=
  id.toList.dropWhile (· == '.')

/-- A text as it is, or cut in front of one of its dots. -/
def IsCut (path s : List Char) : Prop :=
  path = s ∨ ∃ below, s = path ++ '.' :: below

/-- The text in front of the last dot of a path. -/
def IsParent (parent path : List Char) : Prop :=
  ∃ name, path = parent ++ '.' :: name ∧ '.' ∉ name

/-- Each path of a list that has a parent comes after it. -/
def ParentsFirst (l : List String) : Prop :=
  ∀ before path after, l = before ++ path :: after →
    ∀ parent, IsParent parent path.toList → String.ofList parent ∈ before

/-! ## Cutting an id at its dots -/

/-- The cuts of a text behind a stem, the shortest first. -/
def cuts (stem : List Char) : List Char → List (List Char)
  | [] => [stem]
  | c :: rest => if c = '.' then stem :: cuts (stem ++ ['.']) rest else cuts (stem ++ [c]) rest

theorem exists_splitOn_eq_cons (sep : Char) (s : List Char) :
    ∃ piece pieces, splitOn sep s = piece :: pieces := by
  cases h : splitOn sep s with
  | nil =>
    rw [splitOn_eq_splitOn] at h
    exact absurd h (List.splitOn_ne_nil sep s)
  | cons piece pieces => exact ⟨piece, pieces, rfl⟩

theorem splitOn_cons_of_ne {sep c : Char} (h : c ≠ sep) {s piece : List Char}
    {pieces : List (List Char)} (hs : splitOn sep s = piece :: pieces) :
    splitOn sep (c :: s) = (c :: piece) :: pieces := by
  rw [splitOn, if_neg h, hs]

theorem cons_pathsFrom_eq_cuts {stem s piece : List Char} {pieces : List (List Char)}
    (hstem : stem ≠ []) (hs : splitOn '.' s = piece :: pieces) :
    (stem ++ piece) :: pathsFrom (stem ++ piece) pieces = cuts stem s := by
  induction s generalizing stem piece pieces with
  | nil =>
    obtain ⟨rfl, rfl⟩ : [] = piece ∧ [] = pieces := by simpa [splitOn] using hs
    rw [List.append_nil]
    rfl
  | cons c rest ih =>
    obtain ⟨next, later, hrest⟩ := exists_splitOn_eq_cons '.' rest
    by_cases hc : c = '.'
    · obtain ⟨rfl, rfl⟩ : [] = piece ∧ splitOn '.' rest = pieces := by
        simpa [splitOn, hc] using hs
      have hextend : extend stem next = stem ++ ['.'] ++ next := by
        simp [extend, hstem]
      rw [List.append_nil, hrest, pathsFrom, cuts, if_pos hc, hextend,
        ih (List.append_ne_nil_of_left_ne_nil hstem _) hrest]
    · obtain ⟨rfl, rfl⟩ := List.cons_eq_cons.mp ((splitOn_cons_of_ne hc hrest).symm.trans hs)
      rw [cuts, if_neg hc, ← ih (List.append_ne_nil_of_left_ne_nil hstem _) hrest,
        List.append_assoc, List.singleton_append]

/-- Each dot at the front of an id gives the empty path, and the rest gives its cuts. -/
theorem pathsFrom_splitOn (s : List Char) :
    pathsFrom [] (splitOn '.' s) =
      (s.takeWhile (· == '.')).map (fun _ => []) ++ cuts [] (s.dropWhile (· == '.')) := by
  induction s with
  | nil => rfl
  | cons c rest ih =>
    by_cases hc : c = '.'
    · subst hc
      show [] :: pathsFrom [] (splitOn '.' rest) = _
      rw [ih]
      rfl
    · obtain ⟨piece, pieces, hrest⟩ := exists_splitOn_eq_cons '.' rest
      have hpaths := cons_pathsFrom_eq_cuts (List.cons_ne_nil c []) hrest
      rw [splitOn_cons_of_ne hc hrest, List.takeWhile_cons_of_neg (by simpa using hc),
        List.dropWhile_cons_of_neg (by simpa using hc), cuts, if_neg hc, List.nil_append, ← hpaths]
      rfl

theorem mem_cuts {stem s t : List Char} :
    t ∈ cuts stem s ↔ ∃ path, t = stem ++ path ∧ IsCut path s := by
  induction s generalizing stem with
  | nil => simp [cuts, IsCut]
  | cons c rest ih =>
    -- a cut is empty, and then a dot follows, or it begins as the text does
    have hcons (path : List Char) : IsCut path (c :: rest) ↔
        (path = [] ∧ c = '.') ∨ ∃ more, path = c :: more ∧ IsCut more rest := by
      cases path with
      | nil => simp [IsCut]
      | cons d more =>
        constructor
        · rintro (h | ⟨below, h⟩)
          · obtain ⟨rfl, rfl⟩ := List.cons_eq_cons.mp h
            exact Or.inr ⟨more, rfl, Or.inl rfl⟩
          · obtain ⟨rfl, rfl⟩ := List.cons_eq_cons.mp h
            exact Or.inr ⟨more, rfl, Or.inr ⟨below, rfl⟩⟩
        · rintro (⟨h, -⟩ | ⟨more', h, hcut⟩)
          · exact absurd h (List.cons_ne_nil d more)
          · obtain ⟨rfl, rfl⟩ := List.cons_eq_cons.mp h
            exact hcut.imp (congrArg (d :: ·)) fun ⟨below, hbelow⟩ => ⟨below, by rw [hbelow]; rfl⟩
    have hstem : (∃ path, t = stem ++ [c] ++ path ∧ IsCut path rest) ↔
        ∃ path, t = stem ++ path ∧ ∃ more, path = c :: more ∧ IsCut more rest := by
      constructor
      · rintro ⟨more, rfl, hcut⟩
        exact ⟨c :: more, by simp, more, rfl, hcut⟩
      · rintro ⟨path, rfl, more, rfl, hcut⟩
        exact ⟨more, by simp, hcut⟩
    simp only [hcons, and_or_left, exists_or, ← hstem]
    by_cases hc : c = '.'
    · subst hc
      simp [cuts, ih]
    · simp [cuts, hc, ih]

theorem pairwise_cuts (stem s : List Char) :
    (cuts stem s).Pairwise fun a b => a.length < b.length := by
  induction s generalizing stem with
  | nil => exact List.pairwise_singleton _ stem
  | cons c rest ih =>
    rw [cuts]
    split
    · refine List.pairwise_cons.mpr ⟨?_, ih _⟩
      intro t ht
      obtain ⟨path, rfl, -⟩ := mem_cuts.mp ht
      simp only [List.length_append, List.length_singleton]
      omega
    · exact ih _

/-- The paths of an id are the cuts of what it is without the dots at its front, and the empty path
for each of these dots. -/
theorem lineage_eq (id : String) :
    lineage id = (id.toList.takeWhile (· == '.')).map (fun _ => "") ++
      (cuts [] (stripped id)).map String.ofList := by
  rw [lineage, pathsFrom_splitOn, List.map_append, List.map_map]
  rfl

theorem mem_lineage {path id : String} :
    path ∈ lineage id ↔
      IsCut path.toList (stripped id) ∨ path = "" ∧ id.toList.head? = some '.' := by
  have hcuts : path ∈ (cuts [] (stripped id)).map String.ofList ↔
      IsCut path.toList (stripped id) := by
    constructor
    · intro h
      obtain ⟨t, ht, rfl⟩ := List.mem_map.mp h
      obtain ⟨cut, rfl, hcut⟩ := mem_cuts.mp ht
      rwa [String.toList_ofList]
    · intro h
      exact List.mem_map.mpr ⟨path.toList, mem_cuts.mpr ⟨path.toList, rfl, h⟩, String.ofList_toList⟩
  have hdots : path ∈ (id.toList.takeWhile (· == '.')).map (fun _ => "") ↔
      path = "" ∧ id.toList.head? = some '.' := by
    cases id.toList with
    | nil => simp
    | cons c rest =>
      by_cases hc : c = '.'
      · subst hc
        simp
      · simp [hc]
  rw [lineage_eq, List.mem_append, hcuts, hdots, or_comm]

theorem head?_stripped_ne (id : String) : (stripped id).head? ≠ some '.' := by
  intro hdot
  have hnot := List.head?_dropWhile_not (· == '.') id.toList
  rw [show id.toList.dropWhile (· == '.') = stripped id from rfl, hdot] at hnot
  simp at hnot

/-- A cut of a stripped id begins with no dot. -/
theorem stripped_of_isCut {path id : String} (h : IsCut path.toList (stripped id)) :
    stripped path = path.toList := by
  rw [stripped]
  cases hpath : path.toList with
  | nil => rfl
  | cons c rest =>
    have hhead : (stripped id).head? = some c := by
      rcases h with h | ⟨below, h⟩
      · rw [← h, hpath]
        rfl
      · rw [h, hpath]
        rfl
    rw [List.dropWhile_cons_of_neg]
    intro hc
    exact head?_stripped_ne id (hhead.trans (congrArg some (beq_iff_eq.mp hc)))

/-! ## Lists with parents first -/

variable {l l' : List String} {path : String}

theorem length_lt_of_isParent {parent path : List Char} (h : IsParent parent path) :
    parent.length < path.length := by
  obtain ⟨name, rfl, -⟩ := h
  simp only [List.length_append, List.length_cons]
  omega

theorem exists_isParent {s : List Char} (h : '.' ∈ s) : ∃ parent, IsParent parent s := by
  obtain ⟨name, parent, hs, hname⟩ := List.eq_append_cons_of_mem (List.mem_reverse.mpr h)
  refine ⟨parent.reverse, name.reverse, ?_, by simpa using hname⟩
  rw [← List.reverse_reverse s, hs]
  simp

theorem isParent_unique {parent parent' path : List Char} (h : IsParent parent path)
    (h' : IsParent parent' path) : parent = parent' := by
  obtain ⟨name, rfl, hname⟩ := h
  obtain ⟨name', heq, hname'⟩ := h'
  rcases append_cons_eq_iff.mp heq with ⟨hparent, -⟩ | ⟨piece, -, rfl⟩ | ⟨piece, -, rfl⟩
  · exact hparent
  · exact absurd (by simp) hname
  · exact absurd (by simp) hname'

theorem isCut_of_isParent {parent path s : List Char} (h : IsParent parent path)
    (hpath : IsCut path s) : IsCut parent s := by
  obtain ⟨name, rfl, -⟩ := h
  rcases hpath with rfl | ⟨below, rfl⟩
  · exact Or.inr ⟨name, rfl⟩
  · exact Or.inr ⟨name ++ '.' :: below, by simp⟩

theorem parentsFirst_nil : ParentsFirst [] := by
  intro before path after h
  exact absurd h (by simp)

theorem parentsFirst_concat :
    ParentsFirst (l ++ [path]) ↔
      ParentsFirst l ∧ ∀ parent, IsParent parent path.toList → String.ofList parent ∈ l := by
  constructor
  · intro h
    refine ⟨?_, h l path [] rfl⟩
    rintro before path' after rfl
    exact h before path' (after ++ [path]) (by simp)
  · rintro ⟨hl, hpath⟩ before path' after h
    rcases List.eq_nil_or_concat' after with rfl | ⟨after', last, rfl⟩
    · obtain ⟨rfl, rfl⟩ := List.append_singleton_inj.mp h
      exact hpath
    · rw [← List.cons_append, ← List.append_assoc] at h
      exact hl before path' after' (List.append_singleton_inj.mp h).1

/-- A list has parents first if it holds the parents of its paths and no path comes after a longer
one. -/
theorem parentsFirst_of_pairwise (hlength : l.Pairwise fun a b => a.toList.length ≤ b.toList.length)
    (hmem : ∀ path ∈ l, ∀ parent, IsParent parent path.toList → String.ofList parent ∈ l) :
    ParentsFirst l := by
  rintro before path after rfl parent hparent
  rcases List.mem_append.mp (hmem path (by simp) parent hparent) with h | h
  · exact h
  · have hle : path.toList.length ≤ (String.ofList parent).toList.length := by
      rcases List.mem_cons.mp h with h | h
      · exact (congrArg (·.toList.length) h).ge
      · exact (List.pairwise_cons.mp (List.pairwise_append.mp hlength).2.1).1 _ h
    have hlt := length_lt_of_isParent hparent
    rw [String.toList_ofList] at hle
    omega

theorem parentsFirst_lineage (id : String) : ParentsFirst (lineage id) := by
  refine parentsFirst_of_pairwise ?_ ?_
  · rw [lineage_eq, List.pairwise_append, List.pairwise_map, List.pairwise_map]
    refine ⟨?_, ?_, ?_⟩
    · exact List.pairwise_of_forall fun _ _ => Nat.le_refl _
    · refine (pairwise_cuts [] (stripped id)).imp ?_
      intro a b hlt
      rw [String.toList_ofList, String.toList_ofList]
      exact Nat.le_of_lt hlt
    · intro a ha b _
      obtain ⟨-, -, rfl⟩ := List.mem_map.mp ha
      exact Nat.zero_le _
  · intro path hpath parent hparent
    rw [mem_lineage] at hpath ⊢
    rcases hpath with hcut | ⟨rfl, -⟩
    · left
      rw [String.toList_ofList]
      exact isCut_of_isParent hparent hcut
    · exact absurd (length_lt_of_isParent hparent) (Nat.not_lt_zero _)

theorem parentsFirst_append (hl : ParentsFirst l) (hl' : ParentsFirst l') :
    ParentsFirst (l ++ l') := by
  induction l' using List.reverseRecOn with
  | nil => rwa [List.append_nil]
  | append_singleton rest path ih =>
    obtain ⟨hrest, hpath⟩ := parentsFirst_concat.mp hl'
    rw [← List.append_assoc]
    exact parentsFirst_concat.mpr
      ⟨ih hrest, fun parent h => List.mem_append_right l (hpath parent h)⟩

theorem eraseDups_concat (l : List String) (path : String) :
    (l ++ [path]).eraseDups = if path ∈ l then l.eraseDups else l.eraseDups ++ [path] := by
  rw [List.eraseDups_append, List.removeAll]
  by_cases h : path ∈ l
  · simp [h]
  · simp [h, List.eraseDups_cons]

theorem parentsFirst_eraseDups (h : ParentsFirst l) : ParentsFirst l.eraseDups := by
  induction l using List.reverseRecOn with
  | nil => exact h
  | append_singleton rest path ih =>
    obtain ⟨hrest, hpath⟩ := parentsFirst_concat.mp h
    rw [eraseDups_concat]
    split
    · exact ih hrest
    · exact parentsFirst_concat.mpr
        ⟨ih hrest, fun parent hparent => List.mem_eraseDups.mpr (hpath parent hparent)⟩

/-- A list with parents first holds everything that stands in front of a dot of one of its paths. -/
theorem mem_of_isCut (h : ParentsFirst l) {cut : List Char} (hpath : path ∈ l)
    (hcut : IsCut cut path.toList) : String.ofList cut ∈ l := by
  rcases hcut with rfl | ⟨below, hbelow⟩
  · rwa [String.ofList_toList]
  -- the parent is as deep as the cut or deeper, and holds fewer characters behind it
  induction hlength : below.length using Nat.strong_induction_on generalizing path below with
  | _ n ih =>
    obtain ⟨parent, hparent⟩ := exists_isParent (s := path.toList) (by simp [hbelow])
    have hmem : String.ofList parent ∈ l := by
      obtain ⟨before, after, rfl⟩ := List.append_of_mem hpath
      exact List.mem_append_left _ (h before path after rfl parent hparent)
    by_cases hdot : '.' ∈ below
    · obtain ⟨parent', name, rfl, hname⟩ := exists_isParent hdot
      have heq : parent = cut ++ '.' :: parent' :=
        isParent_unique hparent ⟨name, by rw [hbelow]; simp, hname⟩
      refine ih parent'.length ?_ hmem parent' (by rw [String.toList_ofList, heq]) rfl
      rw [← hlength]
      simp only [List.length_append, List.length_cons]
      omega
    · rwa [← isParent_unique hparent ⟨below, hbelow, hdot⟩]

/-! ## Expansion -/

theorem mem_expand {ids : List String} : path ∈ expand ids ↔ ∃ id ∈ ids, path ∈ lineage id := by
  rw [expand, List.mem_eraseDups, List.mem_flatMap]

theorem nodup_expand (ids : List String) : (expand ids).Nodup :=
  nodup_eraseDups _

theorem parentsFirst_expand (ids : List String) : ParentsFirst (expand ids) := by
  apply parentsFirst_eraseDups
  induction ids with
  | nil => exact parentsFirst_nil
  | cons id rest ih =>
    rw [List.flatMap_cons]
    exact parentsFirst_append (parentsFirst_lineage id) ih

/-- Further ids add those of their paths that were not there. -/
theorem expand_append (ids more : List String) :
    expand (ids ++ more) = expand ids ++ (expand more).filter (· ∉ expand ids) := by
  rw [expand, List.flatMap_append, List.eraseDups_append, List.removeAll, eraseDups_filter]
  congr 1
  apply List.filter_congr
  intro path _
  have hseen : path ∈ expand ids ↔ path ∈ ids.flatMap lineage := List.mem_eraseDups
  rw [List.elem_eq_mem, decide_not, decide_eq_decide.mpr hseen]

/-- If a list has parents first and no path twice, and no path begins with a dot, then expansion
leaves it as it is. -/
theorem expand_eq_self (hnodup : l.Nodup) (hparents : ParentsFirst l)
    (hstripped : ∀ path ∈ l, stripped path = path.toList) : expand l = l := by
  induction l using List.reverseRecOn with
  | nil => rfl
  | append_singleton rest path ih =>
    have hnot : path ∉ rest := fun h => (List.nodup_append.mp hnodup).2.2 path h path (by simp) rfl
    have hrest := ih (List.nodup_append.mp hnodup).1 (parentsFirst_concat.mp hparents).1
      fun other h => hstripped other (List.mem_append_left _ h)
    have hpath := hstripped path (by simp)
    have hmem : path ∈ expand [path] :=
      mem_expand.mpr ⟨path, by simp, mem_lineage.mpr (Or.inl (Or.inl hpath.symm))⟩
    -- all other paths of the last id stand before it
    have hnew : ∀ other ∈ expand [path], (decide (other ∉ rest)) = (other == path) := by
      intro other hother
      obtain ⟨id, hid, hother⟩ := mem_expand.mp hother
      rw [List.mem_singleton.mp hid, mem_lineage, hpath] at hother
      by_cases heq : other = path
      · simp [heq, hnot]
      have hcut : IsCut other.toList path.toList :=
        hother.resolve_right fun h => head?_stripped_ne path (hpath ▸ h.2)
      have hmem := mem_of_isCut hparents (List.mem_append_right rest (by simp)) hcut
      rw [String.ofList_toList] at hmem
      have hother : other ∈ rest :=
        (List.mem_append.mp hmem).resolve_right fun h => heq (List.mem_singleton.mp h)
      simp [heq, hother]
    rw [expand_append, hrest, List.filter_congr hnew, List.filter_beq,
      List.count_eq_one_of_mem (nodup_expand [path]) hmem]
    rfl

/-- Expansion lists no path twice and each path after its parent.  What it lists are the ids without
the dots at their front, these cut in front of one of their dots, and the empty path where an id has
dots at its front.  Expanding once more changes nothing, and further ids add those of their paths
that were not listed. -/
theorem expand_ancestors_first (ids : List String) :
    (expand ids).Nodup ∧ ParentsFirst (expand ids) ∧
    (∀ id ∈ ids, String.ofList (stripped id) ∈ expand ids) ∧
    (∀ path, path ∈ expand ids ↔ (∃ id ∈ ids, IsCut path.toList (stripped id)) ∨
      path = "" ∧ ∃ id ∈ ids, id.toList.head? = some '.') ∧
    expand (expand ids) = expand ids ∧
    ∀ more, expand (ids ++ more) = expand ids ++ (expand more).filter (· ∉ expand ids) := by
  have hmem (path : String) : path ∈ expand ids ↔ (∃ id ∈ ids, IsCut path.toList (stripped id)) ∨
      path = "" ∧ ∃ id ∈ ids, id.toList.head? = some '.' := by
    simp only [mem_expand, mem_lineage, and_or_left, exists_or, and_left_comm, exists_and_left]
  refine ⟨nodup_expand ids, parentsFirst_expand ids, ?_, hmem, ?_, expand_append ids⟩
  · intro id hid
    exact (hmem _).mpr (Or.inl ⟨id, hid, Or.inl String.toList_ofList⟩)
  · apply expand_eq_self (nodup_expand ids) (parentsFirst_expand ids)
    intro path hpath
    rcases (hmem path).mp hpath with ⟨id, -, hcut⟩ | ⟨rfl, -⟩
    · exact stripped_of_isCut hcut
    · rfl

/-- Dots at the front of an id, at its end and next to each other, and an id that comes before its
ancestor. -/
theorem expand_ancestors_first_dots :
    let ids := ["..a.b", "x.", "p..q", "a"]
    "..a.b" ∈ ids ∧ String.ofList (stripped "..a.b") ∈ expand ids ∧
      expand ids = ["", "a", "a.b", "x", "x.", "p", "p.", "p..q"] ∧
      IsParent "p.".toList "p..q".toList ∧ "p." ∈ ["", "a", "a.b", "x", "x.", "p", "p."] := by
  intro ids
  have hexpand : expand ids = ["", "a", "a.b", "x", "x.", "p", "p.", "p..q"] := by decide +kernel
  have hparent : IsParent "p.".toList "p..q".toList := ⟨['q'], rfl, by decide⟩
  obtain ⟨-, hfirst, hmem, -⟩ := expand_ancestors_first ids
  refine ⟨by decide, hmem "..a.b" (by decide), hexpand, hparent, ?_⟩
  exact hfirst ["", "a", "a.b", "x", "x.", "p", "p."] "p..q" [] hexpand "p.".toList hparent

end FilterBar.Namespace
