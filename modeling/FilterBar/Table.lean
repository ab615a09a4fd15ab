/-!
# Tables sorted by name

A table maps names to values and lists its entries in increasing order of the names, which is the
order of their code points and so also of their UTF-8 bytes.  The order is part of the type: a table
is determined by what `get?` answers (`Table.ext_get?`).
-/

namespace FilterBar

universe u

/-- Entries in strictly increasing order of their names. -/
structure Table (α : Type u) where
  entries : List (String × α)
  sorted : entries.Pairwise fun a b => a.1 < b.1
  deriving DecidableEq

namespace Table

variable {α : Type u}

/-- Puts an entry where its name belongs, in place of one with the same name. -/
def insertEntry (name : String) (value : α) : List (String × α) → List (String × α)
  | [] => [(name, value)]
  | entry :: rest =>
    if name < entry.1 then (name, value) :: entry :: rest
    else if entry.1 < name then entry :: insertEntry name value rest
    else (name, value) :: rest

theorem mem_insertEntry {name : String} {value : α} {e : String × α} {l : List (String × α)}
    (h : e ∈ insertEntry name value l) : e = (name, value) ∨ e ∈ l := by
  induction l with
  | nil => simpa [insertEntry] using h
  | cons entry rest ih =>
    simp only [insertEntry] at h
    split at h
    · simpa using h
    · split at h
      · rcases List.mem_cons.mp h with rfl | h
        · simp
        · rcases ih h with h | h <;> simp [h]
      · rcases List.mem_cons.mp h with rfl | h <;> simp [*]

theorem insertEntry_sorted (name : String) (value : α) {l : List (String × α)}
    (h : l.Pairwise fun a b => a.1 < b.1) :
    (insertEntry name value l).Pairwise fun a b => a.1 < b.1 := by
  induction l with
  | nil => simp [insertEntry]
  | cons entry rest ih =>
    obtain ⟨hall, hrest⟩ := List.pairwise_cons.mp h
    simp only [insertEntry]
    split
    · next hlt =>
      refine List.pairwise_cons.mpr ⟨fun e he => ?_, h⟩
      rcases List.mem_cons.mp he with rfl | he
      · exact hlt
      · exact String.lt_trans hlt (hall e he)
    · next hnlt =>
      split
      · next hlt =>
        refine List.pairwise_cons.mpr ⟨fun e he => ?_, ih hrest⟩
        rcases mem_insertEntry he with rfl | he
        · exact hlt
        · exact hall e he
      · next hngt =>
        have heq : name = entry.1 := String.le_antisymm (String.not_lt.mp hngt) (String.not_lt.mp hnlt)
        exact List.pairwise_cons.mpr ⟨fun e he => heq ▸ hall e he, hrest⟩

def empty : Table α := ⟨[], .nil⟩

instance : Inhabited (Table α) := ⟨empty⟩

def get? (t : Table α) (name : String) : Option α :=
  (t.entries.find? (·.1 = name)).map (·.2)

def contains (t : Table α) (name : String) : Bool :=
  (t.get? name).isSome

def names (t : Table α) : List String :=
  t.entries.map (·.1)

def size (t : Table α) : Nat :=
  t.entries.length

def isEmpty (t : Table α) : Bool :=
  t.entries.isEmpty

def insert (t : Table α) (name : String) (value : α) : Table α :=
  ⟨insertEntry name value t.entries, insertEntry_sorted name value t.sorted⟩

def retain (t : Table α) (keep : String → α → Bool) : Table α :=
  ⟨t.entries.filter fun e => keep e.1 e.2, t.sorted.filter _⟩

def erase (t : Table α) (name : String) : Table α :=
  t.retain fun other _ => other ≠ name

def merge (t other : Table α) : Table α :=
  other.entries.foldl (fun t e => t.insert e.1 e.2) t

/-- The table in which each entry of a list is set, the later after the earlier. -/
def ofList (l : List (String × α)) : Table α :=
  l.foldl (fun t e => t.insert e.1 e.2) empty

theorem find?_insertEntry (name other : String) (value : α) (l : List (String × α))
    (h : l.Pairwise fun a b => a.1 < b.1) :
    (insertEntry name value l).find? (·.1 = other) =
      if name = other then some (name, value) else l.find? (·.1 = other) := by
  induction l with
  | nil => by_cases hn : name = other <;> simp [insertEntry, hn]
  | cons entry rest ih =>
    obtain ⟨hall, hrest⟩ := List.pairwise_cons.mp h
    simp only [insertEntry]
    by_cases hn : name = other
    · subst hn
      split
      · simp
      · split
        · next hlt =>
          have : entry.1 ≠ name := fun he => String.lt_irrefl _ (he ▸ hlt)
          simp [this, ih hrest]
        · simp
    · split
      · simp [List.find?_cons, hn]
      · split
        · simp [List.find?_cons, ih hrest, hn]
        · next hnlt hngt =>
          have heq : entry.1 = name :=
            (String.le_antisymm (String.not_lt.mp hngt) (String.not_lt.mp hnlt)).symm
          have hne : entry.1 ≠ other := heq ▸ hn
          simp [hn, hne]

/-- A name that is set has its new value, every other name keeps what it had. -/
theorem get?_insert (t : Table α) (name other : String) (value : α) :
    (t.insert name value).get? other = if name = other then some value else t.get? other := by
  simp only [get?, insert, find?_insertEntry _ _ _ _ t.sorted]
  split <;> rfl

theorem mem_iff_find? {l : List (String × α)} (h : l.Pairwise fun a b => a.1 < b.1)
    {e : String × α} : e ∈ l ↔ l.find? (·.1 = e.1) = some e := by
  refine ⟨fun he => ?_, List.mem_of_find?_eq_some⟩
  induction l with
  | nil => simp at he
  | cons entry rest ih =>
    obtain ⟨hall, hrest⟩ := List.pairwise_cons.mp h
    rcases List.mem_cons.mp he with rfl | he
    · simp
    · have : entry.1 ≠ e.1 := fun heq => String.lt_irrefl _ (heq ▸ hall e he)
      simp [this, ih hrest he]

/-- An entry is in the table exactly when its name has its value. -/
theorem mem_entries {t : Table α} {name : String} {value : α} :
    (name, value) ∈ t.entries ↔ t.get? name = some value := by
  rw [mem_iff_find? t.sorted, get?, Option.map_eq_some_iff]
  refine ⟨fun h => ⟨_, h, rfl⟩, fun ⟨e, he, hv⟩ => ?_⟩
  have hname : e.1 = name := by simpa using List.find?_some he
  rw [he, ← hname, ← hv]

/-- A table keeps exactly the entries that satisfy the test. -/
theorem get?_retain (t : Table α) (keep : String → α → Bool) (name : String) :
    (t.retain keep).get? name = (t.get? name).filter (keep name) := by
  apply Option.ext
  intro value
  rw [← mem_entries, Option.filter_eq_some_iff, ← mem_entries]
  simp [retain]

/-- A removed name has no value, every other name keeps what it had. -/
theorem get?_erase (t : Table α) (name other : String) :
    (t.erase name).get? other = if name = other then none else t.get? other := by
  rw [erase, get?_retain]
  by_cases h : name = other
  · subst h; cases t.get? name <;> simp
  · have : other ≠ name := Ne.symm h
    cases t.get? other <;> simp [h, this]

theorem nodup_of_sorted {l : List (String × α)} (h : l.Pairwise fun a b => a.1 < b.1) : l.Nodup := by
  refine List.Pairwise.imp ?_ h
  intro a b hab heq
  exact String.lt_irrefl b.1 (heq ▸ hab)

/-- Two tables that answer alike are equal. -/
theorem ext_get? {t u : Table α} (h : ∀ name, t.get? name = u.get? name) : t = u := by
  have key : t.entries = u.entries := by
    have hanti (a b : String × α) (_ : a ∈ t.entries) (_ : b ∈ u.entries) (hab : a.1 < b.1)
        (hba : b.1 < a.1) : a = b := absurd hba (String.lt_asymm hab)
    refine List.Perm.eq_of_pairwise hanti t.sorted u.sorted ?_
    refine (List.perm_ext_iff_of_nodup ?_ ?_).mpr fun e => ?_
    · exact nodup_of_sorted t.sorted
    · exact nodup_of_sorted u.sorted
    · rw [show e = (e.1, e.2) from rfl, mem_entries, mem_entries, h]
  cases t; cases u; simp_all

end Table

end FilterBar
