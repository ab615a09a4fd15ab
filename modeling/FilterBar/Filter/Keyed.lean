/-!
# Lists of things with keys

A list whose members have keys: putting a member in the place of one with its key, and keeping the
last member of each key.
-/

namespace FilterBar.Keyed

variable {α : Type}

/-- Puts a member in the place of the first one with its key, or at the end if there is none. -/
def put (key : α → String) (x : α) : List α → List α
  | [] => [x]
  | y :: rest => if key y = key x then x :: rest else y :: put key x rest

def drop (key : α → String) (name : String) (xs : List α) : List α :=
  xs.filter (key · ≠ name)

/-- Keeps the last member of each key, in the order of the list. -/
def lasts (key : α → String) : List α → List α
  | [] => []
  | x :: rest => if rest.any (key · == key x) then lasts key rest else x :: lasts key rest

/-- A member of the list after `x` is put is `x` or was there before. -/
theorem mem_put {key : α → String} {x z : α} {xs : List α} (h : z ∈ put key x xs) :
    z = x ∨ z ∈ xs := by
  induction xs with
  | nil => simpa [put] using h
  | cons y rest ih =>
    simp only [put] at h
    split at h
    · rcases List.mem_cons.mp h with rfl | h <;> simp [*]
    · rcases List.mem_cons.mp h with rfl | h
      · simp
      · rcases ih h with h | h <;> simp [h]

/-- Putting a member keeps keys distinct. -/
theorem nodup_map_put (key : α → String) (x : α) (xs : List α) (h : (xs.map key).Nodup) :
    ((put key x xs).map key).Nodup := by
  induction xs with
  | nil => simp [put]
  | cons y rest ih =>
    obtain ⟨hy, hrest⟩ := List.nodup_cons.mp h
    simp only [put]
    split
    · next heq => simpa [heq] using h
    · next hne =>
      refine List.nodup_cons.mpr ⟨fun hmem => ?_, ih hrest⟩
      obtain ⟨z, hz, hkey⟩ := List.mem_map.mp hmem
      rcases mem_put hz with rfl | hz
      · exact hne hkey.symm
      · exact hy (List.mem_map.mpr ⟨z, hz, hkey⟩)

end FilterBar.Keyed
