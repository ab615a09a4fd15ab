import Mathlib.Data.List.Nodup
import Mathlib.Data.List.Lex
import FilterBar.Proofs.Utf8Validity
import FilterBar.Report.Tree

/-!
# Trees are scanned completely

The reports of a tree are all files with the name of a report, each at its path, however deep it
lies.  Names are bytes, and only a text among them names a report.  Paths are distinct where the
names of each directory are, so the order of the paths leaves one way to list the reports.  It does
not matter then in which order the directories list their entries.
-/

namespace FilterBar

namespace FileName

open Text

/-- The order of bytes as numbers. -/
abbrev byteOrder : LinearOrder UInt8 where
  le_refl := UInt8.le_refl
  le_trans _ _ _ := UInt8.le_trans
  le_antisymm _ _ := UInt8.le_antisymm
  le_total := UInt8.le_total
  lt_iff_le_not_ge a b := by rw [UInt8.not_le, and_iff_right_of_imp UInt8.le_of_lt]
  toDecidableLE := inferInstance
  toDecidableLT := inferInstance

instance : LinearOrder FileName :=
  letI := byteOrder
  LinearOrder.lift' bytes fun _ _ h => congrArg FileName.mk h

end FileName

namespace FileTree

open Text

/-- A tree holds a file with these bytes at a path. -/
inductive Holds : FileTree → Path → List UInt8 → Prop
  | file (bytes : List UInt8) : Holds (.file bytes) [] bytes
  | entry {entries : List (FileName × FileTree)} {name : FileName} {tree : FileTree} {path : Path}
      {bytes : List UInt8} (hmem : (name, tree) ∈ entries) (htree : Holds tree path bytes) :
      Holds (.node entries) (name :: path) bytes

variable {t t' : FileTree} {path : Path} {bytes : List UInt8}

/-! ## The files of a tree -/

mutual

theorem mem_filesAt (start : Path) : ∀ t : FileTree,
    (path, bytes) ∈ filesAt start t ↔ ∃ below, path = start ++ below ∧ t.Holds below bytes
  | file content => by
    rw [filesAt, List.mem_singleton, Prod.mk.injEq]
    constructor
    · rintro ⟨rfl, rfl⟩
      exact ⟨[], (List.append_nil path).symm, .file bytes⟩
    · rintro ⟨below, rfl, h⟩
      cases h
      exact ⟨List.append_nil start, rfl⟩
  | node entries => by
    rw [filesAt, mem_filesOfEntries start entries]
    constructor
    · rintro ⟨name, tree, below, hmem, rfl, htree⟩
      exact ⟨name :: below, rfl, .entry hmem htree⟩
    · rintro ⟨below, rfl, h⟩
      cases h with
      | entry hmem htree => exact ⟨_, _, _, hmem, rfl, htree⟩

theorem mem_filesOfEntries (start : Path) : ∀ entries : List (FileName × FileTree),
    (path, bytes) ∈ filesOfEntries start entries ↔
      ∃ name tree below, (name, tree) ∈ entries ∧ path = start ++ name :: below ∧
        tree.Holds below bytes
  | [] => by simp [filesOfEntries]
  | (name, tree) :: rest => by
    rw [filesOfEntries, List.mem_append, mem_filesAt (start ++ [name]) tree,
      mem_filesOfEntries start rest]
    constructor
    · rintro (⟨below, rfl, htree⟩ | ⟨name', tree', below, hmem, rfl, htree⟩)
      · exact ⟨name, tree, below, List.mem_cons_self, by simp, htree⟩
      · exact ⟨name', tree', below, List.mem_cons_of_mem _ hmem, rfl, htree⟩
    · rintro ⟨name', tree', below, hmem, rfl, htree⟩
      rcases List.mem_cons.mp hmem with heq | hmem
      · obtain ⟨rfl, rfl⟩ := Prod.mk.inj heq
        exact Or.inl ⟨below, by simp, htree⟩
      · exact Or.inr ⟨name', tree', below, hmem, rfl, htree⟩

end

theorem notAfter_iff (a b : Path) : notAfter a b = true ↔ ¬b < a := by
  induction a generalizing b with
  | nil => simp [notAfter]
  | cons name rest ih =>
    cases b with
    | nil => simp [notAfter]
    | cons other others =>
      rw [notAfter, List.cons_lt_cons_iff]
      rcases lt_trichotomy name other with hlt | rfl | hlt
      · simp [hlt, hlt.not_gt, hlt.ne']
      · simp [ih others]
      · simp [hlt, hlt.not_gt]

theorem notAfter_trans (a b c : Path) (hab : notAfter a b = true) (hbc : notAfter b c = true) :
    notAfter a c = true := by
  rw [notAfter_iff, not_lt] at *
  exact hab.trans hbc

theorem notAfter_total (a b : Path) : (notAfter a b || notAfter b a) = true := by
  rw [Bool.or_eq_true, notAfter_iff, notAfter_iff, not_lt, not_lt]
  exact le_total a b

end FileTree

end FilterBar
