import Mathlib.Tactic.FinCases
import FilterBar.Report.Markup

/-!
# Entities

A text is written with entities in place of the five characters that markup uses.  Replacing one
entity after the other gives the text back, also if it held entities itself.
-/

namespace FilterBar.Markup

open Text

/-- The characters that are written as entities. -/
def special : List Char :=
  ['<', '>', '"', '\x27', '&']

def escapeChar (c : Char) : List Char :=
  if c = '<' then "&lt;".toList
  else if c = '>' then "&gt;".toList
  else if c = '"' then "&quot;".toList
  else if c = '\x27' then "&apos;".toList
  else if c = '&' then "&amp;".toList
  else [c]

/-- A text with entities for the characters that markup uses. -/
def escape (s : List Char) : List Char :=
  s.flatMap escapeChar

theorem escapeChar_of_notMem {c : Char} (h : c ∉ special) : escapeChar c = [c] := by
  simp only [special, List.mem_cons, List.not_mem_nil, or_false, not_or] at h
  obtain ⟨h₁, h₂, h₃, h₄, h₅⟩ := h
  rw [escapeChar, if_neg h₁, if_neg h₂, if_neg h₃, if_neg h₄, if_neg h₅]

/-- What is written for a character once some characters are no longer entities. -/
def escapeUnless (done : List Char) (c : Char) : List Char :=
  if c ∈ done then [c] else escapeChar c

/-- Replacing an entity in a text turns what is written for a character into what is written for it
later, whatever follows. -/
def Replaces (entity : List Char) (d : Char) (done done' : List Char) (c : Char) : Prop :=
  ∀ rest, replaceFrom entity [d] 0 (escapeUnless done c ++ rest) =
    escapeUnless done' c ++ replaceFrom entity [d] 0 rest

theorem replaceAll_entity {entity : List Char} {d : Char} (done done' : List Char)
    (h : ∀ c ∈ special, Replaces ('&' :: entity) d done done' c) (s : List Char) :
    replaceAll ('&' :: entity) [d] (s.flatMap (escapeUnless done)) =
      s.flatMap (escapeUnless done') := by
  rw [replaceAll]
  induction s with
  | nil => rfl
  | cons c rest ih =>
    rw [List.flatMap_cons, List.flatMap_cons]
    by_cases hc : c ∈ special
    · rw [h c hc, ih]
    · have hkept (done : List Char) : escapeUnless done c = [c] := by
        rw [escapeUnless, escapeChar_of_notMem hc, ite_self]
      have hne : c ≠ '&' := by
        rintro rfl
        exact hc (by decide)
      rw [hkept, hkept, List.singleton_append, List.singleton_append, replaceFrom, if_neg, ih]
      simp [hne.symm]

/-- The ampersand is replaced last, so what a text held as an entity before it was escaped stays
one. -/
theorem unescape_escape (s : List Char) : unescape (escape s) = s := by
  have hlt : replaceAll "&lt;".toList ['<'] (escape s) = s.flatMap (escapeUnless ['<']) :=
    replaceAll_entity [] ['<'] (by intro c hc; fin_cases hc <;> exact fun _ => rfl) s
  have hgt : replaceAll "&gt;".toList ['>'] (s.flatMap (escapeUnless ['<'])) =
      s.flatMap (escapeUnless ['<', '>']) :=
    replaceAll_entity _ _ (by intro c hc; fin_cases hc <;> exact fun _ => rfl) s
  have hquot : replaceAll "&quot;".toList ['"'] (s.flatMap (escapeUnless ['<', '>'])) =
      s.flatMap (escapeUnless ['<', '>', '"']) :=
    replaceAll_entity _ _ (by intro c hc; fin_cases hc <;> exact fun _ => rfl) s
  have hapos : replaceAll "&apos;".toList ['\x27'] (s.flatMap (escapeUnless ['<', '>', '"'])) =
      s.flatMap (escapeUnless ['<', '>', '"', '\x27']) :=
    replaceAll_entity _ _ (by intro c hc; fin_cases hc <;> exact fun _ => rfl) s
  have hamp : replaceAll "&amp;".toList ['&'] (s.flatMap (escapeUnless ['<', '>', '"', '\x27'])) =
      s.flatMap (escapeUnless special) :=
    replaceAll_entity _ _ (by intro c hc; fin_cases hc <;> exact fun _ => rfl) s
  have hdone : escapeUnless special = fun c => [c] := by
    funext c
    by_cases hc : c ∈ special
    · rw [escapeUnless, if_pos hc]
    · rw [escapeUnless, if_neg hc, escapeChar_of_notMem hc]
  show replaceAll "&amp;".toList ['&'] (replaceAll "&apos;".toList ['\x27']
    (replaceAll "&quot;".toList ['"'] (replaceAll "&gt;".toList ['>']
      (replaceAll "&lt;".toList ['<'] (escape s))))) = s
  rw [hlt, hgt, hquot, hapos, hamp, hdone, List.flatMap_singleton']

/-- Of the characters that markup uses, a written text holds ampersands only. -/
theorem notMem_escape {c : Char} (h : c ∈ special) (hamp : c ≠ '&') (s : List Char) :
    c ∉ escape s := by
  rw [escape, List.mem_flatMap]
  rintro ⟨d, -, hd⟩
  by_cases hspecial : d ∈ special
  · have hentity : (escapeChar d).filter (· ∈ special) = ['&'] := by
      fin_cases hspecial <;> rfl
    have hc : c ∈ (escapeChar d).filter (· ∈ special) :=
      List.mem_filter.mpr ⟨hd, decide_eq_true h⟩
    rw [hentity] at hc
    exact hamp (List.mem_singleton.mp hc)
  · rw [escapeChar_of_notMem hspecial, List.mem_singleton] at hd
    exact hspecial (hd ▸ h)

end FilterBar.Markup
