import Mathlib.Tactic.Set
import FilterBar.Proofs.Utf8

/-!
# Bytes that are a text

The reader takes no other bytes for a character than those that the character is written with.  So
bytes are read as a text exactly if the text is written with these bytes.
-/

namespace FilterBar.Text.Utf8

variable {bytes : List UInt8} {text : List Char}

theorem mapM_id_eq_some_iff {l : List (Option Char)} : l.mapM id = some text ↔ l = text.map some := by
  induction l generalizing text with
  | nil => cases text <;> simp
  | cons piece rest ih =>
    rw [List.mapM_cons]
    constructor
    · intro h
      rw [Option.bind_eq_bind, Option.bind_eq_some_iff] at h
      obtain ⟨c, hc, h⟩ := h
      rw [Option.bind_eq_bind, Option.bind_eq_some_iff] at h
      obtain ⟨more, hmore, h⟩ := h
      rw [← Option.some.inj h, ih.mp hmore, List.map_cons, ← hc]
      rfl
    · intro h
      cases text with
      | nil => exact absurd h (by simp)
      | cons c more =>
        obtain ⟨rfl, hrest⟩ := List.cons_eq_cons.mp h
        rw [ih.mpr hrest]
        rfl

/-- Inside a character, the reader wants a byte from the range that it knows. -/
theorem exists_of_pieces_inside {owed low high value : Nat}
    (h : pieces (.inside owed low high value) bytes = text.map some) :
    ∃ b rest, bytes = b :: rest ∧ low ≤ b.toNat ∧ b.toNat ≤ high ∧
      (step (.inside owed low high value) b.toNat).2 ++
        pieces (step (.inside owed low high value) b.toNat).1 rest = text.map some := by
  cases bytes with
  | nil => cases text <;> simp [pieces] at h
  | cons b rest =>
    rw [pieces_cons] at h
    by_cases hrange : low ≤ b.toNat ∧ b.toNat ≤ high
    · exact ⟨b, rest, rfl, hrange.1, hrange.2, h⟩
    · rw [step, if_neg hrange] at h
      cases text <;> simp at h

theorem exists_of_pieces_continue {owed low high value : Nat}
    (h : pieces (.inside (owed + 1) low high value) bytes = text.map some) :
    ∃ b rest, bytes = b :: rest ∧ low ≤ b.toNat ∧ b.toNat ≤ high ∧
      pieces (.inside owed 0x80 0xBF (value * 0x40 + (b.toNat - 0x80))) rest = text.map some := by
  obtain ⟨b, rest, hbytes, hlow, hhigh, hrest⟩ := exists_of_pieces_inside h
  rw [step_continue hlow hhigh] at hrest
  exact ⟨b, rest, hbytes, hlow, hhigh, hrest⟩

theorem exists_of_pieces_finish {low high value : Nat}
    (h : pieces (.inside 0 low high value) bytes = text.map some) :
    ∃ b rest, bytes = b :: rest ∧ low ≤ b.toNat ∧ b.toNat ≤ high ∧
      some (Char.ofNat (value * 0x40 + (b.toNat - 0x80))) :: pieces .start rest = text.map some := by
  obtain ⟨b, rest, hbytes, hlow, hhigh, hrest⟩ := exists_of_pieces_inside h
  rw [step_finish hlow hhigh] at hrest
  exact ⟨b, rest, hbytes, hlow, hhigh, hrest⟩

/-! ## One character -/

theorem toNat_ofNat_of_valid {n : Nat} (h : n < 0xD800 ∨ 0xDFFF < n ∧ n < 0x110000) :
    (Char.ofNat n).toNat = n := by
  rw [Char.ofNat, dif_pos h]
  rfl

theorem encodeChar_one {a : UInt8} (ha : a.toNat < 0x80) : encodeChar (Char.ofNat a.toNat) = [a] := by
  rw [encodeChar, toNat_ofNat_of_valid (by omega), if_pos ha, UInt8.ofNat_toNat]

theorem encodeChar_two {a b : UInt8} (ha : 0xC2 ≤ a.toNat) (ha' : a.toNat < 0xE0)
    (hb : 0x80 ≤ b.toNat) (hb' : b.toNat ≤ 0xBF) :
    encodeChar (Char.ofNat ((a.toNat - 0xC0) * 0x40 + (b.toNat - 0x80))) = [a, b] := by
  have hhigh : 0xC0 + ((a.toNat - 0xC0) * 0x40 + (b.toNat - 0x80)) / 0x40 = a.toNat := by omega
  have hlow : 0x80 + ((a.toNat - 0xC0) * 0x40 + (b.toNat - 0x80)) % 0x40 = b.toNat := by omega
  rw [encodeChar, toNat_ofNat_of_valid (by omega), if_neg (by omega), if_pos (by omega), hhigh, hlow,
    UInt8.ofNat_toNat, UInt8.ofNat_toNat]

theorem encodeChar_three {a b d : UInt8} (ha : 0xE0 ≤ a.toNat) (ha' : a.toNat < 0xF0)
    (hb : (if a.toNat = 0xE0 then 0xA0 else 0x80) ≤ b.toNat)
    (hb' : b.toNat ≤ (if a.toNat = 0xED then 0x9F else 0xBF))
    (hd : 0x80 ≤ d.toNat) (hd' : d.toNat ≤ 0xBF) :
    encodeChar (Char.ofNat (((a.toNat - 0xE0) * 0x40 + (b.toNat - 0x80)) * 0x40 +
      (d.toNat - 0x80))) = [a, b, d] := by
  set n := ((a.toNat - 0xE0) * 0x40 + (b.toNat - 0x80)) * 0x40 + (d.toNat - 0x80) with hn
  have hrange : 0x800 ≤ n ∧ n < 0x10000 ∧ (n < 0xD800 ∨ 0xDFFF < n ∧ n < 0x110000) := by
    split at hb <;> split at hb' <;> omega
  have hb80 : 0x80 ≤ b.toNat ∧ b.toNat ≤ 0xBF := by
    split at hb <;> split at hb' <;> omega
  have hhigh : 0xE0 + n / 0x1000 = a.toNat := by omega
  have hmid : 0x80 + n / 0x40 % 0x40 = b.toNat := by omega
  have hlow : 0x80 + n % 0x40 = d.toNat := by omega
  rw [encodeChar, toNat_ofNat_of_valid hrange.2.2, if_neg (by omega), if_neg (by omega),
    if_pos hrange.2.1, hhigh, hmid, hlow, UInt8.ofNat_toNat, UInt8.ofNat_toNat, UInt8.ofNat_toNat]

theorem encodeChar_four {a b d e : UInt8} (ha : 0xF0 ≤ a.toNat) (ha' : a.toNat < 0xF5)
    (hb : (if a.toNat = 0xF0 then 0x90 else 0x80) ≤ b.toNat)
    (hb' : b.toNat ≤ (if a.toNat = 0xF4 then 0x8F else 0xBF))
    (hd : 0x80 ≤ d.toNat) (hd' : d.toNat ≤ 0xBF) (he : 0x80 ≤ e.toNat) (he' : e.toNat ≤ 0xBF) :
    encodeChar (Char.ofNat ((((a.toNat - 0xF0) * 0x40 + (b.toNat - 0x80)) * 0x40 +
      (d.toNat - 0x80)) * 0x40 + (e.toNat - 0x80))) = [a, b, d, e] := by
  set n := (((a.toNat - 0xF0) * 0x40 + (b.toNat - 0x80)) * 0x40 + (d.toNat - 0x80)) * 0x40 +
    (e.toNat - 0x80) with hn
  have hrange : 0x10000 ≤ n ∧ n < 0x110000 := by
    split at hb <;> split at hb' <;> omega
  have hb80 : 0x80 ≤ b.toNat ∧ b.toNat ≤ 0xBF := by
    split at hb <;> split at hb' <;> omega
  have hfirst : 0xF0 + n / 0x40000 = a.toNat := by omega
  have hsecond : 0x80 + n / 0x1000 % 0x40 = b.toNat := by omega
  have hthird : 0x80 + n / 0x40 % 0x40 = d.toNat := by omega
  have hfourth : 0x80 + n % 0x40 = e.toNat := by omega
  rw [encodeChar, toNat_ofNat_of_valid (by omega), if_neg (by omega), if_neg (by omega),
    if_neg (by omega), hfirst, hsecond, hthird, hfourth, UInt8.ofNat_toNat, UInt8.ofNat_toNat,
    UInt8.ofNat_toNat, UInt8.ofNat_toNat]

/-- If bytes hold characters only, they begin with the bytes of one. -/
theorem exists_encodeChar_of_pieces {a : UInt8} {rest : List UInt8}
    (h : pieces .start (a :: rest) = text.map some) :
    ∃ c later more, a :: rest = encodeChar c ++ later ∧ text = c :: more ∧
      pieces .start later = more.map some := by
  have hcons {c : Char} {later : List UInt8}
      (hc : some c :: pieces .start later = text.map some) :
      ∃ more, text = c :: more ∧ pieces .start later = more.map some := by
    cases text with
    | nil => simp at hc
    | cons d more =>
      obtain ⟨hd, hlater⟩ := List.cons_eq_cons.mp hc
      exact ⟨more, by rw [Option.some.inj hd], hlater⟩
  have hnone {later : List (Option Char)} (hc : none :: later = text.map some) : False := by
    cases text <;> simp at hc
  rw [pieces_cons, step] at h
  by_cases hone : a.toNat < 0x80
  · rw [first_one hone] at h
    obtain ⟨more, htext, hmore⟩ := hcons h
    exact ⟨_, rest, more, by rw [encodeChar_one hone]; rfl, htext, hmore⟩
  by_cases hbelow : a.toNat < 0xC2
  · rw [first, if_neg hone, if_pos hbelow] at h
    exact (hnone h).elim
  by_cases htwo : a.toNat < 0xE0
  · rw [first_two (by omega) htwo, List.nil_append] at h
    obtain ⟨b, rest, rfl, hb, hb', h⟩ := exists_of_pieces_finish h
    obtain ⟨more, htext, hmore⟩ := hcons h
    exact ⟨_, rest, more, by rw [encodeChar_two (by omega) htwo hb hb']; rfl, htext, hmore⟩
  by_cases hthree : a.toNat < 0xF0
  · rw [first_three (by omega) hthree, List.nil_append] at h
    obtain ⟨b, rest, rfl, hb, hb', h⟩ := exists_of_pieces_continue h
    obtain ⟨d, rest, rfl, hd, hd', h⟩ := exists_of_pieces_finish h
    obtain ⟨more, htext, hmore⟩ := hcons h
    refine ⟨_, rest, more, ?_, htext, hmore⟩
    rw [encodeChar_three (by omega) hthree hb hb' hd hd']
    rfl
  by_cases hfour : a.toNat < 0xF5
  · rw [first_four (by omega) hfour, List.nil_append] at h
    obtain ⟨b, rest, rfl, hb, hb', h⟩ := exists_of_pieces_continue h
    obtain ⟨d, rest, rfl, hd, hd', h⟩ := exists_of_pieces_continue h
    obtain ⟨e, rest, rfl, he, he', h⟩ := exists_of_pieces_finish h
    obtain ⟨more, htext, hmore⟩ := hcons h
    refine ⟨_, rest, more, ?_, htext, hmore⟩
    rw [encodeChar_four (by omega) hfour hb hb' hd hd' he he']
    rfl
  · have hfirst : first a.toNat = (.start, [none]) := by
      rw [first, if_neg hone, if_neg hbelow, if_neg htwo, if_neg (by omega), if_neg (by omega),
        if_neg hthree, if_neg (by omega), if_neg (by omega), if_neg (by omega)]
    rw [hfirst] at h
    exact (hnone h).elim

theorem encode_of_pieces (h : pieces .start bytes = text.map some) : encode text = bytes := by
  induction text generalizing bytes with
  | nil =>
    cases bytes with
    | nil => rfl
    | cons a rest =>
      obtain ⟨c, later, more, -, htext, -⟩ := exists_encodeChar_of_pieces h
      exact absurd htext (by simp)
  | cons c more ih =>
    cases bytes with
    | nil => simp [pieces] at h
    | cons a rest =>
      obtain ⟨d, later, more', hbytes, htext, hlater⟩ := exists_encodeChar_of_pieces h
      obtain ⟨rfl, rfl⟩ := List.cons_eq_cons.mp htext
      rw [hbytes, ← ih hlater]
      rfl

/-- Bytes are read as a text exactly if they are those of the text. -/
theorem decode?_eq_some_iff : decode? bytes = some text ↔ encode text = bytes := by
  constructor
  · intro h
    exact encode_of_pieces (mapM_id_eq_some_iff.mp h)
  · rintro rfl
    exact decode?_encode text

end FilterBar.Text.Utf8
