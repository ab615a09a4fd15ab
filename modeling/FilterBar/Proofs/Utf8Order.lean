import FilterBar.Proofs.Utf8

/-!
# The order of bytes

Of two different characters the one with the lesser code point has the lesser bytes, and neither
begins the other.  So texts are in the same order as the bytes that spell them.
-/

namespace FilterBar.Text.Utf8

variable {m n : Nat} {s t : List UInt8}

/-- The first byte of the character with a code point. -/
def leadByte (n : Nat) : Nat :=
  if n < 0x80 then n
  else if n < 0x800 then 0xC0 + n / 0x40
  else if n < 0x10000 then 0xE0 + n / 0x1000
  else 0xF0 + n / 0x40000

/-- The bytes behind the first one of the character with a code point. -/
def followingBytes (n : Nat) : List UInt8 :=
  if n < 0x80 then []
  else if n < 0x800 then [UInt8.ofNat (0x80 + n % 0x40)]
  else if n < 0x10000 then [UInt8.ofNat (0x80 + n / 0x40 % 0x40), UInt8.ofNat (0x80 + n % 0x40)]
  else
    [UInt8.ofNat (0x80 + n / 0x1000 % 0x40), UInt8.ofNat (0x80 + n / 0x40 % 0x40),
      UInt8.ofNat (0x80 + n % 0x40)]

theorem encodeChar_eq_cons (c : Char) :
    encodeChar c = UInt8.ofNat (leadByte c.toNat) :: followingBytes c.toNat := by
  simp only [encodeChar, leadByte, followingBytes]
  split
  · rfl
  · split
    · rfl
    · split
      · rfl
      · rfl

theorem toNat_lt (c : Char) : c.toNat < 0x110000 := by
  have hvalid : c.toNat < 0xD800 ∨ 0xDFFF < c.toNat ∧ c.toNat < 0x110000 := c.valid
  omega

theorem ofNat_cons_lt_cons (hn : n < 256) (h : m < n ∨ m = n ∧ s < t) :
    UInt8.ofNat m :: s < UInt8.ofNat n :: t := by
  rw [List.cons_lt_cons_iff, UInt8.lt_iff_toNat_lt]
  rcases h with hlt | ⟨rfl, hst⟩
  · rw [toNat_ofNat hn, toNat_ofNat (Nat.lt_trans hlt hn)]
    exact Or.inl hlt
  · exact Or.inr ⟨rfl, hst⟩

theorem append_lt_append_iff (bytes s t : List UInt8) : bytes ++ s < bytes ++ t ↔ s < t := by
  induction bytes with
  | nil => rfl
  | cons b rest ih =>
    rw [List.cons_append, List.cons_append, List.cons_lt_cons_iff, ih]
    simp only [UInt8.lt_irrefl, false_or, true_and]

/-! ## The bytes behind the first -/

theorem lastByte_lt (h : m % 0x40 < n % 0x40) :
    UInt8.ofNat (0x80 + m % 0x40) :: s < UInt8.ofNat (0x80 + n % 0x40) :: t :=
  ofNat_cons_lt_cons (by omega) (Or.inl (by omega))

theorem lastTwoBytes_lt (h : m % 0x1000 < n % 0x1000) :
    UInt8.ofNat (0x80 + m / 0x40 % 0x40) :: UInt8.ofNat (0x80 + m % 0x40) :: s <
      UInt8.ofNat (0x80 + n / 0x40 % 0x40) :: UInt8.ofNat (0x80 + n % 0x40) :: t := by
  have hdigits : m / 0x40 % 0x40 < n / 0x40 % 0x40 ∨
      m / 0x40 % 0x40 = n / 0x40 % 0x40 ∧ m % 0x40 < n % 0x40 := by
    omega
  apply ofNat_cons_lt_cons (by omega)
  rcases hdigits with hlt | ⟨heq, hlt⟩
  · exact Or.inl (Nat.add_lt_add_left hlt 0x80)
  · exact Or.inr ⟨congrArg (0x80 + ·) heq, lastByte_lt hlt⟩

theorem lastThreeBytes_lt (h : m % 0x40000 < n % 0x40000) :
    UInt8.ofNat (0x80 + m / 0x1000 % 0x40) :: UInt8.ofNat (0x80 + m / 0x40 % 0x40) ::
        UInt8.ofNat (0x80 + m % 0x40) :: s <
      UInt8.ofNat (0x80 + n / 0x1000 % 0x40) :: UInt8.ofNat (0x80 + n / 0x40 % 0x40) ::
        UInt8.ofNat (0x80 + n % 0x40) :: t := by
  have hdigits : m / 0x1000 % 0x40 < n / 0x1000 % 0x40 ∨
      m / 0x1000 % 0x40 = n / 0x1000 % 0x40 ∧ m % 0x1000 < n % 0x1000 := by
    omega
  apply ofNat_cons_lt_cons (by omega)
  rcases hdigits with hlt | ⟨heq, hlt⟩
  · exact Or.inl (Nat.add_lt_add_left hlt 0x80)
  · exact Or.inr ⟨congrArg (0x80 + ·) heq, lastTwoBytes_lt hlt⟩

/-! ## Characters -/

theorem leadByte_lt (hn : n < 0x110000) : leadByte n < 256 := by
  unfold leadByte
  repeat' split
  all_goals omega

/-- The first of several bytes is none of the ASCII range. -/
theorem le_leadByte (h : 0x80 ≤ n) : 0xC0 ≤ leadByte n := by
  unfold leadByte
  repeat' split
  all_goals omega

theorem leadByte_mono (h : m < n) (hn : n < 0x110000) : leadByte m ≤ leadByte n := by
  unfold leadByte
  repeat' split
  all_goals omega

/-- The first byte tells how many bytes follow. -/
theorem length_class_of_leadByte_eq (h : leadByte m = leadByte n) (hm : m < 0x110000)
    (hn : n < 0x110000) :
    (m < 0x80 ↔ n < 0x80) ∧ (m < 0x800 ↔ n < 0x800) ∧ (m < 0x10000 ↔ n < 0x10000) := by
  unfold leadByte at h
  repeat' split at h
  all_goals omega

/-- Characters with the same first byte are told apart, in their order, by the bytes behind it. -/
theorem followingBytes_lt (h : m < n) (hn : n < 0x110000) (hlead : leadByte m = leadByte n) :
    followingBytes m ++ s < followingBytes n ++ t := by
  obtain ⟨hone, htwo, hthree⟩ := length_class_of_leadByte_eq hlead (Nat.lt_trans h hn) hn
  unfold leadByte at hlead
  unfold followingBytes
  simp only [hone, htwo, hthree] at hlead ⊢
  by_cases h1 : n < 0x80
  · simp only [h1, if_true] at hlead
    omega
  by_cases h2 : n < 0x800
  · simp only [h1, h2, if_true, if_false] at hlead ⊢
    exact lastByte_lt (by omega)
  by_cases h3 : n < 0x10000
  · simp only [h1, h2, h3, if_true, if_false] at hlead ⊢
    exact lastTwoBytes_lt (by omega)
  · simp only [h1, h2, h3, if_false] at hlead ⊢
    exact lastThreeBytes_lt (by omega)

/-- The bytes of a character come before those of any greater one, whatever follows them. -/
theorem encodeChar_append_lt {c d : Char} (h : c < d) (s t : List UInt8) :
    encodeChar c ++ s < encodeChar d ++ t := by
  have hlt : c.toNat < d.toNat := h
  rw [encodeChar_eq_cons, encodeChar_eq_cons, List.cons_append, List.cons_append]
  apply ofNat_cons_lt_cons (leadByte_lt (toNat_lt d))
  rcases Nat.lt_or_eq_of_le (leadByte_mono hlt (toNat_lt d)) with hlead | hlead
  · exact Or.inl hlead
  · exact Or.inr ⟨hlead, followingBytes_lt hlt (toNat_lt d) hlead⟩

theorem encode_cons (c : Char) (u : List Char) : encode (c :: u) = encodeChar c ++ encode u :=
  List.flatMap_cons

/-- Texts are in the order of the bytes that spell them. -/
theorem encode_lt_encode_iff {u v : List Char} : encode u < encode v ↔ u < v := by
  induction u generalizing v with
  | nil =>
    cases v with
    | nil => simp [encode]
    | cons d v =>
      rw [encode_cons, encodeChar_eq_cons]
      simp [encode]
  | cons c u ih =>
    cases v with
    | nil => simp [encode]
    | cons d v =>
      rw [encode_cons, encode_cons, List.cons_lt_cons_iff]
      rcases Nat.lt_trichotomy c.toNat d.toNat with hlt | heq | hgt
      · exact iff_of_true (encodeChar_append_lt hlt _ _) (Or.inl hlt)
      · obtain rfl : c = d := Char.ext (UInt32.toNat_inj.mp heq)
        rw [append_lt_append_iff, ih]
        constructor
        · exact fun huv => Or.inr ⟨rfl, huv⟩
        · rintro (hcc | ⟨-, huv⟩)
          · exact absurd hcc (Char.lt_irrefl c)
          · exact huv
      · have hbytes := encodeChar_append_lt hgt (encode v) (encode u)
        refine iff_of_false (List.lt_asymm hbytes) ?_
        rintro (hcd | ⟨rfl, -⟩)
        · exact Char.lt_asymm hcd hgt
        · exact Nat.lt_irrefl _ hgt

end FilterBar.Text.Utf8
