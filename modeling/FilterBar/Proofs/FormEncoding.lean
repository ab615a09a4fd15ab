import FilterBar.Proofs.Utf8
import FilterBar.Text.FormEncoding

/-!
# Form encoding is read back

Every text is read back from its written form.  A written form holds letters, digits and a few marks
only, so none of the characters that separate the parts of a query string occurs in it.
-/

namespace FilterBar.Text

namespace Utf8

theorem encodeChar_of_ascii {c : Char} (h : c.toNat < 0x80) :
    encodeChar c = [UInt8.ofNat c.toNat] := by
  rw [encodeChar, if_pos h]

/-- The bytes of a text are read back as that text, also by the reader that replaces what is
invalid. -/
theorem decodeLossy_encode (s : List Char) : decodeLossy (encode s) = s := by
  rw [decodeLossy, pieces_encode, List.map_map]
  exact List.map_id' s

end Utf8

/-- A byte is made up of its two hexadecimal digits. -/
theorem sixteen_mul_add (b : UInt8) :
    16 * UInt8.ofNat (b.toNat / 16) + UInt8.ofNat (b.toNat % 16) = b := by
  have hlt : b.toNat < 256 := b.toNat_lt
  have hsixteen : (16 : UInt8).toNat = 16 := rfl
  rw [← UInt8.toNat_inj, UInt8.toNat_add, UInt8.toNat_mul, hsixteen,
    Utf8.toNat_ofNat (by omega), Utf8.toNat_ofNat (by omega)]
  omega

namespace Form

/-! ## One byte -/

/-- The bytes of a written form, with spaces for the plus signs. -/
def spacedBytes (written : List Char) : List UInt8 :=
  (Utf8.encode written).map fun b => if b = 0x2B then 0x20 else b

theorem spacedBytes_append (written rest : List Char) :
    spacedBytes (written ++ rest) = spacedBytes written ++ spacedBytes rest := by
  simp [spacedBytes, Utf8.encode]

theorem spacedBytes_cons {c : Char} (hascii : c.toNat < 0x80) (hplus : c.toNat ≠ 0x2B)
    (rest : List Char) :
    spacedBytes (c :: rest) = UInt8.ofNat c.toNat :: spacedBytes rest := by
  have hbyte : UInt8.ofNat c.toNat ≠ 0x2B := by
    intro heq
    have hnat := congrArg UInt8.toNat heq
    rw [Utf8.toNat_ofNat (by omega)] at hnat
    exact hplus hnat
  rw [← List.singleton_append, spacedBytes_append, spacedBytes, Utf8.encode, List.flatMap_singleton,
    Utf8.encodeChar_of_ascii hascii, List.map_singleton, if_neg hbyte]
  rfl

theorem isPlain_iff {b : UInt8} : isPlain b = true ↔
    0x30 ≤ b.toNat ∧ b.toNat ≤ 0x39 ∨ 0x41 ≤ b.toNat ∧ b.toNat ≤ 0x5A ∨
      0x61 ≤ b.toNat ∧ b.toNat ≤ 0x7A ∨ b.toNat = 0x2A ∨ b.toNat = 0x2D ∨ b.toNat = 0x2E ∨
        b.toNat = 0x5F := by
  simp only [isPlain, Bool.or_eq_true, Bool.and_eq_true, decide_eq_true_eq, beq_iff_eq,
    UInt8.le_iff_toNat_le, ← UInt8.toNat_inj, UInt8.reduceToNat, or_assoc]

theorem toNat_char {b : UInt8} (h : b.toNat < 0x80) : (Char.ofNat b.toNat).toNat = b.toNat := by
  have hvalid : b.toNat.isValidChar := Or.inl (by omega)
  rw [Char.ofNat, dif_pos hvalid]
  rfl

/-- A digit of an escape is read as the number that it stands for. -/
theorem hexDigit_spec : ∀ n < 16, (hexDigit n).toNat < 0x80 ∧ (hexDigit n).toNat ≠ 0x2B ∧
    hexValue? (UInt8.ofNat (hexDigit n).toNat) = some (UInt8.ofNat n) := by
  decide

/-- The written form of a byte is read as that byte, whatever follows. -/
theorem unescapeBytes_encodeByte (b : UInt8) (rest : List UInt8) :
    unescapeBytes (spacedBytes (encodeByte b) ++ rest) = b :: unescapeBytes rest := by
  unfold encodeByte
  by_cases hspace : b = 0x20
  · subst hspace
    have hbytes : spacedBytes ['+'] = [0x20] := rfl
    rw [if_pos rfl, hbytes]
    exact unescapeBytes_cons_of_ne (by decide) rest
  by_cases hplain : isPlain b = true
  · have hrange := isPlain_iff.mp hplain
    have hchar := toNat_char (show b.toNat < 0x80 by omega)
    have hpercent : b ≠ 0x25 := by
      rintro rfl
      contradiction
    rw [if_neg hspace, if_pos hplain, spacedBytes_cons (by omega) (by omega), hchar,
      UInt8.ofNat_toNat]
    exact unescapeBytes_cons_of_ne hpercent rest
  · have hlt : b.toNat < 256 := b.toNat_lt
    obtain ⟨hascii, hplus, hhigh⟩ := hexDigit_spec (b.toNat / 16) (by omega)
    obtain ⟨hascii', hplus', hlow⟩ := hexDigit_spec (b.toNat % 16) (by omega)
    have hbytes : spacedBytes ['%', hexDigit (b.toNat / 16), hexDigit (b.toNat % 16)] =
        [0x25, UInt8.ofNat (hexDigit (b.toNat / 16)).toNat,
          UInt8.ofNat (hexDigit (b.toNat % 16)).toNat] := by
      rw [spacedBytes_cons (by decide) (by decide), spacedBytes_cons hascii hplus,
        spacedBytes_cons hascii' hplus']
      rfl
    rw [if_neg hspace, if_neg hplain, hbytes, List.cons_append, List.cons_append,
      List.singleton_append, unescapeBytes, if_pos rfl, escapedByte?, hhigh, hlow]
    simp only [sixteen_mul_add]

/-! ## A text -/

theorem unescapeBytes_flatMap_encodeByte (bytes : List UInt8) :
    unescapeBytes (spacedBytes (bytes.flatMap encodeByte)) = bytes := by
  induction bytes with
  | nil => rfl
  | cons b rest ih =>
    rw [List.flatMap_cons, spacedBytes_append, unescapeBytes_encodeByte, ih]

/-- What is written for a text is read as that text. -/
theorem decode_encode (s : String) : decode (encode s) = s := by
  have hbytes : unescapeBytes (spacedBytes (encode s)) = Utf8.encode s.toList :=
    unescapeBytes_flatMap_encodeByte _
  rw [decode, ← spacedBytes, hbytes, Utf8.decodeLossy_encode, String.ofList_toList]

/-- The characters that separate the parts of a query string. -/
def isSeparator (c : Char) : Bool :=
  c == '&' || c == '=' || c == '?'

theorem isSeparator_hexDigit : ∀ n < 16, isSeparator (hexDigit n) = false := by
  decide

theorem isSeparator_of_isPlain {b : UInt8} (h : isPlain b = true) :
    isSeparator (Char.ofNat b.toNat) = false := by
  have hrange := isPlain_iff.mp h
  have hchar := toNat_char (show b.toNat < 0x80 by omega)
  have hne {c : Char} (hc : c.toNat ≠ b.toNat) : (Char.ofNat b.toNat == c) = false := by
    rw [beq_eq_false_iff_ne]
    rintro rfl
    exact hc hchar
  have hamp : ('&').toNat = 0x26 := rfl
  have heq : ('=').toNat = 0x3D := rfl
  have hquestion : ('?').toNat = 0x3F := rfl
  rw [isSeparator, hne (by omega), hne (by omega), hne (by omega)]
  rfl

/-- No separator occurs in a written form. -/
theorem isSeparator_of_mem_encode {s : String} {c : Char} (h : c ∈ encode s) :
    isSeparator c = false := by
  obtain ⟨b, -, hc⟩ := List.mem_flatMap.mp h
  have hlt : b.toNat < 256 := b.toNat_lt
  unfold encodeByte at hc
  split at hc
  · rw [List.mem_singleton.mp hc]
    rfl
  split at hc
  next hplain =>
    rw [List.mem_singleton.mp hc]
    exact isSeparator_of_isPlain hplain
  next =>
    simp only [List.mem_cons, List.not_mem_nil, or_false] at hc
    rcases hc with rfl | rfl | rfl
    · rfl
    · exact isSeparator_hexDigit _ (by omega)
    · exact isSeparator_hexDigit _ (by omega)

end Form

end FilterBar.Text
