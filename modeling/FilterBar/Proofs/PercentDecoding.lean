import Mathlib.Data.List.Forall2
import Mathlib.Tactic.Choose
import FilterBar.Proofs.FormEncoding
import FilterBar.Proofs.Utf8Order
import FilterBar.Proofs.Utf8Validity

/-!
# Percent decoding

A text stands for bytes: an escape for the byte that its digits give, every other character for its
own bytes.  Decoding spells these bytes as a text, and leaves the given text alone if they spell
none.  So whatever characters are escaped, decoding gives back the text, as long as the percent
signs are among them, and a text without escapes is its own decoding.
-/

namespace FilterBar.Text

namespace Utf8

/-- The bytes of a character are those of the standard library. -/
theorem encodeChar_eq (c : Char) : encodeChar c = String.utf8EncodeChar c := by
  have hlt : c.toNat < 0x110000 := toNat_lt c
  have hval : c.val.toNat = c.toNat := rfl
  have hlast : 0x80 + c.toNat % 0x40 = c.toNat % 64 + 128 := Nat.add_comm _ _
  have hsecond : 0x80 + c.toNat / 0x40 % 0x40 = c.toNat / 64 % 64 + 128 := Nat.add_comm _ _
  have hthird : 0x80 + c.toNat / 0x1000 % 0x40 = c.toNat / 4096 % 64 + 128 := Nat.add_comm _ _
  simp only [encodeChar, String.utf8EncodeChar, hval, hlast, hsecond, hthird]
  by_cases hone : c.toNat < 0x80
  · rw [if_pos hone, if_pos (Nat.le_of_lt_succ hone)]
  by_cases htwo : c.toNat < 0x800
  · have hfirst : 0xC0 + c.toNat / 0x40 = c.toNat / 64 % 32 + 192 := by omega
    rw [if_neg hone, if_pos htwo, if_neg (by omega), if_pos (by omega), hfirst]
  by_cases hthree : c.toNat < 0x10000
  · have hfirst : 0xE0 + c.toNat / 0x1000 = c.toNat / 4096 % 16 + 224 := by omega
    rw [if_neg hone, if_neg htwo, if_pos hthree, if_neg (by omega), if_neg (by omega),
      if_pos (by omega), hfirst]
  · have hfirst : 0xF0 + c.toNat / 0x40000 = c.toNat / 262144 % 8 + 240 := by omega
    rw [if_neg hone, if_neg htwo, if_neg hthree, if_neg (by omega), if_neg (by omega),
      if_neg (by omega), hfirst]

theorem encode_eq (s : List Char) : encode s = s.flatMap String.utf8EncodeChar := by
  rw [encode, funext encodeChar_eq]

theorem isValidUTF8_iff {bytes : List UInt8} :
    bytes.toByteArray.IsValidUTF8 ↔ ∃ text, encode text = bytes := by
  constructor
  · rintro ⟨text, htext⟩
    exact ⟨text, by rw [encode_eq, ← List.toByteArray_inj, htext]; rfl⟩
  · rintro ⟨text, rfl⟩
    exact ⟨text, by rw [encode_eq]; rfl⟩

/-- A byte of the ASCII range is that of a character. -/
theorem exists_of_encode_eq_cons {s : List Char} {b : UInt8} {more : List UInt8}
    (h : encode s = b :: more) (hb : b.toNat < 0x80) :
    ∃ rest, s = Char.ofNat b.toNat :: rest ∧ encode rest = more := by
  cases s with
  | nil => contradiction
  | cons c rest =>
    rw [encode, List.flatMap_cons] at h
    by_cases hascii : c.toNat < 0x80
    · rw [encodeChar_of_ascii hascii, List.singleton_append] at h
      obtain ⟨rfl, hmore⟩ := List.cons_eq_cons.mp h
      refine ⟨rest, ?_, hmore⟩
      rw [toNat_ofNat (by omega), Char.ofNat_toNat]
    · have hlead : 0xC0 ≤ leadByte c.toNat := le_leadByte (Nat.le_of_not_lt hascii)
      rw [encodeChar_eq_cons, List.cons_append] at h
      obtain ⟨rfl, -⟩ := List.cons_eq_cons.mp h
      rw [toNat_ofNat (leadByte_lt (toNat_lt c))] at hb
      omega

end Utf8

/-! ## Digits and escapes -/

/-- A hexadecimal digit of either case and the number that it stands for. -/
def IsHexDigit (d : Char) (n : Nat) : Prop :=
  n < 16 ∧ (d = n.digitChar ∨ d = n.digitChar.toUpper)

instance (d : Char) (n : Nat) : Decidable (IsHexDigit d n) :=
  inferInstanceAs (Decidable (_ ∧ _))

/-- A percent sign and the two digits of a byte. -/
def IsEscape (b : UInt8) (written : List Char) : Prop :=
  ∃ high low, written = ['%', high, low] ∧
    IsHexDigit high (b.toNat / 16) ∧ IsHexDigit low (b.toNat % 16)

theorem hexValue?_digitChar : ∀ n < 16, n.digitChar.toNat < 0x80 ∧
    hexValue? (UInt8.ofNat n.digitChar.toNat) = some (UInt8.ofNat n) := by
  decide

theorem hexValue?_toUpper_digitChar : ∀ n < 16, n.digitChar.toUpper.toNat < 0x80 ∧
    hexValue? (UInt8.ofNat n.digitChar.toUpper.toNat) = some (UInt8.ofNat n) := by
  decide

theorem all_isHexDigit_hexValue? : ∀ n < 256, (hexValue? (UInt8.ofNat n)).all fun v =>
    n < 0x80 ∧ IsHexDigit (Char.ofNat n) v.toNat := by
  decide +kernel

variable {s written : List Char} {bytes : List UInt8} {b : UInt8} {d : Char} {n : Nat}

theorem encode_cons_of_ascii (h : d.toNat < 0x80) (s : List Char) :
    Utf8.encode (d :: s) = UInt8.ofNat d.toNat :: Utf8.encode s := by
  rw [Utf8.encode, List.flatMap_cons, Utf8.encodeChar_of_ascii h]
  rfl

theorem encode_percent_cons (s : List Char) : Utf8.encode ('%' :: s) = 0x25 :: Utf8.encode s :=
  encode_cons_of_ascii (by decide) s

theorem hexValue?_of_isHexDigit (h : IsHexDigit d n) :
    d.toNat < 0x80 ∧ hexValue? (UInt8.ofNat d.toNat) = some (UInt8.ofNat n) := by
  obtain ⟨hn, rfl | rfl⟩ := h
  · exact hexValue?_digitChar n hn
  · exact hexValue?_toUpper_digitChar n hn

theorem isHexDigit_of_hexValue? {v : UInt8} (h : hexValue? b = some v) :
    b.toNat < 0x80 ∧ IsHexDigit (Char.ofNat b.toNat) v.toNat := by
  have hall := all_isHexDigit_hexValue? b.toNat b.toNat_lt
  rw [UInt8.ofNat_toNat, h, Option.all_some] at hall
  exact of_decide_eq_true hall

/-- The escape of a byte is read as that byte, whatever follows. -/
theorem unescapeBytes_escape (h : IsEscape b written) (s : List Char) :
    unescapeBytes (Utf8.encode (written ++ s)) = b :: unescapeBytes (Utf8.encode s) := by
  obtain ⟨high, low, rfl, hhigh, hlow⟩ := h
  obtain ⟨hhighAscii, hhighValue⟩ := hexValue?_of_isHexDigit hhigh
  obtain ⟨hlowAscii, hlowValue⟩ := hexValue?_of_isHexDigit hlow
  rw [List.cons_append, List.cons_append, List.cons_append, List.nil_append, encode_percent_cons,
    encode_cons_of_ascii hhighAscii, encode_cons_of_ascii hlowAscii, unescapeBytes, if_pos rfl,
    escapedByte?, hhighValue, hlowValue]
  simp only [sixteen_mul_add]

/-- Bytes that are read as an escape are those of one. -/
theorem isEscape_of_escapedByte? {high low : UInt8} (h : escapedByte? high low = some b) :
    high.toNat < 0x80 ∧ low.toNat < 0x80 ∧
      IsEscape b ['%', Char.ofNat high.toNat, Char.ofNat low.toNat] := by
  unfold escapedByte? at h
  split at h
  next hv lv hhigh hlow =>
    obtain rfl := Option.some.inj h
    obtain ⟨hhighAscii, hhighDigit⟩ := isHexDigit_of_hexValue? hhigh
    obtain ⟨hlowAscii, hlowDigit⟩ := isHexDigit_of_hexValue? hlow
    have hhighLt : hv.toNat < 16 := hhighDigit.1
    have hlowLt : lv.toNat < 16 := hlowDigit.1
    have hsixteen : (16 : UInt8).toNat = 16 := rfl
    have hbyte : (16 * hv + lv).toNat = 16 * hv.toNat + lv.toNat := by
      rw [UInt8.toNat_add, UInt8.toNat_mul, hsixteen]
      omega
    have hdiv : (16 * hv + lv).toNat / 16 = hv.toNat := by omega
    have hmod : (16 * hv + lv).toNat % 16 = lv.toNat := by omega
    refine ⟨hhighAscii, hlowAscii, _, _, rfl, ?_, ?_⟩
    · rwa [hdiv]
    · rwa [hmod]
  next => contradiction

/-- A character that begins no escape is kept. -/
theorem unescapeBytes_literal {c : Char}
    (h : ∀ b written, IsEscape b written → ¬written <+: c :: s) :
    unescapeBytes (Utf8.encode (c :: s)) = Utf8.encodeChar c ++ unescapeBytes (Utf8.encode s) := by
  by_cases hc : c = '%'
  · subst hc
    rw [encode_percent_cons]
    cases hs : Utf8.encode s with
    | nil => rfl
    | cons high more =>
      cases more with
      | nil => rfl
      | cons low more =>
        have hnone : escapedByte? high low = none := by
          rw [Option.eq_none_iff_forall_ne_some]
          intro b hb
          obtain ⟨hhigh, hlow, hescape⟩ := isEscape_of_escapedByte? hb
          obtain ⟨rest, rfl, hrest⟩ := Utf8.exists_of_encode_eq_cons hs hhigh
          obtain ⟨rest, rfl, -⟩ := Utf8.exists_of_encode_eq_cons hrest hlow
          exact h b _ hescape ⟨rest, rfl⟩
        rw [unescapeBytes, if_pos rfl, hnone]
        rfl
  · rw [Utf8.encode, List.flatMap_cons, ← Utf8.encode,
      unescapeBytes_append_of_notMem (Utf8.percent_notMem_encodeChar hc)]

/-! ## The bytes that a text stands for -/

/-- A text stands for bytes: an escape for the byte of its digits, and a character that begins no
escape for its own bytes. -/
inductive StandsFor : List Char → List UInt8 → Prop
  | nil : StandsFor [] []
  | escape {b : UInt8} {written s : List Char} {bytes : List UInt8} (hescape : IsEscape b written)
      (hrest : StandsFor s bytes) : StandsFor (written ++ s) (b :: bytes)
  | literal {c : Char} {s : List Char} {bytes : List UInt8}
      (hliteral : ∀ b written, IsEscape b written → ¬written <+: c :: s)
      (hrest : StandsFor s bytes) : StandsFor (c :: s) (String.utf8EncodeChar c ++ bytes)

theorem StandsFor.unescapeBytes_eq (h : StandsFor s bytes) :
    unescapeBytes (Utf8.encode s) = bytes := by
  induction h with
  | nil => rfl
  | escape hescape _ ih => rw [unescapeBytes_escape hescape, ih]
  | literal hliteral _ ih => rw [unescapeBytes_literal hliteral, ih, Utf8.encodeChar_eq]

theorem exists_standsFor (s : List Char) : ∃ bytes, StandsFor s bytes := by
  -- an escape takes three characters at once, so the induction is on the length
  induction hlength : s.length using Nat.strongRecOn generalizing s with
  | ind n ih =>
    cases s with
    | nil => exact ⟨[], StandsFor.nil⟩
    | cons c rest =>
      rw [List.length_cons] at hlength
      by_cases hescape : ∃ b written, IsEscape b written ∧ written <+: c :: rest
      · obtain ⟨b, written, hescape, more, hmore⟩ := hescape
        have hshorter : more.length < n := by
          obtain ⟨high, low, rfl, -⟩ := hescape
          have hlengths := congrArg List.length hmore
          simp only [List.length_append, List.length_cons, List.length_nil] at hlengths
          omega
        obtain ⟨bytes, hbytes⟩ := ih more.length hshorter more rfl
        rw [← hmore]
        exact ⟨b :: bytes, StandsFor.escape hescape hbytes⟩
      · obtain ⟨bytes, hbytes⟩ := ih rest.length (by omega) rest rfl
        refine ⟨String.utf8EncodeChar c ++ bytes, StandsFor.literal ?_ hbytes⟩
        intro b written hb hprefix
        exact hescape ⟨b, written, hb, hprefix⟩

/-- Replacing the escapes of a text gives the bytes that it stands for. -/
theorem standsFor_iff : StandsFor s bytes ↔ unescapeBytes (Utf8.encode s) = bytes := by
  constructor
  · exact StandsFor.unescapeBytes_eq
  · rintro rfl
    obtain ⟨bytes, hbytes⟩ := exists_standsFor s
    rwa [hbytes.unescapeBytes_eq]

/-- A text is decoded to the text that its bytes spell. -/
theorem decodeComponent_of_standsFor {s text : String}
    (h : StandsFor s.toList (text.toList.flatMap String.utf8EncodeChar)) :
    decodeComponent s = text := by
  rw [decodeComponent, standsFor_iff.mp h, ← Utf8.encode_eq, Utf8.decode?_encode]
  exact String.ofList_toList

/-- A text that stands for bytes that spell none is returned as it is. -/
theorem decodeComponent_of_not_isValidUTF8 {s : String} (h : StandsFor s.toList bytes)
    (hinvalid : ¬bytes.toByteArray.IsValidUTF8) : decodeComponent s = s := by
  have hnone : Utf8.decode? bytes = none := by
    rw [Option.eq_none_iff_forall_ne_some]
    intro text htext
    exact hinvalid (Utf8.isValidUTF8_iff.mpr ⟨text, Utf8.decode?_eq_some_iff.mp htext⟩)
  rw [decodeComponent, standsFor_iff.mp h, hnone]

/-- A text without escapes stands for its own bytes. -/
theorem standsFor_self (h : ∀ b written, IsEscape b written → ¬written <:+: s) :
    StandsFor s (s.flatMap String.utf8EncodeChar) := by
  induction s with
  | nil => exact StandsFor.nil
  | cons c rest ih =>
    refine StandsFor.literal (fun b written hb hprefix => h b written hb hprefix.isInfix) (ih ?_)
    intro b written hb hinfix
    exact h b written hb (List.infix_cons hinfix)

/-! ## Texts with characters escaped -/

/-- A character as it is written: the escapes of its bytes if it is marked, and itself otherwise. -/
inductive IsWritten : Char × Bool → List Char → Prop
  | self (c : Char) : IsWritten (c, false) [c]
  | escaped {c : Char} {escapes : List (List Char)}
      (h : List.Forall₂ IsEscape (String.utf8EncodeChar c) escapes) :
      IsWritten (c, true) escapes.flatten

theorem StandsFor.escapes {escapes : List (List Char)} {bs : List UInt8}
    (h : List.Forall₂ IsEscape bs escapes) (hrest : StandsFor s bytes) :
    StandsFor (escapes.flatten ++ s) (bs ++ bytes) := by
  induction h with
  | nil => exact hrest
  | cons hescape _ ih =>
    rw [List.flatten_cons, List.append_assoc]
    exact StandsFor.escape hescape ih

theorem exists_forall₂ {α β : Type} {R : α → β → Prop} (h : ∀ a, ∃ b, R a b) (l : List α) :
    ∃ bs, List.Forall₂ R l bs := by
  choose f hf using h
  exact ⟨l.map f, List.forall₂_map_right_iff.mpr (List.forall₂_same.mpr fun a _ => hf a)⟩

theorem exists_isEscape (b : UInt8) : ∃ written, IsEscape b written := by
  have hlt : b.toNat < 256 := b.toNat_lt
  have hhigh : IsHexDigit (b.toNat / 16).digitChar (b.toNat / 16) := ⟨by omega, Or.inl rfl⟩
  have hlow : IsHexDigit (b.toNat % 16).digitChar (b.toNat % 16) := ⟨by omega, Or.inl rfl⟩
  exact ⟨_, _, _, rfl, hhigh, hlow⟩

theorem exists_isWritten : ∀ marked : Char × Bool, ∃ written, IsWritten marked written
  | (c, false) => ⟨[c], IsWritten.self c⟩
  | (c, true) =>
    have ⟨escapes, hescapes⟩ := exists_forall₂ exists_isEscape (String.utf8EncodeChar c)
    ⟨escapes.flatten, IsWritten.escaped hescapes⟩

/-- However the marked characters are escaped, the written text stands for the bytes of the text. -/
theorem standsFor_of_written {marked : List (Char × Bool)} {pieces : List (List Char)}
    (hmarked : ∀ m ∈ marked, m.1 = '%' → m.2 = true)
    (h : List.Forall₂ IsWritten marked pieces) :
    StandsFor pieces.flatten ((marked.map Prod.fst).flatMap String.utf8EncodeChar) := by
  induction h with
  | nil => exact StandsFor.nil
  | @cons m piece marked pieces hpiece _ ih =>
    have hrest := ih fun m hm => hmarked m (List.mem_cons_of_mem _ hm)
    rw [List.flatten_cons, List.map_cons, List.flatMap_cons]
    cases hpiece with
    | escaped hescapes => exact StandsFor.escapes hescapes hrest
    | self c =>
      refine StandsFor.literal ?_ hrest
      -- a character that stands for itself is no percent sign, which begins every escape
      rintro b written ⟨high, low, rfl, -⟩ hprefix
      have hpercent : c = '%' := (List.cons_prefix_cons.mp hprefix).1.symm
      exact Bool.false_ne_true (hmarked (c, false) List.mem_cons_self hpercent)

/-- A text is decoded from its written form, whichever characters beside the percent signs are
escaped and whichever case the digits have.  A text without escapes is returned as it is.  Every
text stands for certain bytes: it is decoded to the text that they spell, and returned as it is,
with no escape decoded, if they are not valid. -/
theorem decodeComponent_undoes_escapes :
    (∀ (s : String) (marked : List (Char × Bool)), marked.map Prod.fst = s.toList →
      (∀ m ∈ marked, m.1 = '%' → m.2 = true) →
        (∃ pieces, List.Forall₂ IsWritten marked pieces) ∧
          ∀ pieces, List.Forall₂ IsWritten marked pieces →
            decodeComponent (String.ofList pieces.flatten) = s) ∧
      (∀ s : String, (∀ b written, IsEscape b written → ¬written <:+: s.toList) →
        decodeComponent s = s) ∧
      ∀ s : String, (∃! bytes, StandsFor s.toList bytes) ∧
        ∀ bytes, StandsFor s.toList bytes →
          (∀ text : String, bytes = text.toList.flatMap String.utf8EncodeChar →
            decodeComponent s = text) ∧
          (¬bytes.toByteArray.IsValidUTF8 → decodeComponent s = s) := by
  refine ⟨?_, ?_, ?_⟩
  · intro s marked hs hmarked
    refine ⟨exists_forall₂ exists_isWritten marked, fun pieces hpieces => ?_⟩
    apply decodeComponent_of_standsFor
    rw [String.toList_ofList, ← hs]
    exact standsFor_of_written hmarked hpieces
  · intro s hs
    exact decodeComponent_of_standsFor (standsFor_self hs)
  · intro s
    refine ⟨⟨_, standsFor_iff.mpr rfl, fun bytes h => (standsFor_iff.mp h).symm⟩, ?_⟩
    intro bytes hbytes
    refine ⟨?_, decodeComponent_of_not_isValidUTF8 hbytes⟩
    rintro text rfl
    exact decodeComponent_of_standsFor hbytes

/-- A digit, a percent sign and an accented letter, escaped in digits of both cases; percent signs
with no two digits behind them; and bytes that spell no text. -/
theorem decodeComponent_undoes_escapes_accent :
    let marked := [('1', true), ('%', true), ('é', true), ('x', false)]
    let pieces := [['%', '3', '1'], ['%', '2', '5'], ['%', 'c', '3', '%', 'A', '9'], ['x']]
    List.Forall₂ IsWritten marked pieces ∧
      decodeComponent (String.ofList pieces.flatten) = "1%éx" ∧
      (∀ b written, IsEscape b written → ¬written <:+: "5% of %z%4".toList) ∧
      decodeComponent "5% of %z%4" = "5% of %z%4" ∧
      StandsFor "%41%FF".toList [0x41, 0xFF] ∧
      ¬ByteArray.IsValidUTF8 [0x41, 0xFF].toByteArray ∧ decodeComponent "%41%FF" = "%41%FF" := by
  intro marked pieces
  obtain ⟨hwritten, hplain, hbytes⟩ := decodeComponent_undoes_escapes
  have hpieces : List.Forall₂ IsWritten marked pieces := by
    have hdigits {b : UInt8} {high low : Char} (hhigh : IsHexDigit high (b.toNat / 16))
        (hlow : IsHexDigit low (b.toNat % 16)) : IsEscape b ['%', high, low] :=
      ⟨high, low, rfl, hhigh, hlow⟩
    have hone : List.Forall₂ IsEscape (String.utf8EncodeChar '1') [['%', '3', '1']] :=
      .cons (hdigits (by decide +kernel) (by decide +kernel)) .nil
    have hpercent : List.Forall₂ IsEscape (String.utf8EncodeChar '%') [['%', '2', '5']] :=
      .cons (hdigits (by decide +kernel) (by decide +kernel)) .nil
    have haccent : List.Forall₂ IsEscape (String.utf8EncodeChar 'é')
        [['%', 'c', '3'], ['%', 'A', '9']] :=
      .cons (hdigits (by decide +kernel) (by decide +kernel))
        (.cons (hdigits (by decide +kernel) (by decide +kernel)) .nil)
    exact .cons (.escaped hone) (.cons (.escaped hpercent) (.cons (.escaped haccent)
      (.cons (.self 'x') .nil)))
  have hnone : ∀ b written, IsEscape b written → ¬written <:+: "5% of %z%4".toList := by
    have hspace : ∀ n < 16, ¬IsHexDigit ' ' n := by decide +kernel
    have hz : ∀ n < 16, ¬IsHexDigit 'z' n := by decide +kernel
    rintro b _ ⟨high, low, rfl, hhigh, hlow⟩ hinfix
    have hcases : high = ' ' ∧ low = 'o' ∨ high = 'z' ∧ low = '%' := by
      simpa [List.infix_cons_iff, List.cons_prefix_cons] using hinfix
    rcases hcases with ⟨rfl, -⟩ | ⟨rfl, -⟩
    · exact hspace _ hhigh.1 hhigh
    · exact hz _ hhigh.1 hhigh
  have hstands : StandsFor "%41%FF".toList [0x41, 0xFF] := standsFor_iff.mpr (by decide +kernel)
  have hinvalid : ¬ByteArray.IsValidUTF8 [0x41, 0xFF].toByteArray := by
    have hnone : Utf8.decode? [0x41, 0xFF] = none := by decide +kernel
    intro hvalid
    obtain ⟨text, htext⟩ := Utf8.isValidUTF8_iff.mp hvalid
    rw [Utf8.decode?_eq_some_iff.mpr htext] at hnone
    contradiction
  have hsigns : ∀ m ∈ marked, m.1 = '%' → m.2 = true := by simp [marked]
  exact ⟨hpieces, (hwritten "1%éx" marked (by decide +kernel) hsigns).2 _ hpieces, hnone,
    hplain _ hnone, hstands, hinvalid, ((hbytes _).2 _ hstands).2 hinvalid⟩

end FilterBar.Text
