import FilterBar.Text.PercentEscape

/-!
# UTF-8 and percent escapes

The bytes of a text are read back as that text.  A text without a percent sign holds no escape and
is left as it is.
-/

namespace FilterBar.Text

namespace Utf8

theorem toNat_ofNat {n : Nat} (h : n < 256) : (UInt8.ofNat n).toNat = n := by
  rw [UInt8.toNat_ofNat', Nat.mod_eq_of_lt h]

theorem pieces_cons (state : State) (b : UInt8) (rest : List UInt8) :
    pieces state (b :: rest) =
      (step state b.toNat).2 ++ pieces (step state b.toNat).1 rest := by
  cases state with
  | start => rfl
  | inside owed low high value => rfl

/-! ## One byte -/

theorem step_continue {owed low high value b : Nat} (hlow : low ≤ b) (hhigh : b ≤ high) :
    step (.inside (owed + 1) low high value) b =
      (.inside owed 0x80 0xBF (value * 0x40 + (b - 0x80)), []) := by
  simp only [step, hlow, hhigh, and_self, if_true]

theorem step_finish {low high value b : Nat} (hlow : low ≤ b) (hhigh : b ≤ high) :
    step (.inside 0 low high value) b =
      (.start, [some (Char.ofNat (value * 0x40 + (b - 0x80)))]) := by
  simp only [step, hlow, hhigh, and_self, if_true]

theorem first_one {b : Nat} (h : b < 0x80) : first b = (.start, [some (Char.ofNat b)]) := by
  rw [first, if_pos h]

theorem first_two {b : Nat} (hlow : 0xC2 ≤ b) (hhigh : b < 0xE0) :
    first b = (.inside 0 0x80 0xBF (b - 0xC0), []) := by
  rw [first, if_neg (by omega), if_neg (by omega), if_pos hhigh]

/-- The second of three bytes excludes short spellings and surrogates. -/
theorem first_three {b : Nat} (hlow : 0xE0 ≤ b) (hhigh : b < 0xF0) :
    first b = (.inside 1 (if b = 0xE0 then 0xA0 else 0x80) (if b = 0xED then 0x9F else 0xBF)
      (b - 0xE0), []) := by
  rw [first, if_neg (by omega), if_neg (by omega), if_neg (by omega)]
  by_cases he0 : b = 0xE0
  · subst he0
    rfl
  · by_cases hed : b = 0xED
    · subst hed
      rfl
    · rw [if_neg he0, if_neg hed, if_pos hhigh, if_neg he0, if_neg hed]

/-- The second of four bytes excludes short spellings and what lies past the last character. -/
theorem first_four {b : Nat} (hlow : 0xF0 ≤ b) (hhigh : b < 0xF5) :
    first b = (.inside 2 (if b = 0xF0 then 0x90 else 0x80) (if b = 0xF4 then 0x8F else 0xBF)
      (b - 0xF0), []) := by
  rw [first, if_neg (by omega), if_neg (by omega), if_neg (by omega), if_neg (by omega),
    if_neg (by omega), if_neg (by omega)]
  by_cases hf0 : b = 0xF0
  · subst hf0
    rfl
  · by_cases hf4 : b = 0xF4
    · subst hf4
      rfl
    · rw [if_neg hf0, if_pos (by omega), if_neg hf0, if_neg hf4]

/-! ## One character -/

theorem pieces_two {a b : Nat} (ha : 0xC2 ≤ a) (ha' : a < 0xE0) (hb : 0x80 ≤ b) (hb' : b ≤ 0xBF)
    (rest : List UInt8) :
    pieces .start (UInt8.ofNat a :: UInt8.ofNat b :: rest) =
      some (Char.ofNat ((a - 0xC0) * 0x40 + (b - 0x80))) :: pieces .start rest := by
  rw [pieces_cons, toNat_ofNat (by omega), step, first_two ha ha', List.nil_append, pieces_cons,
    toNat_ofNat (by omega), step_finish hb hb']
  rfl

theorem pieces_three {a b d : Nat} (ha : 0xE0 ≤ a) (ha' : a < 0xF0)
    (hb : (if a = 0xE0 then 0xA0 else 0x80) ≤ b) (hb' : b ≤ (if a = 0xED then 0x9F else 0xBF))
    (hd : 0x80 ≤ d) (hd' : d ≤ 0xBF) (rest : List UInt8) :
    pieces .start (UInt8.ofNat a :: UInt8.ofNat b :: UInt8.ofNat d :: rest) =
      some (Char.ofNat (((a - 0xE0) * 0x40 + (b - 0x80)) * 0x40 + (d - 0x80))) ::
        pieces .start rest := by
  have hb256 : b < 256 := by
    split at hb' <;> omega
  rw [pieces_cons, toNat_ofNat (by omega), step, first_three ha ha', List.nil_append, pieces_cons,
    toNat_ofNat hb256, step_continue hb hb', List.nil_append, pieces_cons, toNat_ofNat (by omega),
    step_finish hd hd']
  rfl

theorem pieces_four {a b d e : Nat} (ha : 0xF0 ≤ a) (ha' : a < 0xF5)
    (hb : (if a = 0xF0 then 0x90 else 0x80) ≤ b) (hb' : b ≤ (if a = 0xF4 then 0x8F else 0xBF))
    (hd : 0x80 ≤ d) (hd' : d ≤ 0xBF) (he : 0x80 ≤ e) (he' : e ≤ 0xBF) (rest : List UInt8) :
    pieces .start (UInt8.ofNat a :: UInt8.ofNat b :: UInt8.ofNat d :: UInt8.ofNat e :: rest) =
      some (Char.ofNat ((((a - 0xF0) * 0x40 + (b - 0x80)) * 0x40 + (d - 0x80)) * 0x40 +
        (e - 0x80))) :: pieces .start rest := by
  have hb256 : b < 256 := by
    split at hb' <;> omega
  rw [pieces_cons, toNat_ofNat (by omega), step, first_four ha ha', List.nil_append, pieces_cons,
    toNat_ofNat hb256, step_continue hb hb', List.nil_append, pieces_cons, toNat_ofNat (by omega),
    step_continue hd hd', List.nil_append, pieces_cons, toNat_ofNat (by omega), step_finish he he']
  rfl

/-- The bytes of a character are read as that character. -/
theorem pieces_encodeChar (c : Char) (rest : List UInt8) :
    pieces .start (encodeChar c ++ rest) = some c :: pieces .start rest := by
  have hvalid : c.toNat < 0xD800 ∨ 0xDFFF < c.toNat ∧ c.toNat < 0x110000 := c.valid
  have hself : Char.ofNat c.toNat = c := Char.ofNat_toNat c
  rw [encodeChar]
  by_cases hone : c.toNat < 0x80
  · rw [if_pos hone, List.singleton_append, pieces_cons, toNat_ofNat (by omega), step,
      first_one hone, hself]
    rfl
  by_cases htwo : c.toNat < 0x800
  · have hsplit : (0xC0 + c.toNat / 0x40 - 0xC0) * 0x40 + (0x80 + c.toNat % 0x40 - 0x80) =
        c.toNat := by omega
    rw [if_neg hone, if_pos htwo, List.cons_append, List.singleton_append,
      pieces_two (by omega) (by omega) (by omega) (by omega), hsplit, hself]
  by_cases hthree : c.toNat < 0x10000
  · have hsplit : ((0xE0 + c.toNat / 0x1000 - 0xE0) * 0x40 +
        (0x80 + c.toNat / 0x40 % 0x40 - 0x80)) * 0x40 + (0x80 + c.toNat % 0x40 - 0x80) =
        c.toNat := by omega
    rw [if_neg hone, if_neg htwo, if_pos hthree, List.cons_append, List.cons_append,
      List.singleton_append, pieces_three (by omega) (by omega) (by split <;> omega)
      (by split <;> omega) (by omega) (by omega), hsplit, hself]
  · have hsplit : (((0xF0 + c.toNat / 0x40000 - 0xF0) * 0x40 +
        (0x80 + c.toNat / 0x1000 % 0x40 - 0x80)) * 0x40 +
        (0x80 + c.toNat / 0x40 % 0x40 - 0x80)) * 0x40 + (0x80 + c.toNat % 0x40 - 0x80) =
        c.toNat := by omega
    rw [if_neg hone, if_neg htwo, if_neg hthree, List.cons_append, List.cons_append,
      List.cons_append, List.singleton_append, pieces_four (by omega) (by omega)
      (by split <;> omega) (by split <;> omega) (by omega) (by omega) (by omega) (by omega),
      hsplit, hself]

theorem pieces_encode (s : List Char) : pieces .start (encode s) = s.map some := by
  induction s with
  | nil => rfl
  | cons c rest ih =>
    rw [encode, List.flatMap_cons, pieces_encodeChar, ← encode, ih, List.map_cons]

/-- The bytes of a text are read back as that text. -/
theorem decode?_encode (s : List Char) : decode? (encode s) = some s := by
  rw [decode?, pieces_encode]
  induction s with
  | nil => rfl
  | cons c rest ih => simp [List.mapM_cons, ih]

/-- Only a percent sign is written with the byte of a percent sign. -/
theorem percent_notMem_encodeChar {c : Char} (h : c ≠ '%') : (0x25 : UInt8) ∉ encodeChar c := by
  have hne : c.toNat ≠ 0x25 := by
    intro heq
    apply h
    rw [← Char.ofNat_toNat c, heq]
  have hvalid : c.toNat < 0x110000 := by
    rcases c.valid with hlow | ⟨-, hhigh⟩
    · exact Nat.lt_trans hlow (by omega)
    · exact hhigh
  have hbyte {n : Nat} (hn : n < 256) (hn25 : n ≠ 0x25) : (0x25 : UInt8) ≠ UInt8.ofNat n := by
    intro heq
    have hnat := congrArg UInt8.toNat heq
    rw [toNat_ofNat hn] at hnat
    exact hn25 hnat.symm
  rw [encodeChar]
  split
  · simpa using hbyte (by omega) hne
  split
  · simp only [List.mem_cons, List.not_mem_nil, or_false, not_or]
    exact ⟨hbyte (by omega) (by omega), hbyte (by omega) (by omega)⟩
  split
  · simp only [List.mem_cons, List.not_mem_nil, or_false, not_or]
    exact ⟨hbyte (by omega) (by omega), hbyte (by omega) (by omega), hbyte (by omega) (by omega)⟩
  · simp only [List.mem_cons, List.not_mem_nil, or_false, not_or]
    exact ⟨hbyte (by omega) (by omega), hbyte (by omega) (by omega), hbyte (by omega) (by omega),
      hbyte (by omega) (by omega)⟩

theorem percent_notMem_encode {s : List Char} (h : '%' ∉ s) : (0x25 : UInt8) ∉ encode s := by
  intro hmem
  obtain ⟨c, hc, hbyte⟩ := List.mem_flatMap.mp hmem
  have hne : c ≠ '%' := by
    rintro rfl
    exact h hc
  exact percent_notMem_encodeChar hne hbyte

end Utf8

/-- A byte that is no percent sign begins no escape. -/
theorem unescapeBytes_cons_of_ne {b : UInt8} (h : b ≠ 0x25) (rest : List UInt8) :
    unescapeBytes (b :: rest) = b :: unescapeBytes rest := by
  match rest with
  | [] => rfl
  | [_] => rfl
  | _ :: _ :: _ => rw [unescapeBytes, if_neg h]

theorem unescapeBytes_append_of_notMem {bytes : List UInt8} (h : 0x25 ∉ bytes)
    (rest : List UInt8) : unescapeBytes (bytes ++ rest) = bytes ++ unescapeBytes rest := by
  induction bytes with
  | nil => rfl
  | cons b more ih =>
    obtain ⟨hb, hmore⟩ := not_or.mp (mt List.mem_cons.mpr h)
    rw [List.cons_append, unescapeBytes_cons_of_ne (Ne.symm hb), ih hmore, List.cons_append]

theorem unescapeBytes_of_notMem {bytes : List UInt8} (h : 0x25 ∉ bytes) :
    unescapeBytes bytes = bytes := by
  have hnil : unescapeBytes [] = [] := rfl
  have happend := unescapeBytes_append_of_notMem h []
  rwa [hnil, List.append_nil] at happend

/-- A text without a percent sign has no escapes to replace. -/
theorem decodeComponent_of_notMem {s : String} (h : '%' ∉ s.toList) : decodeComponent s = s := by
  rw [decodeComponent, unescapeBytes_of_notMem (Utf8.percent_notMem_encode h), Utf8.decode?_encode]
  exact String.ofList_toList

end FilterBar.Text
