import FilterBar.Proofs.Names

/-!
# Names of filter parameters are read back

The name that is written for a key and a comparator is taken apart into the two, and the name that is
written for a label into the label as well, provided that the key and the label hold none of the
characters that end them.
-/

namespace FilterBar.ParamName

/-- A text that can stand as the field of a name: nothing in it ends the field. -/
def IsField (field : String) : Prop :=
  '\n' ∉ field.toList ∧ ¬[']', '['] <:+: field.toList

instance (field : String) : Decidable (IsField field) :=
  inferInstanceAs (Decidable (_ ∧ _))

/-- A text that can stand as the name of a label: it is not empty and nothing in it ends it. -/
def IsLabelName (label : String) : Prop :=
  label ≠ "" ∧ '\n' ∉ label.toList ∧ ']' ∉ label.toList

instance (label : String) : Decidable (IsLabelName label) :=
  inferInstanceAs (Decidable (_ ∧ _))

/-- A character that does not end the field belongs to it, unless it is a line feed. -/
theorem readField?_cons {c : Char} {rest : List Char}
    (h : ∀ tail, c :: rest ≠ ']' :: '[' :: tail) :
    readField? (c :: rest) = if c = '\n' then none
      else (readField? rest).map fun read => (c :: read.1, read.2) := by
  rw [readField?]
  intro tail hc hrest
  exact h tail (by rw [hc, hrest])

theorem readField?_append {field : List Char} (hline : '\n' ∉ field)
    (hend : ¬[']', '['] <:+: field) (rest : List Char) :
    readField? (field ++ ']' :: '[' :: rest) = some (field, rest) := by
  induction field with
  | nil => rfl
  | cons d field ih =>
    obtain ⟨hd, hline⟩ := not_or.mp (mt List.mem_cons.mpr hline)
    have hrest : ¬[']', '['] <:+: field := mt List.infix_cons hend
    -- a bracket at the end of the field is not followed by an opening one
    have hhead : ∀ tail, d :: (field ++ ']' :: '[' :: rest) ≠ ']' :: '[' :: tail := by
      intro tail heq
      obtain ⟨rfl, htail⟩ := List.cons_eq_cons.mp heq
      cases field with
      | nil => simp at htail
      | cons e field =>
        obtain ⟨rfl, -⟩ := List.cons.inj htail
        exact hend ⟨[], field, rfl⟩
    rw [List.cons_append, readField?_cons hhead, if_neg (Ne.symm hd), ih hline hrest,
      Option.map_some]

theorem readBracketed?_append {inner : List Char} (hline : '\n' ∉ inner) (hend : ']' ∉ inner)
    (rest : List Char) : readBracketed? (inner ++ ']' :: rest) = some (inner, rest) := by
  induction inner with
  | nil => rfl
  | cons d inner ih =>
    obtain ⟨hd, hline⟩ := not_or.mp (mt List.mem_cons.mpr hline)
    obtain ⟨hd', hend⟩ := not_or.mp (mt List.mem_cons.mpr hend)
    rw [List.cons_append, readBracketed?, if_neg (Ne.symm hd'), if_neg (Ne.symm hd),
      ih hline hend, Option.map_some]

/-- Tokens of comparators stand in brackets. -/
theorem readBracketed?_token (op : Comparator) (rest : List Char) :
    readBracketed? (op.token.toList ++ ']' :: rest) = some (op.token.toList, rest) := by
  apply readBracketed?_append
  · cases op <;> decide
  · cases op <;> decide

theorem readLabelName?_brackets {label : String} (h : IsLabelName label) :
    readLabelName? ('[' :: (label.toList ++ [']'])) = some label.toList := by
  obtain ⟨hne, hline, hend⟩ := h
  have hchars : label.toList.isEmpty = false := by
    rw [List.isEmpty_eq_false_iff, Ne, String.toList_eq_nil_iff]
    exact hne
  rw [readLabelName?, readBracketed?_append hline hend]
  simp only [hchars]
  rfl

/-- A name is taken apart at its brackets. -/
theorem parse?_brackets {field : String} (h : IsField field) (op : Comparator) (rest : String) :
    parse? (ofKey field op ++ rest) = some ⟨field, op.token,
      (if field = Key.labels then readLabelName? rest.toList else none).map String.ofList⟩ := by
  have hname : (ofKey field op ++ rest).toList =
      opening.toList ++ (field.toList ++ ']' :: '[' :: (op.token.toList ++ ']' :: rest.toList)) := by
    simp [ofKey, String.toList_append]
  have hopening : opening.toList.isPrefixOf? (ofKey field op ++ rest).toList =
      some (field.toList ++ ']' :: '[' :: (op.token.toList ++ ']' :: rest.toList)) := by
    rw [List.isPrefixOf?_eq_some_iff_append_eq, hname]
  simp only [parse?, hopening, Option.bind_eq_bind, Option.bind_some, readField?_append h.1 h.2,
    readBracketed?_token, String.ofList_toList]

/-- The name for a key and a comparator is read as the two. -/
theorem parse?_ofKey {key : String} (h : IsField key) (op : Comparator) :
    parse? (ofKey key op) = some ⟨key, op.token, none⟩ := by
  have hparse := parse?_brackets h op ""
  rw [String.append_empty] at hparse
  rw [hparse]
  split <;> rfl

theorem isField_labels : IsField Key.labels := by
  decide +kernel

/-- The name for a label is read as a field of labels, whatever the label is. -/
theorem parse?_ofLabel (op : Comparator) (label : String) :
    parse? (ofLabel op label) = some ⟨Key.labels, op.token,
      (readLabelName? ('[' :: (label.toList ++ [']']))).map String.ofList⟩ := by
  rw [ofLabel, String.append_assoc, String.append_assoc, parse?_brackets isField_labels, if_pos rfl,
    String.toList_append, String.toList_append]
  rfl

/-- The name for a label is read with that label. -/
theorem parse?_ofLabel_of_isLabelName {label : String} (h : IsLabelName label) (op : Comparator) :
    parse? (ofLabel op label) = some ⟨Key.labels, op.token, some label⟩ := by
  rw [parse?_ofLabel, readLabelName?_brackets h, Option.map_some, String.ofList_toList]

end FilterBar.ParamName
