import FilterBar.Proofs.Entities
import FilterBar.Proofs.QueryText

/-!
# Markup as it is written

A written text has entities in place of five characters, so the markup around it is all that holds
angle brackets and quotes.  Attributes are therefore read as they were written, whatever their values
are, and a tag ends where it was ended.
-/

namespace FilterBar.Markup

open Text

/-! ## Scanning -/

variable {τ : Type} {read : Reader τ} {s t : List Char}

/-- A reader finds nothing in a text, whatever follows. -/
def IsQuiet (read : Reader τ) (s : List Char) : Prop :=
  ∀ rest, sectionsFrom read 0 (s ++ rest) =
    (s ++ (sectionsFrom read 0 rest).1, (sectionsFrom read 0 rest).2)

theorem isQuiet_append (hs : IsQuiet read s) (ht : IsQuiet read t) : IsQuiet read (s ++ t) := by
  intro rest
  rw [List.append_assoc, hs, ht, List.append_assoc]

theorem isQuiet_of_forall (h : ∀ c ∈ s, ∀ rest, read (c :: rest) = none) : IsQuiet read s := by
  induction s with
  | nil => exact fun _ => rfl
  | cons c more ih =>
    obtain ⟨hc, hmore⟩ := List.forall_mem_cons.mp h
    intro rest
    rw [List.cons_append, sectionsFrom, hc]
    simp only [ih hmore rest, List.cons_append]

theorem sectionsFrom_of_isQuiet (h : IsQuiet read s) : sectionsFrom read 0 s = (s, []) := by
  have hs := h []
  rwa [List.append_nil, sectionsFrom, List.append_nil] at hs

theorem sectionsFrom_skip (skip : Nat) (s : List Char) :
    sectionsFrom read skip s = sectionsFrom read 0 (s.drop skip) := by
  induction s generalizing skip with
  | nil => cases skip <;> simp [sectionsFrom]
  | cons c rest ih =>
    cases skip with
    | zero => rfl
    | succ skip => rw [sectionsFrom, ih, List.drop_succ_cons]

/-- What a reader finds at the front is the first section, with the text up to the next find. -/
theorem sectionsFrom_found {found : τ} (hs : s ≠ []) {rest : List Char}
    (h : read (s ++ rest) = some (found, s.length)) :
    sectionsFrom read 0 (s ++ rest) =
      ([], (found, (sectionsFrom read 0 rest).1) :: (sectionsFrom read 0 rest).2) := by
  cases s with
  | nil => exact absurd rfl hs
  | cons c more =>
    have hskip : sectionsFrom read ((c :: more).length - 1) (more ++ rest) =
        sectionsFrom read 0 rest := by
      rw [sectionsFrom_skip, List.length_cons, Nat.add_sub_cancel, List.drop_left]
    rw [List.cons_append] at h ⊢
    rw [sectionsFrom, h]
    simp only [hskip]

/-! ## Attributes -/

/-- White space of markup. -/
def IsSpace (s : List Char) : Prop :=
  ∀ c ∈ s, c ∈ [' ', '\t', '\n', '\r']

theorem isSpace_nil : IsSpace [] :=
  fun _ hc => absurd hc List.not_mem_nil

/-- A name that an attribute may have. -/
def IsName (name : String) : Prop :=
  name ≠ "" ∧ ∀ c ∈ name.toList, isNameChar c = true

instance {name : String} : Decidable (IsName name) :=
  decidable_of_iff (name ≠ "" ∧ name.toList.all isNameChar = true)
    (and_congr_right fun _ => List.all_eq_true)

/-- An attribute with its value in double quotes and white space before and behind its equals
sign. -/
def attributeText (name value : String) (before behind : List Char) : List Char :=
  name.toList ++ (before ++ '=' :: (behind ++ '"' :: (escape value.toList ++ ['"'])))

/-- The text of a list of attributes behind the name of a tag. -/
inductive WritesAttributes : List (String × String) → List Char → Prop
  | nil {space : List Char} (hspace : IsSpace space) : WritesAttributes [] space
  | cons {name value : String} {space before behind s : List Char}
      {attributes : List (String × String)} (hspace : IsSpace space) (hne : space ≠ [])
      (hname : IsName name) (hbefore : IsSpace before) (hbehind : IsSpace behind)
      (hrest : WritesAttributes attributes s) :
      WritesAttributes ((name, value) :: attributes)
        (space ++ (attributeText name value before behind ++ s))

/-- Attributes with a space in front of each. -/
def spaced (attrs : List (String × String)) : List Char :=
  attrs.flatMap fun a => ' ' :: attributeText a.1 a.2 [] []

theorem writesAttributes_spaced {attrs : List (String × String)}
    (h : ∀ name ∈ attrs.map (·.1), IsName name) : WritesAttributes attrs (spaced attrs) := by
  induction attrs with
  | nil => exact .nil isSpace_nil
  | cons a more ih =>
    obtain ⟨hname, hmore⟩ := List.forall_mem_cons.mp h
    have hspace : IsSpace [' '] := by
      intro c hc
      rw [List.mem_singleton.mp hc]
      decide
    rw [spaced, List.flatMap_cons]
    exact .cons hspace (List.cons_ne_nil _ _) hname isSpace_nil isSpace_nil (ih hmore)

theorem isBlank_of_isSpace (h : IsSpace s) : ∀ c ∈ s, isBlank c = true := by
  have hspaces : [' ', '\t', '\n', '\r'].all isBlank = true := by decide
  exact fun c hc => List.all_eq_true.mp hspaces c (h c hc)

theorem isNameChar_of_isSpace (h : IsSpace s) : ∀ c ∈ s, isNameChar c = false := by
  have hspaces : [' ', '\t', '\n', '\r'].all (!isNameChar ·) = true := by decide
  intro c hc
  simpa using List.all_eq_true.mp hspaces c (h c hc)

theorem trimStart_append {c : Char} (hs : ∀ d ∈ s, isBlank d = true) (hc : isBlank c = false)
    (rest : List Char) : trimStart (s ++ c :: rest) = c :: rest := by
  rw [trimStart, List.dropWhile_append_of_pos hs, List.dropWhile_cons_of_neg (by simp [hc])]

/-- An attribute is read with the name and the value that it was written with. -/
theorem readAttribute_append {name value : String} {before behind : List Char}
    (hname : IsName name) (hbefore : IsSpace before) (hbehind : IsSpace behind)
    (rest : List Char) :
    readAttribute (attributeText name value before behind ++ rest) =
      some (⟨name.toList, value.toList⟩, (attributeText name value before behind).length) := by
  have hquote : '"' ∉ escape value.toList := notMem_escape (by decide) (by decide) _
  have htext : attributeText name value before behind ++ rest =
      name.toList ++ (before ++ '=' :: (behind ++ '"' ::
        (escape value.toList ++ '"' :: rest))) := by
    simp [attributeText]
  have hends : (before ++ '=' :: (behind ++ '"' ::
      (escape value.toList ++ '"' :: rest))).takeWhile isNameChar = [] := by
    cases before with
    | nil => exact List.takeWhile_cons_of_neg (by decide)
    | cons c more =>
      exact List.takeWhile_cons_of_neg
        (by simp [isNameChar_of_isSpace hbefore c List.mem_cons_self])
  have htake : (attributeText name value before behind ++ rest).takeWhile isNameChar =
      name.toList := by
    rw [htext, List.takeWhile_append_of_pos hname.2, hends, List.append_nil]
  have hempty : name.toList.isEmpty = false := by
    simpa using hname.1
  have hlength : (attributeText name value before behind ++ rest).length - rest.length =
      (attributeText name value before behind).length := by
    rw [List.length_append, Nat.add_sub_cancel]
  rw [readAttribute, htake]
  simp only [hempty, Bool.false_eq_true, if_false]
  rw [htext, List.drop_left,
    trimStart_append (isBlank_of_isSpace hbefore) (show isBlank '=' = false by decide)]
  simp only [trimStart_append (isBlank_of_isSpace hbehind) (show isBlank '"' = false by decide),
    cut?_append hquote, unescape_escape, ← htext, hlength]

theorem readAttribute_of_not {c : Char} (h : isNameChar c = false) (rest : List Char) :
    readAttribute (c :: rest) = none := by
  rw [readAttribute, List.takeWhile_cons_of_neg (by simp [h])]
  rfl

/-- The attributes of a tag are read back in their order, also if a slash follows them. -/
theorem attributes_of_writes {attrs : List (String × String)} (h : WritesAttributes attrs s)
    {last : List Char} (hlast : last = [] ∨ last = ['/']) :
    attributes (s ++ last) = attrs.map fun a => ⟨a.1.toList, a.2.toList⟩ := by
  have hspace {space : List Char} (hspace : IsSpace space) : IsQuiet readAttribute space :=
    isQuiet_of_forall fun c hc => readAttribute_of_not (isNameChar_of_isSpace hspace c hc)
  have hquiet : IsQuiet readAttribute last := by
    apply isQuiet_of_forall
    intro c hc
    rcases hlast with rfl | rfl
    · exact absurd hc List.not_mem_nil
    · rw [List.mem_singleton.mp hc]
      exact readAttribute_of_not (by decide)
  induction h with
  | nil hs =>
    rw [attributes, sections, sectionsFrom_of_isQuiet (isQuiet_append (hspace hs) hquiet)]
    rfl
  | @cons name value space before behind s attrs hs hne hname hbefore hbehind hrest ih =>
    have hne : attributeText name value before behind ≠ [] := by
      simp [attributeText]
    rw [attributes, sections, List.append_assoc, hspace hs, List.append_assoc,
      sectionsFrom_found hne (readAttribute_append hname hbefore hbehind _)]
    exact congrArg (Attribute.mk name.toList value.toList :: ·) ih

/-- The text of attributes in any order: those that are asked for, and others with other names. -/
def WritesRequired (required : List (String × String)) (s : List Char) : Prop :=
  ∃ attrs others, attrs.Perm (required ++ others) ∧ (∀ a ∈ others, a.1 ∉ required.map (·.1)) ∧
    WritesAttributes attrs s

/-- Whatever the order, an attribute that is asked for is found with its value. -/
theorem valueOf?_of_writes {required : List (String × String)} (h : WritesRequired required s)
    (hnodup : (required.map (·.1)).Nodup) {name value : String} (hmem : (name, value) ∈ required)
    {last : List Char} (hlast : last = [] ∨ last = ['/']) :
    valueOf? (attributes (s ++ last)) name = some value.toList := by
  obtain ⟨attrs, others, hperm, hothers, hwrites⟩ := h
  have hunique : ∀ a ∈ attrs, a.1 = name → a = (name, value) := by
    intro a ha hname
    rcases List.mem_append.mp (hperm.mem_iff.mp ha) with ha | ha
    · exact List.inj_on_of_nodup_map hnodup ha hmem hname
    · exact absurd (List.mem_map.mpr ⟨_, hmem, hname.symm⟩) (hothers a ha)
  have hattrs : (name, value) ∈ attrs := hperm.mem_iff.mpr (List.mem_append_left others hmem)
  rw [valueOf?, attributes_of_writes hwrites hlast]
  cases hfind : (attrs.map fun a => (⟨a.1.toList, a.2.toList⟩ : Attribute)).find?
      (·.name == name.toList) with
  | none =>
    have hnone := List.find?_eq_none.mp hfind ⟨name.toList, value.toList⟩
      (List.mem_map.mpr ⟨_, hattrs, rfl⟩)
    simp at hnone
  | some found =>
    obtain ⟨a, ha, rfl⟩ := List.mem_map.mp (List.mem_of_find?_eq_some hfind)
    have hname : (a.1.toList == name.toList) = true := by
      simpa using List.find?_some hfind
    rw [hunique a ha (String.toList_inj.mp (beq_iff_eq.mp hname))]
    rfl

theorem notMem_of_writes {attrs : List (String × String)} (h : WritesAttributes attrs s) {c : Char}
    (hc : c ∈ ['<', '>']) : c ∉ s := by
  obtain ⟨hspecial, hamp, hnot, hblank, heq, hquote⟩ : c ∈ special ∧ c ≠ '&' ∧
      isNameChar c = false ∧ c ∉ [' ', '\t', '\n', '\r'] ∧ c ≠ '=' ∧ c ≠ '"' := by
    rcases List.mem_pair.mp hc with rfl | rfl <;> decide
  have hspace {space : List Char} (hspace : IsSpace space) : c ∉ space :=
    fun hmem => hblank (hspace c hmem)
  induction h with
  | nil hs => exact hspace hs
  | @cons name value _ _ _ _ _ hs _ hname hbefore hbehind _ ih =>
    have hname : c ∉ name.toList := by
      intro hmem
      rw [hname.2 c hmem] at hnot
      exact absurd hnot (by decide)
    simp [attributeText, hspace hs, hname, hspace hbefore, hspace hbehind, heq, hquote,
      notMem_escape hspecial hamp, ih]

/-- Behind its name, a tag holds white space or its end. -/
theorem startsWord_of_writes {attrs : List (String × String)} (h : WritesAttributes attrs s)
    {rest : List Char} (hrest : startsWord rest = false) : startsWord (s ++ rest) = false := by
  have hword {space : List Char} (h : IsSpace space) : ∀ c ∈ space, isWord c = false := by
    intro c hc
    have hname := isNameChar_of_isSpace h c hc
    rw [isNameChar, Bool.or_eq_false_iff, Bool.or_eq_false_iff] at hname
    exact hname.1.1
  cases h with
  | nil hs =>
    cases s with
    | nil => exact hrest
    | cons c more => exact hword hs c List.mem_cons_self
  | @cons _ _ space _ _ _ _ hs hne =>
    cases space with
    | nil => exact absurd rfl hne
    | cons c more => exact hword hs c List.mem_cons_self

theorem isSelfClosing_of_writes {attrs : List (String × String)} (h : WritesAttributes attrs s) :
    isSelfClosing s = false := by
  have hlast : s.getLast? ≠ some '/' := by
    induction h with
    | nil hs =>
      intro hslash
      exact absurd (hs '/' (List.mem_of_getLast? hslash)) (by decide)
    | @cons name value space before behind s attrs _ _ _ _ _ _ ih =>
      have hquote : (attributeText name value before behind).getLast? = some '"' := by
        simp [attributeText, List.getLast?_cons]
      rw [List.getLast?_append, List.getLast?_append, hquote]
      cases hs : s.getLast? with
      | none => simp
      | some c => simpa [hs] using ih
  rw [isSelfClosing]
  exact beq_eq_false_iff_ne.mpr hlast

/-! ## Tags -/

/-- Every tag of a text has one of these names. -/
def HasTagsOf (names : List String) (s : List Char) : Prop :=
  ∀ before after, s = before ++ '<' :: after → ∃ name ∈ names, name.toList <+: after

variable {names : List String}

theorem hasTagsOf_of_notMem (h : '<' ∉ s) : HasTagsOf names s := by
  rintro before after rfl
  exact absurd (by simp) h

theorem hasTagsOf_append (hs : HasTagsOf names s) (ht : HasTagsOf names t) :
    HasTagsOf names (s ++ t) := by
  intro before after heq
  rcases List.append_eq_append_iff.mp heq with ⟨more, rfl, hmore⟩ | ⟨more, hmore, hafter⟩
  · exact ht more after hmore
  · cases more with
    | nil => exact ht [] after (by simpa using hafter.symm)
    | cons c more =>
      obtain ⟨rfl, rfl⟩ := List.cons_eq_cons.mp hafter
      obtain ⟨name, hname, hprefix⟩ := hs before more hmore
      exact ⟨name, hname, hprefix.trans (List.prefix_append more t)⟩

theorem hasTagsOf_tag {name : String} (hname : name ∈ names) (h : '<' ∉ name.toList ++ s) :
    HasTagsOf names ('<' :: (name.toList ++ s)) := by
  intro before after heq
  cases before with
  | nil => exact ⟨name, hname, s, (List.cons_eq_cons.mp heq).2⟩
  | cons c more =>
    rw [List.cons_append] at heq
    rw [(List.cons_eq_cons.mp heq).2] at h
    exact absurd (by simp) h

theorem HasTagsOf.mono {names' : List String} (h : HasTagsOf names s) (hnames : names ⊆ names') :
    HasTagsOf names' s := by
  intro before after heq
  obtain ⟨name, hname, hprefix⟩ := h before after heq
  exact ⟨name, hnames hname, hprefix⟩

/-- A reader of tags finds nothing in a text if it takes no tag of the names that occur. -/
theorem isQuiet_of_hasTagsOf (hread : ∀ c, c ≠ '<' → ∀ rest, read (c :: rest) = none)
    (hnames : ∀ name ∈ names, ∀ rest, read ('<' :: (name.toList ++ rest)) = none)
    (h : HasTagsOf names s) : IsQuiet read s := by
  induction s with
  | nil => exact fun _ => rfl
  | cons c more ih =>
    have hmore : HasTagsOf names more := by
      rintro before after rfl
      exact h (c :: before) after rfl
    intro rest
    have hnone : read (c :: (more ++ rest)) = none := by
      by_cases hc : c = '<'
      · subst hc
        obtain ⟨name, hname, later, rfl⟩ := h [] more rfl
        rw [List.append_assoc]
        exact hnames name hname _
      · exact hread c hc _
    rw [List.cons_append, sectionsFrom, hnone]
    simp only [ih hmore rest, List.cons_append]

/-- The tag that begins an element, with the text of its attributes. -/
def openingTag (name : String) (inner : List Char) : List Char :=
  '<' :: (name.toList ++ (inner ++ ['>']))

/-- The tag that ends an element. -/
def closingTag (name : String) (space : List Char) : List Char :=
  '<' :: ("/".toList ++ (name.toList ++ (space ++ ['>'])))

theorem readOpening_openingTag {name : String} {inner rest : List Char} (hend : '>' ∉ inner)
    (hword : startsWord (inner ++ '>' :: rest) = false) :
    readOpening name (openingTag name inner ++ rest) =
      some (inner, 1 + name.toList.length + inner.length) := by
  have hprefix : ('<' :: name.toList).isPrefixOf? (openingTag name inner ++ rest) =
      some (inner ++ '>' :: rest) := by
    rw [List.isPrefixOf?_eq_some_iff_append_eq]
    simp [openingTag]
  have hinner : (inner ++ '>' :: rest).takeWhile (· != '>') = inner := by
    rw [List.takeWhile_append_of_pos, List.takeWhile_cons_of_neg (by simp), List.append_nil]
    intro c hc
    exact bne_iff_ne.mpr (ne_of_mem_of_not_mem hc hend)
  rw [readOpening, hprefix]
  simp only [hword, Bool.false_eq_true, if_false, hinner]

theorem readTag_openingTag {name : String} {inner rest : List Char} (hend : '>' ∉ inner)
    (hword : startsWord (inner ++ '>' :: rest) = false) :
    readTag name (openingTag name inner ++ rest) =
      some (inner, (openingTag name inner).length) := by
  have hlength : (openingTag name inner).length = 1 + name.toList.length + inner.length + 1 := by
    simp only [openingTag, List.length_cons, List.length_append, List.length_nil]
    omega
  have hdrop : ((openingTag name inner ++ rest).drop
      (1 + name.toList.length + inner.length)).isEmpty = false := by
    rw [List.isEmpty_eq_false_iff, ← List.length_pos_iff, List.length_drop, List.length_append,
      hlength]
    omega
  rw [readTag, readOpening_openingTag hend hword]
  simp only [hdrop, Bool.false_eq_true, if_false, hlength]

theorem readOpening_of_ne {name : String} {c : Char} (h : c ≠ '<') (rest : List Char) :
    readOpening name (c :: rest) = none := by
  have hprefix : ('<' :: name.toList).isPrefixOf? (c :: rest) = none := by
    simp [List.isPrefixOf?, h.symm]
  rw [readOpening, hprefix]

theorem readTag_of_ne {name : String} {c : Char} (h : c ≠ '<') (rest : List Char) :
    readTag name (c :: rest) = none := by
  rw [readTag, readOpening_of_ne h]

theorem isQuiet_readTag {tag : String}
    (hnames : ∀ name ∈ names, ∀ rest, readTag tag ('<' :: (name.toList ++ rest)) = none)
    (h : HasTagsOf names s) : IsQuiet (readTag tag) s :=
  isQuiet_of_hasTagsOf (fun _ hc => readTag_of_ne hc) hnames h

/-! ## Elements -/

/-- An element with the attributes that are asked for, in any order and beside others, and with
content of a kind.  It closes itself if the content is empty. -/
inductive WritesElement (name : String) (required : List (String × String))
    (content : List Char → Prop) : List Char → Prop
  | closed {inner : List Char} (hinner : WritesRequired required inner) (hcontent : content []) :
      WritesElement name required content (openingTag name (inner ++ ['/']))
  | filled {inner body space : List Char} (hinner : WritesRequired required inner)
      (hcontent : content body) (hspace : IsSpace space) :
      WritesElement name required content
        (openingTag name inner ++ (body ++ closingTag name space))

theorem exists_writesElement (name : String) (required : List (String × String))
    (h : ∀ name ∈ required.map (·.1), IsName name) {content : List Char → Prop} {body : List Char}
    (hcontent : content body) : ∃ s, WritesElement name required content s := by
  have hinner : WritesRequired required (spaced required) :=
    ⟨required, [], by simp, fun _ ha => absurd ha List.not_mem_nil, writesAttributes_spaced h⟩
  exact ⟨_, .filled hinner hcontent isSpace_nil⟩

/-- Written text without markup. -/
def IsText (s : List Char) : Prop :=
  ∃ t, s = escape t

theorem hasTagsOf_of_isText (h : IsText s) : HasTagsOf names s := by
  obtain ⟨t, rfl⟩ := h
  exact hasTagsOf_of_notMem (notMem_escape (by decide) (by decide) t)

theorem hasTagsOf_closingTag {name : String} (hname : '<' ∉ name.toList) {space : List Char}
    (hspace : IsSpace space) (hend : "/" ∈ names) : HasTagsOf names (closingTag name space) := by
  apply hasTagsOf_tag hend
  have hlt : '<' ∉ space := fun hmem => absurd (hspace '<' hmem) (by decide)
  simp [hname, hlt]

theorem WritesRequired.notMem {required : List (String × String)} {inner : List Char}
    (h : WritesRequired required inner) {c : Char} (hc : c ∈ ['<', '>']) : c ∉ inner := by
  obtain ⟨_, _, -, -, hwrites⟩ := h
  exact notMem_of_writes hwrites hc

/-- An element is its opening tag, its content, and its closing tag or nothing if it closes
itself. -/
theorem exists_of_element {name : String} {required : List (String × String)}
    {content : List Char → Prop} (h : WritesElement name required content s)
    (hlt : '<' ∉ name.toList) :
    ∃ inner last body ending, s = openingTag name (inner ++ last) ++ (body ++ ending) ∧
      WritesRequired required inner ∧ content body ∧ HasTagsOf ["/"] ending ∧
      (last = [] ∨ last = ['/'] ∧ body = []) := by
  cases h with
  | @closed inner hinner hcontent =>
    exact ⟨inner, ['/'], [], [], by simp, hinner, hcontent, hasTagsOf_of_notMem (by simp),
      Or.inr ⟨rfl, rfl⟩⟩
  | @filled inner body space hinner hcontent hspace =>
    exact ⟨inner, [], body, closingTag name space, by simp, hinner, hcontent,
      hasTagsOf_closingTag hlt hspace List.mem_cons_self, Or.inl rfl⟩

/-- The tags of an element are its own and those of its content. -/
theorem hasTagsOf_element {name : String} {required : List (String × String)}
    {content : List Char → Prop} (h : WritesElement name required content s)
    (hlt : '<' ∉ name.toList) (hname : name ∈ names) (hend : "/" ∈ names)
    (hcontent : ∀ body, content body → HasTagsOf names body) : HasTagsOf names s := by
  obtain ⟨inner, last, body, ending, rfl, hinner, hbody, hending, hlast⟩ := exists_of_element h hlt
  refine hasTagsOf_append ?_ (hasTagsOf_append (hcontent body hbody)
    (hending.mono (by simpa using hend)))
  apply hasTagsOf_tag hname
  have hslash : '<' ∉ last := by
    rcases hlast with rfl | ⟨rfl, -⟩ <;> decide
  simp [hlt, hinner.notMem, hslash]

theorem WritesRequired.ends_tag {required : List (String × String)} {inner : List Char}
    (h : WritesRequired required inner) {last : List Char} (hlast : last = [] ∨ last = ['/'])
    (rest : List Char) :
    '>' ∉ inner ++ last ∧ startsWord (inner ++ last ++ '>' :: rest) = false := by
  have hend : '>' ∉ inner := h.notMem (by decide)
  obtain ⟨_, _, -, -, hwrites⟩ := h
  rw [List.append_assoc]
  rcases hlast with rfl | rfl
  · exact ⟨by simpa using hend, startsWord_of_writes hwrites (show isWord '>' = false by decide)⟩
  · exact ⟨by simp [hend], startsWord_of_writes hwrites (show isWord '/' = false by decide)⟩

/-- A scan for tags of a name finds one in a text and passes over the rest of it, and what it finds
has a property, also if text and closing tags follow up to the next find. -/
def IsFoundAs (name : String) (P : List Char × List Char → Prop) (s : List Char) : Prop :=
  ∃ inner body,
    (∀ rest, sectionsFrom (readTag name) 0 (s ++ rest) =
      ([], (inner, body ++ (sectionsFrom (readTag name) 0 rest).1) ::
        (sectionsFrom (readTag name) 0 rest).2)) ∧
    ∀ text, HasTagsOf ["/"] text → P (inner, body ++ text)

/-- An element is found by its name if no tag in its content is. -/
theorem isFoundAs_element {name : String} {required : List (String × String)}
    {content : List Char → Prop} {P : List Char × List Char → Prop}
    (h : WritesElement name required content s) (hlt : '<' ∉ name.toList)
    (hcontent : ∀ body, content body → IsQuiet (readTag name) body)
    (hending : ∀ ending, HasTagsOf ["/"] ending → IsQuiet (readTag name) ending)
    (hP : ∀ inner last body text, WritesRequired required inner →
      (last = [] ∨ last = ['/'] ∧ body = []) → content body → HasTagsOf ["/"] text →
      P (inner ++ last, body ++ text)) : IsFoundAs name P s := by
  obtain ⟨inner, last, body, ending, rfl, hinner, hbody, hends, hlast⟩ := exists_of_element h hlt
  refine ⟨inner ++ last, body ++ ending, ?_, ?_⟩
  · intro rest
    have hne : openingTag name (inner ++ last) ≠ [] := List.cons_ne_nil _ _
    have htag := hinner.ends_tag (hlast.imp_right And.left) (body ++ (ending ++ rest))
    rw [List.append_assoc, List.append_assoc,
      sectionsFrom_found hne (readTag_openingTag htag.1 htag.2), hcontent body hbody,
      hending ending hends, List.append_assoc]
  · intro text htext
    rw [List.append_assoc]
    exact hP inner last body _ hinner hlast hbody (hasTagsOf_append hends htext)

end FilterBar.Markup
