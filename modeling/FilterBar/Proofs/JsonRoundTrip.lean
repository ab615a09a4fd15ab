import Mathlib.Data.List.Chain
import FilterBar.Json.Parser
import FilterBar.Proofs.JsonText

/-!
# Reading a JSON value back

The compact form of a value is read back as the value.  Its text is taken apart into its tokens,
since a number is followed by nothing or by punctuation.  The tokens are read in the place where a
value may come, whatever is open around it, and complete the value there; so arrays and objects are
built up item by item.
-/

namespace FilterBar.Json

/-! ## The text of tokens -/

def Token.isNumber : Token → Bool
  | number _ => true
  | _ => false

def Token.isPunctuation : Token → Bool
  | openArray | closeArray | openObject | closeObject | comma | colon => true
  | _ => false

/-- Each number is followed by nothing or by punctuation. -/
def IsSpaced (tokens : List Token) : Prop :=
  tokens.IsChain fun t u => t.isNumber = true → u.isPunctuation = true

/-- The written form of tokens. -/
def spell (tokens : List Token) : List Char :=
  tokens.flatMap Token.write

variable {t : Token} {tokens rest : List Token}

theorem IsSpaced.cons (h : IsSpaced tokens) (ht : t.isNumber = false) : IsSpaced (t :: tokens) := by
  refine List.IsChain.cons h ?_
  intro u _ hnumber
  rw [ht] at hnumber
  contradiction

theorem IsSpaced.before (h : IsSpaced tokens) (hu : ∀ u ∈ tokens.head?, u.isPunctuation = true) :
    IsSpaced (t :: tokens) :=
  List.IsChain.cons h fun u hmem _ => hu u hmem

/-- A token is read, whatever follows, and a number where what follows ends it. -/
theorem readToken?_write (t : Token) (s : List Char) (h : t.isNumber = true → EndsNumber s) :
    ∃ c body, t.write = c :: body ∧ isGap c = false ∧ readToken? c (body ++ s) = some (t, s) := by
  cases t with
  | number n => exact readToken?_writeNumeral n (h rfl)
  | text value =>
    obtain ⟨body, hwrite, hread⟩ := readToken?_writeText value s
    exact ⟨_, body, hwrite, rfl, hread⟩
  | bool b =>
    cases b with
    | true => exact ⟨_, _, rfl, rfl, rfl⟩
    | false => exact ⟨_, _, rfl, rfl, rfl⟩
  | _ => exact ⟨_, _, rfl, rfl, rfl⟩

theorem endsNumber_spell (h : ∀ u ∈ tokens.head?, u.isPunctuation = true) :
    EndsNumber (spell tokens) := by
  cases tokens with
  | nil => exact fun c hc => absurd hc (by simp [spell])
  | cons u tokens =>
    have hu := h u rfl
    intro c hc
    cases u with
    | null => contradiction
    | bool b => contradiction
    | number n => contradiction
    | text s => contradiction
    | _ =>
      obtain rfl := Option.some.inj hc
      decide

/-- Where numbers are set apart, the text of tokens is read as the tokens, within any limit that its
length is within. -/
theorem readTokens?_spell (h : IsSpaced tokens) {limit : Nat} (hlimit : (spell tokens).length ≤ limit) :
    readTokens? limit (spell tokens) = some tokens := by
  induction tokens generalizing limit with
  | nil =>
    cases limit with
    | zero => rfl
    | succ limit => rfl
  | cons t tokens ih =>
    obtain ⟨hnext, hspaced⟩ := List.isChain_cons.mp h
    obtain ⟨c, body, hwrite, hgap, hread⟩ := readToken?_write t (spell tokens) fun hnumber =>
      endsNumber_spell fun u hu => hnext u hu hnumber
    have hspell : spell (t :: tokens) = c :: (body ++ spell tokens) := by
      rw [spell, List.flatMap_cons, hwrite, List.cons_append]
      rfl
    rw [hspell] at hlimit ⊢
    cases limit with
    | zero => simp at hlimit
    | succ limit =>
      have hrest : readTokens? limit (spell tokens) = some tokens := by
        apply ih hspaced
        simp only [List.length_cons, List.length_append] at hlimit
        omega
      simp [readTokens?, hgap, hread, hrest]

/-! ## The tokens of a value -/

theorem isPunctuation_itemTokens (items : List Json) :
    ∀ u ∈ (itemTokens items ++ rest).head?, u.isPunctuation = true := by
  cases items with
  | nil => simp [itemTokens, Token.isPunctuation]
  | cons v items => simp [itemTokens, Token.isPunctuation]

theorem isPunctuation_memberTokens (members : List (Option String × Json)) :
    ∀ u ∈ (memberTokens members ++ rest).head?, u.isPunctuation = true := by
  cases members with
  | nil => simp [memberTokens, Token.isPunctuation]
  | cons member members => simp [memberTokens, Token.isPunctuation]

mutual

/-- The numbers in a value are set apart if what follows the value is punctuation. -/
theorem isSpaced_toTokens : (v : Json) → {rest : List Token} → IsSpaced rest →
    (∀ u ∈ rest.head?, u.isPunctuation = true) → IsSpaced (v.toTokens ++ rest)
  | .null, _, h, hnext => h.before hnext
  | .bool _, _, h, hnext => h.before hnext
  | .number _, _, h, hnext => h.before hnext
  | .text _, _, h, hnext => h.before hnext
  | .array [], _, h, _ => (h.cons rfl).cons rfl
  | .array (v :: items), _, h, _ => by
    have hitems := isSpaced_toTokens v (isSpaced_itemTokens items h) (isPunctuation_itemTokens items)
    rw [toTokens, List.cons_append, List.append_assoc]
    exact hitems.cons rfl
  | .object [], _, h, _ => (h.cons rfl).cons rfl
  | .object ((_, v) :: members), _, h, _ => by
    have hmembers := isSpaced_toTokens v (isSpaced_memberTokens members h)
      (isPunctuation_memberTokens members)
    rw [toTokens, List.cons_append, List.cons_append, List.cons_append, List.append_assoc]
    exact ((hmembers.cons rfl).cons rfl).cons rfl

theorem isSpaced_itemTokens : (items : List Json) → {rest : List Token} → IsSpaced rest →
    IsSpaced (itemTokens items ++ rest)
  | [], _, h => h.cons rfl
  | v :: items, _, h => by
    have hitems := isSpaced_toTokens v (isSpaced_itemTokens items h) (isPunctuation_itemTokens items)
    rw [itemTokens, List.cons_append, List.append_assoc]
    exact hitems.cons rfl

theorem isSpaced_memberTokens : (members : List (Option String × Json)) → {rest : List Token} →
    IsSpaced rest → IsSpaced (memberTokens members ++ rest)
  | [], _, h => h.cons rfl
  | (_, v) :: members, _, h => by
    have hmembers := isSpaced_toTokens v (isSpaced_memberTokens members h)
      (isPunctuation_memberTokens members)
    rw [memberTokens, List.cons_append, List.cons_append, List.cons_append, List.append_assoc]
    exact ((hmembers.cons rfl).cons rfl).cons rfl

end

/-! ## Reading the tokens of a value -/

namespace State

variable {stack : List Frame}

theorem run?_cons {s next : State} (h : s.step? t = some next) :
    s.run? (t :: rest) = next.run? rest := by
  rw [run?, h, Option.bind_some]

/-- Behind an opening bracket a value is read as the first item. -/
theorem run?_opened (v : Json) :
    (opened stack).run? (v.toTokens ++ rest) =
      (value (.item [] :: stack)).run? (v.toTokens ++ rest) := by
  cases v with
  | array items => cases items <;> rfl
  | object members => cases members <;> rfl
  | _ => rfl

end State

mutual

/-- The tokens of a value complete it in its place. -/
theorem run?_toTokens : (v : Json) → (stack : List Frame) → (rest : List Token) →
    (State.value stack).run? (v.toTokens ++ rest) = (State.complete v stack).run? rest
  | .null, _, _ => rfl
  | .bool _, _, _ => rfl
  | .number _, _, _ => rfl
  | .text _, _, _ => rfl
  | .array [], _, _ => rfl
  | .array (v :: items), stack, rest => by
    rw [toTokens, List.cons_append, List.append_assoc, State.run?_cons rfl, State.run?_opened,
      run?_toTokens v, State.complete, run?_itemTokens items [v]]
    rfl
  | .object [], _, _ => rfl
  | .object ((name, v) :: members), stack, rest => by
    rw [toTokens, List.cons_append, List.cons_append, List.cons_append, List.append_assoc,
      State.run?_cons rfl, State.run?_cons rfl, State.run?_cons rfl, run?_toTokens v, State.complete,
      run?_memberTokens members [(name, v)]]
    rfl

theorem run?_itemTokens : (items read : List Json) → (stack : List Frame) → (rest : List Token) →
    (State.array read stack).run? (itemTokens items ++ rest) =
      (State.complete (.array (read.reverse ++ items)) stack).run? rest
  | [], read, stack, rest => by
    rw [itemTokens, List.append_nil]
    rfl
  | v :: items, read, stack, rest => by
    rw [itemTokens, List.cons_append, List.append_assoc, State.run?_cons rfl, run?_toTokens v,
      State.complete, run?_itemTokens items (v :: read), List.reverse_cons, List.append_assoc]
    rfl

theorem run?_memberTokens : (members read : List (Option String × Json)) → (stack : List Frame) →
    (rest : List Token) →
    (State.object read stack).run? (memberTokens members ++ rest) =
      (State.complete (.object (read.reverse ++ members)) stack).run? rest
  | [], read, stack, rest => by
    rw [memberTokens, List.append_nil]
    rfl
  | (name, v) :: members, read, stack, rest => by
    rw [memberTokens, List.cons_append, List.cons_append, List.cons_append, List.append_assoc,
      State.run?_cons rfl, State.run?_cons rfl, State.run?_cons rfl, run?_toTokens v, State.complete,
      run?_memberTokens members ((name, v) :: read), List.reverse_cons, List.append_assoc]
    rfl

end

theorem ofTokens?_toTokens (v : Json) : ofTokens? v.toTokens = some v := by
  have hrun := run?_toTokens v [] []
  rw [List.append_nil] at hrun
  rw [ofTokens?, hrun]
  rfl

/-- The compact form of a value is read back as the value. -/
theorem parse?_compact (v : Json) : parse? v.compact = some v := by
  have hspaced : IsSpaced (v.toTokens ++ []) := isSpaced_toTokens v List.IsChain.nil nofun
  rw [List.append_nil] at hspaced
  have htokens : tokens? (spell v.toTokens) = some v.toTokens := readTokens?_spell hspaced le_rfl
  rw [spell] at htokens
  rw [parse?, compact, String.toList_ofList, htokens, Option.bind_some, ofTokens?_toTokens]

end FilterBar.Json
