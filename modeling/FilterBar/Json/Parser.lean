import FilterBar.Json.Token

/-!
# Reading JSON

A machine that reads the tokens of one value.  It keeps the arrays and objects that are open around
the place where it reads, so nesting is bounded by nothing but the text.
-/

namespace FilterBar.Json

/-- An array or object that is open, with what it holds so far in reverse order. -/
inductive Frame where
  | item (items : List Json)
  /-- An object whose member with this name is being read. -/
  | member (members : List (Option String × Json)) (name : Option String)

/-- What has been read, and so what may come next. -/
inductive State where
  | value (stack : List Frame)
  | opened (stack : List Frame)
  | array (items : List Json) (stack : List Frame)
  | openedObject (stack : List Frame)
  | name (members : List (Option String × Json)) (stack : List Frame)
  | named (members : List (Option String × Json)) (name : Option String) (stack : List Frame)
  | object (members : List (Option String × Json)) (stack : List Frame)
  | done (value : Json)

namespace State

def complete (v : Json) : List Frame → State
  | [] => done v
  | .item items :: stack => array (v :: items) stack
  | .member members s :: stack => object ((s, v) :: members) stack

def begin? (stack : List Frame) : Token → Option State
  | .openArray => some (opened stack)
  | .openObject => some (openedObject stack)
  | .null => some (complete .null stack)
  | .bool b => some (complete (.bool b) stack)
  | .number n => some (complete (.number n) stack)
  | .text s => some (complete (.text s) stack)
  | _ => none

/-- The state after a token, if it may come next. -/
def step? : State → Token → Option State
  | value stack, t => begin? stack t
  | opened stack, .closeArray => some (complete (.array []) stack)
  | opened stack, t => begin? (.item [] :: stack) t
  | array items stack, .comma => some (value (.item items :: stack))
  | array items stack, .closeArray => some (complete (.array items.reverse) stack)
  | openedObject stack, .closeObject => some (complete (.object []) stack)
  | openedObject stack, .text s => some (named [] s stack)
  | name members stack, .text s => some (named members s stack)
  | named members s stack, .colon => some (value (.member members s :: stack))
  | object members stack, .comma => some (name members stack)
  | object members stack, .closeObject => some (complete (.object members.reverse) stack)
  | _, _ => none

def run? (s : State) : List Token → Option State
  | [] => some s
  | t :: rest => (s.step? t).bind fun s => s.run? rest

end State

def ofTokens? (tokens : List Token) : Option Json :=
  match (State.value []).run? tokens with
  | some (.done v) => some v
  | _ => none

/-- The value that a text spells. -/
def parse? (s : String) : Option Json :=
  (tokens? s.toList).bind ofTokens?

end FilterBar.Json
