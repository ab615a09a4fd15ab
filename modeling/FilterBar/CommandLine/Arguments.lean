/-!
# Command-line arguments

What the arguments of the program ask for.  Without a command the program greets; a command has
operands, switches and perhaps an option with a value.  Arguments are read from the left, and the
first one that asks for help or is in error decides; what is missing is found at the end.
-/

namespace FilterBar.CommandLine

inductive Request where
  | greet (name : Option String)
  | summarize (directory : Option String) (onBuildServer onlyErrors : Bool)
  | decode (view query : String) (flat : Bool)
  | keys (view : String) (asJson : Bool)
  deriving DecidableEq, Repr

inductive Command where
  | summarize
  | decode
  | keys
  deriving DecidableEq, Repr

/-- What arguments ask for. -/
inductive Reading where
  | request (request : Request)
  /-- Help about the program or about one of its commands. -/
  | help (command : Option Command)
  | version
  | usage
  deriving DecidableEq, Repr

namespace Command

def all : List Command :=
  [summarize, decode, keys]

def name : Command → String
  | summarize => "generateTestReportSummary"
  | decode => "decode"
  | keys => "keys"

/-- The command with a name; case matters. -/
def ofName? (text : String) : Option Command :=
  all.find? (·.name = text)

end Command

/-- The arguments that a command, or the program without one, takes. -/
structure Shape where
  command : Option Command
  operands : Nat
  /-- Whether an operand may be empty. -/
  takesEmpty : Bool := true
  switches : List String := []
  /-- The letter and the name of an option, and the values it takes. -/
  option : Option (Char × String × List String) := none
  hasVersion : Bool := false

structure Arguments where
  operands : List String := []
  switches : List String := []
  option : Option String := none
  deriving DecidableEq, Repr

def Arguments.addOperand (s : Shape) (a : Arguments) (operand : String) :
    Except Reading Arguments :=
  if a.operands.length < s.operands ∧ (s.takesEmpty ∨ operand ≠ "") then
    .ok { a with operands := a.operands ++ [operand] }
  else .error .usage

def Arguments.addSwitch (s : Shape) (a : Arguments) (switch : String) : Except Reading Arguments :=
  if s.switches.contains switch ∧ !a.switches.contains switch then
    .ok { a with switches := a.switches ++ [switch] }
  else .error .usage

def Arguments.setOption (s : Shape) (a : Arguments) (value : String) : Except Reading Arguments :=
  match s.option, a.option with
  | some (_, _, values), none =>
    if values.contains value then .ok { a with option := some value } else .error .usage
  | _, _ => .error .usage

inductive Argument where
  | operand (text : String)
  /-- What follows are operands. -/
  | endOfOptions
  | long (name : String) (value : Option String)
  | short (letter : Char) (rest : List Char)
  deriving DecidableEq, Repr

/-- The kind of an argument; a hyphen alone is an operand. -/
def Argument.of (text : String) : Argument :=
  match text.toList with
  | ['-', '-'] => endOfOptions
  | '-' :: '-' :: rest =>
    match rest.dropWhile (· != '=') with
    | [] => long (String.ofList rest) none
    | _ :: value => long (String.ofList (rest.takeWhile (· != '='))) (some (String.ofList value))
  | '-' :: letter :: rest => short letter rest
  | _ => operand text

/-- The value that is written together with the letter of an option. -/
def attachedValue? : List Char → Option String
  | [] => none
  | '=' :: value => some (String.ofList value)
  | value => some (String.ofList value)

/-- What an argument does to those read before it; true stands for an option whose value is to come
next. -/
def Arguments.add (s : Shape) (a : Arguments) (argument : Argument) :
    Except Reading (Arguments × Bool) :=
  match argument with
  | .operand text => (a.addOperand s text).map (·, false)
  | .endOfOptions => .ok (a, false)
  | .long name value =>
    if (s.option.map (·.2.1)) = some name then
      match value with
      | some value => (a.setOption s value).map (·, false)
      | none => .ok (a, true)
    else if value.isSome then .error .usage
    else if name = "help" then .error (.help s.command)
    else if name = "version" ∧ s.hasVersion then .error .version
    else (a.addSwitch s name).map (·, false)
  | .short letter rest =>
    if (s.option.map (·.1)) = some letter then
      match attachedValue? rest with
      | some value => (a.setOption s value).map (·, false)
      | none => .ok (a, true)
    else if letter = 'h' then .error (.help s.command)
    else if letter = 'v' ∧ s.hasVersion then .error .version
    else .error .usage

def readOperands (s : Shape) (a : Arguments) : List String → Except Reading Arguments
  | [] => .ok a
  | text :: rest => do readOperands s (← a.addOperand s text) rest

def readArguments (s : Shape) (a : Arguments) : List String → Except Reading Arguments
  | [] => .ok a
  | text :: rest =>
    if Argument.of text = .endOfOptions then readOperands s a rest
    else
      match a.add s (.of text), rest with
      | .error reading, _ => .error reading
      | .ok (a, false), rest => readArguments s a rest
      | .ok (_, true), [] => .error .usage
      | .ok (a, true), value :: rest =>
        match Argument.of value with
        | .operand value =>
          match a.setOption s value with
          | .error reading => .error reading
          | .ok a => readArguments s a rest
        | _ => .error .usage

def programShape : Shape where
  command := none
  operands := 1
  hasVersion := true

def Command.shape : Command → Shape
  | summarize =>
    { command := some summarize, operands := 1, takesEmpty := false,
      switches := ["ci", "only-errors"] }
  | decode => { command := some decode, operands := 2, switches := ["legacy"] }
  | keys =>
    { command := some keys, operands := 1, option := some ('o', "output", ["human", "json"]) }

def Command.request? (a : Arguments) : Command → Option Request
  | summarize =>
    some (.summarize a.operands.head? (a.switches.contains "ci") (a.switches.contains "only-errors"))
  | decode =>
    match a.operands with
    | [view, query] => some (.decode view query (a.switches.contains "legacy"))
    | _ => none
  | keys =>
    match a.operands with
    | [view] => some (.keys view (a.option == some "json"))
    | _ => none

def Command.read (c : Command) (arguments : List String) : Reading :=
  match readArguments c.shape {} arguments with
  | .error reading => reading
  | .ok a => ((c.request? a).map Reading.request).getD .usage

/-- What the arguments of the help command ask for: help about the program, or about a command. -/
def readHelp : List String → Reading
  | [] => .help none
  | [name] =>
    match Command.ofName? name with
    | some c => .help (some c)
    | none => if name = "help" then .help none else .usage
  | _ => .usage

/-- What the arguments of the program ask for.  A command is the first argument. -/
def read (arguments : List String) : Reading :=
  let plain :=
    match readArguments programShape {} arguments with
    | .error reading => reading
    | .ok a => .request (.greet a.operands.head?)
  match arguments with
  | [] => plain
  | first :: rest =>
    match Command.ofName? first with
    | some c => c.read rest
    | none => if first = "help" then readHelp rest else plain

end FilterBar.CommandLine
