set_option autoImplicit false

/-!
Reading the words of a command line. An option may stand before or after the name of the command;
the words after the name that are no options are its operands. `Reading.step` takes one word at a
time.
-/

namespace Replay.CommandLine

inductive Arity where
  | flag
  | single
  | repeated
  deriving DecidableEq, Repr

structure Opt where
  name : String
  letter : Option Char := none
  arity : Arity
  admits : String → Bool := fun _ => true
  about : String := ""
  valueName : String := ""
  substitute : Option String := none
  required : Bool := false

structure CommandForm where
  name : String
  options : List Opt
  operands : Nat
  about : String
  operandAbout : String := ""

structure Grammar where
  shared : List Opt
  commands : List CommandForm

/-- Why reading ends without a command to run. -/
inductive Stop where
  | misuse
  | help (command : Option String)
  | version
  deriving DecidableEq, Repr

/-- An option as given, with an empty value for a flag. -/
structure Given where
  name : String
  value : String
  deriving DecidableEq, Repr

structure Reading where
  command : Option CommandForm := none
  before : List Given := []
  after : List Given := []
  operands : List String := []
  pending : Option Opt := none
  trailing : Bool := false
  /-- The commands to explain, once help has been asked for in place of a command. -/
  topics : Option (List String) := none

namespace Reading

/-- The options given on the same side of the name of the command as the next word. -/
def given (r : Reading) : List Given := if r.command.isSome then r.after else r.before

def addGiven (r : Reading) (g : Given) : Reading :=
  if r.command.isSome then { r with after := r.after ++ [g], pending := none }
  else { r with before := r.before ++ [g], pending := none }

def options (r : Reading) (g : Grammar) : List Opt :=
  g.shared ++ (r.command.map (·.options)).getD []

def take (r : Reading) (o : Opt) (value : String) : Except Stop Reading :=
  if o.arity ≠ .repeated ∧ r.given.any (·.name == o.name) then .error .misuse
  else if o.admits value then .ok (r.addGiven ⟨o.name, value⟩)
  else .error .misuse

def open? (r : Reading) (o : Opt) (attached : Option String) : Except Stop Reading :=
  match o.arity, attached with
  | .flag, some _ => .error .misuse
  | .flag, none => r.take o ""
  | _, some value => r.take o value
  | _, none => .ok { r with pending := some o }

def splitValue (s : List Char) : List Char × Option String :=
  match s.dropWhile (· != '=') with
  | [] => (s, none)
  | _ :: value => (s.takeWhile (· != '='), some (String.ofList value))

/-- The version can be asked for before the name of the command only. -/
def question? (r : Reading) (isHelp isVersion : Bool) : Option Stop :=
  if isHelp then some (.help (r.command.map (·.name)))
  else if isVersion && r.command.isNone then some .version
  else none

def long (g : Grammar) (r : Reading) (s : List Char) : Except Stop Reading :=
  let (name, attached) := splitValue s
  let name := String.ofList name
  match (r.options g).find? (·.name == name), r.question? (name == "help") (name == "version") with
  | some o, _ => r.open? o attached
  | none, some stop => .error (if attached.isSome then .misuse else stop)
  | none, none => .error .misuse

/-- Take the letters that follow one dash. What follows the letter of an option with a value is the
value. -/
def letters (g : Grammar) : Reading → List Char → Except Stop Reading
  | r, [] => .ok r
  | r, c :: s =>
    match (r.options g).find? (·.letter == some c), r.question? (c == 'h') (c == 'V') with
    | some o, _ =>
      if o.arity = .flag then do
        let r ← r.take o ""
        letters g r s
      else
        match s with
        | [] => r.open? o none
        | '=' :: value => r.open? o (some (String.ofList value))
        | value => r.open? o (some (String.ofList value))
    | none, some stop => .error stop
    | none, none => .error .misuse

def operand (g : Grammar) (r : Reading) (word : String) : Except Stop Reading :=
  match r.command with
  | some c =>
    if r.operands.length < c.operands ∧ word ≠ "" then
      .ok { r with operands := r.operands ++ [word] }
    else .error .misuse
  | none =>
    if r.trailing then .error .misuse
    else
      match g.commands.find? (·.name == word) with
      | some c => .ok { r with command := some c }
      | none => if word = "help" then .ok { r with topics := some [] } else .error .misuse

def topic (g : Grammar) (r : Reading) (earlier : List String) (word : String) :
    Except Stop Reading :=
  if earlier.isEmpty ∧ (word = "help" ∨ g.commands.any (·.name == word)) then
    .ok { r with topics := some [word] }
  else .error .misuse

/-- Take one word. A value must not begin with a dash, unless it is a dash alone. -/
def step (g : Grammar) (r : Reading) (word : String) : Except Stop Reading :=
  match r.topics, r.pending, word.toList with
  | some earlier, _, _ => r.topic g earlier word
  | none, none, chars =>
    if r.trailing then r.operand g word
    else
      match chars with
      | ['-', '-'] => .ok { r with trailing := true }
      | '-' :: '-' :: s => r.long g s
      | '-' :: c :: s => r.letters g (c :: s)
      | _ => r.operand g word
  | none, some _, '-' :: _ :: _ => .error .misuse
  | none, some o, _ => r.take o word

def value? (r : Reading) (name : String) : Option String :=
  (r.after.find? (·.name == name)).map (·.value)

def values (r : Reading) (name : String) : List String :=
  (r.after.filter (·.name == name)).map (·.value)

def flag (r : Reading) (name : String) : Bool := r.after.any (·.name == name)

end Reading

/-- Read all words. No option may be left without its value. -/
def read (g : Grammar) (words : List String) : Except Stop Reading := do
  let r ← words.foldlM (Reading.step g) {}
  if let some topics := r.topics then throw (.help topics.head?)
  if r.pending.isSome || r.command.isNone then throw .misuse
  return r

end Replay.CommandLine
