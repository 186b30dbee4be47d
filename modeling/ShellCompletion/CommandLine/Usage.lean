import ShellCompletion.CommandLine.Invocation
import ShellCompletion.CommandLine.Number
import ShellCompletion.Text.Search

/-!
# Reading arguments

A command takes options, by name, and operands. How it takes them is data: a `Usage` lists the
options with the values they take and says where operands may stand. Arguments are read one after
the other, and the first that is wrong or asks for help ends the reading.
-/

namespace ShellCompletion.CommandLine

/-! ## The looks of an argument -/

/-- An argument by its looks. -/
inductive Argument where
  /-- Two dashes alone. -/
  | dashes
  /-- Two dashes and a name, perhaps with a value behind an equals sign. -/
  | long (name : String) (value : Option String)
  /-- A dash and letters. -/
  | letters (letters : List Char)
  /-- Anything else; a dash alone too. -/
  | plain
  deriving DecidableEq, Repr

/-- The looks of an argument. -/
def Argument.ofText (text : String) : Argument :=
  match text.toList with
  | ['-', '-'] => dashes
  | '-' :: '-' :: cs =>
    match Text.cutAtFirst? '=' cs with
    | some (name, value) => long (.ofList name) (some (.ofList value))
    | none => long (.ofList cs) none
  | '-' :: c :: cs => letters (c :: cs)
  | _ => plain

/-! ## Switches of every command -/

/-- A switch that has a letter and a name. -/
inductive Switch where
  /-- Tell more on the way. What is printed and written is the same. -/
  | verbose
  /-- Show help. -/
  | help
  /-- Show the version. -/
  | version
  deriving DecidableEq, Repr

namespace Switch

/-- The letter of a switch. -/
def letter : Switch → Char
  | verbose => 'v'
  | help => 'h'
  | version => 'V'

/-- The name of a switch. -/
def name : Switch → String
  | verbose => "verbose"
  | help => "help"
  | version => "version"

/-- The switches before the name of a command. -/
def outer : List Switch :=
  [verbose, help, version]

/-- The switches behind the name of a command. -/
def inner : List Switch :=
  [verbose, help]

/-- Sets a switch. `verbose` tells whether that switch is set already, for it may be set once. -/
def set (given : Bool) : Switch → Except Stop Bool
  | verbose => if given then .error .misuse else .ok true
  | help => .error .help
  | version => .error .version

/-- Sets the switches of letters, one after the other. -/
def setLetters (known : List Switch) (given : Bool) : List Char → Except Stop Bool
  | [] => .ok given
  | c :: cs =>
    match known.find? (·.letter = c) with
    | some switch => do setLetters known (← switch.set given) cs
    | none => .error .misuse

end Switch

/-! ## Commands -/

/-- What the value of an option must be. -/
inductive ValueRule where
  /-- A text. -/
  | text
  /-- A text that may look like an option, whatever it looks like. -/
  | anyText
  /-- A path: a text that is not empty. -/
  | path
  /-- A number of 64 bits. -/
  | word64
  /-- A number of 32 bits. -/
  | word32
  deriving DecidableEq, Repr

/-- A text is such a value. -/
def ValueRule.accepts : ValueRule → String → Bool
  | text, _ | anyText, _ => true
  | path, value => value ≠ ""
  | word64, value => (word64? value).isSome
  | word32, value => (word32? value).isSome

/-- An option of a command. -/
structure OptionRule where
  /-- The name. -/
  name : String
  /-- What its value must be. An option without a value is a switch. -/
  value : Option ValueRule := none
  deriving DecidableEq, Repr

/-- Where the operands of a command may stand. -/
inductive OperandRule where
  /-- There are none. -/
  | nowhere
  /-- Paths stand anywhere between the options. -/
  | paths
  /-- All that follows the first operand is an operand. What looks like an option that the command
  does not know is an operand too. -/
  | toTheEnd
  /-- They stand only behind two dashes. -/
  | behindDashes
  deriving DecidableEq, Repr

/-- How the arguments of a command are read. -/
structure Usage where
  /-- The options. -/
  options : List OptionRule
  /-- The place of the operands. -/
  operands : OperandRule

/-- How the next argument is to be read. -/
inductive Expectation where
  /-- As an option or an operand. -/
  | anything
  /-- As the value of an option. -/
  | valueOf (name : String) (rule : ValueRule)
  /-- As an operand. -/
  | operand
  deriving DecidableEq, Repr

/-- What has been read. -/
structure Reading where
  /-- How the next argument is to be read. -/
  next : Expectation := .anything
  /-- The switch for telling more is set. -/
  verbose : Bool := false
  /-- The options, each with its value; the value of a switch is empty. -/
  options : List (String × String) := []
  /-- The operands, in order. -/
  operands : List String := []
  deriving DecidableEq, Repr

namespace Reading

/-- The value of an option. -/
def value? (reading : Reading) (name : String) : Option String :=
  reading.options.lookup name

/-- An option is given. -/
def has (reading : Reading) (name : String) : Bool :=
  (reading.value? name).isSome

/-- Takes an option with its value. An option may be given once. -/
def addOption (reading : Reading) (name value : String) : Except Stop Reading :=
  if reading.has name then .error .misuse
  else .ok { reading with next := .anything, options := reading.options ++ [(name, value)] }

/-- Takes the value of an option. -/
def addValue (reading : Reading) (name : String) (rule : ValueRule) (value : String) :
    Except Stop Reading :=
  if rule.accepts value then reading.addOption name value else .error .misuse

/-- Takes an operand, and goes on as told. -/
def addOperand (reading : Reading) (operand : String) (next : Expectation) : Reading :=
  { reading with next, operands := reading.operands ++ [operand] }

end Reading

namespace Usage

/-- The command knows an argument by its looks. -/
def knows (usage : Usage) : Argument → Bool
  | .dashes => true
  | .long name _ => Switch.inner.any (·.name = name) || usage.options.any (·.name = name)
  | .letters letters => letters.all fun c => Switch.inner.any (·.letter = c)
  | .plain => false

/-- An argument may be an operand, or the value of the option before it, by its looks. -/
def admits (usage : Usage) : Argument → Bool
  | .plain => true
  | argument => usage.operands = .toTheEnd && !usage.knows argument

/-- Takes an operand. -/
def takeOperand (usage : Usage) (reading : Reading) (operand : String) : Except Stop Reading :=
  match usage.operands with
  | .nowhere => .error .misuse
  | .paths =>
    if operand = "" then .error .misuse else .ok (reading.addOperand operand reading.next)
  | .toTheEnd => .ok (reading.addOperand operand .operand)
  | .behindDashes =>
    if reading.next = .operand then .ok (reading.addOperand operand .operand)
    else .error .misuse

/-- Takes an option by its name, perhaps with a value. -/
def takeLong (usage : Usage) (reading : Reading) (name : String) (value : Option String) :
    Except Stop Reading :=
  match Switch.inner.find? (·.name = name), usage.options.find? (·.name = name), value with
  | some switch, _, none => do return { reading with verbose := ← switch.set reading.verbose }
  | none, some ⟨_, none⟩, none => reading.addOption name ""
  | none, some ⟨_, some rule⟩, some value => reading.addValue name rule value
  | none, some ⟨_, some rule⟩, none => .ok { reading with next := .valueOf name rule }
  | _, _, _ => .error .misuse

/-- Takes the next argument. -/
def take (usage : Usage) (reading : Reading) (text : String) : Except Stop Reading :=
  let argument := Argument.ofText text
  match reading.next with
  | .operand => usage.takeOperand reading text
  | .valueOf name rule =>
    if rule = .anyText ∨ usage.admits argument then reading.addValue name rule text
    else .error .misuse
  | .anything =>
    if usage.admits argument then usage.takeOperand reading text
    else
      match argument with
      | .dashes => .ok { reading with next := .operand }
      | .letters letters => do
        return { reading with verbose := ← Switch.setLetters Switch.inner reading.verbose letters }
      | .long name value => usage.takeLong reading name value
      | .plain => .error .misuse

/-- Reads all arguments. -/
def read (usage : Usage) (arguments : List String) : Except Stop Reading := do
  let reading ← arguments.foldlM usage.take {}
  match reading.next with
  | .valueOf _ _ => .error .misuse
  | _ => return reading

end Usage

end ShellCompletion.CommandLine
