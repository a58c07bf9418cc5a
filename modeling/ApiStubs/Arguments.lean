import ApiStubs.FilePath

/-!
# Arguments — options and operands

The arguments of a command, read against its form: which options it knows, and which operands it
takes. An option stands as `--name value`, `--name=value` or, where it has a letter, as
`-l value`, `-lvalue` or `-l=value`. After the argument `--` everything is an operand.

A form without operands is that of a program with commands: its reading stops at the name of the
command and hands over the rest.
-/

namespace ApiStubs

/-- What a value may be. -/
inductive ValueKind
  | text
  /-- A path, which is not empty. -/
  | path
  deriving DecidableEq

/-- The value is of the kind. -/
def ValueKind.admits (kind : ValueKind) (value : String) : Bool := kind = .text || value ≠ ""

/-- An option with a value. -/
structure OptionRule where
  name : String
  letter? : Option Char := none
  value : ValueKind := .text
  /-- The option may be given more than once. -/
  repeats : Bool := false
  deriving DecidableEq

/-- Why the reading of arguments ends before its time. -/
inductive Interruption
  | help
  | version
  | misuse
  deriving DecidableEq

/-- A word that interrupts the reading. -/
structure Flag where
  name : String
  letter : Char
  meaning : Interruption
  deriving DecidableEq

/-- What a command understands. -/
structure CommandForm where
  options : List OptionRule := []
  flags : List Flag := []
  /-- The kinds of the operands, in order. -/
  operands : List ValueKind := []
  /-- The number of operands that must be there. -/
  required : Nat := 0

/-- An argument by its form alone. -/
inductive Argument
  | separator
  | long (name : String) (value? : Option String)
  | short (letter : Char) (value? : Option String)
  | operand (text : String)
  deriving DecidableEq

namespace Argument

/-- The form of a written argument. A single `-` is an operand. -/
def ofText (written : String) : Argument :=
  match written.toList with
  | ['-', '-'] => .separator
  | '-' :: '-' :: body =>
    let name := body.takeWhile (· ≠ '=')
    let value? := match body.dropWhile (· ≠ '=') with
      | [] => none
      | _ :: value => some (String.ofList value)
    .long (String.ofList name) value?
  | ['-', letter] => .short letter none
  | '-' :: letter :: '=' :: value => .short letter (some (String.ofList value))
  | '-' :: letter :: value => .short letter (some (String.ofList value))
  | _ => .operand written

/-- The argument can be the value of the option before it. -/
def isValue (written : String) : Bool :=
  match ofText written with
  | .operand _ => true
  | _ => false

end Argument

/-- The options and operands that were read. -/
structure Given where
  /-- The options by name with their values, in order. -/
  options : List (String × String) := []
  operands : List String := []
  deriving DecidableEq, Inhabited

namespace Given

/-- The values of an option, in order. -/
def values (given : Given) (name : String) : List String :=
  given.options.filterMap fun (other, value) => if other = name then some value else none

/-- The value of an option that is given at most once. -/
def value? (given : Given) (name : String) : Option String := (given.values name).head?

/-- The path that an option names. -/
def path? (given : Given) (name : String) : Option FilePath := (given.value? name).map .mk

end Given

namespace CommandForm

variable (form : CommandForm)

/-- What a word that starts with hyphens means. -/
inductive Meaning
  | interrupt (interruption : Interruption)
  | set (rule : OptionRule)

/-- The meaning of `--name`. -/
def meaningOfName (name : String) : Option Meaning :=
  match form.flags.find? (·.name = name) with
  | some flag => some (.interrupt flag.meaning)
  | none => (form.options.find? (·.name = name)).map .set

/-- The meaning of `-l`. -/
def meaningOfLetter (letter : Char) : Option Meaning :=
  match form.flags.find? (·.letter = letter) with
  | some flag => some (.interrupt flag.meaning)
  | none => (form.options.find? (·.letter? = some letter)).map .set

/-- Takes the value of an option. -/
def setOption (rule : OptionRule) (value : String) (given : Given) : Except Interruption Given :=
  if !rule.value.admits value then .error .misuse
  else if !rule.repeats && !(given.values rule.name).isEmpty then .error .misuse
  else .ok { given with options := given.options ++ [(rule.name, value)] }

/-- Takes an operand. -/
def addOperand (text : String) (given : Given) : Except Interruption Given :=
  match form.operands[given.operands.length]? with
  | none => .error .misuse
  | some kind =>
    if kind.admits text then .ok { given with operands := given.operands ++ [text] }
    else .error .misuse

/-- Reads the arguments one after the other; `pending?` is an option whose value comes next. -/
def readFrom (pending? : Option OptionRule) :
    List String → Given → Except Interruption (Given × List String)
  | [], given => if pending?.isSome then .error .misuse else .ok (given, [])
  | written :: rest, given =>
    match pending? with
    | some rule =>
      if Argument.isValue written then do
        readFrom none rest (← setOption rule written given)
      else .error .misuse
    | none =>
      match Argument.ofText written with
      | .separator => do
        return (← rest.foldlM (fun given text => form.addOperand text given) given, [])
      | .operand text =>
        if form.operands.isEmpty then .ok (given, written :: rest)
        else do readFrom none rest (← form.addOperand text given)
      | .long name value? =>
        match form.meaningOfName name, value? with
        | some (.interrupt interruption), none => .error interruption
        | some (.set rule), none => readFrom (some rule) rest given
        | some (.set rule), some value => do readFrom none rest (← setOption rule value given)
        | _, _ => .error .misuse
      | .short letter value? =>
        match form.meaningOfLetter letter, value? with
        | some (.interrupt interruption), _ => .error interruption
        | some (.set rule), none => readFrom (some rule) rest given
        | some (.set rule), some value => do readFrom none rest (← setOption rule value given)
        | none, _ => .error .misuse

/-- Reads arguments, and leaves those that are for a command. -/
def read (arguments : List String) : Except Interruption (Given × List String) := do
  let (given, rest) ← form.readFrom none arguments {}
  if given.operands.length < form.required then .error .misuse else return (given, rest)

end CommandForm

end ApiStubs
