import InvoiceXml.Text.Split

/-!
# Options and operands

The arguments of a command are options and operands in any order; after two hyphens there are only operands.
An option has a name after two hyphens, and it may have a letter after one. Its value follows an equals sign,
or directly the letter, or is the next argument, which then must not look like an option. No option is given
twice, and the name of a file is never empty.

Arguments are read from the left, so an option that asks for help counts only if all arguments before it are
in order.
-/

namespace InvoiceXml.CommandLine

/-- What an option takes. -/
inductive Taking where
  | nothing
  | text
  | file
deriving DecidableEq, Repr

/-- An option of a command. -/
structure OptionForm where
  name : String
  letter : Option Char := none
  taking : Taking := .nothing
  summary : String
deriving DecidableEq, Repr

/-- The option that asks for help. -/
def helpOption : OptionForm := { name := "help", letter := some 'h', summary := "Print help" }

/-- The option that asks for the version. -/
def versionOption : OptionForm := { name := "version", letter := some 'V', summary := "Print version" }

/-- What has been read: the options with their values, and the operands. -/
structure Given where
  values : List (String × String) := []
  operands : List String := []
deriving DecidableEq, Repr

namespace Given

/-- The value of an option. -/
def value? (given : Given) (name : String) : Option String := given.values.lookup name

/-- Whether an option is given. -/
def has (given : Given) (name : String) : Bool := (given.value? name).isSome

end Given

/-- Where reading stops. -/
inductive Reading where
  /-- All arguments are read. -/
  | finished (given : Given)
  /-- The operand is the name of a command, whose arguments follow. -/
  | command (given : Given) (name : String) (rest : List String)
  | help
  | version
  | misuse
deriving DecidableEq, Repr

/-- What a command takes. -/
structure Form where
  options : List OptionForm
  /-- How many operands there may be. -/
  operands : Nat
  /-- The first operand is the name of a command. -/
  hasCommands : Bool := false

namespace Form

/-- Whether an argument looks like an option. -/
def looksLikeOption (argument : String) : Bool :=
  match argument.toList with
  | '-' :: _ :: _ => true
  | _ => false

/-- Whether a value may be given to an option. -/
def accepts (option : OptionForm) (value : String) : Bool := option.taking ≠ .file || value ≠ ""

/-- The option of a name. -/
def named? (form : Form) (name : String) : Option OptionForm :=
  form.options.find? fun option => option.name = name

/-- The option of a letter. -/
def lettered? (form : Form) (letter : Char) : Option OptionForm :=
  form.options.find? fun option => option.letter = some letter

/-- An option with a value, unless it is given already or does not accept the value. -/
def give (option : OptionForm) (value : String) (given : Given) : Option Given :=
  if given.has option.name || !accepts option value then none
  else some { given with values := given.values ++ [(option.name, value)] }

/-- The option that an argument names, and the value that it has in the same argument. What follows the
letter of an option that takes nothing is not looked at. -/
def optionOf? (form : Form) (argument : String) : Option (OptionForm × Option String) :=
  match argument.toList with
  | '-' :: '-' :: name =>
    match Text.cutAtFirst '=' name with
    | some (name, value) =>
      (form.named? (String.ofList name)).map fun option => (option, some (String.ofList value))
    | none => (form.named? (String.ofList name)).map fun option => (option, none)
  | '-' :: letter :: value =>
    (form.lettered? letter).map fun option =>
      (option, match option.taking, value with
        | .nothing, _ | _, [] => none
        | _, '=' :: value => some (String.ofList value)
        | _, value => some (String.ofList value))
  | _ => none

/-- One more operand, unless there are enough. -/
def addOperand (form : Form) (operand : String) (given : Given) : Option Given :=
  if form.operands ≤ given.operands.length ∨ operand = "" then none
  else some { given with operands := given.operands ++ [operand] }

/-- Reads arguments after two hyphens. -/
def readOperands (form : Form) : List String → Given → Reading
  | [], given => .finished given
  | argument :: rest, given =>
    match form.addOperand argument given with
    | some given => readOperands form rest given
    | none => .misuse

/-- Reads arguments. An option that waits for its value takes the next argument. -/
def read (form : Form) : (waiting : Option OptionForm) → List String → Given → Reading
  | none, [], given => .finished given
  | some _, [], _ => .misuse
  | some option, argument :: rest, given =>
    if looksLikeOption argument then .misuse
    else match give option argument given with
      | some given => read form none rest given
      | none => .misuse
  | none, argument :: rest, given =>
    if argument = "--" then
      readOperands { form with operands := if form.hasCommands then 0 else form.operands } rest given
    else if looksLikeOption argument then
      match form.optionOf? argument with
      | none => .misuse
      | some (option, value) =>
        match option.taking, value with
        | .nothing, some _ => .misuse
        | .nothing, none =>
          if option.name = helpOption.name then .help
          else if option.name = versionOption.name then .version
          else match give option "" given with
            | some given => read form none rest given
            | none => .misuse
        | _, some value =>
          match give option value given with
          | some given => read form none rest given
          | none => .misuse
        | _, none => read form (some option) rest given
    else if form.hasCommands then .command given argument rest
    else match form.addOperand argument given with
      | some given => read form none rest given
      | none => .misuse

end Form

end InvoiceXml.CommandLine
