import InvoiceXml.CommandLine.Option
import InvoiceXml.Text.Numeral

/-!
# Commands

The command line names one of four commands. Options before the name belong to the program, all others to
the command. `Command.read` gives what is asked for; every way of asking wrongly is one answer, `misuse`.
-/

namespace InvoiceXml.CommandLine

/-- What the program does. -/
inductive Command where
  | render (input : String) (output profile extension : Option String) (pretty check : Bool)
  | validate (input : String) (profile : Option String)
  | profiles
  | fields (profile extension : Option String)
deriving DecidableEq, Repr

/-- What a command line asks for. -/
inductive Asked where
  | run (config : Option String) (command : Command)
  | help (topic : Option String)
  | version
  | misuse
deriving DecidableEq, Repr

/-- The name of the program. -/
def programName : String := "einv"

/-- The version of the program. -/
def versionText : String := "0.1.0"

/-- The options of the program itself. -/
def programForm : Form where
  options := [
    { name := "config", letter := some 'c', taking := .file, summary := "Path to configuration file" },
    helpOption, versionOption]
  operands := 0
  hasCommands := true

/-- The option that names a profile. -/
def profileOption (summary : String) : OptionForm :=
  { name := "profile", letter := some 'p', taking := .text, summary }

/-- The option that names an extension of a profile. -/
def extendOption : OptionForm :=
  { name := "extend", letter := some 'e', taking := .file,
    summary := "Profile extension file layered over the profile" }

/-- A command as it is listed: its name, what it does, its form, and what its operand is. -/
structure Entry where
  name : String
  summary : String
  form : Form
  operand : Option (String × String) := none

/-- The commands in the order in which they are listed. -/
def entries : List Entry := [
  { name := "render", summary := "Render invoice JSON as CII XML"
    operand := some ("INPUT", "Input JSON file")
    form := {
      options := [
        { name := "output", letter := some 'o', taking := .file,
          summary := "Output file; stdout when omitted" },
        profileOption "Profile id (minimum, basic-wl, basic, en16931, extended)", extendOption,
        { name := "pretty", summary := "Indent the output" },
        { name := "validate", summary := "Check the rendered document against the profile XSD" }, helpOption]
      operands := 1 } },
  { name := "validate", summary := "Validate a CII XML file against the profile XSD"
    operand := some ("INPUT", "Input XML file")
    form := { options := [profileOption "Profile id", helpOption], operands := 1 } },
  { name := "profiles", summary := "List the standard profiles",
    form := { options := [helpOption], operands := 0 } },
  { name := "fields", summary := "List the business terms a profile accepts"
    form := { options := [profileOption "Profile id", extendOption, helpOption], operands := 0 } }]

/-- The command of a name. -/
def entryNamed? (name : String) : Option Entry := entries.find? fun entry => entry.name = name

namespace Command

/-- The command of a name with what is given to it. -/
def ofGiven? (name : String) (given : Given) : Option Command :=
  match name, given.operands with
  | "render", [input] => some (.render input (given.value? "output") (given.value? "profile")
      (given.value? "extend") (given.has "pretty") (given.has "validate"))
  | "validate", [input] => some (.validate input (given.value? "profile"))
  | "profiles", [] => some .profiles
  | "fields", [] => some (.fields (given.value? "profile") (given.value? "extend"))
  | _, _ => none

/-- The name of the command that explains the others. -/
def helpName : String := "help"

/-- What a command that explains is asked for. -/
def readHelp : List String → Asked
  | [] => .help none
  | [name] => if name = helpName ∨ (entryNamed? name).isSome then .help (some name) else .misuse
  | _ => .misuse

/-- Reads the arguments of a command. -/
def readEntry (config : Option String) (entry : Entry) (arguments : List String) : Asked :=
  match entry.form.read none arguments {} with
  | .finished given =>
    match ofGiven? entry.name given with
    | some command => .run config command
    | none => .misuse
  | .help => .help (some entry.name)
  | _ => .misuse

/-- Reads a command line. -/
def read (arguments : List String) : Asked :=
  match programForm.read none arguments {} with
  | .command given name rest =>
    if name = helpName then readHelp rest
    else match entryNamed? name with
      | some entry => readEntry (given.value? "config") entry rest
      | none => .misuse
  | .help => .help none
  | .version => .version
  | _ => .misuse

end Command

/-! ### Help -/

/-- Lines with two columns, the second of which starts two blanks after the longest first part. -/
def twoColumns (rows : List (String × String)) : String :=
  let width := (rows.map fun row => row.1.length).foldl max 0
  String.join (rows.map fun row =>
    "  " ++ row.1 ++ String.ofList (List.replicate (width - row.1.length + 2) ' ') ++ row.2 ++ "\n")

/-- An option as it is listed. -/
def OptionForm.listed (option : OptionForm) : String × String :=
  let letter := match option.letter with
    | some c => "-" ++ c.toString ++ ", "
    | none => "    "
  let value := match option.taking with
    | .nothing => ""
    | _ => " <" ++ option.name.map Char.toUpper ++ ">"
  (letter ++ "--" ++ option.name ++ value, option.summary)

/-- The options of a form as they are listed. -/
def Form.listed (form : Form) : String := "Options:\n" ++ twoColumns (form.options.map OptionForm.listed)

/-- The help on a command. -/
def Entry.help (entry : Entry) : String :=
  let options := if 1 < entry.form.options.length then " [OPTIONS]" else ""
  let usage := "\n\nUsage: " ++ programName ++ " " ++ entry.name ++ options
  let operand := match entry.operand with
    | some (name, summary) =>
      " <" ++ name ++ ">\n\nArguments:\n" ++ twoColumns [("<" ++ name ++ ">", summary)]
    | none => "\n"
  entry.summary ++ usage ++ operand ++ "\n" ++ entry.form.listed

/-- What the command that explains the others does. -/
def helpSummary : String := "Print this message or the help of the given subcommand(s)"

/-- The help on the program. -/
def programHelp : String :=
  "Factur-X / ZUGFeRD e-invoice engine CLI\n\nUsage: " ++ programName ++
    " [OPTIONS] <COMMAND>\n\nCommands:\n" ++
    twoColumns (entries.map (fun entry => (entry.name, entry.summary)) ++
      [(Command.helpName, helpSummary)]) ++ "\n" ++
    programForm.listed

/-- The help on how to ask for help. -/
def helpHelp : String :=
  helpSummary ++ "\n\nUsage: " ++ programName ++ " " ++ Command.helpName ++ " [COMMAND]...\n\nArguments:\n" ++
    twoColumns [("[COMMAND]...", "Print help for the subcommand(s)")]

/-- The help on a topic. -/
def helpText : Option String → String
  | none => programHelp
  | some topic =>
    match entryNamed? topic with
    | some entry => entry.help
    | none => helpHelp

example :
    Command.read ["-c", "c.yaml", "render", "i.json", "-pbasic", "--output=o.xml"] =
      .run (some "c.yaml") (.render "i.json" (some "o.xml") (some "basic") none false false) := by
  decide +kernel
example : Command.read ["render"] = .misuse ∧ Command.read ["fields", "--nope"] = .misuse ∧
    Command.read ["profiles", "x"] = .misuse ∧ Command.read ["-c", "", "profiles"] = .misuse ∧
    Command.read ["fields", "-p", "-h"] = .misuse := by decide +kernel
example : Command.read ["render", "--help"] = .help (some "render") ∧ Command.read ["-V"] = .version := by
  decide +kernel

end InvoiceXml.CommandLine
