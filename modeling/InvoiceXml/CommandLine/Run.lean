import InvoiceXml.CommandLine.Command
import InvoiceXml.CommandLine.Config
import InvoiceXml.Data.Reader
import InvoiceXml.Definition.Extension
import InvoiceXml.Definition.Reader
import InvoiceXml.Rendering.Check

/-!
# Running commands

A command is run on a host. It reads the configuration, finds its profile, and then does its work; the first
step that fails decides the error. What a command prints comes only with its success.
-/

namespace InvoiceXml.CommandLine

/-- Why a command fails. -/
inductive CommandError where
  | readingConfig (file : String)
  | parsingConfig (file : String)
  | unknownProfile (unknown : Level.Unknown)
  | loadingExtension (file : String)
  | reading (file : String)
  | parsing (file : String)
  | rendering (error : RenderError)
  | writing (file : String)

namespace CommandError

/-- The words for an error. -/
def message : CommandError → String
  | readingConfig file => "reading config " ++ file
  | parsingConfig file => "parsing config " ++ file
  | unknownProfile unknown => unknown.message
  | loadingExtension file => "loading extension " ++ file
  | reading file => "reading " ++ file
  | parsing file => "parsing " ++ file
  | rendering error => error.display
  | writing file => "writing " ++ file

end CommandError

/-- How a command line ends. -/
inductive Outcome where
  | done (output : String)
  | failed (error : CommandError)
  | misused

namespace Outcome

/-- The exit code. -/
def exitCode : Outcome → Nat
  | done _ => 0
  | failed _ => 1
  | misused => 2

end Outcome

variable {m : Type → Type} [Monad m]

/-- A step of a command. -/
abbrev Step (m : Type → Type) := ExceptT CommandError m

/-- A step that fails unless there is a value. -/
def orFail {α : Type} (error : CommandError) : Option α → Step m α
  | some a => pure a
  | none => throw error

/-- A step that fails as a rendering does. -/
def ofRendering {α : Type} : Except RenderError α → Step m α
  | .ok a => pure a
  | .error error => throw (.rendering error)

/-- The configuration of a file, if one is named. -/
def loadConfig (host : Host m) : Option String → Step m Config
  | none => pure {}
  | some file => do
    let text ← orFail (.readingConfig file) (← (host.readText? file : m (Option String)))
    orFail (.parsingConfig file) (Config.read? text)

/-- The level of a name. -/
def levelNamed (name : String) : Step m Level :=
  match Level.ofName name with
  | .ok level => pure level
  | .error unknown => throw (.unknownProfile unknown)

/-- The level where none is named. -/
def defaultLevel : String := "en16931"

/-- The format of a definition by the extension of its file. -/
def formatOf (file : String) : ProfileDefinition.Format :=
  match FileName.extension? file with
  | some "yaml" | some "yml" => .yaml
  | _ => .json

/-- The definition of a file. -/
def loadDefinition (host : Host m) (file : String) : Step m ProfileDefinition := do
  let text ← orFail (.loadingExtension file) (← (host.readText? file : m (Option String)))
  match ProfileDefinition.read Validators.withCodeLists (formatOf file) text with
  | .ok definition => pure definition
  | .error _ => throw (.loadingExtension file)

/-- The profile that a command works with: that of a level, or an extension of it. -/
def findProfile (host : Host m) (config : Config) (name extension : Option String) : Step m Profile := do
  let level ← levelNamed ((name.orElse fun _ => config.profile).getD defaultLevel)
  match extension with
  | none => pure level.profile
  | some file =>
    let definition ← loadDefinition host file
    match definition.over level.profile with
    | .ok profile => pure profile
    | .error unknown => throw (.unknownProfile unknown)

/-- The renderer of a profile. -/
def createRenderer (profile : Profile) (pretty : Bool) : Step m Renderer :=
  ofRendering (Renderer.create profile { indent := if pretty then some 2 else none })

/-- Checks a document with the tool and the directory that are configured. -/
def checkDocument (host : Host m) (config : Config) (renderer : Renderer) (source : Source) :
    Step m Unit := do
  let checker := Checker.ofTool host (config.tool.getD Checker.defaultTool)
  let result : Except RenderError Unit ←
    (renderer.check host checker (config.directory.getD Renderer.defaultDirectory) source :
      m (Except RenderError Unit))
  ofRendering result

/-- Renders a file. -/
def renderFile (host : Host m) (config : Config) (renderer : Renderer) (input : String)
    (output : Option String) (check : Bool) : Step m String := do
  let text ← orFail (.reading input) (← (host.readText? input : m (Option String)))
  let data ← orFail (.parsing input) (Data.read? text)
  let xml ← ofRendering (renderer.render none data)
  if check then checkDocument host config renderer (.text xml)
  match output with
  | none => pure (xml ++ "\n")
  | some file =>
    match ← (host.write file xml : m (Except HostError Unit)) with
    | .ok () => pure ""
    | .error _ => throw (.writing file)

/-- Fills a text up to a width. -/
def fillRight (width : Nat) (text : String) : String :=
  text ++ String.ofList (List.replicate (width - text.length) ' ')

/-- Puts a text at the right end of a width. -/
def fillLeft (width : Nat) (text : String) : String :=
  String.ofList (List.replicate (width - text.length) ' ') ++ text

/-- The line of a profile in the list of all. -/
def profileLine (profile : Profile) : String :=
  fillRight 10 profile.id ++ " " ++ fillRight 10 profile.info.conformanceLevel ++ " " ++
    fillLeft 4 (Text.natText profile.info.mask.size) ++ " terms  " ++ profile.info.contextParameter ++ "\n"

/-- The line of a business term. -/
def termLine (entry : String × String) : String := entry.1 ++ "\t" ++ entry.2 ++ "\n"

/-- Runs a command. -/
def Command.run (host : Host m) (config : Config) : Command → Step m String
  | .render input output profile extension pretty check => do
    let profile ← findProfile host config profile extension
    let renderer ← createRenderer profile (pretty || config.pretty)
    renderFile host config renderer input output check
  | .validate input profile => do
    let profile ← findProfile host config profile none
    let renderer ← createRenderer profile false
    checkDocument host config renderer (.file input)
    pure (input ++ ": valid (" ++ profile.info.conformanceLevel ++ ")\n")
  | .profiles => pure (String.join (Level.all.map fun level => profileLine level.profile))
  | .fields profile extension => do
    let profile ← findProfile host config profile extension
    pure (String.join (profile.terms.map termLine))

/-- Runs a command line. -/
def run (host : Host m) (arguments : List String) : m Outcome := do
  match Command.read arguments with
  | .misuse => return .misused
  | .version => return .done (programName ++ " " ++ versionText ++ "\n")
  | .help topic => return .done (helpText topic)
  | .run config command =>
    let steps : Step m String := do
      let config ← loadConfig host config
      command.run host config
    match ← steps.run with
    | .ok output => return .done output
    | .error error => return .failed error

end InvoiceXml.CommandLine
