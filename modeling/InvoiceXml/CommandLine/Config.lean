import InvoiceXml.Data.Record
import InvoiceXml.Yaml.Reader

/-!
# The configuration file

A configuration is a YAML map whose keys are all known and none of which is given twice. What is left out
keeps its default; so does a null, except for the truth value.
-/

namespace InvoiceXml.CommandLine

/-- What is configured. -/
structure Config where
  /-- The directory of schema files. -/
  directory : Option String := none
  /-- The tool that checks documents. -/
  tool : Option String := none
  profile : Option String := none
  logLevel : Option String := none
  pretty : Bool := false
deriving DecidableEq, Repr

namespace Config

/-- The keys of a configuration. -/
def names : Record.Names := [["xsd_dir"], ["xmllint"], ["default_profile"], ["log_level"], ["pretty"]]

/-- Reads a configuration. -/
def read? (text : String) : Option Config := do
  match ← Record.slotsOfMembers? true names (← (← Yaml.read? text).entries?) with
  | [directory, tool, profile, logLevel, pretty] =>
    some {
      directory := ← Yaml.Node.optional? Yaml.Node.text? directory
      tool := ← Yaml.Node.optional? Yaml.Node.text? tool
      profile := ← Yaml.Node.optional? Yaml.Node.text? profile
      logLevel := ← Yaml.Node.optional? Yaml.Node.text? logLevel
      pretty := ← match pretty with
        | some node => node.flag?
        | none => some false }
  | _ => none

example : read? "xsd_dir: /opt/fx # here\npretty: true\n" =
    some { directory := some "/opt/fx", pretty := true } := by decide +kernel
example : read? "" = some {} ∧ read? "xsd_path: /tmp\n" = none ∧ read? "pretty: yes\n" = none := by
  decide +kernel

end Config

end InvoiceXml.CommandLine
