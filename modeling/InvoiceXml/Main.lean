import InvoiceXml.CommandLine.Run

/-!
# The program

Runs a command line on the files of the machine. This front end starts no other programs, so every tool is
answered for as one that is not there.
-/

namespace InvoiceXml

/-- An error of the machine's files. -/
def hostError : IO.Error → HostError
  | .noFileOrDirectory .. => .notFound
  | .permissionDenied .. => .notPermitted
  | .inappropriateType .. => .isADirectory
  | error => .other (toString error)

/-- An action on files with its error. -/
def guarded {α : Type} (action : IO α) : IO (Except HostError α) := do
  match ← action.toBaseIO with
  | .ok a => return .ok a
  | .error error => return .error (hostError error)

/-- The files of the machine. -/
def machine : Host IO where
  read file := guarded (IO.FS.readBinFile file)
  write file content := guarded (IO.FS.writeFile file content)
  run _ _ _ := return .error .notFound

end InvoiceXml

def main (arguments : List String) : IO UInt32 := do
  let outcome ← InvoiceXml.CommandLine.run InvoiceXml.machine arguments
  match outcome with
  | .done output => IO.print output
  | .failed error => IO.eprintln ("Error: " ++ error.message)
  | .misused => IO.eprintln ("error: unexpected arguments\n\n" ++ InvoiceXml.CommandLine.programHelp)
  return outcome.exitCode.toUInt32
