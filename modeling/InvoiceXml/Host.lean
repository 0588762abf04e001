/-!
# What a command needs from outside

Commands read and write files and run tools. They are written against this record, so the same command can
run on the files of a machine and on a list of files in memory.
-/

namespace InvoiceXml

/-- Why a file cannot be used or a tool cannot be run. -/
inductive HostError where
  | notFound
  | notPermitted
  | notADirectory
  | isADirectory
  | other (message : String)
deriving DecidableEq, Repr

namespace HostError

/-- The words for an error. -/
def message : HostError → String
  | notFound => "No such file or directory (os error 2)"
  | notPermitted => "Permission denied (os error 13)"
  | notADirectory => "Not a directory (os error 20)"
  | isADirectory => "Is a directory (os error 21)"
  | other message => message

end HostError

/-- How a tool ended, and what it wrote about errors. -/
structure ToolResult where
  succeeded : Bool
  complaint : ByteArray

/-- The files and tools that commands use. -/
structure Host (m : Type → Type) where
  read : (file : String) → m (Except HostError ByteArray)
  write : (file content : String) → m (Except HostError Unit)
  run : (tool : String) → (arguments : List String) → (input : ByteArray) → m (Except HostError ToolResult)

namespace Host

variable {m : Type → Type} [Monad m]

/-- The text of a file; a file whose bytes are no text has none. -/
def readText? (host : Host m) (file : String) : m (Option String) := do
  match ← host.read file with
  | .ok bytes => return String.fromUTF8? bytes
  | .error _ => return none

end Host

end InvoiceXml
