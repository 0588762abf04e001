import InvoiceXml.Text.Split

/-!
# Names of files

A name is made of parts between slashes, and nothing is resolved: a name that starts with a slash is
absolute, any other is relative to a directory. The extension of a file is what follows the last point of
its own name, unless that is all the name has.
-/

namespace InvoiceXml.FileName

/-- Whether a name is absolute. -/
def isAbsolute (name : String) : Bool := name.toList.head? = some '/'

/-- A relative name in a directory; an empty directory adds nothing. -/
def join (directory name : String) : String :=
  if directory = "" ∨ directory.toList.getLast? = some '/' then directory ++ name
  else directory ++ "/" ++ name

/-- A name as seen from a directory. -/
def resolve (directory name : String) : String := if isAbsolute name then name else join directory name

/-- The extension of the last part of a name. -/
def extension? (name : String) : Option String := do
  let own ← (Text.pieces '/' name).getLast?
  let (reversed, before) ← Text.cutAtFirst '.' own.toList.reverse
  if before.isEmpty then none else some (String.ofList reversed.reverse)

example :
    resolve "/r//s/" "a/../b.xsd" = "/r//s/a/../b.xsd" ∧ resolve "." "a" = "./a" ∧
      resolve "" "a" = "a" ∧ resolve "/root" "" = "/root/" ∧ resolve "/root" "/a" = "/a" := by
  decide
example :
    extension? "a/e.x.yaml" = some "yaml" ∧ extension? ".yaml" = none ∧ extension? "d.yml/a" = none := by
  decide

end InvoiceXml.FileName
