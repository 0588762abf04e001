import InvoiceXml.Standard.Skeleton

/-!
# The document header

Number, type and date of the document; notes from the level without lines on; name and language in the
extended level.
-/

namespace InvoiceXml.Standard.Header

def typeCode : Field := (invoiceType (below header "ram:TypeCode")).withKey "BT-3"

def minimum : Schema := [
  ("number", (text (below header "ram:ID")).withKey "BT-1"),
  ("typeCode", typeCode),
  ("issueDate", (date (below header "ram:IssueDateTime/udt:DateTimeString")).withKey "BT-2")]

/-- One note of the document. -/
def note : String := below header "ram:IncludedNote[notes]"

def basicWithoutLines : Schema := [
  ("notes", ((Field.ofArray [
    ("content", (text (below note "ram:Content")).withKey "BT-22"),
    ("subjectCode", (text (below note "ram:SubjectCode")).optional.withKey "BT-21")]).inGroup "notes").withKey
      "BG-1")]

def extended : Schema := [
  ("name", (text (below header "ram:Name")).optional),
  ("typeCode", typeCode),
  ("languageId", (text (below header "ram:LanguageID")).optional),
  ("notes", arrayAnchor)]

end InvoiceXml.Standard.Header
