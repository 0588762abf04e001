import InvoiceXml.Data.Basic

/-!
# The compact text of data

Data as text without blanks, members in order. In texts only the quote, the backslash and the control
characters are escaped, five of them by a letter and the others by four lower case hexadecimal digits.
-/

namespace InvoiceXml.Data

/-- A character of a text as it stands between quotes. -/
def escapedChar (c : Char) : List Char :=
  if c = '"' then ['\\', '"']
  else if c = '\\' then ['\\', '\\']
  else if c = '\n' then ['\\', 'n']
  else if c = '\r' then ['\\', 'r']
  else if c = '\t' then ['\\', 't']
  else if c.toNat = 8 then ['\\', 'b']
  else if c.toNat = 12 then ['\\', 'f']
  else if c.toNat < 0x20 then '\\' :: 'u' :: Text.padLeft 4 (Nat.toDigits 16 c.toNat)
  else [c]

/-- A text between quotes. -/
def stringText (s : String) : List Char :=
  '"' :: (s.toList.flatMap escapedChar ++ ['"'])

mutual

/-- The characters of the compact text. -/
def chars : Data → List Char
  | null => ['n', 'u', 'l', 'l']
  | bool true => ['t', 'r', 'u', 'e']
  | bool false => ['f', 'a', 'l', 's', 'e']
  | num n => n.dataText.toList
  | str s => stringText s
  | arr items => '[' :: itemChars items
  | obj members => '\x7b' :: memberChars members

/-- The items of an array, with the bracket that closes it. -/
def itemChars : List Data → List Char
  | [] => [']']
  | [item] => chars item ++ [']']
  | item :: rest => chars item ++ ',' :: itemChars rest

/-- The members of an object, with the brace that closes it. -/
def memberChars : List (String × Data) → List Char
  | [] => ['\x7d']
  | [(key, value)] => stringText key ++ ':' :: chars value ++ ['\x7d']
  | (key, value) :: rest => stringText key ++ ':' :: chars value ++ ',' :: memberChars rest

end

/-- The compact text. -/
def compact (data : Data) : String := String.ofList data.chars

example : (arr [null, bool true, int (-3), str "a\"\n"]).compact = "[null,true,-3,\"a\\\"\\n\"]" := by
  decide +kernel
example : (obj [("z", obj []), ("a", arr [])]).compact = "\x7b\"z\":\x7b\x7d,\"a\":[]\x7d" := by
  decide +kernel

end InvoiceXml.Data
