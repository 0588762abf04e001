import InvoiceXml.Data.Basic

/-!
# Records in data

A record has slots in a fixed order, each with one or more names. It is written as an object, whose members
stand in any order, or as an array of the values in slot order. `slots?` finds the value of each slot: an
object must not fill a slot twice, and where the record is strict it must have no other key; an array must
not have more values than there are slots.
-/

namespace InvoiceXml.Record

/-- The names of each slot. -/
abbrev Names := List (List String)

/-- The values whose key is one of the names. -/
def valuesOf {α : Type} (names : List String) (members : List (String × α)) : List α :=
  (members.filter fun member => names.contains member.1).map (·.2)

/-- The value of a slot, unless it is filled twice. -/
def single? {α : Type} : List α → Option (Option α)
  | [] => some none
  | [value] => some (some value)
  | _ => none

/-- The values of the slots of an object. -/
def slotsOfMembers? {α : Type} (strict : Bool) (names : Names) (members : List (String × α)) :
    Option (List (Option α)) :=
  if strict && !members.all (fun member => names.any (·.contains member.1)) then none
  else names.mapM fun slot => single? (valuesOf slot members)

/-- The values of the slots of an array; the last ones may be left out. -/
def slotsOfItems? {α : Type} (names : Names) (items : List α) : Option (List (Option α)) :=
  if names.length < items.length then none
  else some (items.map some ++ List.replicate (names.length - items.length) none)

/-- The values of the slots of a record, unfilled ones empty. -/
def slots? (strict : Bool) (names : Names) : Data → Option (List (Option Data))
  | .obj members => slotsOfMembers? strict names members
  | .arr items => slotsOfItems? names items
  | _ => none

/-- A text. -/
def text? : Data → Option String
  | .str s => some s
  | _ => none

/-- A slot that may be left out or null. -/
def optional? {α : Type} (read : Data → Option α) : Option Data → Option (Option α)
  | none => some none
  | some .null => some none
  | some data => (read data).map some

/-- The items of an array, each read. -/
def items? {α : Type} (read : Data → Option α) : Data → Option (List α)
  | .arr items => items.mapM read
  | _ => none

end InvoiceXml.Record
