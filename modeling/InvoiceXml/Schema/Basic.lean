import InvoiceXml.Text.Quoted
import InvoiceXml.Validator.Basic

/-!
# Schemas

A schema declares fields under names, in an order that decides the order of the document. A field is a
scalar that a validator checks, one of a closed choice of texts, a nested object or an array of objects; the
last two are described by a shape, a schema of its own. All other attributes of a field may be left unset,
so that a later layer can declare a field again with only what it changes.

Fields are found by name (`find?`, the first of several) and along a dotted path through the shapes
(`lookup?`). Inserting replaces a field of the same name in its place (`find?_insert_self`).
-/

namespace InvoiceXml

/-- What a field holds. -/
inductive FieldType where
  | scalar (validator : Validator)
  | object
  | objectArray
  | choice (members : List String)

/-- A change of a value before it is placed; two are the same when their identities are. -/
structure Transform where
  identity : String
  apply : Data → Option Data

/-- A text computed from the value of a field; two are the same when their identities are. -/
structure Derived where
  identity : String
  render : Data → Option String

/-- The text of an extra node: fixed, a truth value, or computed. -/
inductive ExtraValue where
  | text (text : String)
  | flag (flag : Bool)
  | derived (derived : Derived)

/-- The declaration of a field. -/
structure Field where
  type : FieldType
  /-- Whether a value must be given; unset means it must. -/
  required : Option Bool := none
  /-- The fields of an object, or of each item of an array. -/
  shape : Option (List (String × Field)) := none
  /-- The business term of the field. -/
  key : Option String := none
  /-- The marker that an array of objects binds to the number of each item. -/
  group : Option String := none
  /-- The group whose items stand before those of this one. -/
  sibling : Option String := none
  /-- Where the value stands in the document. -/
  xpath : Option String := none
  /-- Nodes that are written beside the value, by their paths. -/
  extras : Option (List (String × ExtraValue)) := none
  transform : Option Transform := none
  /-- The value where the data has none. -/
  fallback : Option Data := none

/-- Fields under names, in order. -/
abbrev Schema := List (String × Field)

namespace FieldType

/-- Whether a field of the type has a shape. -/
def isObjectLike : FieldType → Bool
  | object | objectArray => true
  | scalar _ | choice _ => false

/-- A type in words. -/
def describe : FieldType → String
  | scalar validator => "Validator(" ++ validator.name ++ ")"
  | object => "object"
  | objectArray => "object[]"
  | choice members => Text.quotedList members

/-- Whether two types are the same. -/
def isSame : FieldType → FieldType → Bool
  | scalar v, scalar w => v.isSame w
  | object, object => true
  | objectArray, objectArray => true
  | choice xs, choice ys => xs == ys
  | _, _ => false

end FieldType

namespace ExtraValue

/-- A truth value in words. -/
def flagText (flag : Bool) : String := if flag then "true" else "false"

/-- The text beside a value, if there is one. -/
def render (owner : Data) : ExtraValue → Option String
  | text content => some content
  | flag b => some (flagText b)
  | derived d => d.render owner

/-- An extra in words. -/
def describe : ExtraValue → String
  | text content => Text.quoted content
  | flag b => flagText b
  | derived _ => "<derived>"

/-- Whether two extras are the same. -/
def isSame : ExtraValue → ExtraValue → Bool
  | text s, text t => s == t
  | flag a, flag b => a == b
  | derived d, derived e => d.identity == e.identity
  | _, _ => false

end ExtraValue

namespace Field

/-- Whether a value must be given. -/
def isRequired (field : Field) : Bool := field.required.getD true

/-- The extras in order; unset means none. -/
def extraEntries (field : Field) : List (String × ExtraValue) := field.extras.getD []

/-- Whether two lists of extras are the same. -/
def sameExtras : List (String × ExtraValue) → List (String × ExtraValue) → Bool
  | [], [] => true
  | (p, v) :: xs, (q, w) :: ys => p == q && v.isSame w && sameExtras xs ys
  | _, _ => false

/-- Whether two optional attributes are both unset, or both set and related. -/
def sameOption {α : Type} (same : α → α → Bool) : Option α → Option α → Bool
  | none, none => true
  | some a, some b => same a b
  | _, _ => false

/-- Whether two fields agree in all attributes but the shape. -/
def sameAttributes (a b : Field) : Bool :=
  a.type.isSame b.type && a.required == b.required && a.key == b.key && a.group == b.group &&
    a.sibling == b.sibling && a.xpath == b.xpath && sameOption sameExtras a.extras b.extras &&
    sameOption (fun s t => s.identity == t.identity) a.transform b.transform &&
    sameOption Data.eqv a.fallback b.fallback

end Field

namespace Schema

mutual

/-- Whether two fields are the same, shapes included. -/
def sameField (a : Field) : Field → Bool
  | { type, required, shape, key, group, sibling, xpath, extras, transform, fallback } =>
    a.sameAttributes { type, required, key, group, sibling, xpath, extras, transform, fallback } &&
      match a.shape, shape with
      | none, none => true
      | some s, some t => same s t
      | _, _ => false

/-- Whether two schemas declare the same fields in the same order. -/
def same : Schema → List (String × Field) → Bool
  | [], [] => true
  | (m, f) :: s, (n, g) :: t => m == n && sameField f g && same s t
  | _, _ => false

end

/-- The names in order. -/
def names (schema : Schema) : List String := schema.map (·.1)

/-- The first field with a name. -/
def find? (name : String) : Schema → Option Field
  | [] => none
  | (n, field) :: rest => if n = name then some field else find? name rest

/-- The place of the first field with a name. -/
def position? (name : String) (schema : Schema) : Option Nat :=
  schema.findIdx? fun entry => entry.1 = name

/-- Whether a name is declared. -/
def declares (name : String) (schema : Schema) : Bool := (schema.find? name).isSome

/-- Puts a field in the place of the first of its name, or at the end. -/
def insert (name : String) (field : Field) : Schema → Schema
  | [] => [(name, field)]
  | (n, f) :: rest => if n = name then (n, field) :: rest else (n, f) :: insert name field rest

/-- Puts a field before the one at a place; there is no room beyond the end. -/
def insertAt? (place : Nat) (name : String) (field : Field) (schema : Schema) : Option Schema :=
  if place ≤ schema.length then some (schema.insertIdx place (name, field)) else none

/-- Changes the first field with a name. -/
def modify (name : String) (change : Field → Field) : Schema → Schema
  | [] => []
  | (n, f) :: rest => if n = name then (n, change f) :: rest else (n, f) :: modify name change rest

/-- The schema of the given fields, inserted one by one. -/
def ofFields (fields : List (String × Field)) : Schema :=
  fields.foldl (fun schema entry => schema.insert entry.1 entry.2) []

/-- The field at the end of a way of names through the shapes. -/
def along? : List String → Schema → Option Field
  | [], _ => none
  | [name], schema => schema.find? name
  | name :: rest, schema => ((schema.find? name).bind Field.shape).bind (along? rest)

/-- The field at a dotted path. -/
def lookup? (path : String) (schema : Schema) : Option Field := schema.along? (Text.pieces '.' path)

/-- The path of a field below another; the path of the schema itself is empty. -/
def below (parent name : String) : String := if parent = "" then name else parent ++ "." ++ name

@[simp] theorem find?_insert_self (name : String) (field : Field) (schema : Schema) :
    (insert name field schema).find? name = some field := by
  induction schema with
  | nil => simp [insert, find?]
  | cons head rest ih =>
    obtain ⟨n, f⟩ := head
    by_cases h : n = name <;> simp [insert, find?, h, ih]

theorem find?_insert_of_ne {name other : String} (h : other ≠ name) (field : Field) (schema : Schema) :
    (insert name field schema).find? other = find? other schema := by
  induction schema with
  | nil => simp [insert, find?, Ne.symm h]
  | cons head rest ih =>
    obtain ⟨n, f⟩ := head
    by_cases hn : n = name
    · subst hn
      simp [insert, find?, Ne.symm h]
    · simp only [insert, if_neg hn, find?, ih]

/-- Inserting keeps the names and their order, and puts a new name last. -/
theorem names_insert (name : String) (field : Field) (schema : Schema) :
    (insert name field schema).names =
      if name ∈ schema.names then schema.names else schema.names ++ [name] := by
  induction schema with
  | nil => simp [insert, names]
  | cons head rest ih =>
    obtain ⟨n, f⟩ := head
    simp only [names] at ih
    by_cases h : n = name
    · simp [insert, names, h]
    · simp only [insert, if_neg h, names, List.map_cons, ih, List.mem_cons, Ne.symm h, false_or]
      by_cases hr : name ∈ rest.map (·.1) <;> simp [hr]

theorem declares_iff (name : String) (schema : Schema) :
    schema.declares name = true ↔ name ∈ schema.names := by
  induction schema with
  | nil => simp [declares, find?, names]
  | cons head rest ih =>
    obtain ⟨n, f⟩ := head
    simp only [declares, names] at ih
    by_cases h : n = name
    · simp [declares, find?, names, h]
    · simp [declares, find?, names, h, ih, Ne.symm h]

end Schema

/-! ### Declaring fields -/

namespace Field

/-- A scalar. -/
def ofValidator (validator : Validator) : Field := { type := .scalar validator }

/-- A nested object. -/
def ofObject (shape : Schema) : Field := { type := .object, shape := some shape }

/-- An array of objects. -/
def ofArray (shape : Schema) : Field := { type := .objectArray, shape := some shape }

/-- A choice of texts. -/
def ofChoice (members : List String) : Field := { type := .choice members }

/-- The field, not required. -/
def optional (field : Field) : Field := { field with required := some false }

/-- The field with a business term. -/
def withKey (key : String) (field : Field) : Field := { field with key := some key }

/-- The field at a place in the document. -/
def placedAt (xpath : String) (field : Field) : Field := { field with xpath := some xpath }

/-- The field with one more extra. -/
def withExtra (path : String) (value : ExtraValue) (field : Field) : Field :=
  { field with extras := some (field.extraEntries ++ [(path, value)]) }

/-- The field with a group. -/
def inGroup (group : String) (field : Field) : Field := { field with group := some group }

/-- The field whose group follows another. -/
def after (sibling : String) (field : Field) : Field := { field with sibling := some sibling }

end Field

end InvoiceXml
