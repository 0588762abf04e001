import InvoiceXml.Number.Layout

/-!
# Structured data

The data a document is rendered from: null, truth values, numbers, texts, arrays and objects. The members of
an object keep the order in which they were first written; `putMember` replaces a member in its place and
appends a new one, and `normal` does so for every object read from a text in which keys repeat. Two data are
equivalent (`eqv`) when they differ at most in the order of members and the sign of zero.
-/

namespace InvoiceXml

/-- A number: an integer between −2^63 and 2^64 − 1, or a binary number. -/
inductive Num where
  | int (n : Int)
  | float (x : Binary64)
deriving DecidableEq, Repr

/-- Structured data; an object is a list of members in order. -/
inductive Data where
  | null
  | bool (b : Bool)
  | num (n : Num)
  | str (s : String)
  | arr (items : List Data)
  | obj (members : List (String × Data))
deriving Inhabited

namespace Num

/-- Equality of numbers of the same kind; an integer and a binary number differ. -/
def eqv : Num → Num → Bool
  | .int m, .int n => m == n
  | .float x, .float y => x.eqv y
  | _, _ => false

/-- A number in a data text. -/
def dataText : Num → String
  | .int n => String.ofList (Text.signedDigits n)
  | .float x => Layout.dataText.render x

/-- A number in element text: no exponent, and no fraction of a whole number. -/
def plainText : Num → String
  | .int n => String.ofList (Text.signedDigits n)
  | .float x => Layout.plain.render x

end Num

namespace Data

/-- An integer as data. -/
def int (n : Int) : Data := .num (.int n)

/-- The word for the kind of data. -/
def kindName : Data → String
  | null => "null"
  | bool _ => "boolean"
  | num _ => "number"
  | str _ => "string"
  | arr _ => "array"
  | obj _ => "object"

/-- Whether the data is null. -/
def isNull : Data → Bool
  | null => true
  | _ => false

/-- The first member with the key. -/
def member? (key : String) : List (String × Data) → Option Data
  | [] => none
  | (k, value) :: rest => if k = key then some value else member? key rest

/-- The member of an object; other data has none. -/
def get? (key : String) : Data → Option Data
  | obj members => member? key members
  | _ => none

/-- The member of an object, where null counts as missing. -/
def present? (key : String) (data : Data) : Option Data :=
  (data.get? key).filter fun value => !value.isNull

/-- Sets a member: in its place where the key exists, otherwise at the end. -/
def putMember (key : String) (value : Data) : List (String × Data) → List (String × Data)
  | [] => [(key, value)]
  | (k, old) :: rest => if k = key then (k, value) :: rest else (k, old) :: putMember key value rest

/-- The members of a list of pairs in which keys may repeat: a key keeps its first place and its last
value. -/
def membersOf (pairs : List (String × Data)) : List (String × Data) :=
  pairs.foldl (fun members pair => putMember pair.1 pair.2 members) []

mutual

/-- The data in which no object repeats a key. -/
def normal : Data → Data
  | arr items => arr (normalItems items)
  | obj pairs => obj (membersOf (normalMembers pairs))
  | data => data

def normalItems : List Data → List Data
  | [] => []
  | item :: rest => normal item :: normalItems rest

def normalMembers : List (String × Data) → List (String × Data)
  | [] => []
  | (key, value) :: rest => (key, normal value) :: normalMembers rest

end

mutual

/-- Equality up to the order of members and the sign of zero. -/
def eqv : Data → Data → Bool
  | null, null => true
  | bool a, bool b => a == b
  | num m, num n => m.eqv n
  | str s, str t => s == t
  | arr xs, arr ys => eqvItems xs ys
  | obj ms, obj ns => ms.length == ns.length && eqvMembers ms ns
  | _, _ => false

def eqvItems : List Data → List Data → Bool
  | [], [] => true
  | x :: xs, y :: ys => eqv x y && eqvItems xs ys
  | _, _ => false

/-- Whether each member of the first list has an equivalent one in the second. -/
def eqvMembers : List (String × Data) → List (String × Data) → Bool
  | [], _ => true
  | (key, value) :: rest, ns =>
    (match member? key ns with
      | some other => eqv value other
      | none => false) && eqvMembers rest ns

end

theorem member?_putMember_self (key : String) (value : Data) (members : List (String × Data)) :
    member? key (putMember key value members) = some value := by
  induction members with
  | nil => simp [putMember, member?]
  | cons head rest ih =>
    obtain ⟨k, old⟩ := head
    by_cases h : k = key <;> simp [putMember, member?, h, ih]

theorem member?_putMember_of_ne {key other : String} (h : other ≠ key) (value : Data)
    (members : List (String × Data)) :
    member? other (putMember key value members) = member? other members := by
  induction members with
  | nil => simp [putMember, member?, Ne.symm h]
  | cons head rest ih =>
    obtain ⟨k, old⟩ := head
    by_cases hk : k = key
    · subst hk
      simp [putMember, member?, Ne.symm h]
    · simp only [putMember, if_neg hk, member?, ih]

/-- A member that is set keeps its place; a new one is last. -/
theorem keys_putMember (key : String) (value : Data) (members : List (String × Data)) :
    (putMember key value members).map (·.1) =
      if key ∈ members.map (·.1) then members.map (·.1) else members.map (·.1) ++ [key] := by
  induction members with
  | nil => simp [putMember]
  | cons head rest ih =>
    obtain ⟨k, old⟩ := head
    by_cases h : k = key
    · simp [putMember, h]
    · simp only [putMember, if_neg h, List.map_cons, ih, List.mem_cons]
      by_cases hr : key ∈ rest.map (·.1) <;> simp [hr, Ne.symm h]

end Data

end InvoiceXml
