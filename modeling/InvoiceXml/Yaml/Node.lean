import InvoiceXml.Yaml.Scalar

/-!
# Nodes

A node is a scalar, a list, or a map from texts to nodes. What a scalar means depends on who reads it: a
place that holds a text takes the source text of any scalar (`text?`), a place that holds data gives plain
scalars their meaning (`data?`). A plain scalar that is empty may stand for a map without entries.
-/

namespace InvoiceXml.Yaml

/-- A node; a map is a list of entries in order. -/
inductive Node where
  | scalar (plain : Bool) (text : String)
  | list (items : List Node)
  | map (entries : List (String × Node))
deriving Inhabited

namespace Node

/-- The node where nothing is written. -/
def empty : Node := scalar true ""

/-- Whether the node means null. -/
def isNull : Node → Bool
  | scalar plain text => plain && isNullWord text
  | _ => false

/-- The source text of a scalar. -/
def text? : Node → Option String
  | scalar _ text => some text
  | _ => none

/-- The truth value of a plain scalar. -/
def flag? : Node → Option Bool
  | scalar true text => Yaml.flag? text
  | _ => none

/-- The entries of a map. -/
def entries? : Node → Option (List (String × Node))
  | map entries => some entries
  | scalar plain text => if plain && text = "" then some [] else none
  | list _ => none

/-- A place that may be left out or null. -/
def optional? {α : Type} (read : Node → Option α) : Option Node → Option (Option α)
  | none => some none
  | some node => if node.isNull then some none else (read node).map some

mutual

/-- The data of a node. -/
def data? : Node → Option Data
  | scalar plain text => if plain then plainData? text else some (.str text)
  | list items => (dataItems? items).map .arr
  | map entries => (dataMembers? entries).map fun members => .obj (Data.membersOf members)

def dataItems? : List Node → Option (List Data)
  | [] => some []
  | item :: rest => do some ((← data? item) :: (← dataItems? rest))

def dataMembers? : List (String × Node) → Option (List (String × Data))
  | [] => some []
  | (key, node) :: rest => do some ((key, ← data? node) :: (← dataMembers? rest))

end

mutual

/-- How deep lists and maps nest. -/
def depth : Node → Nat
  | scalar _ _ => 0
  | list items => depthItems items + 1
  | map entries => depthEntries entries + 1

def depthItems : List Node → Nat
  | [] => 0
  | item :: rest => max (depth item) (depthItems rest)

def depthEntries : List (String × Node) → Nat
  | [] => 0
  | (_, node) :: rest => max (depth node) (depthEntries rest)

end

end Node

end InvoiceXml.Yaml
