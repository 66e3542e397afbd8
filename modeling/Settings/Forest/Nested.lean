import Settings.Forest.Selection
import Settings.Value.Text

/-! # Trees from nested mappings

An entry becomes a child of the same name, a list repeated children, and a
mapping below an entry the content of its child. Keys that start with `@` are
attributes, and the key `#text` holds the value of the enclosing node.
-/

namespace Settings

inductive EntryRole
  | ownValue
  | attr (name : String)
  | child (name : String)

def EntryRole.ofKey (key : String) : EntryRole :=
  if key = "#text" then .ownValue
  else
    match key.toList with
    | '@' :: name => .attr (String.ofList name)
    | _ => .child key

/-- The values an entry stands for: the items of a list, else the one value. -/
def Value.occurrences : Value → List Value
  | .list items => items
  | v => [v]

namespace Forest

def createAttribute (f : Forest) (parent : NodeId) (name : String) (value : Value) : Forest :=
  let (i, f) := f.create (some name) value false
  f.addAttribute parent i

mutual

def fill (f : Forest) (i : NodeId) : List (Value × Value) → Except Fault Forest
  | [] => .ok f
  | (key, value) :: rest => do
    match EntryRole.ofKey (← key.text) with
    | .ownValue => fill (f.setValue i value) i rest
    | .attr name =>
      fill (value.occurrences.foldl (·.createAttribute i name ·) f) i rest
    | .child name => fill (← addOccurrences f i name value) i rest

/-- Adds the children that an entry stands for. -/
def addOccurrences (f : Forest) (i : NodeId) (name : String) :
    Value → Except Fault Forest
  | .list items => addItems f i name items
  | .mapping entries =>
    let (child, f) := f.createChild i name .null
    fill f child entries
  | value => .ok (f.createChild i name value).2

def addItems (f : Forest) (i : NodeId) (name : String) : List Value → Except Fault Forest
  | [] => .ok f
  | .mapping entries :: rest => do
    let (child, f) := f.createChild i name .null
    addItems (← fill f child entries) i name rest
  | value :: rest => addItems (f.createChild i name value).2 i name rest

end

def ofMapping (f : Forest) (entries : Mapping) : Except Fault (NodeId × Forest) := do
  let (root, f) := f.create none .null false
  return (root, ← f.fill root entries)

end Forest

end Settings
