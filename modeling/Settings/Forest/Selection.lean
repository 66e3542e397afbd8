import Settings.Forest
import Settings.Key

/-! # Selecting nodes

The nodes that the parts of a key lead to, and where a new node for a key
belongs: the deepest existing parent and the path still missing below it.
-/

namespace Settings

namespace Forest

/-- The nodes one part leads to from a node. An index counts the children of
one parent that bear the name. -/
def step (f : Forest) (i : NodeId) : KeyPart → List NodeId
  | .attr name => f.attributesNamed i (some name)
  | .element name none => f.childrenNamed i (some name)
  | .element name (some index) => (f.childrenNamed i (some name))[index]?.toList

/-- The nodes that the parts lead to from the given nodes. -/
def follow (f : Forest) (nodes : List NodeId) : List KeyPart → List NodeId
  | [] => nodes
  | part :: parts => f.follow (nodes.flatMap (f.step · part)) parts

def select (f : Forest) (m : Markers) (root : NodeId) (key : Option String) :
    Except Fault (List NodeId) := do
  return f.follow [root] (← m.parse key)

end Forest

/-- Where a new node goes: an existing parent, the path still missing below it,
and what the new node is. -/
structure Insertion where
  parent : NodeId
  missing : List String
  name : String
  isAttribute : Bool

namespace Forest

/-- The child that a part descends into when something is added below it: the
one at the index, or the last one of the name. -/
def descend? (f : Forest) (i : NodeId) (part : KeyPart) : Option NodeId :=
  let children := f.childrenNamed i (some part.name)
  match part with
  | .element _ (some index) => children[index]?
  | _ => children.getLast?

/-- The deepest node that the parts descend to, and the names left over. -/
def deepest (f : Forest) (i : NodeId) : List KeyPart → NodeId × List String
  | [] => (i, [])
  | part :: parts =>
    match f.descend? i part with
    | some child => f.deepest child parts
    | none => (i, (part :: parts).map KeyPart.name)

/-- Where the node for the parts of a key is to be added. -/
def insertion (f : Forest) (root : NodeId) (key : Option String) (parts : List KeyPart) :
    Except Fault Insertion :=
  match parts.getLast? with
  | none => .error .emptyKey
  | some last =>
    let path := parts.dropLast
    if path.any KeyPart.isAttribute then .error (.attributeNotLast key)
    else
      let (parent, missing) := f.deepest root path
      .ok ⟨parent, missing, last.name, last.isAttribute⟩

/-- Where the node for a key is to be added, without changing anything. -/
def prepareAdd (f : Forest) (m : Markers) (root : NodeId) (key : Option String) :
    Except Fault Insertion := do
  f.insertion root key (← m.parse key)

def createChild (f : Forest) (parent : NodeId) (name : String) (value : Value) :
    NodeId × Forest :=
  let (i, f) := f.create (some name) value false
  (i, f.addChild parent i)

def createPath (f : Forest) (parent : NodeId) : List String → NodeId × Forest
  | [] => (parent, f)
  | name :: names =>
    let (i, f) := f.createChild parent name .null
    f.createPath i names

def insertNode (f : Forest) (at_ : Insertion) (value : Value) : NodeId × Forest :=
  let (parent, f) := f.createPath at_.parent at_.missing
  if at_.isAttribute then
    let (i, f) := f.create (some at_.name) value false
    (i, f.addAttribute parent i)
  else f.createChild parent at_.name value

end Forest

end Settings
