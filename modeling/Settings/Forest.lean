import Settings.Value

/-! # Node forests

A forest holds nodes by identity. A node has an optional name, a value, an
ordered list of children and one of attributes, and knows its parent. Linking
a node takes it away from its old parent first, by way of the list that its
attribute flag points to.
-/

namespace Settings

structure NodeId where
  index : Nat
deriving DecidableEq, Repr

structure Node where
  name : Option String
  value : Value
  isAttribute : Bool
  parent : Option NodeId
  children : List NodeId
  attributes : List NodeId

def Node.lone (name : Option String) (value : Value) (isAttribute : Bool) : Node :=
  ⟨name, value, isAttribute, none, [], []⟩

instance : Inhabited Node := ⟨.lone none .null false⟩

/-- A node carries a value, children or attributes. -/
def Node.isDefined (n : Node) : Bool :=
  !n.value.isNull || !n.children.isEmpty || !n.attributes.isEmpty

structure Forest where
  nodes : Array Node

namespace Forest

def empty : Forest := ⟨#[]⟩

def size (f : Forest) : Nat := f.nodes.size

/-- The node of an identity; an identity of no node reads as an empty node. -/
def node (f : Forest) (i : NodeId) : Node := f.nodes.getD i.index default

def modify (f : Forest) (i : NodeId) (change : Node → Node) : Forest :=
  ⟨f.nodes.modify i.index change⟩

def create (f : Forest) (name : Option String) (value : Value)
    (isAttribute : Bool) : NodeId × Forest :=
  (⟨f.size⟩, ⟨f.nodes.push (.lone name value isAttribute)⟩)

def setValue (f : Forest) (i : NodeId) (value : Value) : Forest :=
  f.modify i fun n => { n with value }

def setAttributeFlag (f : Forest) (i : NodeId) (isAttribute : Bool) : Forest :=
  f.modify i fun n => { n with isAttribute }

def setParent (f : Forest) (i : NodeId) (parent : Option NodeId) : Forest :=
  f.modify i fun n => { n with parent }

def setChildren (f : Forest) (i : NodeId) (children : List NodeId) : Forest :=
  f.modify i fun n => { n with children }

def setAttributes (f : Forest) (i : NodeId) (attributes : List NodeId) : Forest :=
  f.modify i fun n => { n with attributes }

def childrenNamed (f : Forest) (i : NodeId) : Option String → List NodeId
  | none => (f.node i).children
  | some name => (f.node i).children.filter fun c => (f.node c).name = some name

def attributesNamed (f : Forest) (i : NodeId) : Option String → List NodeId
  | none => (f.node i).attributes
  | some name => (f.node i).attributes.filter fun a => (f.node a).name = some name

/-- Takes the first occurrence of a child away, which leaves it without a
parent. Without an occurrence nothing changes. -/
def removeChild (f : Forest) (parent child : NodeId) : Bool × Forest :=
  let children := (f.node parent).children
  if children.contains child then
    (true, (f.setChildren parent (children.erase child)).setParent child none)
  else (false, f)

/-- Takes the first occurrence of an attribute away, which leaves it without a
parent. Without an occurrence nothing changes. -/
def removeAttribute (f : Forest) (parent i : NodeId) : Bool × Forest :=
  let attributes := (f.node parent).attributes
  if attributes.contains i then
    (true, (f.setAttributes parent (attributes.erase i)).setParent i none)
  else (false, f)

/-- Takes a node away from its parent, out of the list its flag points to. -/
def detach (f : Forest) (i : NodeId) : Forest :=
  match (f.node i).parent with
  | none => f
  | some parent =>
    if (f.node i).isAttribute then (f.removeAttribute parent i).2 else (f.removeChild parent i).2

/-- Appends a node to the children of another, taking it away from its old parent. -/
def addChild (f : Forest) (parent child : NodeId) : Forest :=
  let linked := ((f.detach child).setAttributeFlag child false).setParent child (some parent)
  linked.setChildren parent ((linked.node parent).children ++ [child])

/-- Appends a node to the attributes of another, taking it away from its old parent. -/
def addAttribute (f : Forest) (parent i : NodeId) : Forest :=
  let linked :=
    ((f.detach i).setAttributeFlag i true).setParent i (some parent)
  linked.setAttributes parent ((linked.node parent).attributes ++ [i])

def removeChildren (f : Forest) (i : NodeId) : Forest :=
  ((f.node i).children.foldl (·.setParent · none) f).setChildren i []

def removeAttributes (f : Forest) (i : NodeId) : Forest :=
  ((f.node i).attributes.foldl (·.setParent · none) f).setAttributes i []

def reset (f : Forest) (i : NodeId) : Forest :=
  ((f.removeChildren i).removeAttributes i).setValue i .null

/-- Detaches an empty node and its ancestors as they become empty, up to but
not including `root` and in at most `fuel` steps. -/
def pruneUpTo (root : NodeId) : Nat → Forest → NodeId → Forest
  | 0, f, _ => f
  | fuel + 1, f, i =>
    match (f.node i).parent with
    | none => f
    | some parent =>
      if i = root || (f.node i).isDefined then f
      else pruneUpTo root fuel (f.detach i) parent

/-- Takes the value of a node away, and the branch that becomes empty with it.
Each detached node leaves one parent link less, so the nodes bound the steps. -/
def clearNode (f : Forest) (root i : NodeId) : Forest :=
  pruneUpTo root f.size (f.setValue i .null) i

end Forest

end Settings
