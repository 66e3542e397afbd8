import Settings.Configuration.View
import Settings.Roster

/-! # Bean declarations

A node can describe an object to be created, a bean. Its attributes are the
simple properties of the bean, apart from reserved ones that name the class of
the bean, the factory that makes it and a parameter for the factory. Its
children declare the complex properties in the same way.
-/

namespace Settings

/-- A declaration: a view, and the node that describes the bean. The view reads
the reserved attributes, in the common key language and without refusing
missing keys. -/
structure Declaration where
  configuration : ConfigurationId
  node : NodeId

/-- A property declared by one child, or by several children of the same name. -/
inductive Nested (α : Type)
  | single (one : α)
  | multiple (all : List α)

namespace Nested

variable {α : Type}

def toList : Nested α → List α
  | single one => [one]
  | multiple all => all

def add (n : Nested α) (next : α) : Nested α := multiple (n.toList ++ [next])

end Nested

def reservedStem : String := "config-"

def classKey : String := "[@config-class]"

def factoryKey : String := "[@config-factory]"

def parameterKey : String := "[@config-factoryParam]"

/-- Attributes without a name or with a reserved one describe the declaration itself. -/
def Forest.isReserved (f : Forest) (i : NodeId) : Bool :=
  (f.node i).isAttribute && (f.node i).name.all (·.startsWith reservedStem)

/-- A node that bears no content, for a declaration that is not there. -/
def createEmptyNode : Action NodeId :=
  modifyGet fun w =>
    let (i, forest) := w.forest.create none .null false
    (i, { w with forest })

namespace Declaration

/-- A declaration over a view, which gets the settings that declarations need. -/
def ofView (configuration : ConfigurationId) (node : NodeId) : Action Declaration := do
  modify (·.modifyConfiguration configuration fun own =>
    { own with markers := none, throwsOnMissing := false })
  return ⟨configuration, node⟩

/-- The declaration at the only node of a key. With `optional`, a key without a
node yields a declaration over an empty node. -/
def atKey (c : ConfigurationId) (key : Option String) (optional : Bool) :
    Action Declaration := do
  match ← Action.read (·.fetchNodes c key) with
  | [node] => Declaration.ofView (← c.viewAt node) node
  | nodes =>
    if nodes.isEmpty && optional then
      let node ← createEmptyNode
      Declaration.ofView (← c.createView node) node
    else throw (.notSingleDeclaration nodes.length key)

section Reading

variable (w : World) (d : Declaration)

def className : Except Fault (Option String) :=
  w.getString d.configuration (some classKey) .null

def factoryName : Except Fault (Option String) :=
  w.getString d.configuration (some factoryKey) .null

def factoryParameter : Except Fault Value :=
  w.getProperty d.configuration (some parameterKey)

def enclosing : ConfigurationId :=
  (w.configuration d.configuration).parent.getD d.configuration

def interpolate (v : Value) : Except Fault Value := w.interpolate (d.enclosing w) v

/-- The simple properties. Of several attributes with a name, the first gives
the place and the last the value. -/
def properties : Except Fault (Roster (Option String) Value) := do
  let attributes := (w.forest.node d.node).attributes.filter (!w.forest.isReserved ·)
  attributes.foldlM (fun found i => do
    let n := w.forest.node i
    return Roster.put found n.name (← d.interpolate w n.value)) []

def shown : Except Fault String := do
  let name := Fault.shownKey (w.forest.node d.node).name
  return "<XMLBeanDeclaration node=" ++ name ++ " class=" ++
    Fault.shownKey (← d.className w) ++ ">"

end Reading

/-- The declaration at a child, matched among the children of its name. -/
def nestedAt (d : Declaration) (node : NodeId) : Action Declaration := do
  let w ← get
  let name := (w.forest.node node).name
  if (w.childrenOf d.configuration name).contains node then
    Declaration.ofView (← d.configuration.viewAt node) node
  else throw (.unmatchedNode name)

/-- The declarations of the complex properties, by the names of the children. -/
def nested (d : Declaration) : Action (Roster (Option String) (Nested Declaration)) := do
  let w ← get
  let children := (w.forest.node d.node).children.filter (!w.forest.isReserved ·)
  children.foldlM (fun found i => do
    let name := (w.forest.node i).name
    let next ← d.nestedAt i
    let entry :=
      match Roster.get? found name with
      | none => .single next
      | some earlier => earlier.add next
    return Roster.put found name entry) []

end Declaration

inductive Description
  | mk (className factory : Option String) (parameter : Value)
      (properties : List (Option String × Value))
      (nested : List (Option String × Nested Description))

def Nested.mapAction {α β : Type} (act : α → Action β) : Nested α → Action (Nested β)
  | .single one => return .single (← act one)
  | .multiple all => return .multiple (← all.mapM act)

/-- What a declaration says, nested declarations first and down to a depth. -/
def Declaration.describeTo : Nat → Declaration → Action Description
  | depth, d => do
    let nested ← d.nested
    let described ←
      match depth with
      | 0 => pure []
      | rest + 1 => nested.mapM fun (name, entry) =>
        return (name, ← entry.mapAction (describeTo rest))
    let className ← Action.read d.className
    let factory ← Action.read d.factoryName
    let parameter ← Action.read d.factoryParameter
    let properties ← Action.read d.properties
    return .mk className factory parameter properties described

/-- What a declaration says. Children lead on for less than the number of nodes
unless they return to a node already passed. -/
def Declaration.describe (d : Declaration) : Action Description := do
  d.describeTo (← get).forest.size

end Settings
