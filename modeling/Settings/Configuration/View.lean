import Settings.Configuration.Lookup
import Settings.Forest.Nested

/-! # Views

A view is a configuration over a node inside another configuration. It shares
the nodes, takes over the settings of the configuration it is made from, and
has its own listeners.
-/

namespace Settings

def createConfiguration (root : NodeId) : Action ConfigurationId :=
  modifyGet fun w => w.addConfiguration (.rootedAt root none)

/-- A new configuration over a new tree that holds a nested mapping. -/
def createFromMapping (entries : Mapping) : Action ConfigurationId := do
  let w ← get
  let (root, forest) ← Action.ofExcept (w.forest.ofMapping entries)
  set { w with forest }
  createConfiguration root

def World.childrenOf (w : World) (c : ConfigurationId) (name : Option String) :
    List NodeId :=
  (w.forest.node (w.root c)).children.filter fun i => (w.forest.node i).name = name

namespace ConfigurationId

variable (c : ConfigurationId)

def createView (node : NodeId) : Action ConfigurationId :=
  modifyGet fun w => w.addConfiguration (.rootedAt node (some c))

def viewAt (node : NodeId) : Action ConfigurationId :=
  modifyGet fun w =>
    let own := w.configuration c
    w.addConfiguration
      { Configuration.rootedAt node (some c) with
        markers := own.markers, throwsOnMissing := own.throwsOnMissing }

/-- The view over the only node that a key selects. -/
def configurationAt (key : Option String) : Action ConfigurationId := do
  match ← Action.read (·.fetchNodes c key) with
  | [node] => c.viewAt node
  | nodes => throw (.notSingle nodes.length key)

def configurationsAt (key : Option String) : Action (List ConfigurationId) := do
  (← Action.read (·.fetchNodes c key)).mapM c.viewAt

/-- A view over each child of the root with exactly the given name, whatever
the key language makes of it. -/
def childConfigurations (name : Option String) : Action (List ConfigurationId) := do
  ((← get).childrenOf c name).mapM c.viewAt

end ConfigurationId

end Settings
