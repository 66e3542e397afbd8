import Settings.Configuration.Event

/-! # Changing properties

The operations that change a configuration. Each announces the change before
making it and again afterwards.
-/

namespace Settings

/-- Where nodes are to be added: below an existing node, or below one that is
still to be created. -/
inductive AddTarget
  | existing (node : NodeId)
  | missing (place : Insertion)

/-- The node that a key selects, or the place of one that is to be created. -/
def World.addTarget (w : World) (c : ConfigurationId) (key : Option String) :
    Except Fault AddTarget := do
  match ← w.fetchNodes c key with
  | [] =>
    let place ← w.forest.prepareAdd (w.markers c) (w.root c) key
    if place.isAttribute then throw (.attributeTarget key) else return .missing place
  | [node] =>
    if (w.forest.node node).isAttribute then throw (.attributeTarget key)
    else return .existing node
  | nodes => throw (.manyTargets nodes.length key)

def Forest.append (f : Forest) (target i : NodeId) : Forest :=
  if (f.node i).isAttribute then f.addAttribute target i else f.addChild target i

namespace ConfigurationId

variable (c : ConfigurationId)

/-- Adds a value, or each item of a sequence, as new nodes for a key. -/
def addProperty (key : Option String) (value : Value) : Action Unit :=
  c.addPropertyWith announce key value

/-- Writes values into the nodes given, as far as both last. -/
def overwrite (nodes : List NodeId) (values : List Value) : Action Unit :=
  (nodes.zip values).forM fun (i, v) => Action.onForest (·.setValue i v)

def clearNodes (nodes : List NodeId) : Action Unit :=
  nodes.forM fun i => do
    let root := (← get).root c
    Action.onForest (·.clearNode root i)

/-- Replaces the values under a key. Values are written into the nodes of the
key in order; missing nodes are added and surplus nodes cleared. -/
def setProperty (key : Option String) (value : Value) : Action Unit := do
  let values := value.spread
  let nodes ← Action.read (·.fetchNodes c key)
  if nodes.length < values.length then
    let _ ← Action.read fun w => w.forest.prepareAdd (w.markers c) (w.root c) key
  announce ⟨c, Event.setProperty, key, .value value, true⟩
  overwrite nodes values
  c.clearNodes (nodes.drop values.length)
  c.addEach key (values.drop nodes.length)
  announce ⟨c, Event.setProperty, key, .value value, false⟩

/-- Removes the values under a key, and the branches that become empty. -/
def clearProperty (key : Option String) : Action Unit := do
  announce ⟨c, Event.clearProperty, key, .value .null, true⟩
  c.clearNodes (← Action.read (·.fetchNodes c key))
  announce ⟨c, Event.clearProperty, key, .value .null, false⟩

/-- Takes nodes out of their trees; the root loses its content instead. -/
def dropNodes (nodes : List NodeId) : Action Unit :=
  nodes.forM fun i => do
    let root := (← get).root c
    Action.onForest fun f => if i = root then f.reset i else f.detach i

def clearTree (key : Option String) : Action Unit := do
  announce ⟨c, Event.clearTree, key, .value .null, true⟩
  let nodes ← Action.read (·.fetchNodes c key)
  c.dropNodes nodes
  announce ⟨c, Event.clearTree, key, .nodes nodes, false⟩

/-- Appends nodes below the node of a key, which is created if there is none. -/
def addNodes (key : Option String) (nodes : List NodeId) : Action Unit := do
  if nodes.isEmpty then return
  let target ← Action.read (·.addTarget c key)
  announce ⟨c, Event.addNodes, key, .nodes nodes, true⟩
  let node ←
    match target with
    | .existing node => pure node
    | .missing place => modifyGet fun w =>
      let (node, forest) := w.forest.insertNode place .null
      (node, { w with forest })
  Action.onForest fun f => nodes.foldl (·.append node ·) f
  announce ⟨c, Event.addNodes, key, .nodes nodes, false⟩

def clear : Action Unit := do
  announce ⟨c, Event.clear, none, .value .null, true⟩
  let root := (← get).root c
  Action.onForest (·.reset root)
  announce ⟨c, Event.clear, none, .value .null, false⟩

end ConfigurationId

end Settings
