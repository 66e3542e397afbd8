import Settings.Forest
import Settings.Value.Text

/-! # Outlines

The shape of a tree apart from the identities of its nodes, and a single node as
messages show it.
-/

namespace Settings

inductive Outline
  | node (name : Option String) (value : Value) (attributes children : List Outline)

def Forest.outlineTo (f : Forest) : Nat → NodeId → Outline
  | 0, i => .node (f.node i).name (f.node i).value [] []
  | depth + 1, i =>
    .node (f.node i).name (f.node i).value
      ((f.node i).attributes.map (f.outlineTo depth))
      ((f.node i).children.map (f.outlineTo depth))

/-- What can be seen of a node. A path that does not return to itself is
shorter than the number of nodes. -/
def Forest.outline (f : Forest) (i : NodeId) : Outline := f.outlineTo f.size i

def Forest.shown (f : Forest) (i : NodeId) : Except Fault String := do
  let n := f.node i
  let kind := if n.isAttribute then "attribute" else "node"
  return "<ConfigurationNode " ++ kind ++ " name=" ++ Fault.shownKey n.name ++ " value=" ++
    (← n.value.literal) ++ ">"

end Settings
