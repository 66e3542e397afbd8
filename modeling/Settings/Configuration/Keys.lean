import Settings.Configuration.Lookup

/-! # Listing keys

The keys under which values are stored, in document order: a node with a
value, then its attributes, then what lies below its children.
-/

namespace Settings.World

variable (w : World) (m : Markers)

/-- The keys of the values at and below a node whose own key is given, down to a depth. -/
def keysTo : Nat → NodeId → String → List String
  | 0, _, _ => []
  | depth + 1, i, key =>
    let n := w.forest.node i
    let own := if n.value.isNull || key = "" then [] else [key]
    let attributes := n.attributes.map fun a =>
      key ++ m.attributeKey (m.escape ((w.forest.node a).name.getD ""))
    let below := n.children.flatMap fun child =>
      keysTo depth child (m.below key (m.escape ((w.forest.node child).name.getD "")))
    own ++ attributes ++ below

/-- The keys of all values, or of those at and below the nodes of a key. No path
that does not return to itself is longer than the number of nodes. -/
def getKeys (c : ConfigurationId) (start : Option String) : Except Fault (List String) := do
  let m := w.markers c
  let depth := w.forest.size + 1
  match start with
  | none | some "" => return (w.keysTo m depth (w.root c) "").eraseDups
  | some key =>
    let nodes ← w.fetchNodes c key
    return (nodes.flatMap fun i => w.keysTo m depth i key).eraseDups

/-- At most five items of a listing, and whether there are more. -/
def preview (items : List String) : String :=
  separated (items.take 5) ++ if 5 < items.length then "..." else ""

def describe (c : ConfigurationId) : Except Fault String := do
  let kind := if (w.configuration c).parent.isSome then "SubnodeConfiguration"
    else "HierarchicalConfiguration"
  return "<" ++ kind ++ " keys=[" ++ preview (← w.getKeys c none) ++ "]>"

end Settings.World
