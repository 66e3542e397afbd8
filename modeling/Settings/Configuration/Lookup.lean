import Settings.Reference
import Settings.Value.Conversion
import Settings.World

/-! # Reading properties

A key reads the values of the nodes it selects. Texts are read with their
variables expanded; variables are properties of the outermost configuration
or, with `env:` in front, environment variables.
-/

namespace Settings.World

open Settings.Decimal Settings.Text

variable (w : World) (c : ConfigurationId)

def fetchNodes (key : Option String) : Except Fault (List NodeId) :=
  w.forest.select (w.markers c) (w.root c) key

def valuesOf (nodes : List NodeId) : List Value :=
  (nodes.map fun i => (w.forest.node i).value).filter (!·.isNull)

/-- Several values as one: none, the value itself, or a list. -/
def collect : List Value → Value
  | [] => .null
  | [v] => v
  | vs => .list vs

def getProperty (key : Option String) : Except Fault Value := do
  return collect (w.valuesOf (← w.fetchNodes c key))

def containsKey (key : Option String) : Except Fault Bool := do
  return !(← w.getProperty c key).isNull

def isEmpty : Bool := !(w.forest.node (w.root c)).isDefined

/-- The number of nodes that a key selects, less one. -/
def getMaxIndex (key : Option String) : Except Fault Int := do
  return ((← w.fetchNodes c key).length : Int) - 1

def resolveVariable (name : Option String) : Except Fault Value := do
  return (← w.getProperty c name).first

def variableText (name : String) : Except Fault (Option String) :=
  match after? "env:".toList name.toList with
  | some rest => .ok (w.environment.get? (String.ofList rest))
  | none => do
    match ← w.resolveVariable c (some name) with
    | .null => return none
    | v => return some (← v.text)

/-- The texts that a stored value may contribute to an expansion. -/
def textsOf (v : Value) : List String :=
  [v, v.first].filterMap (·.text.toOption)

/-- The number of references in all texts that an expansion can meet. -/
def referenceCount (text : String) : Nat :=
  let stored := w.forest.nodes.toList.flatMap (textsOf ·.value)
  let outside := w.environment.map (·.2)
  ((text :: stored ++ outside).flatMap Reference.names).length

/-- A text with its variables expanded, which are those of this configuration.
More variables than there are references cannot be open at once without one of
them being open twice. -/
def expandFrom (text : String) : Except Fault String :=
  Reference.expand (w.variableText c) (w.referenceCount text) [] text

def expandText (text : String) : Except Fault String := w.expandFrom (w.outermost c) text

def interpolate : Value → Except Fault Value
  | .str text => .str <$> w.expandText c text
  | v => .ok v

/-- Whether an absent value without a default is refused. -/
def refusesMissing (default_ : Value) : Bool :=
  default_.isNull && (w.configuration c).throwsOnMissing

def getSingle (key : Option String) (default_ : Value) : Except Fault Value := do
  match (← w.getProperty c key).first with
  | .null => if w.refusesMissing c default_ then throw (.missingKey key) else return default_
  | v => w.interpolate c v

def refuseConversion {α : Type} (key : Option String) (target : Target) (v : Value) :
    Except Fault α := do
  throw (.notConvertible key target (← v.literal))

def getString (key : Option String) (default_ : Value) : Except Fault (Option String) := do
  match ← w.getSingle c key default_ with
  | .null => return none
  | v => return some (← v.text)

def getInt (key : Option String) (default_ : Value) : Except Fault (Option Int) := do
  match ← w.getSingle c key default_ with
  | .null => return none
  | v =>
    match ← v.toInt? with
    | some n => return some n
    | none => refuseConversion key .int v

def getFloat (key : Option String) (default_ : Value) : Except Fault (Option Float) := do
  match ← w.getSingle c key default_ with
  | .null => return none
  | v =>
    match ← v.toFloat? with
    | some x => return some x
    | none => refuseConversion key .float v

def getBool (key : Option String) (default_ : Value) : Except Fault (Option Bool) := do
  match ← w.getSingle c key default_ with
  | .null => return none
  | v =>
    match ← v.toBool? with
    | some b => return some b
    | none => refuseConversion key .bool v

/-- All values under a key, expanded, or the items of the default. -/
def getList (key : Option String) (default_ : Value) : Except Fault (List Value) := do
  match ← w.getProperty c key with
  | .null =>
    if w.refusesMissing c default_ then throw (.missingKey key)
    else if default_.isNull then return []
    else default_.elements
  | v => v.spread.mapM (w.interpolate c)

end Settings.World
