import Settings.Environment
import Settings.Forest.Selection

/-! # The world of configurations

All configurations share one forest of nodes. A configuration is a root node
together with its own key language, if it has one, and its listeners; a view
knows the configuration it was made from. What happens to a configuration is
announced to its listeners, and what they were told is kept as notices.
-/

namespace Settings

structure ConfigurationId where
  index : Nat
deriving DecidableEq, Repr

structure ListenerId where
  index : Nat
deriving DecidableEq, Repr

structure Configuration where
  root : NodeId
  /-- The configuration's own key language; without one it uses the common one. -/
  markers : Option Markers
  throwsOnMissing : Bool
  /-- What a view was made from. -/
  parent : Option ConfigurationId
  listeners : List ListenerId

/-- A configuration over a root, with the common key language and no listeners. -/
def Configuration.rootedAt (root : NodeId) (parent : Option ConfigurationId) : Configuration :=
  ⟨root, none, false, parent, []⟩

instance : Inhabited Configuration := ⟨.rootedAt ⟨0⟩ none⟩

/-- What an event is about. -/
inductive Payload
  | value (v : Value)
  | nodes (ids : List NodeId)

structure Event where
  source : ConfigurationId
  code : Int
  name : Option String
  payload : Payload
  before : Bool

namespace Event

def addProperty : Int := 1
def clearProperty : Int := 2
def setProperty : Int := 3
def clear : Int := 4
def clearTree : Int := 10
def addNodes : Int := 11

end Event

/-- What a listener does with an event, after having noted it. -/
inductive Reaction
  | record
  /-- Looks up a key at the source before noting the event. -/
  | peek (key : Option String)
  /-- Refuses one phase of the events of a code, or of all events. -/
  | veto (code : Option Int) (before : Bool)
  /-- Registers the listener that has a name by then. -/
  | adds (other : String)
  | removes (other : ListenerId)
  | clears
  /-- Adds a property to the source when called for the first time. -/
  | mutate (key : Option String) (value : Value)

structure Listener where
  name : String
  reaction : Reaction
  called : Bool

instance : Inhabited Listener := ⟨⟨"", .record, false⟩⟩

/-- What a listener noted: the event, the nodes as they were at that moment,
and the value it looked up. -/
structure Notice where
  listener : ListenerId
  event : Event
  seen : Forest
  peeked : Option Value

structure World where
  forest : Forest
  configurations : Array Configuration
  listeners : Array Listener
  /-- The notices in the order in which they were taken. -/
  notices : List Notice
  /-- The key language of configurations without their own. -/
  common : Markers
  environment : Environment

/-- A step that may change the world and may be refused; a refusal leaves the
changes made up to then. -/
abbrev Action := EStateM Fault World

namespace World

def fresh (environment : Environment) : World :=
  ⟨.empty, #[], #[], [], .standard, environment⟩

def configuration (w : World) (c : ConfigurationId) : Configuration :=
  w.configurations.getD c.index default

def listener (w : World) (l : ListenerId) : Listener := w.listeners.getD l.index default

def listenerNamed? (w : World) (name : String) : Option ListenerId :=
  (w.listeners.findIdx? (·.name = name)).map ListenerId.mk

def modifyConfiguration (w : World) (c : ConfigurationId)
    (change : Configuration → Configuration) : World :=
  { w with configurations := w.configurations.modify c.index change }

def modifyListener (w : World) (l : ListenerId) (change : Listener → Listener) : World :=
  { w with listeners := w.listeners.modify l.index change }

def addConfiguration (w : World) (c : Configuration) : ConfigurationId × World :=
  (⟨w.configurations.size⟩, { w with configurations := w.configurations.push c })

def addListener (w : World) (name : String) (reaction : Reaction) : ListenerId × World :=
  (⟨w.listeners.size⟩, { w with listeners := w.listeners.push ⟨name, reaction, false⟩ })

def root (w : World) (c : ConfigurationId) : NodeId := (w.configuration c).root

def markers (w : World) (c : ConfigurationId) : Markers :=
  (w.configuration c).markers.getD w.common

/-- The configuration at the end of a chain of views. Views are younger than
what they were made from, so the chain ends. -/
def outermost (w : World) (c : ConfigurationId) : ConfigurationId :=
  match (w.configuration c).parent with
  | none => c
  | some p => if p.index < c.index then w.outermost p else c
termination_by c.index

end World

def Action.ofExcept {α : Type} : Except Fault α → Action α
  | .ok a => pure a
  | .error e => throw e

def Action.read {α : Type} (f : World → Except Fault α) : Action α := do
  Action.ofExcept (f (← get))

end Settings
