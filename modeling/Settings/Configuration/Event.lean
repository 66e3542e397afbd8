import Settings.Configuration.Lookup

/-! # Announcing events

An event goes to the listeners that are registered with its source when it is
announced, once for each registration and in that order, until one of them
refuses it. A listener may change the registrations, which concerns later
events only, and may add a property, which announces events of its own.
-/

namespace Settings

abbrev Announcer := Event → Action Unit

def Action.onForest (change : Forest → Forest) : Action Unit :=
  modify fun w => { w with forest := change w.forest }

namespace ConfigurationId

variable (c : ConfigurationId)

def register (l : ListenerId) : Action Unit :=
  modify (·.modifyConfiguration c fun own => { own with listeners := own.listeners ++ [l] })

/-- Removes the earliest registration of a listener, if there is one. -/
def deregister (l : ListenerId) : Action Bool := do
  let registered := ((← get).configuration c).listeners.contains l
  modify (·.modifyConfiguration c fun own => { own with listeners := own.listeners.erase l })
  return registered

def clearListeners : Action Unit :=
  modify (·.modifyConfiguration c fun own => { own with listeners := [] })

/-- Adds one new node for each value, evaluating the key anew each time. -/
def addEach (key : Option String) (values : List Value) : Action Unit :=
  values.forM fun v => do
    let place ← Action.read fun w => w.forest.prepareAdd (w.markers c) (w.root c) key
    Action.onForest fun f => (f.insertNode place v).2

/-- Adds a value, or each item of a sequence, as new nodes for a key. -/
def addPropertyWith (announce : Announcer) (key : Option String) (value : Value) :
    Action Unit := do
  let _ ← Action.read fun w => w.forest.prepareAdd (w.markers c) (w.root c) key
  announce ⟨c, Event.addProperty, key, .value value, true⟩
  c.addEach key value.spread
  announce ⟨c, Event.addProperty, key, .value value, false⟩

end ConfigurationId

def takeNotice (l : ListenerId) (event : Event) (peeked : Option Value) : Action Unit :=
  modify fun w => { w with notices := w.notices ++ [⟨l, event, w.forest, peeked⟩] }

/-- Brings an event to one listener; what the listener does is announced by `nested`. -/
def deliver (nested : Announcer) (event : Event) (l : ListenerId) : Action Unit := do
  let listener := (← get).listener l
  modify (·.modifyListener l fun own => { own with called := true })
  match listener.reaction with
  | .record => takeNotice l event none
  | .peek key =>
    let value ← Action.read (·.getProperty event.source key)
    takeNotice l event (some value)
  | .veto code before =>
    takeNotice l event none
    if event.before = before && code.all (· = event.code) then throw (.vetoed listener.name)
  | .adds other =>
    takeNotice l event none
    match (← get).listenerNamed? other with
    | some found => event.source.register found
    | none => throw .noListener
  | .removes other =>
    takeNotice l event none
    let _ ← event.source.deregister other
  | .clears =>
    takeNotice l event none
    event.source.clearListeners
  | .mutate key value =>
    takeNotice l event none
    if !listener.called then event.source.addPropertyWith nested key value

/-- Brings an event to every listener registered with its source at this moment. -/
def deliverAll (nested : Announcer) (event : Event) : Action Unit := do
  ((← get).configuration event.source).listeners.forM (deliver nested event)

/-- Announces an event, with announcements inside announcements down to a depth. -/
def announceTo : Nat → Announcer
  | 0 => deliverAll fun _ => pure ()
  | depth + 1 => deliverAll (announceTo depth)

/-- The listeners that will still add a property when they are called. -/
def World.pendingMutations (w : World) : Nat :=
  w.listeners.toList.countP fun l =>
    match l.reaction with
    | .mutate .. => !l.called
    | _ => false

/-- Announces an event. Each announcement inside another one uses up a listener
that adds a property only once, so their number bounds the depth. -/
def announce : Announcer := fun event => do announceTo (← get).pendingMutations event

end Settings
