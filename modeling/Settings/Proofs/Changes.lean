import Settings.Proofs.Writing

/-! # The shape of a change

Every operation on a configuration checks its arguments, announces the change,
carries it out and announces it again. What is carried out depends on the tree and
the key language only, and goes through whenever the key was accepted.
-/

namespace Settings

open Settings.Action

/-- An operation that changes a configuration. -/
inductive Change
  | addProperty (key : Option String) (value : Value)
  | setProperty (key : Option String) (value : Value)
  | clearProperty (key : Option String)
  | clearTree (key : Option String)
  | addNodes (key : Option String) (nodes : List NodeId)
  | clear

namespace Change

variable (c : ConfigurationId)

def perform : Change → Action Unit
  | addProperty key value => c.addProperty key value
  | setProperty key value => c.setProperty key value
  | clearProperty key => c.clearProperty key
  | clearTree key => c.clearTree key
  | addNodes key nodes => c.addNodes key nodes
  | clear => c.clear

def code : Change → Int
  | addProperty .. => Event.addProperty
  | setProperty .. => Event.setProperty
  | clearProperty _ => Event.clearProperty
  | clearTree _ => Event.clearTree
  | addNodes .. => Event.addNodes
  | clear => Event.clear

def key : Change → Option String
  | addProperty key _ | setProperty key _ | clearProperty key | clearTree key
  | addNodes key _ => key
  | clear => none

/-- What a change is announced with: beforehand what it is given, afterwards the
removed nodes if it removes trees. -/
def payload (w : World) : Change → Bool → Payload
  | addProperty _ value, _ | setProperty _ value, _ => .value value
  | addNodes _ nodes, _ => .nodes nodes
  | clearTree key, false => .nodes ((w.fetchNodes c key).toOption.getD [])
  | _, _ => .value .null

def event (w : World) (change : Change) (before : Bool) : Event :=
  ⟨c, change.code, change.key, change.payload c w before, before⟩

/-- A change whose key is one that it can work on, and that has something to do. -/
def Accepts (w : World) : Change → Prop
  | addProperty key _ => ∃ place, w.forest.prepareAdd (w.markers c) (w.root c) key = .ok place
  | setProperty key value => ∃ nodes, w.fetchNodes c key = .ok nodes ∧
      (nodes.length < value.spread.length →
        ∃ place, w.forest.prepareAdd (w.markers c) (w.root c) key = .ok place)
  | clearProperty key | clearTree key => ∃ nodes, w.fetchNodes c key = .ok nodes
  | addNodes key nodes => nodes ≠ [] ∧ ∃ target, w.addTarget c key = .ok target
  | clear => True

def writeValues (key : Option String) (value : Value) (nodes : List NodeId) : Action Payload := do
  ConfigurationId.overwrite nodes value.spread
  c.clearNodes (nodes.drop value.spread.length)
  c.addEach key (value.spread.drop nodes.length)
  return .value value

def appendNodes (nodes : List NodeId) (target : AddTarget) : Action Payload := do
  let node ←
    match target with
    | .existing node => pure node
    | .missing place => modifyGet fun w =>
      let (node, forest) := w.forest.insertNode place .null
      (node, { w with forest })
  Action.onForest fun f => nodes.foldl (·.append node ·) f
  return .nodes nodes

/-- The checks of a change. They give what is to be carried out between its two
announcements, and that gives the payload of the second one. -/
def prepare : Change → World → Except Fault (Action Payload)
  | addProperty key value, w => do
    let _ ← w.forest.prepareAdd (w.markers c) (w.root c) key
    return do
      c.addEach key value.spread
      return .value value
  | setProperty key value, w => do
    let nodes ← w.fetchNodes c key
    if nodes.length < value.spread.length then
      let _ ← w.forest.prepareAdd (w.markers c) (w.root c) key
    return writeValues c key value nodes
  | clearProperty key, _ => return do
    c.clearNodes (← Action.read (·.fetchNodes c key))
    return .value .null
  | clearTree key, _ => return do
    let nodes ← Action.read (·.fetchNodes c key)
    c.dropNodes nodes
    return .nodes nodes
  | addNodes key nodes, w => do
    return appendNodes nodes (← w.addTarget c key)
  | clear, _ => return do
    let root := (← get).root c
    Action.onForest (·.reset root)
    return .value .null

def opening (change : Change) : Action (Action Payload) := do
  let carryOut ← Action.read (change.prepare c)
  announce (change.event c (← get) true)
  return carryOut

def conclude (change : Change) (carryOut : Action Payload) : Action Unit := do
  let payload ← carryOut
  announce ⟨c, change.code, change.key, payload, false⟩

variable {c} {w w' : World} {change : Change}

/-- A change is its checks, an announcement, what is carried out, and another announcement. -/
theorem run_perform (change : Change) (h : ∀ key, change ≠ .addNodes key []) (w : World) :
    (change.perform c).run w =
      match change.prepare c w with
      | .ok carryOut =>
        (announce (change.event c w true) >>= fun _ => change.conclude c carryOut).run w
      | .error e => .error e w := by
  cases change with
  | addProperty key value =>
    simp only [perform, prepare, ConfigurationId.addProperty, ConfigurationId.addPropertyWith,
      run_read_bind]
    cases w.forest.prepareAdd (w.markers c) (w.root c) key with
    | error e => rfl
    | ok place =>
      change _ = (announce _ >>= fun _ => conclude c _ _).run w
      simp only [conclude, bind_assoc, pure_bind]
      rfl
  | setProperty key value =>
    have hphases (nodes : List NodeId) : (do
        announce ((setProperty key value).event c w true)
        (setProperty key value).conclude c (writeValues c key value nodes)) = (do
        announce ⟨c, Event.setProperty, key, .value value, true⟩
        ConfigurationId.overwrite nodes value.spread
        c.clearNodes (nodes.drop value.spread.length)
        c.addEach key (value.spread.drop nodes.length)
        announce ⟨c, Event.setProperty, key, .value value, false⟩) := by
      simp only [conclude, writeValues, bind_assoc, pure_bind]
      rfl
    simp only [perform, prepare, ConfigurationId.setProperty, run_read_bind]
    cases w.fetchNodes c key with
    | error e => rfl
    | ok nodes =>
      simp only [ok_bind]
      split
      · simp only [run_read_bind]
        cases w.forest.prepareAdd (w.markers c) (w.root c) key with
        | error e => rfl
        | ok place => exact congrArg (EStateM.run · w) (hphases nodes).symm
      · exact congrArg (EStateM.run · w) (hphases nodes).symm
  | clearProperty key =>
    change _ = (announce _ >>= fun _ => conclude c _ _).run w
    simp only [conclude, bind_assoc, pure_bind]
    rfl
  | clearTree key =>
    change _ = (announce _ >>= fun _ => conclude c _ _).run w
    simp only [conclude, bind_assoc, pure_bind]
    rfl
  | addNodes key nodes =>
    cases nodes with
    | nil => exact absurd rfl (h key)
    | cons node rest =>
      change (Action.read (·.addTarget c key) >>= _).run w = _
      simp only [prepare, run_read_bind]
      cases w.addTarget c key with
      | error e => rfl
      | ok target =>
        change _ = (announce _ >>= fun _ => conclude c _ _).run w
        cases target <;> simp only [conclude, appendNodes, bind_assoc, pure_bind] <;> rfl
  | clear =>
    change _ = (announce _ >>= fun _ => conclude c _ _).run w
    simp only [conclude, bind_assoc, pure_bind]
    rfl

theorem run_perform_eq (h : ∀ key, change ≠ .addNodes key []) :
    (change.perform c).run w = (change.opening c >>= change.conclude c).run w := by
  rw [run_perform change h, opening, bind_assoc, run_read_bind]
  cases change.prepare c w with
  | error e => rfl
  | ok carryOut =>
    simp only [bind_assoc, pure_bind]
    rfl

end Change

structure SameTree (c : ConfigurationId) (w w' : World) : Prop where
  forest : w'.forest = w.forest
  root : w'.root c = w.root c
  markers : w'.markers c = w.markers c

variable {c : ConfigurationId} {w w' : World} {key : Option String} {f : Forest}

structure SameKeys (c : ConfigurationId) (w w' : World) : Prop where
  root : w'.root c = w.root c
  markers : w'.markers c = w.markers c

theorem SameTree.sameKeys (h : SameTree c w w') : SameKeys c w w' := ⟨h.root, h.markers⟩

theorem SameTree.fetchNodes (h : SameTree c w w') : w'.fetchNodes c key = w.fetchNodes c key := by
  rw [World.fetchNodes, World.fetchNodes, h.forest, h.root, h.markers]

theorem SameTree.prepareAdd (h : SameTree c w w') :
    w'.forest.prepareAdd (w'.markers c) (w'.root c) key =
      w.forest.prepareAdd (w.markers c) (w.root c) key := by
  rw [h.forest, h.root, h.markers]

theorem SameTree.addTarget (h : SameTree c w w') : w'.addTarget c key = w.addTarget c key := by
  unfold World.addTarget
  rw [h.fetchNodes, h.prepareAdd, h.forest]

theorem Forest.exists_place {m : Markers} {root : NodeId}
    (h : ∃ place, f.prepareAdd m root key = .ok place) (g : Forest) :
    ∃ place, g.prepareAdd m root key = .ok place := by
  obtain ⟨place, hplace⟩ := h
  obtain ⟨path, last, hparse, hkinds, -⟩ := prepareAdd_eq_ok.1 hplace
  exact ⟨_, prepareAdd_eq_ok.2 ⟨path, last, hparse, hkinds, rfl⟩⟩

theorem SameKeys.exists_place (h : SameKeys c w w')
    (hplace : ∃ place, w.forest.prepareAdd (w.markers c) (w.root c) key = .ok place) :
    ∃ place, w'.forest.prepareAdd (w'.markers c) (w'.root c) key = .ok place := by
  rw [h.root, h.markers]
  exact Forest.exists_place hplace w'.forest

theorem SameKeys.exists_nodes (h : SameKeys c w w')
    (hnodes : ∃ nodes, w.fetchNodes c key = .ok nodes) :
    ∃ nodes, w'.fetchNodes c key = .ok nodes := by
  obtain ⟨nodes, hnodes⟩ := hnodes
  obtain ⟨parts, hparse, -⟩ := Forest.select_eq_ok.1 hnodes
  exact ⟨_, Forest.select_eq_ok.2 ⟨parts, by rw [h.markers, hparse], rfl⟩⟩

theorem run_addEach {m : Markers} {root : NodeId}
    (h : ∃ place, f.prepareAdd m root key = .ok place) (values : List Value) :
    ∃ final, ∀ w, w.forest = f → w.root c = root → w.markers c = m →
      (c.addEach key values).run w = .ok () { w with forest := final } := by
  induction values generalizing f with
  | nil =>
    refine ⟨f, ?_⟩
    rintro w rfl - -
    rfl
  | cons value rest ih =>
    obtain ⟨place, hplace⟩ := h
    obtain ⟨final, hrest⟩ := ih (Forest.exists_place ⟨place, hplace⟩ (f.insertNode place value).2)
    refine ⟨final, ?_⟩
    rintro w rfl rfl rfl
    change ((Action.read fun w => w.forest.prepareAdd (w.markers c) (w.root c) key) >>= _ >>= _).run
      w = _
    rw [bind_assoc, run_read_bind, hplace]
    exact hrest { w with forest := (w.forest.insertNode place value).2 } rfl rfl rfl

def Forest.dropAll (f : Forest) (root : NodeId) (nodes : List NodeId) : Forest :=
  nodes.foldl (fun f i => if i = root then f.reset i else f.detach i) f

theorem run_dropNodes (nodes : List NodeId) (w : World) :
    (c.dropNodes nodes).run w =
      .ok () { w with forest := w.forest.dropAll (w.root c) nodes } := by
  unfold ConfigurationId.dropNodes
  induction nodes generalizing w with
  | nil => rfl
  | cons i nodes ih => exact ih _

theorem run_writeValues {value : Value} {nodes : List NodeId}
    (hmissing : nodes.length < value.spread.length →
      ∃ place, w.forest.prepareAdd (w.markers c) (w.root c) key = .ok place) :
    ∃ final, ∀ w', SameTree c w w' →
      (Change.writeValues c key value nodes).run w' =
        .ok (.value value) { w' with forest := final } := by
  have hadded : ∃ final, ∀ u, u.forest = (w.rewritten c nodes value.spread).forest →
      u.root c = w.root c → u.markers c = w.markers c →
      (c.addEach key (value.spread.drop nodes.length)).run u =
        .ok () { u with forest := final } := by
    by_cases hlt : nodes.length < value.spread.length
    · exact run_addEach (Forest.exists_place (hmissing hlt) _) _
    · rw [List.drop_eq_nil_of_le (by omega)]
      refine ⟨(w.rewritten c nodes value.spread).forest, fun u hu _ _ => ?_⟩
      rw [← hu]
      rfl
  obtain ⟨final, hrun⟩ := hadded
  refine ⟨final, fun w' hsame => ?_⟩
  simp only [Change.writeValues, EStateM.run_bind, run_overwrite, run_clearNodes]
  rw [hrun]
  · rfl
  · rw [hsame.forest]
    exact congrArg (fun root => Forest.clearAll _ root _) hsame.root
  · exact hsame.root
  · exact hsame.markers

def AddTarget.node (f : Forest) : AddTarget → NodeId × Forest
  | .existing node => (node, f)
  | .missing place => f.insertNode place .null

def Forest.appendTo (f : Forest) (target : AddTarget) (nodes : List NodeId) : Forest :=
  nodes.foldl (·.append (target.node f).1 ·) (target.node f).2

theorem run_appendNodes (nodes : List NodeId) (target : AddTarget) (w : World) :
    (Change.appendNodes nodes target).run w =
      .ok (.nodes nodes) { w with forest := w.forest.appendTo target nodes } := by
  cases target <;> rfl

namespace Change

variable {change : Change}

/-- An accepted change passes its checks in every world with the same tree. What is to be
carried out then goes through on any tree. -/
theorem prepare_spec (h : change.Accepts c w) : ∃ carryOut,
    (∀ w', SameTree c w w' → change.prepare c w' = .ok carryOut) ∧
      ∀ u, SameKeys c w u → ∃ final, ∀ w', SameTree c u w' →
        carryOut.run w' = .ok (change.payload c u false) { w' with forest := final } := by
  cases change with
  | addProperty key value =>
    obtain ⟨place, hplace⟩ := h
    refine ⟨do c.addEach key value.spread; return .value value, fun w' hsame => ?_,
      fun u hkeys => ?_⟩
    · rw [prepare, hsame.prepareAdd, hplace]
      rfl
    · obtain ⟨final, hrun⟩ := run_addEach (hkeys.exists_place ⟨place, hplace⟩) value.spread
      refine ⟨final, fun w' hsame => ?_⟩
      rw [EStateM.run_bind, hrun w' hsame.forest hsame.root hsame.markers]
      rfl
  | setProperty key value =>
    obtain ⟨nodes, hnodes, hmissing⟩ := h
    refine ⟨writeValues c key value nodes, fun w' hsame => ?_,
      fun u hkeys => run_writeValues fun hlt => hkeys.exists_place (hmissing hlt)⟩
    simp only [prepare, hsame.fetchNodes, hsame.prepareAdd, hnodes, ok_bind]
    split
    · rename_i hlt
      obtain ⟨place, hplace⟩ := hmissing hlt
      rw [hplace]
      rfl
    · rfl
  | clearProperty key =>
    refine ⟨_, fun w' _ => rfl, fun u hkeys => ?_⟩
    obtain ⟨nodes, hnodes⟩ := hkeys.exists_nodes h
    refine ⟨u.forest.clearAll (u.root c) nodes, fun w' hsame => ?_⟩
    rw [run_read_bind, hsame.fetchNodes, hnodes]
    simp only [EStateM.run_bind, run_clearNodes, hsame.forest, hsame.root]
    rfl
  | clearTree key =>
    refine ⟨_, fun w' _ => rfl, fun u hkeys => ?_⟩
    obtain ⟨nodes, hnodes⟩ := hkeys.exists_nodes h
    refine ⟨u.forest.dropAll (u.root c) nodes, fun w' hsame => ?_⟩
    rw [run_read_bind, hsame.fetchNodes, hnodes]
    simp only [EStateM.run_bind, run_dropNodes, hsame.forest, hsame.root, payload, hnodes]
    rfl
  | addNodes key nodes =>
    obtain ⟨-, target, htarget⟩ := h
    refine ⟨appendNodes nodes target, fun w' hsame => ?_, fun u _ => ?_⟩
    · rw [prepare, hsame.addTarget, htarget]
      rfl
    · refine ⟨u.forest.appendTo target nodes, fun w' hsame => ?_⟩
      rw [run_appendNodes, hsame.forest]
      rfl
  | clear =>
    refine ⟨_, fun w' _ => rfl, fun u _ => ⟨u.forest.reset (u.root c), fun w' hsame => ?_⟩⟩
    change EStateM.Result.ok (Payload.value .null)
      { w' with forest := w'.forest.reset (w'.root c) } = _
    rw [hsame.forest, hsame.root]
    rfl

theorem run_perform_of_silent {carryOut : Action Payload} {payload : Payload}
    {final : Forest} (hne : ∀ key, change ≠ .addNodes key [])
    (hsilent : (w.configuration c).listeners = []) (hprepare : change.prepare c w = .ok carryOut)
    (hrun : carryOut.run w = .ok payload { w with forest := final }) :
    (change.perform c).run w = .ok () { w with forest := final } := by
  rw [run_perform change hne, hprepare]
  dsimp only
  rw [EStateM.run_bind, run_announce_of_silent hsilent]
  dsimp only
  rw [conclude, EStateM.run_bind, hrun]
  exact run_announce_of_silent hsilent

end Change

end Settings
