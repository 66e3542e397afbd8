import Settings.Configuration.View
import Settings.Proofs.Evolution
import Settings.Proofs.Views

/-! # Runs of calls

A world is reached by calls on nodes, configurations, views and listeners, in
any order and whether or not they are refused. As long as no call puts a node
below itself, every world reached has a well-formed forest.
-/

namespace Settings

open Settings.Action

/-- One call on the nodes, configurations or listeners of a world. -/
inductive Call
  | createNode (name : Option String) (value : Value) (isAttribute : Bool)
  | assign (i : NodeId) (value : Value)
  | addChild (parent i : NodeId)
  | addAttribute (parent i : NodeId)
  | removeChild (parent i : NodeId)
  | removeAttribute (parent i : NodeId)
  | removeChildren (i : NodeId)
  | removeAttributes (i : NodeId)
  | createConfiguration (root : NodeId)
  | createView (c : ConfigurationId) (node : NodeId)
  | configurationAt (c : ConfigurationId) (key : Option String)
  | useMarkers (c : ConfigurationId) (m : Option Markers)
  | useCommonMarkers (m : Markers)
  | refuseMissing (c : ConfigurationId) (throws : Bool)
  | addListener (name : String) (reaction : Reaction)
  | register (c : ConfigurationId) (l : ListenerId)
  | deregister (c : ConfigurationId) (l : ListenerId)
  | clearListeners (c : ConfigurationId)
  | announce (event : Event)
  | addProperty (c : ConfigurationId) (key : Option String) (value : Value)
  | setProperty (c : ConfigurationId) (key : Option String) (value : Value)
  | clearProperty (c : ConfigurationId) (key : Option String)
  | clearTree (c : ConfigurationId) (key : Option String)
  | addNodes (c : ConfigurationId) (key : Option String) (nodes : List NodeId)
  | clear (c : ConfigurationId)

namespace Call

def perform : Call → Action Unit
  | createNode name value isAttribute => onForest fun f => (f.create name value isAttribute).2
  | assign i value => onForest (·.setValue i value)
  | addChild parent i => onForest (·.addChild parent i)
  | addAttribute parent i => onForest (·.addAttribute parent i)
  | removeChild parent i => onForest fun f => (f.removeChild parent i).2
  | removeAttribute parent i => onForest fun f => (f.removeAttribute parent i).2
  | removeChildren i => onForest (·.removeChildren i)
  | removeAttributes i => onForest (·.removeAttributes i)
  | createConfiguration root => discard (Settings.createConfiguration root)
  | createView c node => discard (c.createView node)
  | configurationAt c key => discard (c.configurationAt key)
  | useMarkers c m => modify (·.modifyConfiguration c fun own => { own with markers := m })
  | useCommonMarkers m => modify fun w => { w with common := m }
  | refuseMissing c throws =>
    modify (·.modifyConfiguration c fun own => { own with throwsOnMissing := throws })
  | addListener name reaction => discard (modifyGet (·.addListener name reaction))
  | register c l => c.register l
  | deregister c l => discard (c.deregister l)
  | clearListeners c => c.clearListeners
  | announce event => Settings.announce event
  | addProperty c key value => c.addProperty key value
  | setProperty c key value => c.setProperty key value
  | clearProperty c key => c.clearProperty key
  | clearTree c key => c.clearTree key
  | addNodes c key nodes => c.addNodes key nodes
  | clear c => c.clear

def step (call : Call) (w : World) : World := call.perform.after w

/-- What a call works on exists, and no node is put below itself or below one
of its descendants. -/
def Permitted (w : World) : Call → Prop
  | addChild parent i | addAttribute parent i =>
    w.forest.Has parent ∧ w.forest.Has i ∧ ¬ w.forest.Above i parent
  | createConfiguration root => w.forest.Has root
  | createView _ node => w.forest.Has node
  | announce event => event.source.index < w.configurations.size
  | configurationAt c _ | addProperty c _ _ | setProperty c _ _ | clearProperty c _
  | clearTree c _ | clear c => c.index < w.configurations.size
  | addNodes c key nodes =>
    c.index < w.configurations.size ∧ (∀ i ∈ nodes, w.forest.Has i) ∧
      ∀ target, w.addTarget c key = .ok target → ∀ i ∈ nodes, ¬ w.forest.Above i target.base
  | _ => True

end Call

namespace World

inductive Reachable : World → Prop
  | fresh (environment : Environment) : Reachable (.fresh environment)
  | call {w : World} (call : Call) : Reachable w → call.Permitted w → Reachable (call.step w)

structure Sound (w : World) : Prop where
  wellFormed : w.forest.WellFormed
  has_root : ∀ c : ConfigurationId, c.index < w.configurations.size → w.forest.Has (w.root c)

variable {w w' : World} {c : ConfigurationId} {P : Forest → Forest → Prop}

theorem sound_fresh (environment : Environment) : (fresh environment).Sound where
  wellFormed := .empty
  has_root _ hc := absurd hc (Nat.not_lt_zero _)

theorem Sound.evolve (hw : w.Sound) (hc : c.index < w.configurations.size)
    (h : Evolves P c w w') : w'.Sound := by
  have h := h hw.wellFormed (hw.has_root c hc)
  refine ⟨h.wellFormed, fun d hd => ?_⟩
  rw [h.configurations_size] at hd
  rw [h.root_eq]
  exact Nat.lt_of_lt_of_le (hw.has_root d hd) h.size_le

theorem Sound.withForest (hw : w.Sound) {g : Forest} (hg : g.WellFormed)
    (hle : w.forest.size ≤ g.size) : World.Sound { w with forest := g } :=
  ⟨hg, fun c hc => Nat.lt_of_lt_of_le (hw.has_root c hc) hle⟩

theorem Sound.rewire (hw : w.Sound) {g : Forest} (hg : g.WellFormed)
    (hsize : g.size = w.forest.size) : World.Sound { w with forest := g } :=
  hw.withForest hg (Nat.le_of_eq hsize.symm)

theorem Sound.of_same (hw : w.Sound) (hforest : w'.forest = w.forest)
    (hroot : ∀ d, w'.root d = w.root d)
    (hsize : w'.configurations.size = w.configurations.size) : w'.Sound :=
  ⟨hforest ▸ hw.wellFormed, fun c hc => hforest ▸ hroot c ▸ hw.has_root c (hsize ▸ hc)⟩

theorem Sound.modifyConfiguration (hw : w.Sound) (c : ConfigurationId)
    {change : Configuration → Configuration} (h : ∀ own, (change own).root = own.root) :
    (w.modifyConfiguration c change).Sound :=
  hw.of_same rfl (fun d => root_modifyConfiguration w c d change h)
    (by simp [World.modifyConfiguration])

theorem Sound.addConfiguration (hw : w.Sound) {own : Configuration} (h : w.forest.Has own.root) :
    (w.addConfiguration own).2.Sound :=
  ⟨hw.wellFormed, Each.addConfiguration (Q := fun own => w.forest.Has own.root) hw.has_root h⟩

theorem Sound.configurationAt (hw : w.Sound) (hc : c.index < w.configurations.size)
    (key : Option String) : ((c.configurationAt key).after w).Sound := by
  unfold ConfigurationId.configurationAt
  rw [after_read_bind]
  cases hfetch : w.fetchNodes c key with
  | error e => exact hw
  | ok nodes =>
    have hhas := hw.wellFormed.has_of_select (hw.has_root c hc) hfetch
    match nodes with
    | [node] => exact hw.addConfiguration (hhas node (by simp))
    | [] | i :: j :: rest => exact hw

end World

namespace Call

variable {w : World} {call : Call}

theorem sound_step (hw : w.Sound) (h : call.Permitted w) : (call.step w).Sound := by
  have hf := hw.wellFormed
  cases call with
  | createNode name value isAttribute =>
    rw [step, perform, after_onForest]
    exact hw.withForest (hf.create name value isAttribute) (by rw [Forest.size_create]; omega)
  | assign i value =>
    rw [step, perform, after_onForest]
    exact hw.rewire (hf.setValue i value) (Forest.size_setValue _ i value)
  | addChild parent i =>
    rw [step, perform, after_onForest]
    exact hw.rewire (hf.link (b := false) h.1 h.2.1 h.2.2)
      (Forest.size_link _ parent i false)
  | addAttribute parent i =>
    rw [step, perform, after_onForest]
    exact hw.rewire (hf.link (b := true) h.1 h.2.1 h.2.2)
      (Forest.size_link _ parent i true)
  | removeChild parent i =>
    rw [step, perform, after_onForest]
    exact hw.rewire (hf.unlink parent i false) (Forest.size_unlink _ parent i false)
  | removeAttribute parent i =>
    rw [step, perform, after_onForest]
    exact hw.rewire (hf.unlink parent i true) (Forest.size_unlink _ parent i true)
  | removeChildren i =>
    rw [step, perform, after_onForest]
    exact hw.rewire (hf.emptyLinked i false) (Forest.size_emptyLinked _ i false)
  | removeAttributes i =>
    rw [step, perform, after_onForest]
    exact hw.rewire (hf.emptyLinked i true) (Forest.size_emptyLinked _ i true)
  | createConfiguration root =>
    rw [step, perform, after_discard]
    exact hw.addConfiguration h
  | createView c node =>
    rw [step, perform, after_discard]
    exact hw.addConfiguration h
  | configurationAt c key =>
    rw [step, perform, after_discard]
    exact hw.configurationAt h key
  | useMarkers c m => exact hw.modifyConfiguration c fun _ => rfl
  | useCommonMarkers m => exact hw.of_same rfl (fun _ => rfl) rfl
  | refuseMissing c throws => exact hw.modifyConfiguration c fun _ => rfl
  | addListener name reaction =>
    rw [step, perform, after_discard]
    exact hw.of_same rfl (fun _ => rfl) rfl
  | register c l => exact hw.modifyConfiguration c fun _ => rfl
  | deregister c l =>
    rw [step, perform, after_discard]
    exact hw.modifyConfiguration c fun _ => rfl
  | clearListeners c => exact hw.modifyConfiguration c fun _ => rfl
  | announce event => exact hw.evolve h (keeps_announce event rfl w)
  | addProperty c key value => exact hw.evolve h (keeps_addProperty key value w)
  | setProperty c key value => exact hw.evolve h (keeps_setProperty key value w)
  | clearProperty c key => exact hw.evolve h (keeps_clearProperty key w)
  | clearTree c key => exact hw.evolve h (keeps_clearTree key w)
  | addNodes c key nodes => exact hw.evolve h.1 (evolves_addNodes h.2.1 h.2.2)
  | clear c => exact hw.evolve h (keeps_clear w)

end Call

theorem World.Reachable.sound {w : World} (h : w.Reachable) : w.Sound := by
  induction h with
  | fresh environment => exact sound_fresh environment
  | call _ _ hcall ih => exact Call.sound_step ih hcall

/-- In every world that calls lead to, the forest is well-formed. -/
theorem World.wellFormed_of_reachable {w : World} (h : w.Reachable) : w.forest.WellFormed :=
  h.sound.wellFormed

/-- Nodes are linked, moved into another list through a configuration, and
joined by new ones under a key. -/
theorem World.wellFormed_of_moves :
    let calls : List Call := [
      .createNode (some "server") .null false, .createNode (some "host") (.str "a") false,
      .createNode (some "port") (.int 1) true, .addChild ⟨0⟩ ⟨1⟩, .addAttribute ⟨0⟩ ⟨2⟩,
      .createConfiguration ⟨0⟩, .addNodes ⟨0⟩ none [⟨2⟩, ⟨1⟩, ⟨2⟩],
      .setProperty ⟨0⟩ (some "host.name") (.list [.str "b", .str "c"])]
    let w := calls.foldl (fun w call => call.step w) (World.fresh [])
    w.Reachable ∧ w.forest.WellFormed := by
  have hlinked : World.Reachable _ := (Reachable.fresh [])
    |>.call (.createNode (some "server") .null false) trivial
    |>.call (.createNode (some "host") (.str "a") false) trivial
    |>.call (.createNode (some "port") (.int 1) true) trivial
    |>.call (.addChild ⟨0⟩ ⟨1⟩) ⟨by decide, by decide, fun h => by simpa using h.eq_of_root rfl⟩
    |>.call (.addAttribute ⟨0⟩ ⟨2⟩) ⟨by decide, by decide, fun h => by simpa using h.eq_of_root rfl⟩
    |>.call (.createConfiguration ⟨0⟩) (by decide : Forest.Has _ _)
  have hmoved := hlinked.call (.addNodes ⟨0⟩ none [⟨2⟩, ⟨1⟩, ⟨2⟩]) (by
    refine ⟨by decide, by decide, fun target htarget i hi ha => ?_⟩
    cases htarget
    obtain rfl : i = ⟨0⟩ := ha.eq_of_root rfl
    exact absurd hi (by decide))
  have hset := hmoved.call (.setProperty ⟨0⟩ (some "host.name") (.list [.str "b", .str "c"]))
    (by decide : 0 < Array.size _)
  exact ⟨hset, wellFormed_of_reachable hset⟩

end Settings
