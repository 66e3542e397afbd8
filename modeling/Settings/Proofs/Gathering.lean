import Settings.Proofs.Confinement
import Settings.Proofs.Forest.Ancestry
import Settings.Proofs.Runs

/-! # Adding nodes anywhere

Nodes that exist can be added below any other node, through other nodes or through
configurations. Unless a call adds a node to itself or to one of its descendants, it makes no
node its own ancestor, and what is added through a configuration stands below its root.
-/

namespace Settings

open Settings.Action

namespace Call

/-- Nodes, configurations and views are made, and nodes that exist are added anywhere. -/
def Joins (w : World) : Call → Prop
  | createNode .. | useMarkers .. | useCommonMarkers _ => True
  | createConfiguration root => w.forest.Has root
  | createView _ node => w.forest.Has node
  | configurationAt c _ => c.index < w.configurations.size
  | addChild parent i | addAttribute parent i => w.forest.Has parent ∧ w.forest.Has i
  | addNodes c _ nodes => c.index < w.configurations.size ∧ ∀ i ∈ nodes, w.forest.Has i
  | _ => False

def added : Call → List NodeId
  | addChild _ i | addAttribute _ i => [i]
  | addNodes _ _ nodes => nodes
  | _ => []

def base? (w : World) : Call → Option NodeId
  | addChild parent _ | addAttribute parent _ => some parent
  | addNodes c key _ => (w.addTarget c key).toOption.map AddTarget.base
  | _ => none

/-- A node is added to itself or to one of its descendants. -/
def Entangles (w : World) (call : Call) : Prop :=
  ∃ base, call.base? w = some base ∧ ∃ i ∈ call.added, w.forest.Above i base

end Call

namespace World

inductive ReachedBy (allowed : World → Call → Prop) : World → Prop
  | fresh (environment : Environment) : ReachedBy allowed (.fresh environment)
  | call {w : World} (call : Call) :
      ReachedBy allowed w → allowed w call → ReachedBy allowed (call.step w)

theorem ReachedBy.mono {allowed allowed' : World → Call → Prop} {w : World}
    (h : w.ReachedBy allowed) (himp : ∀ w call, allowed w call → allowed' w call) :
    w.ReachedBy allowed' := by
  induction h with
  | fresh environment => exact .fresh environment
  | call call _ hcall ih => exact .call call ih (himp _ call hcall)

/-- What adding nodes anywhere leaves intact: parents and lists agree, every configuration is
over a node, and nobody listens. -/
structure Joined (w : World) : Prop where
  consistent : w.forest.Consistent
  each : w.Each fun own => w.forest.Has own.root ∧ own.listeners = []

variable {w : World} {c : ConfigurationId} {key : Option String} {nodes : List NodeId}
  {target : AddTarget} {call : Call} {e : Fault}

theorem gathers_appendTo {f : Forest} (hf : f.Consistent) (hbase : f.Has target.base)
    (hnodes : ∀ i ∈ nodes, f.Has i) :
    Forest.Gathers target.base nodes f (f.appendTo target nodes) := by
  cases target with
  | existing node => exact Forest.gathers_foldl_append hf hbase hnodes
  | missing place =>
    obtain ⟨hcon, hext, hhas⟩ := Forest.insertNode_spec hf hbase .null
    exact .of_insertNode hf hbase hnodes
      (Forest.gathers_foldl_append hcon hhas fun i hi => hext.has (hnodes i hi))

theorem run_addNodes_of_silent (hne : nodes ≠ []) (hsilent : (w.configuration c).listeners = [])
    (htarget : w.addTarget c key = .ok target) :
    (c.addNodes key nodes).run w = .ok () { w with forest := w.forest.appendTo target nodes } := by
  have hsome : ∀ k, Change.addNodes key nodes ≠ .addNodes k [] := by simpa using hne
  have hprepare : (Change.addNodes key nodes).prepare c w =
      .ok (Change.appendNodes nodes target) := by
    rw [Change.prepare, htarget]
    rfl
  exact Change.run_perform_of_silent hsome hsilent hprepare (run_appendNodes nodes target w)

theorem run_addNodes_of_refused (hne : nodes ≠ []) (htarget : w.addTarget c key = .error e) :
    (c.addNodes key nodes).run w = .error e w := by
  have hrun := Change.run_perform (c := c) (.addNodes key nodes) (by simpa using hne) w
  rw [Change.prepare, htarget] at hrun
  exact hrun

theorem run_addNodes_nil (c : ConfigurationId) (key : Option String) (w : World) :
    (c.addNodes key []).run w = .ok () w := rfl

namespace Joined

theorem withForest (hw : w.Joined) {g : Forest} (hg : g.Consistent)
    (hle : w.forest.size ≤ g.size) : World.Joined { w with forest := g } := by
  refine ⟨hg, fun c hc => ?_⟩
  obtain ⟨hroot, hsilent⟩ := hw.each c hc
  exact ⟨Nat.lt_of_lt_of_le hroot hle, hsilent⟩

theorem addConfiguration (hw : w.Joined) {own : Configuration} (hroot : w.forest.Has own.root)
    (hsilent : own.listeners = []) : (w.addConfiguration own).2.Joined :=
  ⟨hw.consistent, hw.each.addConfiguration ⟨hroot, hsilent⟩⟩

theorem has_base (hw : w.Joined) (hc : c.index < w.configurations.size)
    (htarget : w.addTarget c key = .ok target) : w.forest.Has target.base :=
  (above_base_of_addTarget hw.consistent htarget).has_below (hw.each c hc).1

theorem gathers_self (hw : w.Joined) (base : NodeId) : Forest.Gathers base [] w.forest w.forest :=
  Forest.gathers_nil (fun _ => rfl) hw.consistent (Nat.le_refl _) base

end Joined

/-- What a call does to the ancestors of nodes, whether or not it adds any. -/
def Gathered (w : World) (call : Call) : Prop :=
  match call.base? w with
  | some base => Forest.Gathers base call.added w.forest (call.step w).forest
  | none => ∀ base, Forest.Gathers base [] w.forest (call.step w).forest

namespace Joined

theorem step_configurationAt (hw : w.Joined) (hc : c.index < w.configurations.size)
    (key : Option String) : ((c.configurationAt key).after w).Joined ∧
      ((c.configurationAt key).after w).forest = w.forest := by
  unfold ConfigurationId.configurationAt
  rw [after_read_bind]
  cases hfetch : w.fetchNodes c key with
  | error e => exact ⟨hw, rfl⟩
  | ok nodes =>
    obtain ⟨parts, -, hfollow⟩ := Forest.select_eq_ok.1 hfetch
    match nodes with
    | [node] =>
      have hmem : node ∈ w.forest.follow [w.root c] parts := by simp [hfollow]
      obtain ⟨q, hq, ha⟩ := Forest.above_of_mem_follow hw.consistent hmem
      rw [List.mem_singleton.1 hq] at ha
      exact ⟨hw.addConfiguration (ha.has_below (hw.each c hc).1) rfl, rfl⟩
    | [] | i :: j :: rest => exact ⟨hw, rfl⟩

theorem step_addNodes (hw : w.Joined) (hc : c.index < w.configurations.size)
    (hnodes : ∀ i ∈ nodes, w.forest.Has i) :
    ((Call.addNodes c key nodes).step w).Joined ∧ w.Gathered (.addNodes c key nodes) := by
  have hstep : (Call.addNodes c key nodes).step w = (c.addNodes key nodes).after w := rfl
  rw [Gathered, Call.base?, hstep]
  by_cases hne : nodes = []
  · subst hne
    rw [after_of_run (run_addNodes_nil c key w)]
    refine ⟨hw, ?_⟩
    cases w.addTarget c key with
    | error e => exact hw.gathers_self
    | ok target => exact hw.gathers_self target.base
  · cases htarget : w.addTarget c key with
    | error e =>
      rw [Action.after, run_addNodes_of_refused hne htarget]
      exact ⟨hw, hw.gathers_self⟩
    | ok target =>
      have hg := gathers_appendTo hw.consistent (hw.has_base hc htarget) hnodes
      rw [after_of_run (run_addNodes_of_silent hne (hw.each c hc).2 htarget)]
      exact ⟨hw.withForest hg.consistent hg.size_le, hg⟩

theorem step (hw : w.Joined) (h : call.Joins w) : (call.step w).Joined ∧ w.Gathered call := by
  cases call with
  | createNode name value isAttribute =>
    have hg := Forest.gathers_nil (w.forest.parent_create name value isAttribute)
      (hw.consistent.create name value isAttribute) (by rw [Forest.size_create]; omega)
    exact ⟨hw.withForest (hg ⟨0⟩).consistent (hg ⟨0⟩).size_le, hg⟩
  | addChild parent i =>
    have hg := Forest.gathers_link (b := false) hw.consistent h.1 h.2
    exact ⟨hw.withForest hg.consistent hg.size_le, hg⟩
  | addAttribute parent i =>
    have hg := Forest.gathers_link (b := true) hw.consistent h.1 h.2
    exact ⟨hw.withForest hg.consistent hg.size_le, hg⟩
  | createConfiguration root => exact ⟨hw.addConfiguration h rfl, hw.gathers_self⟩
  | createView c node => exact ⟨hw.addConfiguration h rfl, hw.gathers_self⟩
  | configurationAt c key =>
    obtain ⟨hjoined, hforest⟩ := hw.step_configurationAt h key
    have hstep : (Call.configurationAt c key).step w = (c.configurationAt key).after w :=
      after_discard _ w
    rw [Gathered, hstep, hforest]
    exact ⟨hjoined, hw.gathers_self⟩
  | useMarkers c m =>
    exact ⟨⟨hw.consistent, hw.each.modifyConfiguration c fun _ hown => hown⟩, hw.gathers_self⟩
  | useCommonMarkers m => exact ⟨⟨hw.consistent, hw.each⟩, hw.gathers_self⟩
  | addNodes c key nodes => exact hw.step_addNodes h.1 h.2
  | _ => exact h.elim

/-- Nodes that were added are below the root if the place was, and still is: that is, unless the
way up from there leads through one of them. -/
theorem above_added (hw : w.Joined) (hc : c.index < w.configurations.size)
    (hnodes : ∀ i ∈ nodes, w.forest.Has i)
    (hsucceeds : (Call.addNodes c key nodes).perform.succeeds w = true) {i : NodeId}
    (hi : i ∈ nodes) : ∃ base, (Call.addNodes c key nodes).base? w = some base ∧
      w.forest.Above (w.root c) base ∧
      (((Call.addNodes c key nodes).step w).forest.Above (w.root c) i ↔
        i = w.root c ∨ w.forest.Spared nodes (w.root c) base) := by
  have hne : nodes ≠ [] := List.ne_nil_of_mem hi
  cases htarget : w.addTarget c key with
  | error e =>
    change (c.addNodes key nodes).succeeds w = true at hsucceeds
    rw [Action.succeeds, run_addNodes_of_refused hne htarget] at hsucceeds
    cases hsucceeds
  | ok target =>
    have hbase : (Call.addNodes c key nodes).base? w = some target.base := by
      rw [Call.base?, htarget]
      rfl
    have hg : w.Gathered (.addNodes c key nodes) := (hw.step_addNodes hc hnodes).2
    rw [Gathered, hbase] at hg
    exact ⟨target.base, hbase, above_base_of_addTarget hw.consistent htarget,
      hg.above_iff (w.root c) (hw.each c hc).1 i hi⟩

end Joined

theorem Gathered.exists_ownAncestor (hg : w.Gathered call) (h : call.Entangles w) :
    ∃ i ∈ call.added, (call.step w).forest.OwnAncestor i := by
  obtain ⟨base, hbase, hmem⟩ := h
  rw [Gathered, hbase] at hg
  exact hg.exists_ownAncestor hmem

theorem Gathered.ownAncestor_of_free (hg : w.Gathered call) (h : ¬ call.Entangles w) (i : NodeId)
    (hown : (call.step w).forest.OwnAncestor i) : w.forest.OwnAncestor i := by
  unfold Gathered at hg
  cases hbase : call.base? w with
  | none =>
    rw [hbase] at hg
    exact (hg ⟨0⟩).ownAncestor_of_free (by simp) i hown
  | some base =>
    rw [hbase] at hg
    exact hg.ownAncestor_of_free (fun j hj ha => h ⟨base, hbase, j, hj, ha⟩) i hown

theorem ReachedBy.joined (h : w.ReachedBy Call.Joins) : w.Joined := by
  induction h with
  | fresh environment =>
    exact ⟨Forest.WellFormed.empty.consistent, fun c hc => absurd hc (Nat.not_lt_zero _)⟩
  | call call _ hcall ih => exact (ih.step hcall).1

/-- As long as no call adds a node to itself or below itself, nobody is its own ancestor. -/
theorem ReachedBy.not_ownAncestor
    (h : w.ReachedBy fun w call => call.Joins w ∧ ¬ call.Entangles w) (i : NodeId) :
    ¬ w.forest.OwnAncestor i := by
  induction h with
  | fresh environment => exact Forest.WellFormed.empty.not_ownAncestor i
  | call call hw hcall ih =>
    have hjoined := (hw.mono fun _ _ h => h.1).joined
    exact fun hown => ih ((hjoined.step hcall.1).2.ownAncestor_of_free hcall.2 i hown)

/-- However nodes are added, one that is added becomes its own ancestor if it, or another one
that is added, goes to itself or to a descendant, and nobody does otherwise. Nodes that are added
through a configuration are then below its root, unless one of them was on the way up to it. -/
theorem ancestry_of_joins (hw : w.ReachedBy Call.Joins) :
    w.forest.Consistent ∧
    ((w.ReachedBy fun w call => call.Joins w ∧ ¬ call.Entangles w) →
      ∀ i, ¬ w.forest.OwnAncestor i) ∧
    ∀ call : Call, call.Joins w →
      (call.Entangles w → ∃ i ∈ call.added, (call.step w).forest.OwnAncestor i) ∧
      (¬ call.Entangles w → ∀ i, (call.step w).forest.OwnAncestor i → w.forest.OwnAncestor i) ∧
      ∀ c key nodes, call = .addNodes c key nodes → call.perform.succeeds w = true →
        (¬ call.Entangles w → ∀ i ∈ nodes, (call.step w).forest.Above (w.root c) i) ∧
        ∀ i ∈ nodes, ((call.step w).forest.Above (w.root c) i ↔
          i = w.root c ∨ ∃ base, call.base? w = some base ∧
            w.forest.Spared nodes (w.root c) base) := by
  refine ⟨hw.joined.consistent, fun hcareful => hcareful.not_ownAncestor, fun call hcall => ?_⟩
  have hgathered := (hw.joined.step hcall).2
  refine ⟨hgathered.exists_ownAncestor, hgathered.ownAncestor_of_free, ?_⟩
  rintro c key nodes rfl hsucceeds
  constructor
  · intro hfree i hi
    obtain ⟨base, hbase, habove, hiff⟩ := hw.joined.above_added hcall.1 hcall.2 hsucceeds hi
    refine hiff.2 (.inr (habove.spared_of_free fun j hj ha => ?_))
    exact hfree ⟨base, hbase, j, hj, ha⟩
  · intro i hi
    obtain ⟨base, hbase, -, hiff⟩ := hw.joined.above_added hcall.1 hcall.2 hsucceeds hi
    rw [hiff, hbase]
    simp

def branching : World :=
  [.createNode (some "r") .null false, .createNode (some "a") .null false,
    .createNode (some "b") .null false, .createNode (some "c") .null false,
    .addChild ⟨0⟩ ⟨1⟩, .addChild ⟨1⟩ ⟨2⟩, .createConfiguration ⟨0⟩].foldl
    (fun w (call : Call) => call.step w) (fresh [])

theorem reachedBy_branching : branching.ReachedBy Call.Joins :=
  (ReachedBy.fresh [])
    |>.call (.createNode (some "r") .null false) trivial
    |>.call (.createNode (some "a") .null false) trivial
    |>.call (.createNode (some "b") .null false) trivial
    |>.call (.createNode (some "c") .null false) trivial
    |>.call (.addChild ⟨0⟩ ⟨1⟩) (by decide : Forest.Has _ _ ∧ Forest.Has _ _)
    |>.call (.addChild ⟨1⟩ ⟨2⟩) (by decide : Forest.Has _ _ ∧ Forest.Has _ _)
    |>.call (.createConfiguration ⟨0⟩) (by decide : Forest.Has _ _)

theorem ancestry_branching :
    let call := Call.addNodes ⟨0⟩ (some "a.b") [⟨3⟩]
    branching.ReachedBy Call.Joins ∧ call.Joins branching ∧ call.perform.succeeds branching = true ∧
      (call.step branching).forest.Above ⟨0⟩ ⟨3⟩ := by
  intro call
  have hjoins : call.Joins branching := ⟨by decide, by decide⟩
  have hsucceeds : call.perform.succeeds branching = true := by decide +kernel
  obtain ⟨-, -, hcall⟩ := ancestry_of_joins reachedBy_branching
  refine ⟨reachedBy_branching, hjoins, hsucceeds, ?_⟩
  refine (((hcall call hjoins).2.2 _ _ _ rfl hsucceeds).2 ⟨3⟩ (by decide)).2 (.inr ?_)
  have hway : branching.forest.Spared [⟨3⟩] ⟨0⟩ ⟨2⟩ :=
    .up (p := ⟨1⟩) rfl (by decide) (.up (p := ⟨0⟩) rfl (by decide) .here)
  exact ⟨⟨2⟩, by decide +kernel, hway⟩

/-- A node is added to the last node of its own branch: the branch becomes a circle, and nothing
of it stands below the root any longer. -/
theorem ownAncestor_branching :
    let call := Call.addNodes ⟨0⟩ (some "a.b") [⟨1⟩]
    branching.ReachedBy Call.Joins ∧ call.Joins branching ∧ call.perform.succeeds branching = true ∧
      (call.step branching).forest.OwnAncestor ⟨1⟩ ∧
      ¬ (call.step branching).forest.Above ⟨0⟩ ⟨1⟩ := by
  intro call
  have hjoins : call.Joins branching := ⟨by decide, by decide⟩
  have hparent : ((call.step branching).forest.node ⟨1⟩).parent = some ⟨2⟩ := by decide +kernel
  have hback : ((call.step branching).forest.node ⟨2⟩).parent = some ⟨1⟩ := by decide +kernel
  have hchildless : ∀ b, ((call.step branching).forest.node ⟨0⟩).linked b = [] := by
    decide +kernel
  have hconsistent := (reachedBy_branching.joined.step hjoins).1.consistent
  refine ⟨reachedBy_branching, hjoins, by decide +kernel, ⟨⟨2⟩, hparent, .up hback .here⟩, ?_⟩
  intro ha
  have heq := ha.eq_of_no_child fun j hj => ?_
  · cases heq
  · have hmem := hconsistent.mem_linked_iff.2 ⟨hj, rfl⟩
    rw [hchildless] at hmem
    exact List.not_mem_nil hmem

end World

end Settings
