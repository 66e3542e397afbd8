import Settings.Proofs.Forest.DeadBranches
import Settings.Proofs.Writing

/-! # What clearing a property takes away

A property is cleared node by node, and each node takes the ancestors along
that become empty. The outcome does not depend on the way there: the values of
the property are gone, and with them the dead branches.
-/

namespace Settings

open Settings.Action

variable {w : World} {c : ConfigurationId} {key : Option String} {nodes : List NodeId}

theorem run_clearProperty (hsilent : (w.configuration c).listeners = [])
    (hfetch : w.fetchNodes c key = .ok nodes) :
    (c.clearProperty key).run w =
      .ok () { w with forest := w.forest.clearAll (w.root c) nodes } := by
  rw [ConfigurationId.clearProperty, EStateM.run_bind, run_announce_of_silent hsilent]
  dsimp only
  rw [run_read_bind, hfetch]
  dsimp only
  rw [EStateM.run_bind, run_clearNodes]
  exact run_announce_of_silent hsilent

theorem World.layer_of_fetchNodes (hf : w.forest.WellFormed) (hroot : w.forest.Has (w.root c))
    (hfetch : w.fetchNodes c key = .ok nodes) :
    w.forest.Layer nodes ∧ ∀ i ∈ nodes, w.forest.Above (w.root c) i := by
  obtain ⟨parts, -, rfl⟩ := Forest.select_eq_ok.1 hfetch
  refine ⟨(Forest.Layer.singleton hroot).follow hf parts, fun i hi => ?_⟩
  obtain ⟨q, hq, ha⟩ := Forest.above_of_mem_follow hf.consistent hi
  exact List.mem_singleton.1 hq ▸ ha

/-- Clearing a property empties the nodes of its key and detaches exactly the dead nodes; the
others keep all but their links to these. What is not above a node of the key stays in place,
be it empty or not. -/
theorem World.stripped_clearProperty (hf : w.forest.WellFormed) (hroot : w.forest.Has (w.root c))
    (hsilent : (w.configuration c).listeners = []) (hfetch : w.fetchNodes c key = .ok nodes) :
    ∃ g dead, (c.clearProperty key).run w = .ok () { w with forest := g } ∧
      (∀ i, i ∈ dead ↔ w.forest.Dead (w.root c) nodes i) ∧
      Forest.Stripped nodes dead w.forest g ∧
      ∀ i, (∀ s ∈ nodes, ¬ w.forest.Above i s) →
        (g.node i).parent = (w.forest.node i).parent := by
  obtain ⟨hlayer, hbelow⟩ := layer_of_fetchNodes hf hroot hfetch
  obtain ⟨dead, hdead, hstripped⟩ := Forest.stripped_clearAll hf hroot hlayer hbelow
  refine ⟨_, dead, run_clearProperty hsilent hfetch, hdead, hstripped, fun i hi => ?_⟩
  rw [hstripped.parent_eq, if_neg]
  intro hmem
  obtain ⟨s, hs, ha⟩ := ((hdead i).1 hmem).exists_mem
  exact hi s hs ha

/-- With its only attribute the second `b` goes; the first keeps their parent, and the empty `c`
beside them stays. -/
theorem World.stripped_clearProperty_indexed :
    let branch := ((Forest.empty.create none .null false).2.createLinked ⟨0⟩ "a" .null false).2
    let forest := ((((branch.createLinked ⟨1⟩ "b" (.int 7) false).2.createLinked
      ⟨1⟩ "b" .null false).2.createLinked ⟨3⟩ "x" (.int 8) true).2.createLinked
      ⟨1⟩ "c" .null false).2
    let w := { World.fresh [] with forest, configurations := #[.rootedAt ⟨0⟩ none] }
    ∃ g dead, (ConfigurationId.clearProperty ⟨0⟩ (some "a.b(1)[@x]")).run w =
        .ok () { w with forest := g } ∧
      (∀ i, i ∈ dead ↔ forest.Dead ⟨0⟩ [⟨4⟩] i) ∧ Forest.Stripped [⟨4⟩] dead forest g ∧
      ∀ i, (∀ s ∈ [⟨4⟩], ¬ forest.Above i s) → (g.node i).parent = (forest.node i).parent := by
  intro branch forest w
  have hbranch : branch.WellFormed :=
    (Forest.WellFormed.empty.create none .null false).createLinked (by decide)
  have hforest : forest.WellFormed :=
    (((hbranch.createLinked (by decide)).createLinked (by decide)).createLinked
      (by decide)).createLinked (by decide)
  have hfetch : w.fetchNodes ⟨0⟩ (some "a.b(1)[@x]") = .ok [⟨4⟩] := by decide +kernel
  exact stripped_clearProperty (w := w) hforest (by decide) rfl hfetch

end Settings
