import Settings.Proofs.Forest.Moving
import Settings.Proofs.Gathering

/-! # Where added nodes come to stand

Adding nodes moves them: they are lost where they were, stand once each in the lists of the
target, and take along what is below them. Nothing else changes but for the branch that is
created when the key selects no node.
-/

namespace Settings

open Forest

variable {w : World} {c : ConfigurationId} {key : Option String} {nodes : List NodeId}
  {target : AddTarget} {f : Forest}

/-- What the nodes of a key say about the target: it is the only one of them, or it is missing
together with the path to it. -/
theorem World.addTarget_eq_ok (h : w.addTarget c key = .ok target) :
    match target with
    | .existing node => w.fetchNodes c key = .ok [node]
    | .missing place => w.fetchNodes c key = .ok [] ∧
        w.forest.prepareAdd (w.markers c) (w.root c) key = .ok place ∧
        place.isAttribute = false := by
  obtain ⟨found, hfetch, h⟩ := bind_eq_ok.1 h
  match found with
  | [] =>
    obtain ⟨place, hplace, h⟩ := bind_eq_ok.1 h
    split at h
    · cases h
    · rename_i hkind
      cases h
      exact ⟨hfetch, hplace, by simpa using hkind⟩
  | [node] =>
    dsimp only at h
    split at h
    · cases h
    · cases h
      exact hfetch
  | i :: j :: rest => cases h

namespace Forest

theorem WellFormed.appendTo (hf : f.WellFormed) (hbase : f.Has target.base)
    (h : ∀ i ∈ nodes, f.Has i ∧ ¬ f.Above i target.base) :
    (f.appendTo target nodes).WellFormed := by
  cases target with
  | existing node => exact hf.foldl_append hbase h
  | missing place =>
    obtain ⟨-, hext, hhas⟩ := insertNode_spec hf.consistent hbase .null
    refine (hf.insertNode hbase .null).foldl_append hhas fun i hi => ?_
    obtain ⟨hold, hfree⟩ := h i hi
    exact ⟨hext.has hold, fun ha => hfree (.of_insertNode hf.consistent hbase hold ha)⟩

theorem above_appendTo_iff (hf : f.WellFormed) (hbase : f.Has target.base)
    (h : ∀ i ∈ nodes, f.Has i ∧ ¬ f.Above i target.base) {i j : NodeId} (hi : i ∈ nodes)
    (hj : f.Has j) : (f.appendTo target nodes).Above i j ↔ f.Spared nodes i j := by
  have hhas : ∀ i ∈ nodes, f.Has i := fun i hi => (h i hi).1
  have hfree : ∀ i ∈ nodes, ¬ f.Above i target.base := fun i hi => (h i hi).2
  cases target with
  | existing node =>
    exact Moves.above_moved_iff (appended_foldl hf.consistent hbase hhas).parent_eq hi hfree
  | missing place =>
    obtain ⟨hcon, hext, hend⟩ := insertNode_spec hf.consistent hbase .null
    rw [← hext.spared_iff hf.consistent hj]
    refine Moves.above_moved_iff
      (appended_foldl hcon hend fun i hi => hext.has (hhas i hi)).parent_eq hi fun i hi ha => ?_
    exact hfree i hi (.of_insertNode hf.consistent hbase (hhas i hi) ha)

end Forest

/-- Added nodes are moved to the target without loss or repetition, those of each kind behind
what is left there in the order in which they are named last, and with all that is below them.
The other nodes stay as they are without them. A missing target is a new valueless node at the
end of the missing path. -/
theorem World.moved_addNodes (hf : w.forest.WellFormed) (hroot : w.forest.Has (w.root c))
    (hsilent : (w.configuration c).listeners = []) (hne : nodes ≠ [])
    (htarget : w.addTarget c key = .ok target)
    (hnodes : ∀ i ∈ nodes, w.forest.Has i ∧ ¬ w.forest.Above i target.base) :
    ∃ g, (c.addNodes key nodes).run w = .ok () { w with forest := g } ∧ g.WellFormed ∧
      (∀ i ∈ nodes, ∀ j, w.forest.Has j → (g.Above i j ↔ w.forest.Spared nodes i j)) ∧
      match target with
      | .existing node => w.fetchNodes c key = .ok [node] ∧ g.size = w.forest.size ∧
          ∀ j, g.node j =
            if j = node then (w.forest.moved nodes node j).gain (w.forest.lastNamed nodes false)
              (w.forest.lastNamed nodes true)
            else w.forest.moved nodes node j
      | .missing place => w.fetchNodes c key = .ok [] ∧
          w.forest.prepareAdd (w.markers c) (w.root c) key = .ok place ∧
          ∃ first below node, Transplanted place nodes first below node w.forest g := by
  have hbase := has_base_of_addTarget hf hroot htarget
  have hhas : ∀ i ∈ nodes, w.forest.Has i := fun i hi => (hnodes i hi).1
  refine ⟨w.forest.appendTo target nodes, run_addNodes_of_silent hne hsilent htarget,
    hf.appendTo hbase hnodes, fun i hi j hj => above_appendTo_iff hf hbase hnodes hi hj, ?_⟩
  have hkey := addTarget_eq_ok htarget
  cases target with
  | existing node =>
    exact ⟨hkey, size_foldl_append .., node_foldl_append hf.consistent hbase hhas⟩
  | missing place =>
    obtain ⟨hfetch, hplace, hkind⟩ := hkey
    exact ⟨hfetch, hplace, exists_transplanted hf.consistent hbase hkind hhas⟩

/-- Of the nodes that are moved below a new branch one is named twice, one stood below another,
and one is an attribute. -/
theorem World.moved_addNodes_repeated :
    let branch := ((Forest.empty.create none .null false).2.createLinked ⟨0⟩ "a" .null false).2
    let forest := (((branch.createLinked ⟨1⟩ "b" .null false).2.createLinked
      ⟨2⟩ "c" (.int 1) false).2.createLinked ⟨1⟩ "x" (.int 2) true).2
    let w := { World.fresh [] with forest, configurations := #[.rootedAt ⟨0⟩ none] }
    let nodes := [⟨3⟩, ⟨4⟩, ⟨2⟩, ⟨3⟩]
    forest.lastNamed nodes false = [⟨2⟩, ⟨3⟩] ∧ forest.lastNamed nodes true = [⟨4⟩] ∧
    ∃ g, (ConfigurationId.addNodes ⟨0⟩ (some "n.m") nodes).run w =
        .ok () { w with forest := g } ∧ g.WellFormed ∧
      (∀ i ∈ nodes, ∀ j, forest.Has j → (g.Above i j ↔ forest.Spared nodes i j)) ∧
      w.fetchNodes ⟨0⟩ (some "n.m") = .ok [] ∧
      w.forest.prepareAdd (w.markers ⟨0⟩) (w.root ⟨0⟩) (some "n.m") =
        .ok ⟨⟨0⟩, ["n"], "m", false⟩ ∧
      ∃ first below node,
        Transplanted ⟨⟨0⟩, ["n"], "m", false⟩ nodes first below node forest g := by
  intro branch forest w nodes
  have hbranch : branch.WellFormed :=
    (WellFormed.empty.create none .null false).createLinked (by decide)
  have hforest : forest.WellFormed :=
    ((hbranch.createLinked (by decide)).createLinked (by decide)).createLinked (by decide)
  have hfetch : w.fetchNodes ⟨0⟩ (some "n.m") = .ok [] := by decide +kernel
  have hparse : (w.markers ⟨0⟩).parse (some "n.m") =
      .ok ([.element "n" none] ++ [.element "m" none]) := by decide +kernel
  have hdeepest : forest.deepest ⟨0⟩ [.element "n" none] = (⟨0⟩, ["n"]) := by decide +kernel
  have hplace : forest.place ⟨0⟩ [.element "n" none] (.element "m" none) =
      ⟨⟨0⟩, ["n"], "m", false⟩ := by
    rw [place, hdeepest]
    rfl
  have hprepare : w.forest.prepareAdd (w.markers ⟨0⟩) (w.root ⟨0⟩) (some "n.m") =
      .ok ⟨⟨0⟩, ["n"], "m", false⟩ :=
    prepareAdd_eq_ok.2 ⟨_, _, hparse, by simp [KeyPart.isAttribute], hplace⟩
  have htarget : w.addTarget ⟨0⟩ (some "n.m") = .ok (.missing ⟨⟨0⟩, ["n"], "m", false⟩) := by
    rw [World.addTarget, hfetch, ok_bind]
    dsimp only
    rw [hprepare]
    rfl
  have hroot : (forest.node ⟨0⟩).parent = none := by decide +kernel
  have hold : ∀ i ∈ nodes, forest.Has i ∧ i ≠ ⟨0⟩ := by decide
  have hnodes : ∀ i ∈ nodes, forest.Has i ∧ ¬ forest.Above i ⟨0⟩ := fun i hi =>
    ⟨(hold i hi).1, fun ha => (hold i hi).2 (ha.eq_of_root hroot)⟩
  exact ⟨by decide, by decide, moved_addNodes (w := w) (c := ⟨0⟩) hforest (by decide) rfl
    (by decide) htarget hnodes⟩

end Settings
