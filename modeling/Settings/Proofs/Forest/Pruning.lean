import Settings.Proofs.Forest.Clearing
import Settings.Proofs.Forest.Paths

/-! # What pruning leaves to be found

Pruning detaches nodes that bear nothing. Along a path without indices the
nodes that bear a value are the same before and after it, so clearing nodes
takes these nodes from the result and no others.
-/

namespace Settings.Forest

variable {f g : Forest} {i j root : NodeId} {parts : List KeyPart} {nodes is : List NodeId}

def bearing (f : Forest) (nodes : List NodeId) : List NodeId :=
  nodes.filter fun i => !(f.node i).value.isNull

theorem bearing_congr (h : ∀ i ∈ nodes, (g.node i).value = (f.node i).value) :
    g.bearing nodes = f.bearing nodes :=
  List.filter_congr fun i hi => by rw [h i hi]

theorem bearing_append (f : Forest) (nodes nodes' : List NodeId) :
    f.bearing (nodes ++ nodes') = f.bearing nodes ++ f.bearing nodes' :=
  List.filter_append ..

theorem name_detach (hf : f.WellFormed) (i j : NodeId) :
    ((f.detach i).node j).name = (f.node j).name := by
  rw [node_detach hf.consistent]

theorem value_detach (hf : f.WellFormed) (i j : NodeId) :
    ((f.detach i).node j).value = (f.node j).value := by
  rw [node_detach hf.consistent]

theorem step_detach (hf : f.WellFormed) {part : KeyPart} (hpart : part.index? = none)
    (i p : NodeId) : (f.detach i).step p part = (f.step p part).filter (· ≠ i) := by
  rw [step_of_no_index _ _ hpart, step_of_no_index _ _ hpart, linked_detach hf.consistent,
    (hf.nodup_linked p part.isAttribute).erase_eq_filter, List.filter_filter, List.filter_filter]
  refine List.filter_congr fun j _ => ?_
  rw [name_detach hf, Bool.and_comm]
  by_cases hji : j = i <;> simp [hji]

theorem follow_detach (hf : f.WellFormed) (hleaf : ∀ b, (f.node i).linked b = [])
    (hplain : ∀ part ∈ parts, part.index? = none) (nodes : List NodeId) :
    (f.detach i).follow (nodes.filter (· ≠ i)) parts = (f.follow nodes parts).filter (· ≠ i) := by
  induction parts generalizing nodes with
  | nil => rfl
  | cons part parts ih =>
    have hstep : (nodes.filter (· ≠ i)).flatMap ((f.detach i).step · part) =
        (nodes.flatMap (f.step · part)).filter (· ≠ i) := by
      induction nodes with
      | nil => rfl
      | cons p nodes ihn =>
        rw [List.flatMap_cons, List.filter_append, ← ihn]
        by_cases hp : p = i
        · simp [hp, step_of_leaf hleaf]
        · simp [hp, step_detach hf (hplain part List.mem_cons_self)]
    rw [follow, follow, hstep]
    exact ih (fun p hp => hplain p (.tail part hp)) _

theorem leaf_of_not_isDefined (h : (f.node i).isDefined = false) :
    (f.node i).value.isNull = true ∧ ∀ b, (f.node i).linked b = [] := by
  simp only [Node.isDefined, Bool.or_eq_false_iff, Bool.not_eq_false', List.isEmpty_iff] at h
  exact ⟨h.1.1, fun b => by cases b <;> simp [Node.linked, h]⟩

/-- One forest comes from another by taking nodes away along a path, and no
value with them. -/
structure Pruned (root : NodeId) (parts : List KeyPart) (f g : Forest) : Prop where
  wellFormed : g.WellFormed
  value_eq : ∀ i, (g.node i).value = (f.node i).value
  bearing_eq : g.bearing (g.follow [root] parts) = f.bearing (f.follow [root] parts)

theorem Pruned.detach (h : Pruned root parts f g) (hplain : ∀ part ∈ parts, part.index? = none)
    (hi : i ≠ root) (hempty : (g.node i).isDefined = false) :
    Pruned root parts f (g.detach i) where
  wellFormed := h.wellFormed.detach i
  value_eq j := (value_detach h.wellFormed i j).trans (h.value_eq j)
  bearing_eq := by
    obtain ⟨hnull, hleaf⟩ := leaf_of_not_isDefined hempty
    have hfollow := follow_detach h.wellFormed hleaf hplain [root]
    rw [List.filter_singleton, decide_eq_true hi.symm, cond_true] at hfollow
    rw [hfollow, bearing_congr fun j _ => value_detach h.wellFormed i j, ← h.bearing_eq, bearing,
      List.filter_filter]
    refine List.filter_congr fun j _ => ?_
    by_cases hji : j = i <;> simp [hji, hnull]

theorem Pruned.pruneUpTo (h : Pruned root parts f g) (hplain : ∀ part ∈ parts, part.index? = none)
    (fuel : Nat) (i : NodeId) : Pruned root parts f (g.pruneUpTo root fuel i) :=
  pruneUpTo_induction (fun _ _ h hi hempty => h.detach hplain hi hempty) fuel i h

theorem step_setValue (f : Forest) (i p : NodeId) (value : Value) (part : KeyPart) :
    (f.setValue i value).step p part = f.step p part :=
  step_congr (by simp) (by simp) part

theorem follow_setValue (hf : f.WellFormed) (i : NodeId) (value : Value) (nodes : List NodeId)
    (parts : List KeyPart) : (f.setValue i value).follow nodes parts = f.follow nodes parts :=
  hf.follow_congr (fun _ _ p _ part => step_setValue f i p value part) parts

/-- Clearing a node takes it from those that bear a value, and no other. -/
theorem clearNode_spec (hf : f.WellFormed) (hi : f.Has i)
    (hplain : ∀ part ∈ parts, part.index? = none) (root : NodeId) :
    (∀ j, j ≠ i → ((f.clearNode root i).node j).value = (f.node j).value) ∧
      (f.clearNode root i).bearing ((f.clearNode root i).follow [root] parts) =
        (f.bearing (f.follow [root] parts)).filter (· ≠ i) := by
  have hwritten : Pruned root parts (f.setValue i .null) (f.setValue i .null) :=
    ⟨hf.setValue i .null, fun _ => rfl, rfl⟩
  have hpruned := hwritten.pruneUpTo hplain f.size i
  constructor
  · intro j hj
    rw [clearNode, hpruned.value_eq, value_setValue hi, if_neg hj]
  · rw [clearNode, hpruned.bearing_eq, follow_setValue hf, bearing, bearing, List.filter_filter]
    refine List.filter_congr fun j _ => ?_
    rw [value_setValue hi]
    by_cases hj : j = i <;> simp [hj, Value.isNull]

def clearAll (f : Forest) (root : NodeId) (is : List NodeId) : Forest :=
  is.foldl (·.clearNode root ·) f

theorem WellFormed.clearAll (hf : f.WellFormed) (root : NodeId) (is : List NodeId) :
    (f.clearAll root is).WellFormed := by
  induction is generalizing f with
  | nil => exact hf
  | cons i is ih => exact ih (hf.clearNode root i)

theorem size_clearAll (f : Forest) (root : NodeId) (is : List NodeId) :
    (f.clearAll root is).size = f.size := by
  induction is generalizing f with
  | nil => rfl
  | cons i is ih => exact (ih _).trans (size_clearNode f root i)

theorem clearAll_spec (hf : f.WellFormed) (his : ∀ i ∈ is, f.Has i)
    (hplain : ∀ part ∈ parts, part.index? = none) (root : NodeId) :
    (∀ j ∉ is, ((f.clearAll root is).node j).value = (f.node j).value) ∧
      (f.clearAll root is).bearing ((f.clearAll root is).follow [root] parts) =
        (f.bearing (f.follow [root] parts)).filter (· ∉ is) := by
  induction is generalizing f with
  | nil => simp [clearAll]
  | cons i is ih =>
    obtain ⟨hvalue, hbearing⟩ := clearNode_spec hf (his i List.mem_cons_self) hplain root
    have hrest : ∀ j ∈ is, (f.clearNode root i).Has j := by
      intro j hj
      rw [Has, size_clearNode]
      exact his j (.tail i hj)
    obtain ⟨hvalues, hbearings⟩ := ih (hf.clearNode root i) hrest
    constructor
    · intro j hj
      rw [List.mem_cons, not_or] at hj
      exact (hvalues j hj.2).trans (hvalue j hj.1)
    · refine hbearings.trans ?_
      rw [hbearing, List.filter_filter]
      exact List.filter_congr fun j _ => by simp [Bool.and_comm]

end Settings.Forest
