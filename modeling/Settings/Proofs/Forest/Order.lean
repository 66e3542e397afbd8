import Mathlib.Data.List.Flatten
import Settings.Proofs.Forest.Chains
import Settings.Proofs.Forest.Walks

/-! # Document order

The nodes of a tree in document order are a node, then what is below its attributes, then what
is below its children. What a key selects comes in this order, and it is what the chains of its
parts lead to.
-/

namespace Settings.Forest

variable {f : Forest} {c i j root : NodeId} {part : KeyPart} {parts : List KeyPart}

def preorderTo (f : Forest) : Nat → NodeId → List NodeId
  | 0, _ => []
  | depth + 1, i =>
    i :: ((f.node i).attributes ++ (f.node i).children).flatMap (preorderTo f depth)

def preorder (f : Forest) (i : NodeId) : List NodeId := f.preorderTo (f.size + 1) i

theorem mem_below_iff (hf : f.WellFormed) :
    c ∈ (f.node i).attributes ++ (f.node i).children ↔ (f.node c).parent = some i := by
  rw [List.mem_append, hf.mem_attributes_iff, hf.mem_children_iff]
  cases (f.node c).isAttribute <;> simp

theorem nodup_below (hf : f.WellFormed) (i : NodeId) :
    ((f.node i).attributes ++ (f.node i).children).Nodup :=
  List.nodup_append_comm.1 (hf.lists_nodup i)

theorem step_sublist (f : Forest) (p : NodeId) (part : KeyPart) :
    (f.step p part).Sublist ((f.node p).attributes ++ (f.node p).children) := by
  match part with
  | .attr name => exact List.filter_sublist.trans (List.sublist_append_left ..)
  | .element name none => exact List.filter_sublist.trans (List.sublist_append_right ..)
  | .element name (some index) =>
    have hone : ((f.childrenNamed p (some name))[index]?.toList).Sublist
        (f.childrenNamed p (some name)) := by
      cases hat : (f.childrenNamed p (some name))[index]? with
      | none => exact List.nil_sublist _
      | some c => exact List.singleton_sublist.2 (List.mem_of_getElem? hat)
    exact (hone.trans List.filter_sublist).trans (List.sublist_append_right ..)

theorem above_of_mem_preorderTo (hf : f.WellFormed) {depth : Nat}
    (h : j ∈ f.preorderTo depth i) : f.Above i j := by
  induction depth generalizing i with
  | zero => exact absurd h List.not_mem_nil
  | succ depth ih =>
    rw [preorderTo, List.mem_cons, List.mem_flatMap] at h
    rcases h with rfl | ⟨c, hc, h⟩
    · exact .here
    · exact (Above.of_parent ((mem_below_iff hf).1 hc)).trans (ih h)

theorem mem_preorderTo_of_above (hf : f.WellFormed) {depth : Nat} (hroom : f.Room i depth)
    (h : f.Above i j) : j ∈ f.preorderTo depth i := by
  induction depth generalizing i with
  | zero => exact absurd hroom not_room_zero
  | succ depth ih =>
    rw [preorderTo, List.mem_cons, List.mem_flatMap]
    rcases h.eq_or_child with rfl | ⟨c, hc, h⟩
    · exact .inl rfl
    · exact .inr ⟨c, (mem_below_iff hf).2 hc, ih (hroom.below hf hc) h⟩

theorem nodup_preorderTo (hf : f.WellFormed) (depth : Nat) (i : NodeId) :
    (f.preorderTo depth i).Nodup := by
  induction depth generalizing i with
  | zero => exact List.nodup_nil
  | succ depth ih =>
    rw [preorderTo, List.nodup_cons, List.nodup_flatMap]
    refine ⟨fun hmem => ?_, fun c _ => ih c, ?_⟩
    · obtain ⟨c, hc, hmem⟩ := List.mem_flatMap.1 hmem
      exact (hf.rooted c).not_above_parent ((mem_below_iff hf).1 hc)
        (above_of_mem_preorderTo hf hmem)
    · refine (nodup_below hf i).imp_of_mem fun {c c'} hc hc' hne j hj hj' => hne ?_
      exact hf.eq_of_above ((mem_below_iff hf).1 hc) ((mem_below_iff hf).1 hc')
        (above_of_mem_preorderTo hf hj) (above_of_mem_preorderTo hf hj')

namespace WellFormed

variable (hf : f.WellFormed)

include hf

/-- The preorder of a tree is made of those of its branches, attributes first. -/
theorem preorder_eq (i : NodeId) :
    f.preorder i =
      i :: ((f.node i).attributes ++ (f.node i).children).flatMap f.preorder := by
  rw [preorder, preorderTo]
  refine congrArg (i :: ·) (List.flatMap_congr fun c hc => Eq.symm ?_)
  refine hf.gather_succ f.preorderTo (fun d d' i hbelow => ?_)
    (room_of_le (has_of_parent ((mem_below_iff hf).1 hc)) (Nat.le_refl _))
  rw [preorderTo, preorderTo]
  exact congrArg (i :: ·) (List.flatMap_congr fun c hc => hbelow c ((mem_below_iff hf).1 hc))

theorem mem_preorder_iff (hi : f.Has i) : j ∈ f.preorder i ↔ f.Above i j := by
  constructor
  · exact above_of_mem_preorderTo hf
  · exact mem_preorderTo_of_above hf (room_of_le hi (Nat.le_succ _))

theorem nodup_preorder (i : NodeId) : (f.preorder i).Nodup := nodup_preorderTo hf _ i

/-- What parts lead to comes in document order. -/
theorem follow_sublist_preorder (i : NodeId) (parts : List KeyPart) :
    (f.follow [i] parts).Sublist (f.preorder i) := by
  induction parts generalizing i with
  | nil =>
    rw [hf.preorder_eq]
    exact List.singleton_sublist.2 List.mem_cons_self
  | cons part parts ih =>
    rw [follow, List.flatMap_singleton, follow_eq_flatMap, hf.preorder_eq]
    refine .cons i ((List.Sublist.flatMap_right _ fun c _ => ih c).trans ?_)
    exact (step_sublist f i part).flatMap f.preorder

end WellFormed

/-- A key selects the nodes that the chains of its parts lead to, each of them once and none
below another, in document order. -/
theorem select_in_order {m : Markers} {key : Option String} (hf : f.WellFormed)
    (hroot : f.Has root) (hparse : m.parse key = .ok parts) :
    ∃ nodes, f.select m root key = .ok nodes ∧ (∀ i, i ∈ nodes ↔ f.Reaches root parts i) ∧
      nodes.Nodup ∧ (∀ i ∈ nodes, ∀ j ∈ nodes, f.Above i j → i = j) ∧
      nodes.Sublist (f.preorder root) ∧ (f.preorder root).Nodup ∧
      ∀ i, i ∈ f.preorder root ↔ f.Above root i := by
  have hlayer := (Layer.singleton hroot).follow hf parts
  exact ⟨_, select_eq_ok.2 ⟨parts, hparse, rfl⟩, fun i => mem_follow_root_iff, hlayer.nodup,
    hlayer.apart, hf.follow_sublist_preorder root parts, hf.nodup_preorder root,
    fun i => hf.mem_preorder_iff hroot⟩

/-- Each `b` at index 1 has attributes of the name; the second of them has two. -/
theorem select_in_order_attributes :
    let first := ((Forest.empty.create none .null false).2.createLinked ⟨0⟩ "a" .null false).2
    let second := ((((first.createLinked ⟨1⟩ "b" .null false).2.createLinked
      ⟨1⟩ "b" .null false).2.createLinked ⟨3⟩ "x" (.int 1) true).2.createLinked
      ⟨0⟩ "a" .null false).2
    let forest := ((((second.createLinked ⟨5⟩ "b" .null false).2.createLinked
      ⟨5⟩ "b" .null false).2.createLinked ⟨7⟩ "x" (.int 2) true).2.createLinked
      ⟨7⟩ "x" (.int 3) true).2
    let parts := [.element "a" none, .element "b" (some 1), .attr "x"]
    Markers.standard.parse (some "a.b(1)[@x]") = .ok parts ∧
      ∃ nodes, forest.select .standard ⟨0⟩ (some "a.b(1)[@x]") = .ok nodes ∧
        (∀ i, i ∈ nodes ↔ forest.Reaches ⟨0⟩ parts i) ∧ nodes.Nodup ∧
        (∀ i ∈ nodes, ∀ j ∈ nodes, forest.Above i j → i = j) ∧
        nodes.Sublist (forest.preorder ⟨0⟩) ∧ (forest.preorder ⟨0⟩).Nodup ∧
        ∀ i, i ∈ forest.preorder ⟨0⟩ ↔ forest.Above ⟨0⟩ i := by
  intro first second forest parts
  have hfirst : first.WellFormed :=
    (WellFormed.empty.create none .null false).createLinked (by decide)
  have hsecond : second.WellFormed :=
    (((hfirst.createLinked (by decide)).createLinked (by decide)).createLinked
      (by decide)).createLinked (by decide)
  have hforest : forest.WellFormed :=
    (((hsecond.createLinked (by decide)).createLinked (by decide)).createLinked
      (by decide)).createLinked (by decide)
  have hparse : Markers.standard.parse (some "a.b(1)[@x]") = .ok parts := by decide +kernel
  exact ⟨hparse, select_in_order hforest (by decide) hparse⟩

end Settings.Forest
