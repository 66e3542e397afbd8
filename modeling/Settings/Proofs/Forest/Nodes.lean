import Mathlib.Data.List.Basic
import Settings.Forest.Selection

/-! # Reading nodes after a change

What each primitive change leaves at every identity of a forest. The children
and the attributes of a node are read as one family of lists, so that facts
about both are stated once.
-/

namespace Settings

def Node.linked (n : Node) : Bool → List NodeId
  | true => n.attributes
  | false => n.children

namespace Forest

variable {f : Forest} {i j p : NodeId}

def Has (f : Forest) (i : NodeId) : Prop := i.index < f.size

instance : Decidable (f.Has i) := inferInstanceAs (Decidable (i.index < f.size))

theorem node_of_not_has (h : ¬ f.Has i) : f.node i = default := by
  simp only [Has, size, Nat.not_lt] at h
  simp [node, h]

theorem has_of_parent (h : (f.node i).parent = some p) : f.Has i := by
  by_contra hn
  simp [node_of_not_has hn, default, Node.lone] at h

theorem has_of_mem_linked {b : Bool} (h : i ∈ (f.node p).linked b) : f.Has p := by
  by_contra hn
  cases b <;> simp [node_of_not_has hn, default, Node.lone, Node.linked] at h

@[simp] theorem size_modify (f : Forest) (i : NodeId) (change : Node → Node) :
    (f.modify i change).size = f.size := by
  simp [modify, size]

theorem node_modify (f : Forest) (i j : NodeId) (change : Node → Node) :
    (f.modify i change).node j = if j = i ∧ f.Has i then change (f.node j) else f.node j := by
  obtain ⟨i⟩ := i
  obtain ⟨j⟩ := j
  simp only [modify, node, Has, size, Array.getD_eq_getD_getElem?, Array.getElem?_modify,
    NodeId.mk.injEq]
  by_cases h : i = j
  · subst h
    by_cases hi : i < f.nodes.size <;> simp [hi]
  · simp [h, Ne.symm h]

theorem read_modify {α : Type} {read : Node → α} {change : Node → Node}
    (h : ∀ n, read (change n) = read n) : read ((f.modify i change).node j) = read (f.node j) := by
  rw [node_modify]
  split
  · exact h _
  · rfl

theorem size_create (f : Forest) (name : Option String) (value : Value) (b : Bool) :
    (f.create name value b).2.size = f.size + 1 := by
  simp [create, size]

theorem node_create (f : Forest) (name : Option String) (value : Value) (b : Bool) (j : NodeId) :
    (f.create name value b).2.node j =
      if j = (f.create name value b).1 then .lone name value b else f.node j := by
  obtain ⟨j⟩ := j
  simp only [create, node, size, Array.getD_eq_getD_getElem?, Array.getElem?_push,
    NodeId.mk.injEq]
  split <;> rfl

theorem has_create {name : Option String} {value : Value} {b : Bool} :
    (f.create name value b).2.Has j ↔ f.Has j ∨ j = (f.create name value b).1 := by
  obtain ⟨j⟩ := j
  rw [Has, size_create]
  simp only [Has, create, NodeId.mk.injEq]
  omega

theorem not_has_create (f : Forest) (name : Option String) (value : Value) (b : Bool) :
    ¬ f.Has (f.create name value b).1 := by
  simp [Has, create]

end Forest

end Settings
