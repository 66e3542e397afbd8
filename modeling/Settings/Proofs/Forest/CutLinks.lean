import Settings.Proofs.Forest.DeadBranches

/-! # Cut links

What is found by walking down from a node is what has that node above it. When
a change cuts parent links of old nodes, a chain of such links lasts as long as
none of its nodes is among those that lose their parents.
-/

namespace Settings.Forest

variable {f g : Forest} {a i root : NodeId} {is : List NodeId}

inductive Finds (f : Forest) (a : NodeId) : NodeId → Prop
  | here : Finds f a a
  | down {p j : NodeId} {b : Bool} : Finds f a p → j ∈ (f.node p).linked b → Finds f a j

theorem Consistent.finds_iff_above (hf : f.Consistent) : f.Finds a i ↔ f.Above a i := by
  constructor
  · intro h
    induction h with
    | here => exact .here
    | down _ hmem ih => exact .up (hf.mem_linked_iff.1 hmem).1 ih
  · intro h
    induction h with
    | here => exact .here
    | up hp _ ih => exact .down ih (hf.mem_linked_iff.2 ⟨hp, rfl⟩)

theorem Finds.eq_of_leaf (h : f.Finds a i) (hleaf : ∀ b, (f.node a).linked b = []) : i = a := by
  induction h with
  | here => rfl
  | down _ hmem ih =>
    rw [ih, hleaf] at hmem
    exact absurd hmem List.not_mem_nil

theorem Above.of_parent_eq (h : f.Above a i)
    (hparent : ∀ j, (g.node j).parent = (f.node j).parent) : g.Above a i := by
  induction h with
  | here => exact .here
  | up hp _ ih => exact .up ((hparent _).trans hp) ih

theorem above_congr (hparent : ∀ j, (g.node j).parent = (f.node j).parent) :
    g.Above a i ↔ f.Above a i :=
  ⟨fun h => h.of_parent_eq fun j => (hparent j).symm, fun h => h.of_parent_eq hparent⟩

/-- After a change some nodes have lost their parents, and the others of the old ones have not. -/
structure Loses (shed : NodeId → Prop) (f g : Forest) : Prop where
  wellFormed : g.WellFormed
  size_le : f.size ≤ g.size
  parent_eq_none : ∀ i, shed i → (g.node i).parent = none
  parent_eq : ∀ i, f.Has i → ¬ shed i → (g.node i).parent = (f.node i).parent

namespace Loses

variable {shed : NodeId → Prop}

theorem of_extends (hg : g.WellFormed) (h : f.Extends g) (hnone : ∀ i, ¬ shed i) :
    Loses shed f g where
  wellFormed := hg
  size_le := h.size_le
  parent_eq_none _ hi := absurd hi (hnone _)
  parent_eq _ hi _ := h.parent_eq hi

theorem of_clearAll (hf : f.WellFormed) (hroot : f.Has root) (hl : f.Layer is)
    (hbelow : ∀ i ∈ is, f.Above root i) (hg : g.WellFormed)
    (h : (f.clearAll root is).Extends g) : Loses (f.Dead root is) f g := by
  obtain ⟨gone, hgone, hstripped⟩ := stripped_clearAll hf hroot hl hbelow
  have hhas {i : NodeId} (hi : f.Has i) : (f.clearAll root is).Has i := by
    rwa [Has, hstripped.size_eq]
  refine ⟨hg, hstripped.size_eq ▸ h.size_le, fun i hi => ?_, fun i hi hkept => ?_⟩
  · rw [h.parent_eq (hhas hi.has), hstripped.parent_eq, if_pos ((hgone i).2 hi)]
  · rw [h.parent_eq (hhas hi), hstripped.parent_eq, if_neg fun hmem => hkept ((hgone i).1 hmem)]

theorem congr {shed' : NodeId → Prop} (h : Loses shed f g) (hiff : ∀ i, shed' i ↔ shed i) :
    Loses shed' f g where
  wellFormed := h.wellFormed
  size_le := h.size_le
  parent_eq_none i hi := h.parent_eq_none i ((hiff i).1 hi)
  parent_eq i hi hkept := h.parent_eq i hi fun hshed => hkept ((hiff i).2 hshed)

theorem above_of_above (h : Loses shed f g) (hf : f.WellFormed) (hi : f.Has i)
    (ha : g.Above a i) : f.Above a i := by
  induction ha with
  | here => exact .here
  | @up i p hp _ ih =>
    have hkept : ¬ shed i := fun hshed => by simp [h.parent_eq_none i hshed] at hp
    rw [h.parent_eq i hi hkept] at hp
    exact .up hp (ih (hf.has_parent hp))

/-- A chain of parent links holds as long as no node of it but the first is shed. -/
theorem above (h : Loses shed f g) (ha : f.Above a i)
    (hkept : ∀ j, f.Above a j → f.Above j i → j ≠ a → ¬ shed j) : g.Above a i := by
  induction ha with
  | here => exact .here
  | @up i p hp ha ih =>
    by_cases hia : i = a
    · exact hia ▸ .here
    · refine .up ((h.parent_eq i (has_of_parent hp) (hkept i (.up hp ha) .here hia)).trans hp) ?_
      exact ih fun j hj hjp => hkept j hj (hjp.trans (.of_parent hp))

end Loses

end Settings.Forest
