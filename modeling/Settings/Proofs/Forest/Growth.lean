import Settings.Proofs.Forest.Links

/-! # Growing forests

Inserting a node creates the path still missing and the node at its end. A
forest grown in this way extends the old one: the old nodes are as they were,
except that their lists may go on.
-/

namespace Settings

def Node.bare (n : Node) : Node := { n with children := [], attributes := [] }

namespace Forest

variable {f g h : Forest} {a i j p : NodeId} {b : Bool} {name : String} {value : Value}

/-- A forest holds the nodes of another as they were, up to list members at the end. -/
structure Extends (f g : Forest) : Prop where
  size_le : f.size ≤ g.size
  bare_eq : ∀ i, f.Has i → (g.node i).bare = (f.node i).bare
  linked_prefix : ∀ i b, (f.node i).linked b <+: (g.node i).linked b

namespace Extends

theorem refl (f : Forest) : f.Extends f :=
  ⟨Nat.le_refl _, fun _ _ => rfl, fun _ _ => List.prefix_rfl⟩

theorem has (hfg : f.Extends g) (hi : f.Has i) : g.Has i :=
  Nat.lt_of_lt_of_le hi hfg.size_le

theorem trans (hfg : f.Extends g) (hgh : g.Extends h) : f.Extends h where
  size_le := Nat.le_trans hfg.size_le hgh.size_le
  bare_eq i hi := (hgh.bare_eq i (hfg.has hi)).trans (hfg.bare_eq i hi)
  linked_prefix i b := (hfg.linked_prefix i b).trans (hgh.linked_prefix i b)

theorem parent_eq (hfg : f.Extends g) (hi : f.Has i) : (g.node i).parent = (f.node i).parent := by
  have h := congrArg Node.parent (hfg.bare_eq i hi)
  exact h

end Extends

theorem Consistent.has_of_mem (hf : f.Consistent) (hi : i ∈ (f.node p).linked b) : f.Has i :=
  has_of_parent (hf.mem_linked_iff.1 hi).1

theorem Consistent.has_parent (hf : f.Consistent) (hp : (f.node i).parent = some p) : f.Has p :=
  has_of_mem_linked (hf.mem_linked_iff.2 ⟨hp, rfl⟩)

theorem WellFormed.has_of_mem (hf : f.WellFormed) (hi : i ∈ (f.node p).linked b) : f.Has i :=
  hf.consistent.has_of_mem hi

theorem WellFormed.has_parent (hf : f.WellFormed) (hp : (f.node i).parent = some p) : f.Has p :=
  hf.consistent.has_parent hp

theorem Extends.above_iff (hfg : f.Extends g) (hf : f.Consistent) (hi : f.Has i) :
    g.Above a i ↔ f.Above a i := by
  constructor
  · intro ha
    induction ha with
    | here => exact .here
    | up hp _ ih =>
      rw [hfg.parent_eq hi] at hp
      exact .up hp (ih (hf.has_parent hp))
  · intro ha
    induction ha with
    | here => exact .here
    | up hp _ ih => exact .up ((hfg.parent_eq hi).trans hp) (ih (hf.has_parent hp))

theorem parent_create (f : Forest) (name : Option String) (value : Value) (b : Bool) (j : NodeId) :
    ((f.create name value b).2.node j).parent = (f.node j).parent := by
  rw [node_create]
  split
  · rename_i h
    rw [h, node_of_not_has (not_has_create f name value b)]
    rfl
  · rfl

theorem Consistent.create (hf : f.Consistent) (name : Option String) (value : Value) (b : Bool) :
    (f.create name value b).2.Consistent := by
  apply hf.of_same_links
  · exact parent_create f name value b
  · intro j b'
    rw [node_create]
    split
    · rename_i h
      rw [h, node_of_not_has (not_has_create f name value b)]
      cases b' <;> rfl
    · rfl
  · intro j p hp
    rw [node_create, if_neg]
    rintro rfl
    exact not_has_create f name value b (has_of_parent hp)

theorem WellFormed.create (hf : f.WellFormed) (name : Option String) (value : Value) (b : Bool) :
    (f.create name value b).2.WellFormed :=
  (hf.consistent.create name value b).wellFormed fun j =>
    (hf.rooted j).of_cut fun k => .inl (parent_create f name value b k)

def createLinked (f : Forest) (p : NodeId) (name : String) (value : Value) (b : Bool) :
    NodeId × Forest :=
  let (i, g) := f.create (some name) value false
  (i, g.link p i b)

theorem insertNode_eq (f : Forest) (place : Insertion) (value : Value) :
    f.insertNode place value =
      (f.createPath place.parent place.missing).2.createLinked
        (f.createPath place.parent place.missing).1 place.name value place.isAttribute := by
  unfold insertNode
  cases place.isAttribute <;> rfl

theorem createLinked_fst (f : Forest) (p : NodeId) (name : String) (value : Value) (b : Bool) :
    (f.createLinked p name value b).1 = ⟨f.size⟩ := rfl

@[simp] theorem size_createLinked (f : Forest) (p : NodeId) (name : String) (value : Value)
    (b : Bool) : (f.createLinked p name value b).2.size = f.size + 1 := by
  simp [createLinked, size_create]

theorem not_has_size (f : Forest) : ¬ f.Has ⟨f.size⟩ := by simp [Has]

theorem Has.ne_new (hi : f.Has i) : i ≠ ⟨f.size⟩ := fun h => not_has_size f (h ▸ hi)

theorem has_createLinked : (f.createLinked p name value b).2.Has j ↔ f.Has j ∨ j = ⟨f.size⟩ := by
  simp only [createLinked, has_link]
  exact has_create

theorem node_createLinked (hf : f.Consistent) (hp : f.Has p) (j : NodeId) :
    (f.createLinked p name value b).2.node j =
      if j = ⟨f.size⟩ then ⟨some name, value, b, some p, [], []⟩
      else { f.node j with
        children := (f.node j).children ++ if j = p ∧ b = false then [⟨f.size⟩] else []
        attributes := (f.node j).attributes ++ if j = p ∧ b = true then [⟨f.size⟩] else [] } := by
  have hfresh : (⟨f.size⟩ : NodeId) ≠ p := hp.ne_new.symm
  have herase (b' : Bool) : ((f.node j).linked b').erase ⟨f.size⟩ = (f.node j).linked b' :=
    List.erase_of_not_mem fun hmem => not_has_size f (hf.has_of_mem hmem)
  have hnode := node_link (b := b) (hf.create (some name) value false) (has_create.2 (.inl hp))
    (has_create.2 (.inr rfl)) j
  simp only [node_create] at hnode
  rw [createLinked, hnode]
  by_cases hj : j = ⟨f.size⟩
  · subst hj
    simp [create, hfresh, Node.lone]
  · have hchildren := herase false
    have hattributes := herase true
    simp only [Node.linked] at hchildren hattributes
    simp [create, hj, hchildren, hattributes]

theorem linked_createLinked (hf : f.Consistent) (hp : f.Has p) (j : NodeId) (b' : Bool) :
    ((f.createLinked p name value b).2.node j).linked b' =
      (f.node j).linked b' ++ if j = p ∧ b' = b then [⟨f.size⟩] else [] := by
  rw [node_createLinked hf hp]
  by_cases hj : j = ⟨f.size⟩
  · subst hj
    have hfresh : (⟨f.size⟩ : NodeId) ≠ p := hp.ne_new.symm
    rw [node_of_not_has (not_has_size f)]
    cases b' <;> simp [hfresh, Node.linked, default, Node.lone]
  · rw [if_neg hj]
    cases b' <;> simp only [Node.linked, eq_comm]

theorem Consistent.createLinked (hf : f.Consistent) (hp : f.Has p) :
    (f.createLinked p name value b).2.Consistent :=
  (hf.create (some name) value false).link (has_create.2 (.inl hp)) (has_create.2 (.inr rfl))

theorem WellFormed.createLinked (hf : f.WellFormed) (hp : f.Has p) :
    (f.createLinked p name value b).2.WellFormed := by
  refine (hf.create (some name) value false).link (has_create.2 (.inl hp)) (has_create.2 (.inr rfl))
    fun ha => not_has_size f ?_
  have hparent : ∀ j, ((f.create (some name) value false).2.node j).parent ≠ some ⟨f.size⟩ := by
    intro j hj
    rw [parent_create] at hj
    exact not_has_size f (hf.has_parent hj)
  exact ha.eq_of_no_child hparent ▸ hp

theorem extends_createLinked (hf : f.Consistent) (hp : f.Has p) :
    f.Extends (f.createLinked p name value b).2 where
  size_le := by simp
  bare_eq i hi := by
    rw [node_createLinked hf hp, if_neg hi.ne_new]
    rfl
  linked_prefix i b' := by
    rw [linked_createLinked hf hp]
    exact List.prefix_append _ _

theorem Above.of_createLinked (hf : f.Consistent) (hp : f.Has p) (ha : f.Has a)
    (h : (f.createLinked p name value b).2.Above a ⟨f.size⟩) : f.Above a p := by
  cases h with
  | here => exact absurd ha (not_has_size f)
  | up hq h =>
    rw [node_createLinked hf hp, if_pos rfl] at hq
    cases hq
    exact ((extends_createLinked hf hp).above_iff hf hp).1 h

theorem createPath_cons (f : Forest) (p : NodeId) (name : String) (names : List String) :
    f.createPath p (name :: names) =
      (f.createLinked p name .null false).2.createPath ⟨f.size⟩ names := rfl

theorem createPath_spec (hf : f.Consistent) (hp : f.Has p) (names : List String) :
    (f.createPath p names).2.Consistent ∧ f.Extends (f.createPath p names).2 ∧
      (f.createPath p names).2.Has (f.createPath p names).1 := by
  induction names generalizing f p with
  | nil => exact ⟨hf, .refl f, hp⟩
  | cons name names ih =>
    have hcreated : (f.createLinked p name .null false).2.Consistent := hf.createLinked hp
    obtain ⟨hcon, hext, hhas⟩ := ih hcreated (has_createLinked.2 (.inr rfl))
    rw [createPath_cons]
    exact ⟨hcon, (extends_createLinked hf hp).trans hext, hhas⟩

theorem WellFormed.createPath (hf : f.WellFormed) (hp : f.Has p) (names : List String) :
    (f.createPath p names).2.WellFormed := by
  induction names generalizing f p with
  | nil => exact hf
  | cons name names ih =>
    rw [createPath_cons]
    exact ih (hf.createLinked hp) (has_createLinked.2 (.inr rfl))

theorem Above.of_createPath {names : List String} (hf : f.Consistent) (hp : f.Has p)
    (ha : f.Has a) (h : (f.createPath p names).2.Above a (f.createPath p names).1) :
    f.Above a p := by
  induction names generalizing f p with
  | nil => exact h
  | cons name names ih =>
    have hnew : (f.createLinked p name .null false).2.Has ⟨f.size⟩ := has_createLinked.2 (.inr rfl)
    rw [createPath_cons] at h
    exact .of_createLinked hf hp ha
      (ih (hf.createLinked hp) hnew ((extends_createLinked hf hp).has ha) h)

theorem insertNode_spec {place : Insertion} (hf : f.Consistent) (hp : f.Has place.parent)
    (value : Value) :
    (f.insertNode place value).2.Consistent ∧ f.Extends (f.insertNode place value).2 ∧
      (f.insertNode place value).2.Has (f.insertNode place value).1 := by
  obtain ⟨hcon, hext, hhas⟩ := createPath_spec hf hp place.missing
  rw [insertNode_eq, createLinked_fst]
  exact ⟨hcon.createLinked hhas, hext.trans (extends_createLinked hcon hhas),
    has_createLinked.2 (.inr rfl)⟩

theorem WellFormed.insertNode {place : Insertion} (hf : f.WellFormed) (hp : f.Has place.parent)
    (value : Value) : (f.insertNode place value).2.WellFormed := by
  obtain ⟨-, -, hhas⟩ := createPath_spec hf.consistent hp place.missing
  rw [insertNode_eq]
  exact (hf.createPath hp place.missing).createLinked hhas

/-- An old node above an inserted one is above the place of insertion. -/
theorem Above.of_insertNode {place : Insertion} (hf : f.Consistent) (hp : f.Has place.parent)
    (ha : f.Has a) (h : (f.insertNode place value).2.Above a (f.insertNode place value).1) :
    f.Above a place.parent := by
  obtain ⟨hcon, hext, hhas⟩ := createPath_spec hf hp place.missing
  rw [insertNode_eq, createLinked_fst] at h
  exact .of_createPath hf hp ha (.of_createLinked hcon hhas (hext.has ha) h)

end Forest

end Settings
