import Settings.Proofs.Forest.Regions

/-! # Own ancestors

Nothing keeps a node from being linked below one of its descendants. It then
stands above itself, and what stood above it loses the branch. Which nodes come
to stand above themselves, and what becomes of the place where nodes are
appended, is read off the parent links before.
-/

namespace Settings.Forest

variable {f g : Forest} {a i j k p : NodeId} {b : Bool} {is : List NodeId} {value : Value}

theorem Above.has_below (h : f.Above a i) (ha : f.Has a) : f.Has i := by
  cases h with
  | here => exact ha
  | up hp _ => exact has_of_parent hp

/-- A node that is met when following parent links from its own parent. -/
def OwnAncestor (f : Forest) (i : NodeId) : Prop :=
  ∃ p, (f.node i).parent = some p ∧ f.Above i p

theorem WellFormed.not_ownAncestor (hf : f.WellFormed) (i : NodeId) : ¬ f.OwnAncestor i := by
  rintro ⟨p, hp, ha⟩
  exact (hf.rooted i).not_above_parent hp ha

/-- The parent links from a node up to another are those of nodes outside a list. -/
inductive Spared (f : Forest) (is : List NodeId) (a : NodeId) : NodeId → Prop
  | here : Spared f is a a
  | up {i p : NodeId} : (f.node i).parent = some p → i ∉ is → Spared f is a p → Spared f is a i

theorem Spared.above (h : f.Spared is a j) : f.Above a j := by
  induction h with
  | here => exact .here
  | up hp _ _ ih => exact .up hp ih

theorem Spared.parent (h : f.Spared is a j) (hne : j ≠ a) (hp : (f.node j).parent = some p) :
    f.Spared is a p := by
  cases h with
  | here => exact absurd rfl hne
  | up hq _ h =>
    obtain rfl := Option.some.inj (hq.symm.trans hp)
    exact h

theorem Above.spared_or (h : f.Above a j) (is : List NodeId) :
    f.Spared is a j ∨ ∃ i ∈ is, f.Spared is i j := by
  induction h with
  | here => exact .inl .here
  | @up j p hp _ ih =>
    by_cases hj : j ∈ is
    · exact .inr ⟨j, hj, .here⟩
    · rcases ih with h | ⟨i, hi, h⟩
      · exact .inl (.up hp hj h)
      · exact .inr ⟨i, hi, .up hp hj h⟩

theorem Above.spared_of_free (h : f.Above a j) (hfree : ∀ i ∈ is, ¬ f.Above i j) :
    f.Spared is a j := by
  rcases h.spared_or is with h | ⟨i, hi, h⟩
  · exact h
  · exact absurd h.above (hfree i hi)

/-- Of all parent links, those of some nodes are changed, and lead to one place. -/
def Moves (p : NodeId) (is : List NodeId) (f g : Forest) : Prop :=
  ∀ j, (g.node j).parent = if j ∈ is then some p else (f.node j).parent

namespace Moves

theorem above_of_spared (hm : Moves p is f g) (h : f.Spared is a j) : g.Above a j := by
  induction h with
  | here => exact .here
  | up hp hj _ ih => exact .up (by rw [hm, if_neg hj, hp]) ih

/-- A way up is an old one, or leads through a moved node to the place and on from there. -/
theorem spared_of_above (hm : Moves p is f g) (h : g.Above a j) :
    f.Spared is a j ∨ f.Spared is a p ∧ ∃ i ∈ is, f.Above i j := by
  induction h with
  | here => exact .inl .here
  | @up j q hq _ ih =>
    rw [hm] at hq
    split at hq
    · rename_i hj
      cases hq
      rcases ih with h | ⟨h, -⟩
      · exact .inr ⟨h, j, hj, .here⟩
      · exact .inr ⟨h, j, hj, .here⟩
    · rename_i hj
      rcases ih with h | ⟨h, i, hi, ha⟩
      · exact .inl (.up hq hj h)
      · exact .inr ⟨h, i, hi, .up hq ha⟩

theorem above_place_iff (hm : Moves p is f g) : g.Above a p ↔ f.Spared is a p := by
  constructor
  · intro h
    rcases hm.spared_of_above h with h | ⟨h, -⟩
    · exact h
    · exact h
  · exact hm.above_of_spared

/-- What a moved node comes to stand below. -/
theorem above_iff (hm : Moves p is f g) (hi : i ∈ is) :
    g.Above a i ↔ i = a ∨ f.Spared is a p := by
  have hparent : (g.node i).parent = some p := by rw [hm, if_pos hi]
  rw [← hm.above_place_iff]
  constructor
  · intro h
    cases h with
    | here => exact .inl rfl
    | up hq h => exact .inr (Option.some.inj (hq.symm.trans hparent) ▸ h)
  · rintro (rfl | h)
    · exact .here
    · exact .up hparent h

/-- Moving a node below itself makes one of the moved nodes its own ancestor. -/
theorem exists_ownAncestor (hm : Moves p is f g) (h : ∃ i ∈ is, f.Above i p) :
    ∃ i ∈ is, g.OwnAncestor i := by
  have hfirst : ∃ i ∈ is, f.Spared is i p := by
    obtain ⟨i, hi, ha⟩ := h
    rcases ha.spared_or is with h | h
    · exact ⟨i, hi, h⟩
    · exact h
  obtain ⟨i, hi, h⟩ := hfirst
  exact ⟨i, hi, p, by rw [hm, if_pos hi], hm.above_of_spared h⟩

/-- Where no node is moved below itself, nobody becomes its own ancestor. -/
theorem ownAncestor_of_free (hm : Moves p is f g) (hfree : ∀ i ∈ is, ¬ f.Above i p)
    (h : g.OwnAncestor k) : f.OwnAncestor k := by
  obtain ⟨q, hq, ha⟩ := h
  rw [hm] at hq
  split at hq
  · rename_i hk
    cases hq
    exact absurd (hm.above_place_iff.1 ha).above (hfree k hk)
  · refine ⟨q, hq, ?_⟩
    rcases hm.spared_of_above ha with h | ⟨hkp, i, hi, hiq⟩
    · exact h.above
    · exact absurd ((Above.up hq hiq).trans hkp.above) (hfree i hi)

end Moves

theorem Extends.spared_iff (hfg : f.Extends g) (hf : f.Consistent) (hj : f.Has j) :
    g.Spared is a j ↔ f.Spared is a j := by
  constructor
  · intro h
    induction h with
    | here => exact .here
    | up hp hi _ ih =>
      rw [hfg.parent_eq hj] at hp
      exact .up hp hi (ih (hf.has_parent hp))
  · intro h
    induction h with
    | here => exact .here
    | up hp hi _ ih => exact .up ((hfg.parent_eq hj).trans hp) hi (ih (hf.has_parent hp))

theorem OwnAncestor.of_createLinked {name : String} (hf : f.Consistent) (hp : f.Has p)
    (h : (f.createLinked p name value b).2.OwnAncestor k) : f.OwnAncestor k := by
  have hext : f.Extends (f.createLinked p name value b).2 := extends_createLinked hf hp
  obtain ⟨q, hq, ha⟩ := h
  rcases has_createLinked.1 (has_of_parent hq) with hk | rfl
  · rw [hext.parent_eq hk] at hq
    exact ⟨q, hq, (hext.above_iff hf (hf.has_parent hq)).1 ha⟩
  · rw [node_createLinked hf hp, if_pos rfl] at hq
    cases hq
    exact absurd (((hext.above_iff hf hp).1 ha).has hf hp) (not_has_size f)

structure Known (f : Forest) (a : NodeId) (is : List NodeId) : Prop where
  has : f.Has a
  has_all : ∀ i ∈ is, f.Has i

theorem Known.extend (h : f.Known a is) (hfg : f.Extends g) : g.Known a is :=
  ⟨hfg.has h.has, fun i hi => hfg.has (h.has_all i hi)⟩

theorem spared_createLinked {name : String} (hf : f.Consistent) (hp : f.Has p)
    (ha : f.Known a is) :
    (f.createLinked p name value b).2.Spared is a ⟨f.size⟩ ↔ f.Spared is a p := by
  have hext : f.Extends (f.createLinked p name value b).2 := extends_createLinked hf hp
  have hparent : ((f.createLinked p name value b).2.node ⟨f.size⟩).parent = some p := by
    rw [node_createLinked hf hp, if_pos rfl]
  rw [← hext.spared_iff hf hp]
  constructor
  · intro h
    exact h.parent ha.has.ne_new.symm hparent
  · exact .up hparent fun hmem => not_has_size f (ha.has_all _ hmem)

theorem spared_createPath {names : List String} (hf : f.Consistent) (hp : f.Has p)
    (ha : f.Known a is) :
    (f.createPath p names).2.Spared is a (f.createPath p names).1 ↔ f.Spared is a p := by
  induction names generalizing f p with
  | nil => rfl
  | cons name names ih =>
    rw [createPath_cons, ih (hf.createLinked hp) (has_createLinked.2 (.inr rfl))
      (ha.extend (extends_createLinked hf hp)), spared_createLinked hf hp ha]

theorem spared_insertNode {place : Insertion} (hf : f.Consistent) (hp : f.Has place.parent)
    (ha : f.Known a is) :
    (f.insertNode place value).2.Spared is a (f.insertNode place value).1 ↔
      f.Spared is a place.parent := by
  obtain ⟨hcon, hext, hhas⟩ := createPath_spec hf hp place.missing
  rw [insertNode_eq, createLinked_fst, spared_createLinked hcon hhas (ha.extend hext),
    spared_createPath hf hp ha]

theorem OwnAncestor.of_createPath {names : List String} (hf : f.Consistent) (hp : f.Has p)
    (h : (f.createPath p names).2.OwnAncestor k) : f.OwnAncestor k := by
  induction names generalizing f p with
  | nil => exact h
  | cons name names ih =>
    rw [createPath_cons] at h
    exact .of_createLinked hf hp (ih (hf.createLinked hp) (has_createLinked.2 (.inr rfl)) h)

theorem OwnAncestor.of_insertNode {place : Insertion} (hf : f.Consistent)
    (hp : f.Has place.parent) (h : (f.insertNode place value).2.OwnAncestor k) :
    f.OwnAncestor k := by
  obtain ⟨hcon, -, hhas⟩ := createPath_spec hf hp place.missing
  rw [insertNode_eq] at h
  exact .of_createPath hf hp (.of_createLinked hcon hhas h)

/-- Nodes are gathered somewhere below a base, whatever stood above it. -/
structure Gathers (base : NodeId) (is : List NodeId) (f g : Forest) : Prop where
  consistent : g.Consistent
  size_le : f.size ≤ g.size
  exists_ownAncestor : (∃ i ∈ is, f.Above i base) → ∃ i ∈ is, g.OwnAncestor i
  ownAncestor_of_free : (∀ i ∈ is, ¬ f.Above i base) → ∀ i, g.OwnAncestor i → f.OwnAncestor i
  above_iff : ∀ a, f.Has a → ∀ i ∈ is, g.Above a i ↔ i = a ∨ f.Spared is a base

theorem Moves.gathers (hm : Moves p is f g) (hg : g.Consistent) (hsize : f.size ≤ g.size) :
    Gathers p is f g where
  consistent := hg
  size_le := hsize
  exists_ownAncestor := hm.exists_ownAncestor
  ownAncestor_of_free hfree _ := hm.ownAncestor_of_free hfree
  above_iff _ _ _ := hm.above_iff

theorem gathers_nil (hparent : ∀ j, (g.node j).parent = (f.node j).parent) (hg : g.Consistent)
    (hsize : f.size ≤ g.size) (base : NodeId) : Gathers base [] f g := by
  refine Moves.gathers (fun j => ?_) hg hsize
  rw [hparent, if_neg List.not_mem_nil]

theorem gathers_link (hf : f.Consistent) (hp : f.Has p) (hi : f.Has i) :
    Gathers p [i] f (f.link p i b) := by
  refine Moves.gathers (fun j => ?_) (hf.link hp hi) (Nat.le_of_eq (size_link f p i b).symm)
  simp [parent_link hf hp hi]

theorem gathers_foldl_append (hf : f.Consistent) (hp : f.Has p) (his : ∀ i ∈ is, f.Has i) :
    Gathers p is f (is.foldl (·.append p ·) f) :=
  Moves.gathers (appended_foldl hf hp his).parent_eq (hf.foldl_append hp his)
    (Nat.le_of_eq (size_foldl_append f p is).symm)

theorem Gathers.of_insertNode {place : Insertion} (hf : f.Consistent) (hp : f.Has place.parent)
    (his : ∀ i ∈ is, f.Has i)
    (h : Gathers (f.insertNode place value).1 is (f.insertNode place value).2 g) :
    Gathers place.parent is f g where
  consistent := h.consistent
  size_le := Nat.le_trans (insertNode_spec hf hp value).2.1.size_le h.size_le
  exists_ownAncestor := by
    rintro ⟨i, hi, ha⟩
    exact h.exists_ownAncestor ⟨i, hi, above_insertNode hf hp ha value⟩
  ownAncestor_of_free hfree i hown := by
    refine .of_insertNode hf hp (h.ownAncestor_of_free (fun i hi ha => ?_) i hown)
    exact hfree i hi (.of_insertNode hf hp (his i hi) ha)
  above_iff a ha i hi := by
    rw [h.above_iff a ((insertNode_spec hf hp value).2.1.has ha) i hi,
      spared_insertNode hf hp ⟨ha, his⟩]

end Settings.Forest
