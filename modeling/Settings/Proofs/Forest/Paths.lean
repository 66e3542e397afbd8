import Settings.Proofs.Forest.Growth
import Settings.Proofs.Outcomes

/-! # Following the parts of a key

Every part leads to members of the list of its kind, so in a well-formed
forest a path leads from nodes to nodes, and the place for a new node is an
existing one.
-/

namespace Settings

def KeyPart.index? : KeyPart → Option Nat
  | element _ index => index
  | attr _ => none

namespace Forest

variable {f g : Forest} {m : Markers} {i p root : NodeId} {part : KeyPart} {parts : List KeyPart}
  {key : Option String} {nodes : List NodeId}

theorem step_of_no_index (f : Forest) (p : NodeId) (h : part.index? = none) :
    f.step p part = ((f.node p).linked part.isAttribute).filter
      fun i => (f.node i).name = some part.name := by
  cases part with
  | element name index =>
    cases h
    rfl
  | attr name => rfl

theorem mem_linked_of_mem_step (h : i ∈ f.step p part) :
    i ∈ (f.node p).linked part.isAttribute := by
  match part with
  | .attr name => exact List.mem_of_mem_filter h
  | .element name none => exact List.mem_of_mem_filter h
  | .element name (some index) =>
    exact List.mem_of_mem_filter (List.mem_of_getElem? (Option.mem_toList.1 h))

theorem WellFormed.parent_of_mem_step (hf : f.WellFormed) (h : i ∈ f.step p part) :
    (f.node i).parent = some p :=
  (hf.mem_linked_iff.1 (mem_linked_of_mem_step h)).1

theorem follow_append (f : Forest) (nodes : List NodeId) (parts rest : List KeyPart) :
    f.follow nodes (parts ++ rest) = f.follow (f.follow nodes parts) rest := by
  induction parts generalizing nodes with
  | nil => rfl
  | cons part parts ih => exact ih _

theorem follow_append_nodes (f : Forest) (nodes nodes' : List NodeId) (parts : List KeyPart) :
    f.follow (nodes ++ nodes') parts = f.follow nodes parts ++ f.follow nodes' parts := by
  induction parts generalizing nodes nodes' with
  | nil => rfl
  | cons part parts ih => rw [follow, List.flatMap_append, ih, follow, follow]

@[simp] theorem follow_nil (f : Forest) (parts : List KeyPart) : f.follow [] parts = [] := by
  induction parts with
  | nil => rfl
  | cons part parts ih => exact ih

theorem step_congr (hlinked : ∀ b, (g.node p).linked b = (f.node p).linked b)
    (hname : ∀ b, ∀ i ∈ (f.node p).linked b, (g.node i).name = (f.node i).name)
    (part : KeyPart) : g.step p part = f.step p part := by
  have hnamed (b : Bool) (name : String) :
      ((g.node p).linked b).filter (fun i => (g.node i).name = some name) =
        ((f.node p).linked b).filter (fun i => (f.node i).name = some name) := by
    rw [hlinked]
    exact List.filter_congr fun i hi => by rw [hname b i hi]
  match part with
  | .attr name => exact hnamed true name
  | .element name none => exact hnamed false name
  | .element name (some index) => exact congrArg (·[index]?.toList) (hnamed false name)

theorem step_of_leaf (h : ∀ b, (f.node p).linked b = []) (part : KeyPart) :
    f.step p part = [] := by
  refine List.eq_nil_iff_forall_not_mem.2 fun i hi => ?_
  have hi := mem_linked_of_mem_step hi
  rw [h] at hi
  exact List.not_mem_nil hi

theorem WellFormed.follow_congr (hf : f.WellFormed)
    (h : ∀ q ∈ nodes, ∀ p, f.Above q p → ∀ part, g.step p part = f.step p part)
    (parts : List KeyPart) : g.follow nodes parts = f.follow nodes parts := by
  induction parts generalizing nodes with
  | nil => rfl
  | cons part parts ih =>
    have hstep : nodes.flatMap (g.step · part) = nodes.flatMap (f.step · part) :=
      List.flatMap_congr fun q hq => h q hq q .here part
    rw [follow, follow, hstep]
    refine ih fun i hi p ha => ?_
    obtain ⟨q, hq, hi⟩ := List.mem_flatMap.1 hi
    exact h q hq p ((Above.of_parent (hf.parent_of_mem_step hi)).trans ha)

/-- Nodes none of which comes twice or stands above another. -/
structure Layer (f : Forest) (nodes : List NodeId) : Prop where
  has : ∀ i ∈ nodes, f.Has i
  nodup : nodes.Nodup
  apart : ∀ p ∈ nodes, ∀ q ∈ nodes, f.Above p q → p = q

theorem Layer.singleton (hi : f.Has i) : f.Layer [i] where
  has := by simpa using hi
  nodup := List.nodup_singleton i
  apart p hp q hq _ := (List.mem_singleton.1 hp).trans (List.mem_singleton.1 hq).symm

theorem Layer.extend (hl : f.Layer nodes) (hf : f.WellFormed) (hfg : f.Extends g) :
    g.Layer nodes where
  has i hi := hfg.has (hl.has i hi)
  nodup := hl.nodup
  apart p hp q hq ha := hl.apart p hp q hq ((hfg.above_iff hf.consistent (hl.has q hq)).1 ha)

theorem WellFormed.nodup_step (hf : f.WellFormed) (p : NodeId) (part : KeyPart) :
    (f.step p part).Nodup := by
  match part with
  | .attr name => exact (hf.nodup_linked p true).filter _
  | .element name none => exact (hf.nodup_linked p false).filter _
  | .element name (some index) =>
    rw [step]
    cases (f.childrenNamed p (some name))[index]? <;> simp

/-- The nodes one part leads to from a layer form a layer again. -/
theorem Layer.flatMap_step (hl : f.Layer nodes) (hf : f.WellFormed) (part : KeyPart) :
    f.Layer (nodes.flatMap (f.step · part)) where
  has i hi := by
    obtain ⟨p, -, hi⟩ := List.mem_flatMap.1 hi
    exact hf.has_of_mem (mem_linked_of_mem_step hi)
  nodup := by
    refine List.nodup_flatMap.2 ⟨fun p _ => hf.nodup_step p part, ?_⟩
    refine hl.nodup.imp fun {p q} hpq i hi hi' => hpq ?_
    exact Option.some.inj ((hf.parent_of_mem_step hi).symm.trans (hf.parent_of_mem_step hi'))
  apart i hi j hj ha := by
    obtain ⟨p, hp, hip⟩ := List.mem_flatMap.1 hi
    obtain ⟨q, hq, hjq⟩ := List.mem_flatMap.1 hj
    have hip := hf.parent_of_mem_step hip
    have hjq := hf.parent_of_mem_step hjq
    cases ha with
    | here => rfl
    | up hr ha =>
      obtain rfl := Option.some.inj (hr.symm.trans hjq)
      obtain rfl := hl.apart p hp _ hq ((Above.of_parent hip).trans ha)
      exact absurd ha ((hf.rooted i).not_above_parent hip)

theorem Layer.follow (hl : f.Layer nodes) (hf : f.WellFormed) (parts : List KeyPart) :
    f.Layer (f.follow nodes parts) := by
  induction parts generalizing nodes with
  | nil => exact hl
  | cons part parts ih => exact ih (hl.flatMap_step hf part)

theorem select_eq_ok : f.select m root key = .ok nodes ↔
    ∃ parts, m.parse key = .ok parts ∧ f.follow [root] parts = nodes := by
  rw [select, bind_eq_ok]
  simp only [pure, Except.pure, Except.ok.injEq]

theorem WellFormed.has_of_select (hf : f.WellFormed) (hroot : f.Has root)
    (h : f.select m root key = .ok nodes) : ∀ i ∈ nodes, f.Has i := by
  obtain ⟨parts, -, rfl⟩ := select_eq_ok.1 h
  exact ((Layer.singleton hroot).follow hf parts).has

theorem mem_children_of_descend? (h : f.descend? p part = some i) : i ∈ (f.node p).children := by
  unfold descend? at h
  dsimp only at h
  split at h
  · exact List.mem_of_mem_filter (List.mem_of_getElem? h)
  · exact List.mem_of_mem_filter (List.mem_of_getLast? h)

theorem WellFormed.has_deepest (hf : f.WellFormed) (hi : f.Has i) :
    f.Has (f.deepest i parts).1 := by
  induction parts generalizing i with
  | nil => exact hi
  | cons part parts ih =>
    rw [deepest]
    split
    · rename_i child h
      exact ih (hf.has_of_mem (b := false) (mem_children_of_descend? h))
    · exact hi

def place (f : Forest) (i : NodeId) (path : List KeyPart) (last : KeyPart) : Insertion :=
  ⟨(f.deepest i path).1, (f.deepest i path).2, last.name, last.isAttribute⟩

/-- Where something is added for a key, the key has a last part, and no
attribute before it. -/
theorem prepareAdd_eq_ok {spot : Insertion} : f.prepareAdd m root key = .ok spot ↔
    ∃ path last, m.parse key = .ok (path ++ [last]) ∧
      (∀ part ∈ path, part.isAttribute = false) ∧ f.place root path last = spot := by
  rw [prepareAdd, bind_eq_ok]
  constructor
  · rintro ⟨parts, hparse, h⟩
    rcases List.eq_nil_or_concat parts with rfl | ⟨path, last, rfl⟩
    · cases h
    · rw [List.concat_eq_append] at hparse h
      simp only [insertion, List.getLast?_concat, List.dropLast_concat] at h
      split at h
      · cases h
      · rename_i hany
        exact ⟨path, last, hparse, by simpa using hany, Except.ok.inj h⟩
  · rintro ⟨path, last, hparse, hkinds, rfl⟩
    refine ⟨_, hparse, ?_⟩
    have hany : ¬ path.any KeyPart.isAttribute := by simpa using hkinds
    simp only [insertion, List.getLast?_concat, List.dropLast_concat, if_neg hany]
    rfl

theorem WellFormed.has_of_prepareAdd {spot : Insertion} (hf : f.WellFormed) (hroot : f.Has root)
    (h : f.prepareAdd m root key = .ok spot) : f.Has spot.parent := by
  obtain ⟨path, last, -, -, rfl⟩ := prepareAdd_eq_ok.1 h
  exact hf.has_deepest hroot

end Forest

end Settings
