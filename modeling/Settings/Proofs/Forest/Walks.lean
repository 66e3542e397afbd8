import Mathlib.Data.Fintype.Card
import Settings.Proofs.Forest.Paths

/-! # Walking through a tree

A walk in document order visits a node, then its attributes, then what is below
its children. In a well-formed forest it visits every node once for the names
that lead there, and a path without indices selects what it visits at one place.
-/

namespace Settings

/-- A place in a tree: the names of the children on the way, and the name of an
attribute at their end if it is one. -/
structure Place where
  names : List String
  attr : Option String
deriving DecidableEq

namespace Place

def under (name : String) (place : Place) : Place := { place with names := name :: place.names }

def parts (place : Place) : List KeyPart :=
  place.names.map (.element · none) ++ place.attr.toList.map .attr

@[simp] theorem under_inj {name name' : String} {p q : Place} :
    p.under name = q.under name' ↔ name = name' ∧ p = q := by
  obtain ⟨names, attr⟩ := p
  obtain ⟨names', attr'⟩ := q
  simp [under, and_assoc]

theorem parts_under (name : String) (place : Place) :
    (place.under name).parts = .element name none :: place.parts := rfl

theorem names_parts (place : Place) :
    (place.parts.filter (!·.isAttribute)).map KeyPart.name = place.names := by
  obtain ⟨names, attr⟩ := place
  cases attr <;>
    simp [parts, List.filter_map, Function.comp_def, KeyPart.isAttribute, KeyPart.name]

theorem attr_parts (place : Place) :
    ((place.parts.filter (·.isAttribute)).map KeyPart.name).head? = place.attr := by
  obtain ⟨names, attr⟩ := place
  cases attr <;>
    simp [parts, List.filter_map, Function.comp_def, KeyPart.isAttribute, KeyPart.name]

theorem eq_of_parts {p q : Place} (h : p.parts = q.parts) : p = q := by
  have hnames := names_parts p
  have hattr := attr_parts p
  rw [h, names_parts] at hnames
  rw [h, attr_parts] at hattr
  rw [Place.mk.injEq]
  exact ⟨hnames.symm, hattr.symm⟩

end Place

namespace Forest

variable {f : Forest} {i j p : NodeId} {names : List String} {place : Place}

inductive Leads (f : Forest) : NodeId → List String → NodeId → Prop
  | here {i : NodeId} : Leads f i [] i
  | child {p c i : NodeId} {name : String} {names : List String} :
      c ∈ (f.node p).children → (f.node c).name = some name → Leads f c names i →
      Leads f p (name :: names) i

/-- A node is at a place below another: it is the node that the names lead to, or
an attribute of this node. -/
def Occupies (f : Forest) (root : NodeId) (place : Place) (i : NodeId) : Prop :=
  match place.attr with
  | none => f.Leads root place.names i
  | some name => ∃ p, f.Leads root place.names p ∧ i ∈ (f.node p).attributes ∧
      (f.node i).name = some name

structure Visit where
  place : Place
  node : NodeId

def Visit.under (name : String) (v : Visit) : Visit := { v with place := v.place.under name }

def label (f : Forest) (i : NodeId) : String := (f.node i).name.getD ""

def visitsTo (f : Forest) : Nat → NodeId → List Visit
  | 0, _ => []
  | depth + 1, i =>
    ⟨⟨[], none⟩, i⟩ :: (f.node i).attributes.map (fun a => ⟨⟨[], some (f.label a)⟩, a⟩) ++
      (f.node i).children.flatMap fun c => (visitsTo f depth c).map (.under (f.label c))

/-- What a walk visits: the node, its attributes, and what the walks through its
children visit. -/
def visits (f : Forest) (i : NodeId) : List Visit := f.visitsTo (f.size + 1) i

theorem length_le_size {is : List NodeId} (hnodup : is.Nodup) (hhas : ∀ i ∈ is, f.Has i) :
    is.length ≤ f.size := by
  have hinj : (is.map NodeId.index).Nodup :=
    hnodup.map fun i j h => by cases i; cases j; simpa using h
  have hsub : is.map NodeId.index ⊆ List.range f.size := by
    intro n hn
    obtain ⟨i, hi, rfl⟩ := List.mem_map.1 hn
    exact List.mem_range.2 (hhas i hi)
  simpa using (hinj.subperm hsub).length_le

/-- On the way down to a node, so many different nodes were met that no more than a given
number of steps can follow. -/
def Room (f : Forest) (i : NodeId) (depth : Nat) : Prop :=
  ∃ above : List NodeId, above.Nodup ∧ (∀ j ∈ above, f.Has j ∧ f.Above j i) ∧
    f.size < above.length + depth

theorem room_of_le {depth : Nat} (hi : f.Has i) (h : f.size ≤ depth) : f.Room i depth :=
  ⟨[i], List.nodup_singleton i, by simpa using ⟨hi, .here⟩, by
    rw [List.length_singleton]
    omega⟩

theorem not_room_zero : ¬ f.Room i 0 := by
  rintro ⟨above, hnodup, habove, hlen⟩
  have hle := length_le_size hnodup fun j hj => (habove j hj).1
  omega

theorem Room.below {depth : Nat} {c : NodeId} (h : f.Room i (depth + 1)) (hf : f.WellFormed)
    (hparent : (f.node c).parent = some i) : f.Room c depth := by
  obtain ⟨above, hnodup, habove, hlen⟩ := h
  refine ⟨c :: above, List.nodup_cons.2 ⟨fun hmem => ?_, hnodup⟩, ?_, ?_⟩
  · exact (hf.rooted c).not_above_parent hparent (habove c hmem).2
  · rintro j (_ | ⟨_, hj⟩)
    · exact ⟨has_of_parent hparent, .here⟩
    · exact ⟨(habove j hj).1, .up hparent (habove j hj).2⟩
  · rw [List.length_cons]
    omega

theorem Room.child {depth : Nat} {c : NodeId} (h : f.Room i (depth + 1)) (hf : f.WellFormed)
    (hc : c ∈ (f.node i).children) : f.Room c depth :=
  h.below hf ((hf.mem_children_iff i c).1 hc).1

/-- Where no more steps can follow, what is gathered step by step downwards is complete. -/
theorem WellFormed.gather_succ (hf : f.WellFormed) {α : Type} (gather : Nat → NodeId → α)
    (hstep : ∀ d d' i, (∀ c, (f.node c).parent = some i → gather d c = gather d' c) →
      gather (d + 1) i = gather (d' + 1) i)
    {depth : Nat} (h : f.Room i depth) : gather (depth + 1) i = gather depth i := by
  induction depth generalizing i with
  | zero => exact absurd h not_room_zero
  | succ depth ih => exact hstep _ _ i fun c hc => ih (h.below hf hc)

theorem WellFormed.visitsTo_succ (hf : f.WellFormed) {depth : Nat} (h : f.Room i depth) :
    f.visitsTo (depth + 1) i = f.visitsTo depth i := by
  refine hf.gather_succ f.visitsTo (fun d d' i hbelow => ?_) h
  rw [visitsTo, visitsTo]
  congr 1
  refine List.flatMap_congr fun c hc => congrArg (List.map _) (hbelow c ?_)
  exact ((hf.mem_children_iff i c).1 hc).1

theorem WellFormed.visits_eq (hf : f.WellFormed) (i : NodeId) :
    f.visits i =
      ⟨⟨[], none⟩, i⟩ :: (f.node i).attributes.map (fun a => ⟨⟨[], some (f.label a)⟩, a⟩) ++
        (f.node i).children.flatMap fun c => (f.visits c).map (.under (f.label c)) := by
  rw [visits, visitsTo]
  congr 1
  refine List.flatMap_congr fun c hc => congrArg (List.map _) (Eq.symm ?_)
  have hhas : f.Has c := hf.has_of_mem (b := false) hc
  exact hf.visitsTo_succ (room_of_le hhas (Nat.le_refl _))

theorem label_eq {name : String} (h : (f.node i).name = some name) : f.label i = name := by
  rw [label, h]
  rfl

def Labelled (f : Forest) (root : NodeId) : Prop :=
  ∀ p, f.Above root p → ∀ b, ∀ i ∈ (f.node p).linked b, (f.node i).name = some (f.label i)

theorem Labelled.below (h : f.Labelled i) (hj : f.Above i j) : f.Labelled j :=
  fun p hp => h p (hj.trans hp)

theorem WellFormed.above_child (hf : f.WellFormed) (hc : j ∈ (f.node i).children) : f.Above i j :=
  .of_parent ((hf.mem_children_iff i j).1 hc).1

theorem Occupies.under {c : NodeId} {name : String} (hc : c ∈ (f.node p).children)
    (hname : (f.node c).name = some name) (h : f.Occupies c place i) :
    f.Occupies p (place.under name) i := by
  obtain ⟨names, attr⟩ := place
  cases attr with
  | none => exact .child hc hname h
  | some attr =>
    obtain ⟨q, hq, hi⟩ := h
    exact ⟨q, .child hc hname hq, hi⟩

theorem occupies_of_mem_visitsTo (hf : f.WellFormed) (hl : f.Labelled i) {depth : Nat} {v : Visit}
    (h : v ∈ f.visitsTo depth i) : f.Occupies i v.place v.node := by
  induction depth generalizing i v with
  | zero => exact absurd h List.not_mem_nil
  | succ depth ih =>
    rw [visitsTo, List.cons_append, List.mem_cons, List.mem_append] at h
    rcases h with rfl | h | h
    · exact .here
    · obtain ⟨a, ha, rfl⟩ := List.mem_map.1 h
      exact ⟨i, .here, ha, hl i .here true a ha⟩
    · obtain ⟨c, hc, h⟩ := List.mem_flatMap.1 h
      obtain ⟨u, hu, rfl⟩ := List.mem_map.1 h
      exact .under hc (hl i .here false c hc) (ih (hl.below (hf.above_child hc)) hu)

theorem Leads.mem_visits (h : f.Leads i names p) (hf : f.WellFormed) {attr : Option String}
    (hj : ⟨⟨[], attr⟩, j⟩ ∈ f.visits p) : ⟨⟨names, attr⟩, j⟩ ∈ f.visits i := by
  induction h with
  | here => exact hj
  | @child p c i name names hc hname _ ih =>
    rw [hf.visits_eq]
    refine List.mem_append_right _ (List.mem_flatMap.2 ⟨c, hc, List.mem_map.2 ⟨_, ih hj, ?_⟩⟩)
    rw [label_eq hname]
    rfl

/-- A walk visits what is in the tree, each node at its place. -/
theorem WellFormed.mem_visits_iff (hf : f.WellFormed) (hl : f.Labelled i) {v : Visit} :
    v ∈ f.visits i ↔ f.Occupies i v.place v.node := by
  refine ⟨occupies_of_mem_visitsTo hf hl, fun h => ?_⟩
  obtain ⟨⟨names, attr⟩, j⟩ := v
  cases attr with
  | none =>
    refine Leads.mem_visits h hf ?_
    rw [hf.visits_eq]
    exact List.mem_cons_self
  | some name =>
    obtain ⟨p, hp, ha, hname⟩ := h
    refine hp.mem_visits hf ?_
    rw [hf.visits_eq]
    refine List.mem_append_left _ (List.mem_cons_of_mem _ (List.mem_map.2 ⟨j, ha, ?_⟩))
    rw [label_eq hname]

theorem follow_eq_flatMap (f : Forest) (nodes : List NodeId) (parts : List KeyPart) :
    f.follow nodes parts = nodes.flatMap fun i => f.follow [i] parts := by
  induction nodes with
  | nil => simp
  | cons i nodes ih => rw [List.flatMap_cons, ← ih, ← follow_append_nodes, List.singleton_append]

def nodesAt (f : Forest) (root : NodeId) (place : Place) : List NodeId :=
  ((f.visits root).filter (·.place = place)).map Visit.node

theorem WellFormed.mem_nodesAt_iff (hf : f.WellFormed) (hl : f.Labelled i) :
    j ∈ f.nodesAt i place ↔ f.Occupies i place j := by
  simp only [nodesAt, List.mem_map, List.mem_filter, decide_eq_true_eq]
  constructor
  · rintro ⟨v, ⟨hv, rfl⟩, rfl⟩
    exact (hf.mem_visits_iff hl).1 hv
  · intro hj
    exact ⟨⟨place, j⟩, ⟨(hf.mem_visits_iff hl).2 hj, rfl⟩, rfl⟩

theorem flatMap_filter {α β : Type} (p : α → Bool) (g : α → List β) (l : List α) :
    (l.filter p).flatMap g = l.flatMap fun a => if p a then g a else [] := by
  induction l with
  | nil => rfl
  | cons a l ih =>
    rw [List.filter_cons, List.flatMap_cons, ← ih]
    split <;> rfl

theorem nodesAt_self (hf : f.WellFormed) (i : NodeId) : f.nodesAt i ⟨[], none⟩ = [i] := by
  rw [nodesAt, hf.visits_eq]
  simp [List.filter_flatMap, List.filter_map, Function.comp_def, Visit.under, Place.under]

theorem Labelled.filter_name (hl : f.Labelled i) (b : Bool) (name : String) :
    ((f.node i).linked b).filter (fun j => (f.node j).name = some name) =
      ((f.node i).linked b).filter (f.label · = name) :=
  List.filter_congr fun j hj => by simp [hl i .here b j hj]

theorem nodesAt_attr (hf : f.WellFormed) (hl : f.Labelled i) (name : String) :
    f.nodesAt i ⟨[], some name⟩ = f.attributesNamed i (some name) := by
  have hnamed : f.attributesNamed i (some name) = _ := hl.filter_name true name
  rw [nodesAt, hf.visits_eq, hnamed]
  simp [List.filter_flatMap, List.filter_map, Function.comp_def, Visit.under, Place.under,
    Node.linked]

theorem nodesAt_under (hf : f.WellFormed) (hl : f.Labelled i) (name : String) (place : Place) :
    f.nodesAt i (place.under name) =
      (f.childrenNamed i (some name)).flatMap (f.nodesAt · place) := by
  have hnamed : f.childrenNamed i (some name) = _ := hl.filter_name false name
  have hbranch (c : NodeId) : (((f.visits c).map (.under (f.label c))).filter
      (·.place = place.under name)).map Visit.node =
        if f.label c = name then f.nodesAt c place else [] := by
    rw [List.filter_map, List.map_map]
    split
    · rename_i hlabel
      subst hlabel
      simp [Function.comp_def, Visit.under, nodesAt]
    · rename_i hlabel
      simp [Function.comp_def, Visit.under, hlabel]
  rw [nodesAt, hf.visits_eq, hnamed, flatMap_filter, List.filter_append, List.filter_flatMap]
  simp only [List.map_append, List.map_flatMap, hbranch]
  simp [Place.under, Node.linked]

theorem WellFormed.follow_parts (hf : f.WellFormed) (hl : f.Labelled i) (place : Place) :
    f.follow [i] place.parts = f.nodesAt i place := by
  obtain ⟨names, attr⟩ := place
  induction names generalizing i with
  | nil =>
    cases attr with
    | none => exact (nodesAt_self hf i).symm
    | some name =>
      rw [nodesAt_attr hf hl]
      exact List.append_nil _
  | cons name names ih =>
    have hunder : (⟨name :: names, attr⟩ : Place) = Place.under name ⟨names, attr⟩ := rfl
    rw [hunder, nodesAt_under hf hl, Place.parts_under, follow, follow_eq_flatMap,
      List.flatMap_singleton]
    refine List.flatMap_congr fun c hc => ih (hl.below (hf.above_child ?_))
    exact List.mem_of_mem_filter hc

end Forest

end Settings
