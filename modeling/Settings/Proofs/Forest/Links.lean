import Mathlib.Data.List.Nodup
import Settings.Configuration.Update
import Settings.Proofs.Forest.Nodes

/-! # Well-formed forests

In a well-formed forest the parent of a node, its flag and the lists of its
parent tell the same story, and parent links end. Detaching a node and linking
it elsewhere are described by what they leave at every identity; that they
keep a forest well-formed follows from these descriptions.
-/

namespace Settings.Forest

variable {f g : Forest} {a i j p q : NodeId} {b : Bool}

/-- Following parent links from a node ends at a node without a parent. -/
inductive Rooted (f : Forest) : NodeId → Prop
  | root {i : NodeId} : (f.node i).parent = none → Rooted f i
  | up {i p : NodeId} : (f.node i).parent = some p → Rooted f p → Rooted f i

/-- A node is met when following parent links from another, or is that node itself. -/
inductive Above (f : Forest) (a : NodeId) : NodeId → Prop
  | here : Above f a a
  | up {i p : NodeId} : (f.node i).parent = some p → Above f a p → Above f a i

structure WellFormed (f : Forest) : Prop where
  mem_children_iff : ∀ p i, i ∈ (f.node p).children ↔
    (f.node i).parent = some p ∧ (f.node i).isAttribute = false
  mem_attributes_iff : ∀ p i, i ∈ (f.node p).attributes ↔
    (f.node i).parent = some p ∧ (f.node i).isAttribute = true
  lists_nodup : ∀ p, ((f.node p).children ++ (f.node p).attributes).Nodup
  lists_disjoint : ∀ p q, p ≠ q →
    ((f.node p).children ++ (f.node p).attributes).Disjoint
      ((f.node q).children ++ (f.node q).attributes)
  rooted : ∀ i, f.Rooted i

theorem WellFormed.mem_linked_iff (hf : f.WellFormed) :
    i ∈ (f.node p).linked b ↔ (f.node i).parent = some p ∧ (f.node i).isAttribute = b := by
  cases b
  · exact hf.mem_children_iff p i
  · exact hf.mem_attributes_iff p i

theorem WellFormed.nodup_linked (hf : f.WellFormed) (p : NodeId) (b : Bool) :
    ((f.node p).linked b).Nodup := by
  have h := List.nodup_append.1 (hf.lists_nodup p)
  cases b
  · exact h.1
  · exact h.2.1

/-- Parent, flag and lists agree, wherever parent links lead. -/
structure Consistent (f : Forest) : Prop where
  mem_linked_iff : ∀ {p i b}, i ∈ (f.node p).linked b ↔
    (f.node i).parent = some p ∧ (f.node i).isAttribute = b
  nodup_linked : ∀ p b, ((f.node p).linked b).Nodup

theorem WellFormed.consistent (hf : f.WellFormed) : f.Consistent :=
  ⟨hf.mem_linked_iff, hf.nodup_linked⟩

/-- Parent and flag determine the list a node is in, so the lists need no
further care to be disjoint. -/
theorem Consistent.wellFormed (hf : f.Consistent) (hroot : ∀ i, f.Rooted i) : f.WellFormed where
  mem_children_iff _ _ := hf.mem_linked_iff (b := false)
  mem_attributes_iff _ _ := hf.mem_linked_iff (b := true)
  lists_nodup p := by
    refine List.nodup_append.2 ⟨hf.nodup_linked p false, hf.nodup_linked p true, ?_⟩
    rintro i hi j hj rfl
    have h := (hf.mem_linked_iff (b := false).1 hi).2
    simp [(hf.mem_linked_iff (b := true).1 hj).2] at h
  lists_disjoint p q hpq i hi hj := by
    have hparent : ∀ r, i ∈ (f.node r).children ++ (f.node r).attributes →
        (f.node i).parent = some r := by
      intro r hr
      rcases List.mem_append.1 hr with h | h
      · exact (hf.mem_linked_iff (b := false).1 h).1
      · exact (hf.mem_linked_iff (b := true).1 h).1
    exact hpq (Option.some.inj ((hparent p hi).symm.trans (hparent q hj)))
  rooted := hroot

theorem WellFormed.empty : Forest.empty.WellFormed := by
  have hnode (i : NodeId) : Forest.empty.node i = default := rfl
  refine Consistent.wellFormed ⟨fun {p i b} => ?_, fun p b => ?_⟩ fun i => .root rfl
  · rw [hnode, hnode]
    cases b <;> simp [Node.linked, default, Node.lone]
  · rw [hnode]
    cases b <;> exact List.nodup_nil

theorem Above.trans (h : f.Above a i) (h' : f.Above i j) : f.Above a j := by
  induction h' with
  | here => exact h
  | up hp _ ih => exact .up hp ih

theorem Rooted.of_cut (h : f.Rooted i)
    (hcut : ∀ j, (g.node j).parent = (f.node j).parent ∨ (g.node j).parent = none) :
    g.Rooted i := by
  induction h with
  | root hp =>
    rcases hcut _ with h | h
    · exact .root (h.trans hp)
    · exact .root h
  | up hp _ ih =>
    rcases hcut _ with h | h
    · exact .up (h.trans hp) ih
    · exact .root h

/-- Giving one node a new parent, whose chain does not lead through that node,
leaves every chain ending. -/
theorem Rooted.of_link (h : f.Rooted j) (hp : f.Rooted p) (hi : ¬ f.Above i p)
    (hparent : ∀ j, (g.node j).parent = if j = i then some p else (f.node j).parent) :
    g.Rooted j := by
  have hbase : ∀ {k}, f.Rooted k → ¬ f.Above i k → g.Rooted k := by
    intro k hk
    induction hk with
    | @root k hp =>
      intro hn
      have hki : k ≠ i := by rintro rfl; exact hn .here
      exact .root (by rw [hparent, if_neg hki, hp])
    | @up k q hq _ ih =>
      intro hn
      have hki : k ≠ i := by rintro rfl; exact hn .here
      exact .up (by rw [hparent, if_neg hki, hq]) (ih fun h => hn (.up hq h))
  have hself : g.Rooted i := .up (by rw [hparent, if_pos rfl]) (hbase hp hi)
  induction h with
  | @root j hj =>
    by_cases hji : j = i
    · exact hji ▸ hself
    · exact .root (by rw [hparent, if_neg hji, hj])
  | @up j q hq _ ih =>
    by_cases hji : j = i
    · exact hji ▸ hself
    · exact .up (by rw [hparent, if_neg hji, hq]) ih

theorem Above.of_parent (hp : (f.node i).parent = some p) : f.Above p i := .up hp .here

theorem Rooted.not_above_parent (h : f.Rooted i) (hp : (f.node i).parent = some p) :
    ¬ f.Above i p := by
  induction h generalizing p with
  | root hi => simp [hi] at hp
  | @up i q hq _ ih =>
    obtain rfl : q = p := Option.some.inj (hq.symm.trans hp)
    intro ha
    cases ha with
    | here => exact ih hq .here
    | up hr ha => exact ih hr ((Above.of_parent hp).trans ha)

theorem Above.eq_of_root (h : f.Above a i) (hi : (f.node i).parent = none) : a = i := by
  cases h with
  | here => rfl
  | up hp _ => simp [hi] at hp

theorem Above.eq_of_no_child (h : f.Above a i) (ha : ∀ j, (f.node j).parent ≠ some a) : i = a := by
  induction h with
  | here => rfl
  | up hp _ ih => exact absurd (ih ▸ hp) (ha _)

theorem Above.eq_or_child (h : f.Above i j) :
    i = j ∨ ∃ c, (f.node c).parent = some i ∧ f.Above c j := by
  induction h with
  | here => exact .inl rfl
  | up hp _ ih =>
    rcases ih with rfl | ⟨c, hc, ha⟩
    · exact .inr ⟨_, hp, .here⟩
    · exact .inr ⟨c, hc, .up hp ha⟩

theorem Above.total (h : f.Above a i) (h' : f.Above j i) : f.Above a j ∨ f.Above j a := by
  induction h with
  | here => exact .inr h'
  | @up i p hp h ih =>
    cases h' with
    | here => exact .inl (.up hp h)
    | up hq h' => exact ih (Option.some.inj (hq.symm.trans hp) ▸ h')

theorem WellFormed.eq_of_above {c c' : NodeId} (hf : f.WellFormed)
    (hc : (f.node c).parent = some p) (hc' : (f.node c').parent = some p) (h : f.Above c i)
    (h' : f.Above c' i) : c = c' := by
  have hsame {c c' : NodeId} (hc : (f.node c).parent = some p)
      (hc' : (f.node c').parent = some p) (h : f.Above c c') : c = c' := by
    cases h with
    | here => rfl
    | up hq h =>
      obtain rfl := Option.some.inj (hq.symm.trans hc')
      exact absurd h ((hf.rooted c).not_above_parent hc)
  rcases h.total h' with h | h
  · exact hsame hc hc' h
  · exact (hsame hc' hc h).symm

theorem Above.of_link (h : g.Above a j) (hi : ¬ f.Above i j)
    (hparent : ∀ k, k ≠ i → (g.node k).parent = (f.node k).parent) : f.Above a j := by
  induction h with
  | here => exact .here
  | @up j p hp _ ih =>
    have hji : j ≠ i := by rintro rfl; exact hi .here
    rw [hparent j hji] at hp
    exact .up hp (ih fun h => hi (.up hp h))

theorem Consistent.of_same_links (hf : f.Consistent)
    (hparent : ∀ j, (g.node j).parent = (f.node j).parent)
    (hlinked : ∀ j b, (g.node j).linked b = (f.node j).linked b)
    (hflag : ∀ j p, (f.node j).parent = some p → (g.node j).isAttribute = (f.node j).isAttribute) :
    g.Consistent where
  mem_linked_iff {p j b} := by
    rw [hlinked, hf.mem_linked_iff, hparent]
    constructor
    · rintro ⟨hp, hb⟩
      exact ⟨hp, (hflag j p hp).trans hb⟩
    · rintro ⟨hp, hb⟩
      exact ⟨hp, (hflag j p hp).symm.trans hb⟩
  nodup_linked p b := by
    rw [hlinked]
    exact hf.nodup_linked p b

theorem WellFormed.of_same_links (hf : f.WellFormed)
    (hparent : ∀ j, (g.node j).parent = (f.node j).parent)
    (hlinked : ∀ j b, (g.node j).linked b = (f.node j).linked b)
    (hflag : ∀ j p, (f.node j).parent = some p → (g.node j).isAttribute = (f.node j).isAttribute) :
    g.WellFormed :=
  (hf.consistent.of_same_links hparent hlinked hflag).wellFormed fun j =>
    (hf.rooted j).of_cut fun k => .inl (hparent k)

def unlink (f : Forest) (p i : NodeId) : Bool → Forest
  | true => (f.removeAttribute p i).2
  | false => (f.removeChild p i).2

theorem detach_eq (f : Forest) (i : NodeId) :
    f.detach i = match (f.node i).parent with
      | none => f
      | some p => f.unlink p i (f.node i).isAttribute := by
  unfold detach
  cases (f.node i).parent with
  | none => rfl
  | some p => cases (f.node i).isAttribute <;> rfl

@[simp] theorem size_unlink (f : Forest) (p i : NodeId) (b : Bool) :
    (f.unlink p i b).size = f.size := by
  cases b <;> simp only [unlink, removeAttribute, removeChild] <;> split <;>
    simp [setParent, setAttributes, setChildren]

@[simp] theorem size_detach (f : Forest) (i : NodeId) : (f.detach i).size = f.size := by
  rw [detach_eq]
  cases (f.node i).parent with
  | none => rfl
  | some p => simp

theorem node_unlink (hp : f.Has p) (hi : f.Has i) (hmem : i ∈ (f.node p).linked b) (j : NodeId) :
    (f.unlink p i b).node j =
      { f.node j with
        parent := if j = i then none else (f.node j).parent
        children := if j = p ∧ b = false then (f.node j).children.erase i
          else (f.node j).children
        attributes := if j = p ∧ b = true then (f.node j).attributes.erase i
          else (f.node j).attributes } := by
  cases b <;> simp only [Node.linked] at hmem <;>
    simp only [unlink, removeChild, removeAttribute, List.contains_iff_mem, hmem, if_true,
      setChildren, setAttributes, setParent, node_modify, Has, size_modify] <;>
    simp only [Has] at hp hi <;>
    by_cases hjp : j = p <;> by_cases hji : j = i <;> simp_all

theorem Consistent.erase_linked (hf : f.Consistent)
    (h : ¬ ((f.node i).parent = some p ∧ (f.node i).isAttribute = b)) :
    ((f.node p).linked b).erase i = (f.node p).linked b :=
  List.erase_of_not_mem fun hmem => h (hf.mem_linked_iff.1 hmem)

theorem node_detach (hf : f.Consistent) (i j : NodeId) :
    (f.detach i).node j =
      { f.node j with
        parent := if j = i then none else (f.node j).parent
        children := (f.node j).children.erase i
        attributes := (f.node j).attributes.erase i } := by
  have hchildren := hf.erase_linked (i := i) (p := j) (b := false)
  have hattributes := hf.erase_linked (i := i) (p := j) (b := true)
  simp only [Node.linked] at hchildren hattributes
  rw [detach_eq]
  cases hparent : (f.node i).parent with
  | none =>
    rw [hchildren (by simp [hparent]), hattributes (by simp [hparent])]
    by_cases hji : j = i
    · subst hji
      simp [← hparent]
    · simp [hji]
  | some p =>
    have hmem : i ∈ (f.node p).linked (f.node i).isAttribute := hf.mem_linked_iff.2 ⟨hparent, rfl⟩
    rw [node_unlink (has_of_mem_linked hmem) (has_of_parent hparent) hmem, Node.mk.injEq]
    refine ⟨rfl, rfl, rfl, rfl, ?_, ?_⟩
    · split
      · rfl
      · rename_i h
        exact (hchildren fun h' => h ⟨Option.some.inj (h'.1.symm.trans hparent), h'.2⟩).symm
    · split
      · rfl
      · rename_i h
        exact (hattributes fun h' => h ⟨Option.some.inj (h'.1.symm.trans hparent), h'.2⟩).symm

theorem linked_detach (hf : f.Consistent) (i j : NodeId) (b : Bool) :
    ((f.detach i).node j).linked b = ((f.node j).linked b).erase i := by
  rw [node_detach hf]
  cases b <;> rfl

theorem parent_detach (hf : f.Consistent) (i j : NodeId) :
    ((f.detach i).node j).parent = if j = i then none else (f.node j).parent := by
  rw [node_detach hf]

theorem Consistent.detach (hf : f.Consistent) (i : NodeId) : (f.detach i).Consistent where
  mem_linked_iff {p j b} := by
    rw [linked_detach hf, (hf.nodup_linked p b).mem_erase_iff, hf.mem_linked_iff, node_detach hf]
    by_cases hji : j = i <;> simp [hji]
  nodup_linked p b := by
    rw [linked_detach hf]
    exact (hf.nodup_linked p b).erase i

theorem WellFormed.detach (hf : f.WellFormed) (i : NodeId) : (f.detach i).WellFormed := by
  refine (hf.consistent.detach i).wellFormed fun j => (hf.rooted j).of_cut fun k => ?_
  rw [parent_detach hf.consistent]
  split
  · exact .inr rfl
  · exact .inl rfl

theorem unlink_eq (hf : f.WellFormed) (p i : NodeId) (b : Bool) :
    f.unlink p i b = if i ∈ (f.node p).linked b then f.detach i else f := by
  split
  · rename_i hmem
    obtain ⟨hparent, rfl⟩ := hf.mem_linked_iff.1 hmem
    simp [detach_eq, hparent]
  · rename_i hmem
    cases b <;> simp only [Node.linked] at hmem <;>
      simp [unlink, removeChild, removeAttribute, hmem]

theorem WellFormed.unlink (hf : f.WellFormed) (p i : NodeId) (b : Bool) :
    (f.unlink p i b).WellFormed := by
  rw [unlink_eq hf]
  split
  · exact hf.detach i
  · exact hf

def link (f : Forest) (p i : NodeId) : Bool → Forest
  | true => f.addAttribute p i
  | false => f.addChild p i

@[simp] theorem size_link (f : Forest) (p i : NodeId) (b : Bool) :
    (f.link p i b).size = f.size := by
  cases b <;> simp [link, addAttribute, addChild, setChildren, setAttributes, setParent,
    setAttributeFlag]

@[simp] theorem has_link : (f.link p i b).Has j ↔ f.Has j := by simp [Has]

theorem node_link (hf : f.Consistent) (hp : f.Has p) (hi : f.Has i) (j : NodeId) :
    (f.link p i b).node j =
      { f.node j with
        isAttribute := if j = i then b else (f.node j).isAttribute
        parent := if j = i then some p else (f.node j).parent
        children := (f.node j).children.erase i ++ if j = p ∧ b = false then [i] else []
        attributes := (f.node j).attributes.erase i ++ if j = p ∧ b = true then [i] else [] } := by
  have hnode := node_detach hf i
  simp only [Has] at hp hi
  cases b <;>
    simp only [link, addChild, addAttribute, setChildren, setAttributes, setParent,
      setAttributeFlag, node_modify, hnode, Has, size_modify, size_detach] <;>
    by_cases hjp : j = p <;> by_cases hji : j = i <;> by_cases hpi : p = i <;> simp_all

theorem linked_link (hf : f.Consistent) (hp : f.Has p) (hi : f.Has i) (j : NodeId) (b' : Bool) :
    ((f.link p i b).node j).linked b' =
      ((f.node j).linked b').erase i ++ if j = p ∧ b' = b then [i] else [] := by
  rw [node_link hf hp hi]
  cases b' <;> simp only [Node.linked, eq_comm]

theorem parent_link (hf : f.Consistent) (hp : f.Has p) (hi : f.Has i) (j : NodeId) :
    ((f.link p i b).node j).parent = if j = i then some p else (f.node j).parent := by
  rw [node_link hf hp hi]

theorem Consistent.link (hf : f.Consistent) (hp : f.Has p) (hi : f.Has i) :
    (f.link p i b).Consistent where
  mem_linked_iff {q j b'} := by
    rw [linked_link hf hp hi, List.mem_append, (hf.nodup_linked q b').mem_erase_iff,
      hf.mem_linked_iff, node_link hf hp hi]
    by_cases hji : j = i
    · subst hji
      by_cases hq : q = p
      · simp [hq, eq_comm]
      · simp [hq, Ne.symm hq]
    · by_cases hq : q = p ∧ b' = b <;> simp [hji, hq]
  nodup_linked q b' := by
    rw [linked_link hf hp hi]
    refine List.nodup_append.2 ⟨(hf.nodup_linked q b').erase i, by split <;> simp, ?_⟩
    rintro k hk l hl rfl
    split at hl
    · obtain rfl := List.mem_singleton.1 hl
      exact absurd hk (hf.nodup_linked q b').not_mem_erase
    · simp at hl

/-- Linking a node below another keeps a forest well-formed, unless the node
would come to stand below itself. -/
theorem WellFormed.link (hf : f.WellFormed) (hp : f.Has p) (hi : f.Has i) (h : ¬ f.Above i p) :
    (f.link p i b).WellFormed :=
  (hf.consistent.link hp hi).wellFormed fun j =>
    (hf.rooted j).of_link (hf.rooted p) h (parent_link hf.consistent hp hi)

theorem append_eq (f : Forest) (p i : NodeId) :
    f.append p i = f.link p i (f.node i).isAttribute := by
  unfold append
  cases (f.node i).isAttribute <;> rfl

theorem free_link (hf : f.WellFormed) (hp : f.Has p) (hi : f.Has i) (hip : ¬ f.Above i p)
    (hj : f.Has j ∧ ¬ f.Above j p) : (f.link p i b).Has j ∧ ¬ (f.link p i b).Above j p := by
  refine ⟨has_link.2 hj.1, fun ha => hj.2 (ha.of_link hip fun k hk => ?_)⟩
  rw [parent_link hf.consistent hp hi, if_neg hk]

/-- Linking nodes one after another keeps a forest well-formed: where they go
stays as it is, so none of them comes to stand above it. -/
theorem WellFormed.foldl_append {is : List NodeId} (hf : f.WellFormed) (hp : f.Has p)
    (his : ∀ i ∈ is, f.Has i ∧ ¬ f.Above i p) : (is.foldl (·.append p ·) f).WellFormed := by
  induction is generalizing f with
  | nil => exact hf
  | cons i is ih =>
    obtain ⟨hi, hip⟩ := his i List.mem_cons_self
    rw [List.foldl_cons, append_eq]
    exact ih (hf.link hp hi hip) (has_link.2 hp) fun j hj =>
      free_link hf hp hi hip (his j (List.mem_cons_of_mem i hj))

theorem Consistent.foldl_append {is : List NodeId} (hf : f.Consistent) (hp : f.Has p)
    (his : ∀ i ∈ is, f.Has i) : (is.foldl (·.append p ·) f).Consistent := by
  induction is generalizing f with
  | nil => exact hf
  | cons i is ih =>
    rw [List.foldl_cons, append_eq]
    exact ih (hf.link hp (his i List.mem_cons_self)) (has_link.2 hp) fun j hj =>
      has_link.2 (his j (List.mem_cons_of_mem i hj))

@[simp] theorem size_foldl_append (f : Forest) (p : NodeId) (is : List NodeId) :
    (is.foldl (·.append p ·) f).size = f.size := by
  induction is generalizing f with
  | nil => rfl
  | cons i is ih => rw [List.foldl_cons, ih, append_eq, size_link]

end Settings.Forest
