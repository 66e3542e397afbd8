import Mathlib.Data.List.Dedup
import Settings.Proofs.Forest.Ancestry
import Settings.Proofs.Forest.Appending

/-! # Moving nodes

Nodes that are appended to a target one after the other are lost in all lists they were in, and
each of them comes to stand once in the lists of the target: behind what is left there, where
it was named last. A target that is to be created stands at the end of a branch of new nodes.
-/

namespace Settings

def Node.gain (n : Node) (children attributes : List NodeId) : Node :=
  { n with children := n.children ++ children, attributes := n.attributes ++ attributes }

namespace Forest

variable {f g : Forest} {i j p t : NodeId} {name : String} {names : List String}
  {children attributes fresh is : List NodeId}

/-- The nodes of a list that bear a flag, each of them once, in the order in which they occur
last. -/
def lastNamed (f : Forest) (is : List NodeId) (b : Bool) : List NodeId :=
  is.dedup.filter fun i => (f.node i).isAttribute = b

/-- A node as it is when others, or it itself, have moved to a target, apart from what the
target gains. -/
def moved (f : Forest) (is : List NodeId) (target j : NodeId) : Node :=
  { f.node j with
    parent := if j ∈ is then some target else (f.node j).parent
    children := (f.node j).children.filter (· ∉ is)
    attributes := (f.node j).attributes.filter (· ∉ is) }

theorem linked_foldl_append (hf : f.Consistent) (hp : f.Has p) (his : ∀ i ∈ is, f.Has i)
    (j : NodeId) (b : Bool) :
    ((is.foldl (·.append p ·) f).node j).linked b =
      ((f.node j).linked b).filter (· ∉ is) ++ if j = p then f.lastNamed is b else [] := by
  induction is generalizing f with
  | nil => simp [lastNamed]
  | cons i is ih =>
    have hi := his i List.mem_cons_self
    have hnode := node_link (b := (f.node i).isAttribute) hf hp hi
    have hsame : (f.link p i (f.node i).isAttribute).lastNamed is b = f.lastNamed is b := by
      refine List.filter_congr fun k _ => ?_
      rw [hnode]
      by_cases hki : k = i <;> simp [hki]
    have hlost : (((f.node j).linked b).erase i).filter (· ∉ is) =
        ((f.node j).linked b).filter (· ∉ i :: is) := by
      rw [(hf.nodup_linked j b).erase_eq_filter, List.filter_filter]
      refine List.filter_congr fun k _ => ?_
      rw [Bool.eq_iff_iff]
      simp [and_comm]
    rw [List.foldl_cons, append_eq, ih (hf.link hp hi) (has_link.2 hp) fun k hk =>
      has_link.2 (his k (.tail i hk)), linked_link hf hp hi, hsame, List.filter_append, hlost,
      List.append_assoc]
    congr 1
    by_cases hj : j = p
    · by_cases hmem : i ∈ is
      · simp [hj, lastNamed, hmem, List.dedup_cons_of_mem, apply_ite]
      · rw [lastNamed, lastNamed, List.dedup_cons_of_notMem hmem, List.filter_cons]
        by_cases hb : b = (f.node i).isAttribute <;> simp [hj, hmem, hb, eq_comm]
    · simp [hj]

theorem node_foldl_append (hf : f.Consistent) (hp : f.Has p) (his : ∀ i ∈ is, f.Has i)
    (j : NodeId) :
    (is.foldl (·.append p ·) f).node j =
      if j = p then (f.moved is p j).gain (f.lastNamed is false) (f.lastNamed is true)
      else f.moved is p j := by
  have happended := appended_foldl hf hp his
  have hlinked := linked_foldl_append hf hp his j
  refine Node.eq_of_bare ?_ fun b => ?_
  · have hbare : ((is.foldl (·.append p ·) f).node j).bare = (f.moved is p j).bare := by
      simp only [Node.bare, moved, Node.mk.injEq, and_true]
      exact ⟨happended.name_eq j, happended.value_eq j, happended.flag_eq j,
        happended.parent_eq j⟩
    split <;> exact hbare
  · rw [hlinked]
    split <;> cases b <;> simp [moved, Node.gain, Node.linked]

/-- What is below a moved node is what was, but for the nodes that moved from there. -/
theorem Moves.above_moved_iff (hm : Moves p is f g) (hi : i ∈ is)
    (hfree : ∀ i ∈ is, ¬ f.Above i p) : g.Above i j ↔ f.Spared is i j := by
  constructor
  · intro h
    rcases hm.spared_of_above h with h | ⟨h, -⟩
    · exact h
    · exact absurd h.above (hfree i hi)
  · exact hm.above_of_spared

/-- A branch of valueless nodes below a node, one below the other and with the given names. Only
the last of them has further members. -/
inductive Branch (g : Forest) (children attributes : List NodeId) :
    NodeId → List String → List NodeId → Prop
  | tip {p i : NodeId} {name : String} :
      g.node i = ⟨some name, .null, false, some p, children, attributes⟩ →
      Branch g children attributes p [name] [i]
  | up {p i j : NodeId} {name : String} {names : List String} {below : List NodeId} :
      g.node i = ⟨some name, .null, false, some p, [j], []⟩ →
      Branch g children attributes i names (j :: below) →
      Branch g children attributes p (name :: names) (i :: j :: below)

theorem node_createLinked_of_has (hf : f.Consistent) (hp : f.Has p) (hj : f.Has j) :
    (f.createLinked p name .null false).2.node j =
      if j = p then (f.node j).gain [⟨f.size⟩] [] else f.node j := by
  rw [node_createLinked hf hp, if_neg hj.ne_new]
  by_cases hjp : j = p <;> simp [Node.gain, hjp]

/-- A created path is a branch of new nodes, the first of them at the end of its parent's
children. -/
theorem exists_branch_createPath (hf : f.Consistent) (hp : f.Has p) (hnames : names ≠ []) :
    ∃ first below, (f.createPath p names).2.Branch [] [] p names (first :: below) ∧
      (first :: below).getLast? = some (f.createPath p names).1 ∧
      Gains f (f.createPath p names).2 (first :: below) ∧
      ∀ j, f.Has j → (f.createPath p names).2.node j =
        if j = p then (f.node j).gain [first] [] else f.node j := by
  induction names generalizing f p with
  | nil => exact absurd rfl hnames
  | cons name names ih =>
    have hgains : Gains f (f.createLinked p name .null false).2 [⟨f.size⟩] :=
      gains_createLinked hf hp
    have hnode : (f.createLinked p name .null false).2.node ⟨f.size⟩ =
        ⟨some name, .null, false, some p, [], []⟩ := by
      rw [node_createLinked hf hp, if_pos rfl]
    have hold : ∀ j, f.Has j → (f.createLinked p name .null false).2.node j =
        if j = p then (f.node j).gain [⟨f.size⟩] [] else f.node j :=
      fun j hj => node_createLinked_of_has hf hp hj
    have hnew : (f.createLinked p name .null false).2.Has ⟨f.size⟩ := has_createLinked.2 (.inr rfl)
    rw [createPath_cons]
    cases names with
    | nil => exact ⟨⟨f.size⟩, [], .tip hnode, rfl, hgains, hold⟩
    | cons next names =>
      obtain ⟨first, below, hbranch, hlast, hgains', hold'⟩ :=
        ih (hf.createLinked hp) hnew (List.cons_ne_nil next names)
      refine ⟨⟨f.size⟩, first :: below, .up ?_ hbranch, ?_, hgains.trans hgains', fun j hj => ?_⟩
      · rw [hold' _ hnew, if_pos rfl, hnode]
        rfl
      · rw [List.getLast?_cons_cons, hlast]
      · rw [hold' j (hgains.extend.has hj), if_neg hj.ne_new, hold j hj]

theorem Branch.gain {parts : List NodeId} (h : f.Branch [] [] p names parts) (hnodup : parts.Nodup)
    (hlast : parts.getLast? = some t)
    (hnode : ∀ i ∈ parts, g.node i =
      if i = t then (f.node i).gain children attributes else f.node i) :
    g.Branch children attributes p names parts := by
  induction h with
  | @tip p i name hi =>
    obtain rfl : i = t := by simpa using hlast
    refine .tip ?_
    rw [hnode i (by simp), if_pos rfl, hi]
    rfl
  | @up p i j name names below hi _ ih =>
    rw [List.getLast?_cons_cons] at hlast
    have hne : i ≠ t := by
      rintro rfl
      exact (List.nodup_cons.1 hnodup).1 (List.mem_of_getLast? hlast)
    refine .up ?_ (ih (List.nodup_cons.1 hnodup).2 hlast fun k hk => hnode k (.tail i hk))
    rw [hnode i (by simp), if_neg hne, hi]

theorem createPath_concat (f : Forest) (p : NodeId) (names : List String) (name : String) :
    f.createPath p (names ++ [name]) =
      (f.createPath p names).2.createLinked (f.createPath p names).1 name .null false := by
  induction names generalizing f p with
  | nil => rfl
  | cons first names ih => exact ih _ _

theorem insertNode_eq_createPath {place : Insertion} (h : place.isAttribute = false) :
    f.insertNode place .null = f.createPath place.parent (place.missing ++ [place.name]) := by
  rw [insertNode_eq, createPath_concat, h]

/-- What moving nodes below a place that is to be created leaves of a forest: at the end of the
place's children a branch of new nodes with the moved ones at its tip, the target, and the other
nodes without them. -/
structure Transplanted (place : Insertion) (is : List NodeId) (first : NodeId)
    (below : List NodeId) (target : NodeId) (f g : Forest) : Prop where
  fresh : ∀ i, i ∈ first :: below ↔ g.Has i ∧ ¬ f.Has i
  tip : (first :: below).getLast? = some target
  branch : g.Branch (f.lastNamed is false) (f.lastNamed is true) place.parent
    (place.missing ++ [place.name]) (first :: below)
  node_eq : ∀ j, f.Has j → g.node j =
    if j = place.parent then (f.moved is target j).gain [first] [] else f.moved is target j

theorem moved_eq_of_free (hj : j ∉ is) (hfree : ∀ b, ∀ i ∈ (f.node j).linked b, i ∉ is) :
    f.moved is t j = f.node j := by
  have hkept (b : Bool) : ((f.node j).linked b).filter (· ∉ is) = (f.node j).linked b :=
    List.filter_eq_self.2 fun i hi => by simpa using hfree b i hi
  rw [moved, if_neg hj]
  exact congrArg₂ (fun children attributes => { f.node j with children, attributes })
    (hkept false) (hkept true)

theorem exists_transplanted {place : Insertion} (hf : f.Consistent) (hp : f.Has place.parent)
    (hkind : place.isAttribute = false) (his : ∀ i ∈ is, f.Has i) :
    ∃ first below target, Transplanted place is first below target f
      (is.foldl (·.append (f.insertNode place .null).1 ·) (f.insertNode place .null).2) := by
  rw [insertNode_eq_createPath hkind]
  obtain ⟨first, below, hbranch, hlast, hgains, hold⟩ :=
    exists_branch_createPath hf hp (List.append_ne_nil_of_right_ne_nil place.missing
      (List.cons_ne_nil place.name []))
  obtain ⟨hcon, hext, hend⟩ := createPath_spec hf hp (place.missing ++ [place.name])
  generalize f.createPath place.parent (place.missing ++ [place.name]) = created at *
  obtain ⟨target, h⟩ := created
  dsimp only at *
  have hnode := node_foldl_append hcon hend fun i hi => hext.has (his i hi)
  have hnew {i : NodeId} (hi : i ∈ first :: below) : ¬ f.Has i := ((hgains.mem_iff i).1 hi).2
  have hlists (b : Bool) : h.lastNamed is b = f.lastNamed is b :=
    List.filter_congr fun i hi => by
      rw [hext.isAttribute_eq (his i (List.mem_dedup.1 hi))]
  have htarget : target ∈ first :: below := List.mem_of_getLast? hlast
  refine ⟨first, below, target, fun i => ?_, hlast, hbranch.gain hgains.nodup hlast fun i hi => ?_,
    fun j hj => ?_⟩
  · simp only [hgains.mem_iff, Has, size_foldl_append]
  · have hfree : h.moved is target i = h.node i := by
      refine moved_eq_of_free (fun hmem => hnew hi (his i hmem)) fun b k hk hmem => ?_
      have hparent := (hcon.mem_linked_iff.1 hk).1
      rw [hext.parent_eq (his k hmem)] at hparent
      exact hnew hi (hf.has_parent hparent)
    rw [hnode, hfree, hlists, hlists]
  · have hne : j ≠ target := by
      rintro rfl
      exact hnew htarget hj
    have hfirst : first ∉ is := fun hmem => hnew List.mem_cons_self (his first hmem)
    rw [hnode, if_neg hne, moved, hold j hj]
    split
    · simp [moved, Node.gain, hfirst, List.filter_append]
    · rfl

end Forest

end Settings
