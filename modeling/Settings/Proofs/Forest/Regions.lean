import Settings.Proofs.Forest.Insertion
import Settings.Proofs.Forest.Pruning

/-! # Changes below a node

A change is confined to the tree below a root when it leaves the nodes elsewhere
alone, and of the root its name, its flag and its parent. Pruning stops at the
root, so clearing is confined; so are detaching nodes below the root, emptying the
root, inserting below it, and appending nodes, which are lost where they were.
-/

namespace Settings

theorem Node.eq_of_bare {m n : Node} (hbare : m.bare = n.bare)
    (hlinked : ∀ b, m.linked b = n.linked b) : m = n := by
  have hchildren := hlinked false
  have hattributes := hlinked true
  cases m
  cases n
  simp_all [Node.bare, Node.linked]

namespace Forest

variable {f g h : Forest} {root i j p : NodeId} {b : Bool} {value : Value} {is taken : List NodeId}

theorem Above.has (h : f.Above i j) (hf : f.Consistent) (hj : f.Has j) : f.Has i := by
  induction h with
  | here => exact hj
  | up hp _ ih => exact ih (hf.has_parent hp)

/-- A node is below a root, unless it came to be later. -/
def Inside (f : Forest) (root i : NodeId) : Prop := f.Has i → f.Above root i

theorem Above.inside (h : f.Above root i) : f.Inside root i := fun _ => h

theorem Inside.parent (hi : f.Inside root i) (hne : i ≠ root) (hp : (f.node i).parent = some p) :
    f.Above root p := by
  cases hi (has_of_parent hp) with
  | here => exact absurd rfl hne
  | up hq ha => exact Option.some.inj (hq.symm.trans hp) ▸ ha

structure Within (root : NodeId) (f g : Forest) : Prop where
  wellFormed : g.WellFormed
  size_le : f.size ≤ g.size
  outside : ∀ j, f.Has j → ¬ f.Above root j → g.node j = f.node j
  root_name : (g.node root).name = (f.node root).name
  root_flag : (g.node root).isAttribute = (f.node root).isAttribute
  root_parent : (g.node root).parent = (f.node root).parent

namespace Within

theorem refl (hf : f.WellFormed) (root : NodeId) : Within root f f :=
  ⟨hf, Nat.le_refl _, fun _ _ _ => rfl, rfl, rfl, rfl⟩

variable (hw : Within root f g) (hf : f.WellFormed)

include hw

theorem has (hj : f.Has j) : g.Has j := Nat.lt_of_lt_of_le hj hw.size_le

theorem setValue (hi : f.Inside root i) (value : Value) : Within root f (g.setValue i value) where
  wellFormed := hw.wellFormed.setValue i value
  size_le := by simpa using hw.size_le
  outside j hj hout := by
    have hne : j ≠ i := by
      rintro rfl
      exact hout (hi hj)
    rw [Forest.setValue, node_modify, if_neg fun h => hne h.1]
    exact hw.outside j hj hout
  root_name := (name_setValue ..).trans hw.root_name
  root_flag := (isAttribute_setValue ..).trans hw.root_flag
  root_parent := (parent_setValue ..).trans hw.root_parent

theorem emptyLinked (b : Bool) : Within root f (g.emptyLinked root b) where
  wellFormed := hw.wellFormed.emptyLinked root b
  size_le := by simpa using hw.size_le
  outside j hj hout := by
    have hne : j ≠ root := by
      rintro rfl
      exact hout .here
    have hlist : j ∉ (g.node root).linked b := by
      intro hmem
      have hparent := (hw.wellFormed.mem_linked_iff.1 hmem).1
      rw [hw.outside j hj hout] at hparent
      exact hout (.of_parent hparent)
    simpa [node_emptyLinked, hne, hlist] using hw.outside j hj hout
  root_name := by
    rw [node_emptyLinked]
    exact hw.root_name
  root_flag := by
    rw [node_emptyLinked]
    exact hw.root_flag
  root_parent := by
    have hself : root ∉ (g.node root).linked b := by
      intro hmem
      have hparent := (hw.wellFormed.mem_linked_iff.1 hmem).1
      exact (hw.wellFormed.rooted root).not_above_parent hparent .here
    rw [node_emptyLinked, if_neg hself]
    exact hw.root_parent

theorem reset : Within root f (g.reset root) :=
  ((hw.emptyLinked false).emptyLinked true).setValue Above.here.inside .null

include hf

theorem inside_of_above (ha : g.Above root j) : f.Inside root j := by
  induction ha with
  | here => exact Above.here.inside
  | @up j p hp _ ih =>
    -- A node outside still has the parent it had, which is below the root by induction.
    intro hj
    by_contra hout
    rw [hw.outside j hj hout] at hp
    exact hout (.up hp (ih (hf.has_parent hp)))

theorem inside_of_mem (hi : f.Inside root i) (hne : i ≠ root) (hmem : i ∈ (g.node p).linked b) :
    f.Inside root p := by
  intro hp
  by_contra hout
  rw [hw.outside p hp hout] at hmem
  exact hout (hi.parent hne (hf.mem_linked_iff.1 hmem).1)

theorem detach (hi : f.Inside root i) (hne : i ≠ root) : Within root f (g.detach i) where
  wellFormed := hw.wellFormed.detach i
  size_le := by simpa using hw.size_le
  outside j hj hout := by
    have hlist (b : Bool) : i ∉ (g.node j).linked b := fun hmem =>
      hout (hw.inside_of_mem hf hi hne hmem hj)
    have hchildren := List.erase_of_not_mem (hlist false)
    have hattributes := List.erase_of_not_mem (hlist true)
    have hji : j ≠ i := by
      rintro rfl
      exact hout (hi hj)
    simp only [Node.linked] at hchildren hattributes
    rw [node_detach hw.wellFormed.consistent, if_neg hji, hchildren, hattributes]
    exact hw.outside j hj hout
  root_name := (name_detach hw.wellFormed i root).trans hw.root_name
  root_flag := by
    rw [node_detach hw.wellFormed.consistent]
    exact hw.root_flag
  root_parent := by
    rw [parent_detach hw.wellFormed.consistent, if_neg hne.symm]
    exact hw.root_parent

/-- Pruning climbs from one node below the root to the next and stops at the root. -/
theorem pruneUpTo (fuel : Nat) (hi : f.Inside root i) :
    Within root f (g.pruneUpTo root fuel i) := by
  induction fuel generalizing g i with
  | zero => exact hw
  | succ fuel ih =>
    rw [Forest.pruneUpTo]
    split
    · exact hw
    · rename_i p hp
      split
      · exact hw
      · rename_i hstop
        simp only [Bool.or_eq_true, decide_eq_true_eq, not_or] at hstop
        have hmem := hw.wellFormed.mem_linked_iff.2 ⟨hp, rfl⟩
        exact ih (hw.detach hf hi hstop.1) (hw.inside_of_mem hf hi hstop.1 hmem)

theorem clearNode (hi : f.Inside root i) : Within root f (g.clearNode root i) :=
  (hw.setValue hi .null).pruneUpTo hf g.size hi

theorem clearAll (his : ∀ i ∈ is, f.Inside root i) : Within root f (g.clearAll root is) :=
  List.foldlRecOn is _ hw fun _ hw i hi => hw.clearNode hf (his i hi)

theorem insertNode {place : Insertion} (hhas : g.Has place.parent)
    (ha : g.Above root place.parent) (value : Value) :
    Within root f (g.insertNode place value).2 := by
  obtain ⟨-, hext, -⟩ := insertNode_spec hw.wellFormed.consistent hhas value
  have hroot := ha.has hw.wellFormed.consistent hhas
  refine ⟨hw.wellFormed.insertNode hhas value, Nat.le_trans hw.size_le hext.size_le,
    fun j hj hout => ?_, ?_, ?_, ?_⟩
  · have hne : j ≠ place.parent := by
      rintro rfl
      exact hout (hw.inside_of_above hf ha hj)
    rw [← hw.outside j hj hout]
    exact Node.eq_of_bare (hext.bare_eq j (hw.has hj))
      (linked_insertNode hw.wellFormed hhas (hw.has hj) hne)
  · exact (hext.name_eq hroot).trans hw.root_name
  · exact (congrArg Node.isAttribute (hext.bare_eq root hroot) :).trans hw.root_flag
  · exact (hext.parent_eq hroot).trans hw.root_parent

end Within

theorem above_of_mem_follow (hf : f.Consistent) {nodes : List NodeId} {parts : List KeyPart}
    (hi : i ∈ f.follow nodes parts) : ∃ q ∈ nodes, f.Above q i := by
  induction parts generalizing nodes with
  | nil => exact ⟨i, hi, .here⟩
  | cons part parts ih =>
    obtain ⟨p, hp, ha⟩ := ih hi
    obtain ⟨q, hq, hstep⟩ := List.mem_flatMap.1 hp
    have hparent := (hf.mem_linked_iff.1 (mem_linked_of_mem_step hstep)).1
    exact ⟨q, hq, (Above.of_parent hparent).trans ha⟩

theorem above_createLinked (hf : f.Consistent) (hp : f.Has p) (name : String) (value : Value)
    (b : Bool) : (f.createLinked p name value b).2.Above p ⟨f.size⟩ := by
  refine .of_parent ?_
  rw [node_createLinked hf hp, if_pos rfl]

theorem above_createPath (hf : f.Consistent) (hp : f.Has p) (names : List String) :
    (f.createPath p names).2.Above p (f.createPath p names).1 := by
  induction names generalizing f p with
  | nil => exact .here
  | cons name names ih =>
    have hcreated : (f.createLinked p name .null false).2.Consistent := hf.createLinked hp
    have hnew : (f.createLinked p name .null false).2.Has ⟨f.size⟩ := has_createLinked.2 (.inr rfl)
    obtain ⟨-, hext, -⟩ := createPath_spec hcreated hnew names
    rw [createPath_cons]
    exact ((hext.above_iff hcreated hnew).2 (above_createLinked hf hp name .null false)).trans
      (ih hcreated hnew)

theorem above_insertNode {place : Insertion} (hf : f.Consistent) (hp : f.Has place.parent)
    (ha : f.Above i place.parent) (value : Value) :
    (f.insertNode place value).2.Above i (f.insertNode place value).1 := by
  obtain ⟨hcon, hext, hhas⟩ := createPath_spec hf hp place.missing
  have hend := ((hext.above_iff hf hp).2 ha).trans (above_createPath hf hp place.missing)
  rw [insertNode_eq, createLinked_fst]
  exact (((extends_createLinked hcon hhas).above_iff hcon hhas).2 hend).trans
    (above_createLinked hcon hhas ..)

structure Appended (p : NodeId) (is : List NodeId) (f g : Forest) : Prop where
  name_eq : ∀ j, (g.node j).name = (f.node j).name
  value_eq : ∀ j, (g.node j).value = (f.node j).value
  flag_eq : ∀ j, (g.node j).isAttribute = (f.node j).isAttribute
  parent_eq : ∀ j, (g.node j).parent = if j ∈ is then some p else (f.node j).parent
  linked_eq : ∀ j b, j ≠ p → (g.node j).linked b = ((f.node j).linked b).filter (· ∉ is)

theorem appended_foldl (hf : f.Consistent) (hp : f.Has p) (his : ∀ i ∈ is, f.Has i) :
    Appended p is f (is.foldl (·.append p ·) f) := by
  induction is generalizing f with
  | nil => exact ⟨fun _ => rfl, fun _ => rfl, fun _ => rfl, by simp, by simp⟩
  | cons i is ih =>
    have hi := his i List.mem_cons_self
    rw [List.foldl_cons, append_eq]
    have hnode := node_link (b := (f.node i).isAttribute) hf hp hi
    have hrest := ih (f := f.link p i (f.node i).isAttribute) (hf.link hp hi) (has_link.2 hp)
      fun j hj => has_link.2 (his j (List.mem_cons_of_mem i hj))
    refine ⟨fun j => ?_, fun j => ?_, fun j => ?_, fun j => ?_, fun j b hj => ?_⟩
    · rw [hrest.name_eq, hnode]
    · rw [hrest.value_eq, hnode]
    · rw [hrest.flag_eq, hnode]
      by_cases hji : j = i <;> simp [hji]
    · rw [hrest.parent_eq, hnode]
      by_cases hji : j = i <;> simp [hji]
    · rw [hrest.linked_eq j b hj, linked_link hf hp hi, if_neg fun h => hj h.1, List.append_nil,
        (hf.nodup_linked j b).erase_eq_filter, List.filter_filter]
      refine List.filter_congr fun k _ => ?_
      rw [Bool.eq_iff_iff]
      simp [and_comm]

/-- A change is confined to the tree below a root, but for some nodes that are taken
away from elsewhere. -/
structure Confined (root : NodeId) (taken : List NodeId) (f g : Forest) : Prop where
  root_name : (g.node root).name = (f.node root).name
  root_flag : (g.node root).isAttribute = (f.node root).isAttribute
  root_parent : (g.node root).parent = (f.node root).parent
  root_place : ∀ p b before after, (f.node p).linked b = before ++ root :: after →
    (g.node p).linked b = before.filter (· ∉ taken) ++ root :: after.filter (· ∉ taken)
  name_eq : ∀ j, f.Has j → ¬ f.Above root j → (g.node j).name = (f.node j).name
  value_eq : ∀ j, f.Has j → ¬ f.Above root j → (g.node j).value = (f.node j).value
  flag_eq : ∀ j, f.Has j → ¬ f.Above root j → (g.node j).isAttribute = (f.node j).isAttribute
  parent_eq : ∀ j, f.Has j → ¬ f.Above root j → j ∉ taken →
    (g.node j).parent = (f.node j).parent
  linked_eq : ∀ j, f.Has j → ¬ f.Above root j → ∀ b,
    (g.node j).linked b = ((f.node j).linked b).filter (· ∉ taken)

theorem WellFormed.root_place (hf : f.WellFormed) (hroot : root ∉ taken)
    (hlinked : ∀ j, f.Has j → ¬ f.Above root j → ∀ b,
      (g.node j).linked b = ((f.node j).linked b).filter (· ∉ taken))
    {before after : List NodeId} (hplace : (f.node p).linked b = before ++ root :: after) :
    (g.node p).linked b = before.filter (· ∉ taken) ++ root :: after.filter (· ∉ taken) := by
  have hmem : root ∈ (f.node p).linked b := by simp [hplace]
  have hparent := (hf.mem_linked_iff.1 hmem).1
  rw [hlinked p (hf.has_parent hparent) ((hf.rooted root).not_above_parent hparent), hplace,
    List.filter_append, List.filter_cons_of_pos (by simpa using hroot)]

theorem Within.confined (hw : Within root f g) (hf : f.WellFormed) : Confined root [] f g := by
  have hlinked : ∀ j, f.Has j → ¬ f.Above root j → ∀ b,
      (g.node j).linked b = ((f.node j).linked b).filter (· ∉ []) := by
    intro j hj hout b
    simp [hw.outside j hj hout]
  exact ⟨hw.root_name, hw.root_flag, hw.root_parent,
    fun _ _ _ _ => hf.root_place List.not_mem_nil hlinked,
    fun j hj hout => by rw [hw.outside j hj hout], fun j hj hout => by rw [hw.outside j hj hout],
    fun j hj hout => by rw [hw.outside j hj hout],
    fun j hj hout _ => by rw [hw.outside j hj hout], hlinked⟩

/-- Nodes are appended below the root, after a change that is confined to it. -/
theorem Within.confined_append (hw : Within root f g) (hf : f.WellFormed) (hp : g.Has p)
    (ha : g.Above root p) (his : ∀ i ∈ is, g.Has i ∧ ¬ g.Above i p) :
    Confined root is f (is.foldl (·.append p ·) g) := by
  have happended := appended_foldl hw.wellFormed.consistent hp fun i hi => (his i hi).1
  have hroot : root ∉ is := fun hmem => (his root hmem).2 ha
  have hlinked : ∀ j, f.Has j → ¬ f.Above root j → ∀ b,
      ((is.foldl (·.append p ·) g).node j).linked b =
        ((f.node j).linked b).filter (· ∉ is) := by
    intro j hj hout b
    rw [happended.linked_eq j b, hw.outside j hj hout]
    rintro rfl
    exact hout (hw.inside_of_above hf ha hj)
  refine ⟨(happended.name_eq root).trans hw.root_name, (happended.flag_eq root).trans hw.root_flag,
    ?_, fun _ _ _ _ => hf.root_place hroot hlinked, fun j hj hout => ?_, fun j hj hout => ?_,
    fun j hj hout => ?_, fun j hj hout htaken => ?_, hlinked⟩
  · rw [happended.parent_eq, if_neg hroot, hw.root_parent]
  · rw [happended.name_eq, hw.outside j hj hout]
  · rw [happended.value_eq, hw.outside j hj hout]
  · rw [happended.flag_eq, hw.outside j hj hout]
  · rw [happended.parent_eq, if_neg htaken, hw.outside j hj hout]

end Forest

end Settings
