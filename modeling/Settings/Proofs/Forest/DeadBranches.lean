import Mathlib.Data.List.Induction
import Settings.Proofs.Forest.Regions
import Settings.Proofs.Forest.Walks

/-! # Dead branches

Clearing nodes one after the other detaches, in whatever order, the branches
that are left without any content. Which these are is a property of the forest
as it was, and nothing but them is taken out of it.
-/

namespace Settings.Forest

variable {f g : Forest} {i j cur p root s : NodeId} {b : Bool} {is gone emptied : List NodeId}
  {pending : NodeId → Prop}

theorem WellFormed.above_antisymm (hf : f.WellFormed) (h : f.Above i j) (h' : f.Above j i) :
    i = j := by
  cases h with
  | here => rfl
  | up hp ha => exact absurd (h'.trans ha) ((hf.rooted j).not_above_parent hp)

theorem Layer.of_sublist {nodes nodes' : List NodeId} (hl : f.Layer nodes)
    (h : nodes'.Sublist nodes) : f.Layer nodes' where
  has i hi := hl.has i (h.subset hi)
  nodup := hl.nodup.sublist h
  apart p hp q hq := hl.apart p (h.subset hp) q (h.subset hq)

theorem not_isDefined_iff : (f.node i).isDefined = false ↔
    (f.node i).value.isNull = true ∧ ∀ b, (f.node i).linked b = [] := by
  constructor
  · exact leaf_of_not_isDefined
  · rintro ⟨hnull, hleaf⟩
    have hchildren := hleaf false
    have hattributes := hleaf true
    simp only [Node.linked] at hchildren hattributes
    simp [Node.isDefined, hnull, hchildren, hattributes]

/-- A node below `root` that is left without content when the nodes `is` are cleared: it is one
of them or above one, it bears no value that is not cleared, and all that is linked below it is
dead. -/
inductive Dead (f : Forest) (root : NodeId) (is : List NodeId) : NodeId → Prop
  | intro {i s : NodeId} : i ≠ root → f.Above root i → s ∈ is → f.Above i s →
      (i ∈ is ∨ (f.node i).value.isNull = true) →
      (∀ b, ∀ j ∈ (f.node i).linked b, Dead f root is j) → Dead f root is i

namespace Dead

theorem ne_root (h : f.Dead root is i) : i ≠ root := by
  cases h
  assumption

theorem above (h : f.Dead root is i) : f.Above root i := by
  cases h
  assumption

theorem exists_mem (h : f.Dead root is i) : ∃ s ∈ is, f.Above i s := by
  cases h with
  | intro _ _ hs ha _ _ => exact ⟨_, hs, ha⟩

theorem has (h : f.Dead root is i) : f.Has i := by
  cases h.above with
  | here => exact absurd rfl h.ne_root
  | up hp _ => exact has_of_parent hp

theorem mono (h : f.Dead root is i) {js : List NodeId} (hsub : ∀ s ∈ is, s ∈ js) :
    f.Dead root js i := by
  induction h with
  | intro hne habove hs ha hvalue _ ih =>
    exact .intro hne habove (hsub _ hs) ha (hvalue.imp_left (hsub _)) ih

theorem of_above (h : f.Dead root is i) (hf : f.WellFormed) (ha : f.Above i j) :
    f.Dead root is j := by
  induction ha with
  | here => exact h
  | @up j p hp _ ih =>
    cases ih with
    | intro _ _ _ _ _ hlinked => exact hlinked _ j (hf.mem_linked_iff.2 ⟨hp, rfl⟩)

end Dead

/-- What taking values and nodes away leaves of a forest: nodes lose no more than the given
values, their parents if they are taken, and their links to those that are. -/
structure Stripped (emptied gone : List NodeId) (f g : Forest) : Prop where
  wellFormed : g.WellFormed
  size_eq : g.size = f.size
  name_eq : ∀ i, (g.node i).name = (f.node i).name
  isAttribute_eq : ∀ i, (g.node i).isAttribute = (f.node i).isAttribute
  value_eq : ∀ i, (g.node i).value = if i ∈ emptied then .null else (f.node i).value
  parent_eq : ∀ i, (g.node i).parent = if i ∈ gone then none else (f.node i).parent
  linked_eq : ∀ i b, (g.node i).linked b = ((f.node i).linked b).filter (· ∉ gone)

namespace Stripped

theorem refl (hf : f.WellFormed) : Stripped [] [] f f := by
  constructor <;> simp [hf]

theorem setValue (h : Stripped emptied gone f g) (hs : f.Has s) :
    Stripped (emptied ++ [s]) gone f (g.setValue s .null) where
  wellFormed := h.wellFormed.setValue s .null
  size_eq := (size_setValue g s .null).trans h.size_eq
  name_eq i := (name_setValue g s i .null).trans (h.name_eq i)
  isAttribute_eq i := (isAttribute_setValue g s i .null).trans (h.isAttribute_eq i)
  value_eq i := by
    have hs : g.Has s := by rwa [Has, h.size_eq]
    rw [value_setValue hs, h.value_eq]
    by_cases his : i = s <;> simp [his]
  parent_eq i := (parent_setValue g s i .null).trans (h.parent_eq i)
  linked_eq i b := (linked_setValue g s i .null b).trans (h.linked_eq i b)

theorem detach (h : Stripped emptied gone f g) (s : NodeId) :
    Stripped emptied (s :: gone) f (g.detach s) where
  wellFormed := h.wellFormed.detach s
  size_eq := (size_detach g s).trans h.size_eq
  name_eq i := (name_detach h.wellFormed s i).trans (h.name_eq i)
  isAttribute_eq i := by
    rw [node_detach h.wellFormed.consistent]
    exact h.isAttribute_eq i
  value_eq i := (value_detach h.wellFormed s i).trans (h.value_eq i)
  parent_eq i := by
    rw [parent_detach h.wellFormed.consistent, h.parent_eq]
    by_cases his : i = s <;> simp [his]
  linked_eq i b := by
    rw [linked_detach h.wellFormed.consistent, (h.wellFormed.nodup_linked i b).erase_eq_filter,
      h.linked_eq, List.filter_filter]
    refine List.filter_congr fun j _ => ?_
    by_cases hjs : j = s <;> simp [hjs]

theorem isDefined_of_mem (h : Stripped emptied gone f g) (hj : j ∈ (f.node i).linked b)
    (hstays : j ∉ gone) : (g.node i).isDefined = true := by
  have hmem : j ∈ (g.node i).linked b := by
    rw [h.linked_eq]
    exact List.mem_filter.2 ⟨hj, by simpa using hstays⟩
  by_contra hempty
  rw [Bool.not_eq_true, not_isDefined_iff] at hempty
  rw [hempty.2 b] at hmem
  exact List.not_mem_nil hmem

theorem mem_gone_of_leaf (h : Stripped emptied gone f g) (hempty : (g.node i).isDefined = false) :
    ∀ b, ∀ j ∈ (f.node i).linked b, j ∈ gone := by
  intro b j hj
  by_contra hstays
  simp [h.isDefined_of_mem hj hstays] at hempty

theorem value_of_leaf (h : Stripped emptied gone f g) (hempty : (g.node i).isDefined = false) :
    i ∈ emptied ∨ (f.node i).value.isNull = true := by
  have hnull := (leaf_of_not_isDefined hempty).1
  rw [h.value_eq] at hnull
  split at hnull
  · exact .inl ‹_›
  · exact .inr hnull

end Stripped

/-- The state of the pruning of dead branches. What was taken is dead, and taken with all that
is below it; of what else is above a cleared node, everything has content but for the nodes that
are still to be looked at. -/
structure Pruning (root : NodeId) (is gone : List NodeId) (pending : NodeId → Prop)
    (f g : Forest) : Prop where
  stripped : Stripped is gone f g
  nodup : gone.Nodup
  dead : ∀ i ∈ gone, f.Dead root is i
  closed : ∀ i ∈ gone, ∀ b, ∀ j ∈ (f.node i).linked b, j ∈ gone
  settled : ∀ i, i ≠ root → f.Above root i → (∃ s ∈ is, f.Above i s) → i ∉ gone →
    (g.node i).isDefined = true ∨ pending i

namespace Pruning

theorem start (hf : f.WellFormed) (root : NodeId) : Pruning root [] [] (fun _ => False) f f where
  stripped := .refl hf
  nodup := List.nodup_nil
  dead := by simp
  closed := by simp
  settled := by simp

theorem mem_gone_of_above (h : Pruning root is gone pending f g) (hf : f.WellFormed)
    (hi : i ∈ gone) (ha : f.Above i j) : j ∈ gone := by
  induction ha with
  | here => exact hi
  | @up j p hp _ ih => exact h.closed p ih _ j (hf.mem_linked_iff.2 ⟨hp, rfl⟩)

theorem length_lt_size (h : Pruning root is gone pending f g) (hroot : f.Has root) :
    gone.length < f.size := by
  have hnodup : (root :: gone).Nodup :=
    List.nodup_cons.2 ⟨fun hmem => (h.dead root hmem).ne_root rfl, h.nodup⟩
  refine length_le_size hnodup ?_
  rintro i (_ | ⟨_, hi⟩)
  · exact hroot
  · exact (h.dead i hi).has

/-- Above a node that stays there is nothing more to look at. -/
theorem settle (h : Pruning root is gone (f.Above · cur) f g) (hf : f.WellFormed)
    (hcur : cur ∉ gone) (hstay : cur = root ∨ (g.node cur).isDefined = true)
    (hroot : f.Above root cur) : Pruning root is gone (fun _ => False) f g where
  stripped := h.stripped
  nodup := h.nodup
  dead := h.dead
  closed := h.closed
  settled := by
    intro i hne hbelow hs hi
    rcases h.settled i hne hbelow hs hi with hdefined | ha
    · exact .inl hdefined
    · rcases hstay with rfl | hdefined
      · exact absurd (hf.above_antisymm ha hbelow) hne
      · rcases ha.eq_or_child with rfl | ⟨c, hparent, hc⟩
        · exact .inl hdefined
        · refine .inl (h.stripped.isDefined_of_mem (hf.mem_linked_iff.2 ⟨hparent, rfl⟩) ?_)
          exact fun hgone => hcur (h.mem_gone_of_above hf hgone hc)

theorem detach (h : Pruning root is gone (f.Above · cur) f g) (hf : f.WellFormed)
    (hcur : cur ∉ gone) (hne : cur ≠ root) (hroot : f.Above root cur)
    (hs : ∃ s ∈ is, f.Above cur s) (hempty : (g.node cur).isDefined = false)
    (hp : (f.node cur).parent = some p) :
    Pruning root is (cur :: gone) (f.Above · p) f (g.detach cur) where
  stripped := h.stripped.detach cur
  nodup := List.nodup_cons.2 ⟨hcur, h.nodup⟩
  dead := by
    rintro i (_ | ⟨_, hi⟩)
    · obtain ⟨s, hs, ha⟩ := hs
      exact .intro hne hroot hs ha (h.stripped.value_of_leaf hempty) fun b j hj =>
        h.dead j (h.stripped.mem_gone_of_leaf hempty b j hj)
    · exact h.dead i hi
  closed := by
    rintro i (_ | ⟨_, hi⟩) b j hj
    · exact .tail _ (h.stripped.mem_gone_of_leaf hempty b j hj)
    · exact .tail _ (h.closed i hi b j hj)
  settled := by
    intro i hne' hbelow hs' hi
    rw [List.mem_cons, not_or] at hi
    rcases h.settled i hne' hbelow hs' hi.2 with hdefined | ha
    · by_cases hip : i = p
      · exact .inr (hip ▸ .here)
      · left
        have hlinked (b : Bool) : ((g.detach cur).node i).linked b = (g.node i).linked b := by
          rw [linked_detach h.stripped.wellFormed.consistent]
          refine List.erase_of_not_mem fun hmem => hip ?_
          rw [h.stripped.linked_eq, List.mem_filter, hf.mem_linked_iff, hp] at hmem
          exact (Option.some.inj hmem.1.1).symm
        rw [← Bool.not_eq_false, not_isDefined_iff] at hdefined ⊢
        simpa only [value_detach h.stripped.wellFormed, hlinked] using hdefined
    · cases ha with
      | here => exact absurd rfl hi.1
      | up hq ha =>
        rw [hp] at hq
        exact .inr (Option.some.inj hq ▸ ha)

/-- Climbing from a node takes what is dead and leaves nothing to be looked at. -/
theorem pruneUpTo (h : Pruning root is gone (f.Above · cur) f g) (hf : f.WellFormed)
    (hroot : f.Has root) {fuel : Nat} (hfuel : f.size ≤ fuel + gone.length) (hcur : cur ∉ gone)
    (hbelow : f.Above root cur) (hs : ∃ s ∈ is, f.Above cur s) :
    ∃ gone', Pruning root is gone' (fun _ => False) f (g.pruneUpTo root fuel cur) := by
  induction fuel generalizing g gone cur with
  | zero =>
    have hlt := h.length_lt_size hroot
    omega
  | succ fuel ih =>
    have hparent : (g.node cur).parent = (f.node cur).parent := by
      rw [h.stripped.parent_eq, if_neg hcur]
    rw [Forest.pruneUpTo, hparent]
    cases hp : (f.node cur).parent with
    | none => exact ⟨gone, h.settle hf hcur (.inl (hbelow.eq_of_root hp).symm) hbelow⟩
    | some p =>
      dsimp only
      split
      · rename_i hstop
        simp only [Bool.or_eq_true, decide_eq_true_eq] at hstop
        exact ⟨gone, h.settle hf hcur hstop hbelow⟩
      · rename_i hgo
        simp only [Bool.or_eq_true, decide_eq_true_eq, not_or, Bool.not_eq_true] at hgo
        obtain ⟨hne, hempty⟩ := hgo
        obtain ⟨s, hmem, ha⟩ := hs
        refine ih (h.detach hf hcur hne hbelow ⟨s, hmem, ha⟩ hempty hp) ?_ ?_ ?_
          ⟨s, hmem, (Above.of_parent hp).trans ha⟩
        · rw [List.length_cons]
          omega
        · rw [List.mem_cons, not_or]
          refine ⟨fun heq => ?_, fun hgone => hcur ?_⟩
          · exact (hf.rooted cur).not_above_parent hp (heq ▸ .here)
          · exact h.mem_gone_of_above hf hgone (.of_parent hp)
        · exact hbelow.inside.parent hne hp

theorem setValue (h : Pruning root is gone (fun _ => False) f g) (hs : f.Has s) :
    Pruning root (is ++ [s]) gone (f.Above · s) f (g.setValue s .null) where
  stripped := h.stripped.setValue hs
  nodup := h.nodup
  dead i hi := (h.dead i hi).mono fun _ => List.mem_append_left _
  closed := h.closed
  settled := by
    rintro i hne hbelow ⟨t, ht, ha⟩ hi
    rcases List.mem_append.1 ht with ht | ht
    · rcases h.settled i hne hbelow ⟨t, ht, ha⟩ hi with hdefined | hfalse
      · by_cases his : i = s
        · exact .inr (his ▸ .here)
        · left
          rwa [Forest.setValue, node_modify, if_neg fun hat => his hat.1]
      · exact hfalse.elim
    · exact .inr (List.mem_singleton.1 ht ▸ ha)

theorem not_mem_gone (h : Pruning root is gone pending f g) (hs : ∀ t ∈ is, ¬ f.Above s t) :
    s ∉ gone := fun hmem =>
  let ⟨t, ht, ha⟩ := (h.dead s hmem).exists_mem
  hs t ht ha

/-- When nothing is left to be looked at, all that is dead is taken. -/
theorem mem_gone_iff (h : Pruning root is gone (fun _ => False) f g) :
    i ∈ gone ↔ f.Dead root is i := by
  refine ⟨h.dead i, fun hdead => ?_⟩
  induction hdead with
  | @intro i s hne hbelow hs ha hvalue _ ih =>
    by_contra hstays
    have hdefined := (h.settled i hne hbelow ⟨s, hs, ha⟩ hstays).resolve_right id
    have hnull : (g.node i).value.isNull = true := by
      rw [h.stripped.value_eq]
      split
      · rfl
      · exact hvalue.resolve_left ‹_›
    have hleaf (b : Bool) : (g.node i).linked b = [] := by
      rw [h.stripped.linked_eq, List.filter_eq_nil_iff]
      intro j hj
      simpa using ih b j hj
    simp [not_isDefined_iff.2 ⟨hnull, hleaf⟩] at hdefined

end Pruning

/-- Clearing the nodes of a layer takes away the values of these nodes and the dead nodes, and
nothing else. -/
theorem stripped_clearAll (hf : f.WellFormed) (hroot : f.Has root) (hl : f.Layer is)
    (hbelow : ∀ i ∈ is, f.Above root i) :
    ∃ gone, (∀ i, i ∈ gone ↔ f.Dead root is i) ∧ Stripped is gone f (f.clearAll root is) := by
  suffices h : ∃ gone, Pruning root is gone (fun _ => False) f (f.clearAll root is) by
    obtain ⟨gone, h⟩ := h
    exact ⟨gone, fun i => h.mem_gone_iff, h.stripped⟩
  induction is using List.reverseRecOn with
  | nil => exact ⟨[], .start hf root⟩
  | append_singleton is s ih =>
    obtain ⟨gone, h⟩ := ih (hl.of_sublist (List.sublist_append_left is [s]))
      fun i hi => hbelow i (List.mem_append_left _ hi)
    have hs : s ∈ is ++ [s] := by simp
    have hapart : ∀ t ∈ is, ¬ f.Above s t := by
      intro t ht ha
      obtain rfl := hl.apart s hs t (List.mem_append_left _ ht) ha
      exact (List.nodup_append.1 hl.nodup).2.2 s ht s (by simp) rfl
    rw [clearAll, List.foldl_append]
    refine (h.setValue (hl.has s hs)).pruneUpTo hf hroot ?_ (h.not_mem_gone hapart)
      (hbelow s hs) ⟨s, hs, .here⟩
    have hsize : (f.clearAll root is).size = f.size := size_clearAll f root is
    rw [← hsize]
    exact Nat.le_add_right ..

end Settings.Forest
