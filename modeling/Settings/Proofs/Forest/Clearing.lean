import Settings.Proofs.Forest.Growth

/-! # Clearing forests

Emptying lists, resetting a root and pruning emptied branches only cut parent
links, in step with the lists, so a well-formed forest stays so. None of them
adds or drops an identity.
-/

namespace Settings.Forest

variable {f : Forest} {i j p : NodeId} {b : Bool}

@[simp] theorem size_setValue (f : Forest) (i : NodeId) (value : Value) :
    (f.setValue i value).size = f.size := by
  simp [setValue]

@[simp] theorem parent_setValue (f : Forest) (i j : NodeId) (value : Value) :
    ((f.setValue i value).node j).parent = (f.node j).parent :=
  read_modify (fun _ => rfl)

@[simp] theorem linked_setValue (f : Forest) (i j : NodeId) (value : Value) (b : Bool) :
    ((f.setValue i value).node j).linked b = (f.node j).linked b := by
  rw [setValue, node_modify]
  split
  · cases b <;> rfl
  · rfl

@[simp] theorem isAttribute_setValue (f : Forest) (i j : NodeId) (value : Value) :
    ((f.setValue i value).node j).isAttribute = (f.node j).isAttribute :=
  read_modify (fun _ => rfl)

@[simp] theorem name_setValue (f : Forest) (i j : NodeId) (value : Value) :
    ((f.setValue i value).node j).name = (f.node j).name :=
  read_modify (fun _ => rfl)

theorem value_setValue (hi : f.Has i) (j : NodeId) (value : Value) :
    ((f.setValue i value).node j).value = if j = i then value else (f.node j).value := by
  simp only [setValue, node_modify, hi, and_true]
  split <;> rfl

theorem WellFormed.setValue (hf : f.WellFormed) (i : NodeId) (value : Value) :
    (f.setValue i value).WellFormed :=
  hf.of_same_links (by simp) (by simp) (by simp)

theorem node_setParent_none (f : Forest) (i j : NodeId) :
    (f.setParent i none).node j =
      { f.node j with parent := if j = i then none else (f.node j).parent } := by
  rw [setParent, node_modify]
  by_cases hji : j = i
  · subst hji
    by_cases hj : f.Has j
    · simp [hj]
    · simp [hj, node_of_not_has hj, default, Node.lone]
  · simp [hji]

theorem node_orphan (f : Forest) (is : List NodeId) (j : NodeId) :
    (is.foldl (·.setParent · none) f).node j =
      { f.node j with parent := if j ∈ is then none else (f.node j).parent } := by
  induction is generalizing f with
  | nil => simp
  | cons i is ih =>
    rw [List.foldl_cons, ih, node_setParent_none]
    by_cases hji : j = i <;> simp [hji]

def emptyLinked (f : Forest) (i : NodeId) : Bool → Forest
  | true => f.removeAttributes i
  | false => f.removeChildren i

@[simp] theorem size_orphan (f : Forest) (is : List NodeId) :
    (is.foldl (·.setParent · none) f).size = f.size := by
  induction is generalizing f with
  | nil => rfl
  | cons i is ih => rw [List.foldl_cons, ih, setParent, size_modify]

@[simp] theorem size_emptyLinked (f : Forest) (i : NodeId) (b : Bool) :
    (f.emptyLinked i b).size = f.size := by
  cases b <;> simp [emptyLinked, removeAttributes, removeChildren, setAttributes, setChildren]

theorem node_emptyLinked (f : Forest) (i j : NodeId) (b : Bool) :
    (f.emptyLinked i b).node j =
      { f.node j with
        parent := if j ∈ (f.node i).linked b then none else (f.node j).parent
        children := if j = i ∧ b = false then [] else (f.node j).children
        attributes := if j = i ∧ b = true then [] else (f.node j).attributes } := by
  have hone (change : Node → Node) (is : List NodeId) :
      (Forest.modify (is.foldl (·.setParent · none) f) i change).node j =
        if j = i ∧ f.Has i then
          change { f.node j with parent := if j ∈ is then none else (f.node j).parent }
        else { f.node j with parent := if j ∈ is then none else (f.node j).parent } := by
    rw [node_modify, node_orphan]
    exact if_congr (and_congr_right fun _ => by simp only [Has, size_orphan]) rfl rfl
  by_cases hi : f.Has i
  · cases b <;> simp only [emptyLinked, removeAttributes, removeChildren, setAttributes,
      setChildren, hone] <;> by_cases hji : j = i <;> simp [hji, hi] <;> rfl
  · have hlone := node_of_not_has hi
    cases b <;> simp only [emptyLinked, removeAttributes, removeChildren, setAttributes,
      setChildren, hone] <;> by_cases hji : j = i <;>
      simp [hji, hi, hlone, default, Node.lone, Node.linked]

theorem linked_emptyLinked (f : Forest) (i j : NodeId) (b b' : Bool) :
    ((f.emptyLinked i b).node j).linked b' =
      if j = i ∧ b' = b then [] else (f.node j).linked b' := by
  rw [node_emptyLinked]
  cases b' <;> simp only [Node.linked, eq_comm]

theorem WellFormed.emptyLinked (hf : f.WellFormed) (i : NodeId) (b : Bool) :
    (f.emptyLinked i b).WellFormed := by
  refine Consistent.wellFormed ⟨fun {p j b'} => ?_, fun p b' => ?_⟩ fun j => ?_
  · rw [linked_emptyLinked, node_emptyLinked]
    by_cases hmem : j ∈ (f.node i).linked b
    · obtain ⟨hparent, hflag⟩ := hf.mem_linked_iff.1 hmem
      simp only [hmem, if_true, reduceCtorEq, false_and, iff_false]
      split
      · exact List.not_mem_nil
      · rename_i h
        intro hj
        have hlist := hf.mem_linked_iff.1 hj
        exact h ⟨Option.some.inj (hlist.1.symm.trans hparent), hlist.2.symm.trans hflag⟩
    · simp only [hmem, if_false]
      rw [← hf.mem_linked_iff]
      split
      · rename_i h
        obtain ⟨rfl, rfl⟩ := h
        simp [hmem]
      · exact Iff.rfl
  · rw [linked_emptyLinked]
    split
    · exact List.nodup_nil
    · exact hf.nodup_linked p b'
  · refine (hf.rooted j).of_cut fun k => ?_
    rw [node_emptyLinked]
    dsimp only
    split
    · exact .inr rfl
    · exact .inl rfl

theorem reset_eq (f : Forest) (i : NodeId) :
    f.reset i = ((f.emptyLinked i false).emptyLinked i true).setValue i .null := rfl

@[simp] theorem size_reset (f : Forest) (i : NodeId) : (f.reset i).size = f.size := by
  simp [reset_eq]

theorem WellFormed.reset (hf : f.WellFormed) (i : NodeId) : (f.reset i).WellFormed :=
  ((hf.emptyLinked i false).emptyLinked i true).setValue i .null

/-- What one step of pruning preserves, pruning preserves. -/
theorem pruneUpTo_induction {P : Forest → Prop} {root : NodeId}
    (hdetach : ∀ f i, P f → i ≠ root → (f.node i).isDefined = false → P (f.detach i))
    (fuel : Nat) (i : NodeId) (hf : P f) : P (f.pruneUpTo root fuel i) := by
  induction fuel generalizing f i with
  | zero => exact hf
  | succ fuel ih =>
    rw [pruneUpTo]
    split
    · exact hf
    · split
      · exact hf
      · rename_i h
        simp only [Bool.or_eq_true, decide_eq_true_eq, not_or, Bool.not_eq_true] at h
        exact ih _ (hdetach f i hf h.1 h.2)

theorem WellFormed.clearNode (hf : f.WellFormed) (root i : NodeId) :
    (f.clearNode root i).WellFormed :=
  pruneUpTo_induction (fun _ i hg _ _ => hg.detach i) _ _ (hf.setValue i .null)

@[simp] theorem size_clearNode (f : Forest) (root i : NodeId) :
    (f.clearNode root i).size = f.size :=
  pruneUpTo_induction (P := fun g => g.size = f.size) (fun g i hg _ _ => (size_detach g i).trans hg)
    _ _ (size_setValue f i .null)

end Settings.Forest
