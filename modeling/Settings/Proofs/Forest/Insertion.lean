import Settings.Proofs.Forest.Paths

/-! # Inserting at the end

A node inserted for a path without indices is the last one that the path
leads to: the descent takes the last node of each name, and every path created
on the way starts behind all others.
-/

namespace Settings.Forest

variable {f g : Forest} {i j p r child : NodeId} {b : Bool} {name : String} {value : Value}
  {part last : KeyPart} {path parts : List KeyPart} {nodes : List NodeId}

theorem end_createPath (f : Forest) (p : NodeId) (names : List String) :
    (f.createPath p names).1 = p ∨ ¬ f.Has (f.createPath p names).1 := by
  induction names generalizing f p with
  | nil => exact .inl rfl
  | cons name names ih =>
    rw [createPath_cons]
    refine .inr fun h => ?_
    rcases ih (f.createLinked p name .null false).2 ⟨f.size⟩ with heq | hnew
    · exact not_has_size f (heq ▸ h)
    · exact hnew (has_createLinked.2 (.inl h))

theorem linked_createPath {names : List String} (hf : f.WellFormed) (hp : f.Has p) (hj : f.Has j)
    (hjp : j ≠ p) (b : Bool) :
    ((f.createPath p names).2.node j).linked b = (f.node j).linked b := by
  induction names generalizing f p with
  | nil => rfl
  | cons name names ih =>
    rw [createPath_cons, ih (hf.createLinked hp) (has_createLinked.2 (.inr rfl))
      (has_createLinked.2 (.inl hj)) hj.ne_new, linked_createLinked hf.consistent hp,
      if_neg fun h => hjp h.1, List.append_nil]

theorem linked_insertNode {place : Insertion} (hf : f.WellFormed) (hp : f.Has place.parent)
    (hj : f.Has j) (hjp : j ≠ place.parent) (b : Bool) :
    ((f.insertNode place value).2.node j).linked b = (f.node j).linked b := by
  obtain ⟨hcon, -, hhas⟩ := createPath_spec hf.consistent hp place.missing
  have hend : j ≠ (f.createPath place.parent place.missing).1 := by
    rintro rfl
    rcases end_createPath f place.parent place.missing with heq | hnew
    · exact hjp heq
    · exact hnew hj
  rw [insertNode_eq, linked_createLinked hcon hhas, if_neg fun h => hend h.1, List.append_nil,
    linked_createPath hf hp hj hjp]

theorem not_has_insertNode {place : Insertion} (hf : f.WellFormed) (hp : f.Has place.parent) :
    ¬ f.Has (f.insertNode place value).1 := by
  obtain ⟨-, hext, -⟩ := createPath_spec hf.consistent hp place.missing
  rw [insertNode_eq, createLinked_fst]
  exact fun h => not_has_size _ (hext.has h)

theorem value_insertNode {place : Insertion} (hf : f.WellFormed) (hp : f.Has place.parent) :
    ((f.insertNode place value).2.node (f.insertNode place value).1).value = value := by
  obtain ⟨hcon, -, hhas⟩ := createPath_spec hf.consistent hp place.missing
  rw [insertNode_eq, createLinked_fst, node_createLinked hcon hhas, if_pos rfl]

namespace Extends

theorem name_eq (hfg : f.Extends g) (hi : f.Has i) : (g.node i).name = (f.node i).name := by
  have h := congrArg Node.name (hfg.bare_eq i hi)
  exact h

theorem value_eq (hfg : f.Extends g) (hi : f.Has i) : (g.node i).value = (f.node i).value := by
  have h := congrArg Node.value (hfg.bare_eq i hi)
  exact h

theorem isAttribute_eq (hfg : f.Extends g) (hi : f.Has i) :
    (g.node i).isAttribute = (f.node i).isAttribute := by
  have h := congrArg Node.isAttribute (hfg.bare_eq i hi)
  exact h

theorem step_eq (hfg : f.Extends g) (hf : f.WellFormed)
    (h : ∀ b, (g.node p).linked b = (f.node p).linked b) (part : KeyPart) :
    g.step p part = f.step p part :=
  step_congr h (fun _ _ hi => hfg.name_eq (hf.has_of_mem hi)) part

end Extends

theorem step_createLinked_of_ne (hf : f.WellFormed) (hp : f.Has p) (hjp : j ≠ p) (part : KeyPart) :
    (f.createLinked p name value b).2.step j part = f.step j part := by
  refine (extends_createLinked hf.consistent hp).step_eq hf (fun b' => ?_) part
  rw [linked_createLinked hf.consistent hp, if_neg fun h => hjp h.1, List.append_nil]

theorem step_createLinked (hf : f.WellFormed) (hp : f.Has p) (hpart : part.index? = none)
    (value : Value) :
    (f.createLinked p part.name value part.isAttribute).2.step p part =
      f.step p part ++ [⟨f.size⟩] := by
  have hext : f.Extends (f.createLinked p part.name value part.isAttribute).2 :=
    extends_createLinked hf.consistent hp
  have hold : ((f.node p).linked part.isAttribute).filter (fun i =>
      ((f.createLinked p part.name value part.isAttribute).2.node i).name = some part.name) =
        ((f.node p).linked part.isAttribute).filter fun i => (f.node i).name = some part.name :=
    List.filter_congr fun i hi => by rw [hext.name_eq (hf.has_of_mem hi)]
  rw [step_of_no_index _ _ hpart, step_of_no_index _ _ hpart, linked_createLinked hf.consistent hp,
    if_pos ⟨rfl, rfl⟩, List.filter_append, hold, List.filter_singleton]
  simp [node_createLinked hf.consistent hp]

theorem flatMap_step_createLinked (hf : f.WellFormed) (hl : f.Layer (nodes ++ [p]))
    (hpart : part.index? = none) :
    (nodes ++ [p]).flatMap
        ((f.createLinked p part.name value part.isAttribute).2.step · part) =
      (nodes ++ [p]).flatMap (f.step · part) ++ [⟨f.size⟩] := by
  have hp : f.Has p := hl.has p (by simp)
  have hold : nodes.flatMap ((f.createLinked p part.name value part.isAttribute).2.step · part) =
      nodes.flatMap (f.step · part) := by
    refine List.flatMap_congr fun q hq => step_createLinked_of_ne hf hp ?_ part
    rintro rfl
    exact (List.nodup_append.1 hl.nodup).2.2 q hq q (by simp) rfl
  simp only [List.flatMap_append, List.flatMap_singleton, hold, step_createLinked hf hp hpart,
    List.append_assoc]

theorem insertNode_place_nil (f : Forest) (p : NodeId) (last : KeyPart) (value : Value) :
    f.insertNode (f.place p [] last) value =
      f.createLinked p last.name value last.isAttribute :=
  insertNode_eq f _ value

theorem place_of_descend (h : f.descend? p part = some child) :
    f.place p (part :: path) last = f.place child path last := by
  simp only [place, deepest, h]

theorem descend?_of_leaf (h : (f.node p).children = []) (part : KeyPart) :
    f.descend? p part = none := by
  simp only [descend?, childrenNamed, h]
  split <;> rfl

theorem deepest_of_leaf (h : (f.node p).children = []) (path : List KeyPart) :
    f.deepest p path = (p, path.map KeyPart.name) := by
  cases path with
  | nil => rfl
  | cons part path => rw [deepest, descend?_of_leaf h]

theorem above_deepest (hf : f.Consistent) (p : NodeId) (path : List KeyPart) :
    f.Above p (f.deepest p path).1 := by
  induction path generalizing p with
  | nil => exact .here
  | cons part path ih =>
    rw [deepest]
    split
    · rename_i child h
      have hparent := (hf.mem_linked_iff (b := false).1 (mem_children_of_descend? h)).1
      exact (Above.of_parent hparent).trans (ih child)
    · exact .here

theorem descend?_eq (hindex : part.index? = none) (hkind : part.isAttribute = false)
    (f : Forest) (p : NodeId) : f.descend? p part = (f.step p part).getLast? := by
  cases part with
  | element name index =>
    cases hindex
    rfl
  | attr name => cases hkind

theorem step_insertNode_of_ne {place : Insertion} (hf : f.WellFormed) (hp : f.Has place.parent)
    (hj : f.Has j) (hjp : j ≠ place.parent) (value : Value) (part : KeyPart) :
    (f.insertNode place value).2.step j part = f.step j part :=
  (insertNode_spec hf.consistent hp value).2.1.step_eq hf (linked_insertNode hf hp hj hjp) part

theorem ne_deepest_of_descend (hf : f.WellFormed) (h : f.descend? p part = some child)
    (path : List KeyPart) : p ≠ (f.deepest child path).1 := by
  rintro heq
  have hparent := ((hf.mem_children_iff p child).1 (mem_children_of_descend? h)).1
  exact (hf.rooted child).not_above_parent hparent (heq ▸ above_deepest hf.consistent child path)

/-- Below a node that lacks a part, the node created for it takes the rest of the path. -/
theorem insertNode_of_missing (hf : f.WellFormed) (hp : f.Has p) (h : f.descend? p part = none) :
    f.insertNode (f.place p (part :: path) last) value =
      (f.createLinked p part.name .null false).2.insertNode
        ((f.createLinked p part.name .null false).2.place ⟨f.size⟩ path last) value := by
  have hleaf : ((f.createLinked p part.name .null false).2.node ⟨f.size⟩).children = [] := by
    rw [node_createLinked hf.consistent hp, if_pos rfl]
  simp only [place, deepest, h, deepest_of_leaf hleaf]
  rfl

/-- Below a node that lacks a part, the descent goes on in the node created for it. -/
theorem insertNode_of_no_descend (hf : f.WellFormed) (hp : f.Has p) (hindex : part.index? = none)
    (hkind : part.isAttribute = false) (h : f.descend? p part = none) :
    f.insertNode (f.place p (part :: path) last) value =
      (f.createLinked p part.name .null false).2.insertNode
        ((f.createLinked p part.name .null false).2.place p (part :: path) last) value := by
  have hstep := step_createLinked hf hp hindex .null
  rw [hkind] at hstep
  have hdescend : (f.createLinked p part.name .null false).2.descend? p part = some ⟨f.size⟩ := by
    rw [descend?_eq hindex hkind, hstep, List.getLast?_concat]
  rw [insertNode_of_missing hf hp h, place_of_descend hdescend]

theorem follow_of_leaf (h : ∀ b, (f.node p).linked b = []) (parts : List KeyPart) :
    f.follow [p] (parts ++ [part]) = [] := by
  cases parts with
  | nil => simp [follow, step_of_leaf h]
  | cons first parts => simp [follow, step_of_leaf h]

theorem follow_createLinked_of_step_nil (hf : f.WellFormed) (hl : f.Layer (nodes ++ [r]))
    (hindex : part.index? = none) (hr : f.step r part = []) (path : List KeyPart) (last : KeyPart) :
    (f.createLinked r part.name .null part.isAttribute).2.follow (nodes ++ [r])
        (part :: (path ++ [last])) =
      f.follow (nodes ++ [r]) (part :: (path ++ [last])) := by
  have hhas : f.Has r := hl.has r (by simp)
  have hleaf : ∀ b, ((f.createLinked r part.name .null part.isAttribute).2.node
      ⟨f.size⟩).linked b = [] := by
    intro b
    rw [node_createLinked hf.consistent hhas, if_pos rfl]
    cases b <;> rfl
  rw [follow, follow, flatMap_step_createLinked hf hl hindex, follow_append_nodes,
    follow_of_leaf hleaf, List.append_nil]
  refine hf.follow_congr (fun q hq j ha part => step_createLinked_of_ne hf hhas ?_ part) _
  rintro rfl
  obtain ⟨p, hp, hstep⟩ := List.mem_flatMap.1 hq
  obtain rfl := hl.apart p hp j (by simp) ((Above.of_parent (hf.parent_of_mem_step hstep)).trans ha)
  rw [hr] at hstep
  exact List.not_mem_nil hstep

theorem follow_insertNode_of_descend (hf : f.WellFormed) (hl : f.Layer (nodes ++ [r]))
    (hindex : part.index? = none) (hkind : part.isAttribute = false)
    (hdescend : f.descend? r part = some child)
    (h : ∀ nodes, f.Layer (nodes ++ [child]) →
      (f.insertNode (f.place child path last) value).2.follow (nodes ++ [child]) (path ++ [last]) =
        f.follow (nodes ++ [child]) (path ++ [last]) ++
          [(f.insertNode (f.place child path last) value).1]) :
    (f.insertNode (f.place r (part :: path) last) value).2.follow (nodes ++ [r])
        (part :: (path ++ [last])) =
      f.follow (nodes ++ [r]) (part :: (path ++ [last])) ++
        [(f.insertNode (f.place r (part :: path) last) value).1] := by
  rw [place_of_descend hdescend]
  have hparent : (f.node child).parent = some r :=
    ((hf.mem_children_iff r child).1 (mem_children_of_descend? hdescend)).1
  have hplace := above_deepest hf.consistent child path
  have hhas : f.Has (f.place child path last).parent := hf.has_deepest (has_of_parent hparent)
  have hstep : ∀ q ∈ nodes ++ [r],
      (f.insertNode (f.place child path last) value).2.step q part = f.step q part := by
    intro q hq
    refine step_insertNode_of_ne hf hhas (hl.has q hq) ?_ value part
    rintro rfl
    obtain heq := hl.apart r (by simp) _ hq ((Above.of_parent hparent).trans hplace)
    exact ne_deepest_of_descend hf hdescend path heq
  rw [descend?_eq hindex hkind, List.getLast?_eq_some_iff] at hdescend
  obtain ⟨init, hinit⟩ := hdescend
  have hlayer : (nodes ++ [r]).flatMap (f.step · part) =
      (nodes.flatMap (f.step · part) ++ init) ++ [child] := by
    simp only [List.flatMap_append, List.flatMap_singleton, hinit, List.append_assoc]
  have hnext := hl.flatMap_step hf part
  rw [hlayer] at hnext
  rw [follow, follow, List.flatMap_congr hstep, hlayer]
  exact h _ hnext

/-- An inserted node is the last one that its path leads to. -/
theorem follow_insertNode (hf : f.WellFormed) (hl : f.Layer (nodes ++ [r]))
    (hpath : ∀ part ∈ path, part.index? = none ∧ part.isAttribute = false)
    (hlast : last.index? = none) :
    (f.insertNode (f.place r path last) value).2.follow (nodes ++ [r]) (path ++ [last]) =
      f.follow (nodes ++ [r]) (path ++ [last]) ++
        [(f.insertNode (f.place r path last) value).1] := by
  induction path generalizing f nodes r with
  | nil =>
    rw [insertNode_place_nil, createLinked_fst]
    exact flatMap_step_createLinked hf hl hlast
  | cons part path ih =>
    obtain ⟨hindex, hkind⟩ := hpath part List.mem_cons_self
    have ih {f : Forest} {child : NodeId} (hf : f.WellFormed) (nodes : List NodeId)
        (hl : f.Layer (nodes ++ [child])) := ih hf hl fun p hp => hpath p (.tail part hp)
    cases hdescend : f.descend? r part with
    | some child =>
      exact follow_insertNode_of_descend hf hl hindex hkind hdescend (ih hf)
    | none =>
      have hr : f.Has r := hl.has r (by simp)
      have hwf : (f.createLinked r part.name .null false).2.WellFormed := hf.createLinked hr
      have hl' : (f.createLinked r part.name .null false).2.Layer (nodes ++ [r]) :=
        hl.extend hf (extends_createLinked hf.consistent hr)
      have hstep : f.step r part = [] := by
        rwa [descend?_eq hindex hkind, List.getLast?_eq_none_iff] at hdescend
      have hcreated := step_createLinked hf hr hindex .null
      have hfollow := follow_createLinked_of_step_nil hf hl hindex hstep path last
      rw [hkind] at hcreated hfollow
      have hdescend' : (f.createLinked r part.name .null false).2.descend? r part =
          some ⟨f.size⟩ := by
        rw [descend?_eq hindex hkind, hcreated, List.getLast?_concat]
      rw [insertNode_of_no_descend hf hr hindex hkind hdescend, List.cons_append, ← hfollow]
      exact follow_insertNode_of_descend hwf hl' hindex hkind hdescend' (ih hwf)

end Settings.Forest
