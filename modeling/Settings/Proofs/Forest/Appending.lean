import Settings.Proofs.Forest.Insertion
import Settings.Proofs.Forest.Regions

/-! # What insertions append

Nodes that are inserted one after the other for one path are new ones at the
ends of lists. One of them carries each value; the others are the path nodes
that were missing, and without indices they are missing once only.
-/

namespace Settings.Forest

variable {f g h : Forest} {child p r root : NodeId} {b : Bool} {name : String} {names : List String}
  {value : Value} {values values' : List Value} {part last : KeyPart} {path : List KeyPart}
  {fresh fresh' steps steps' created created' : List NodeId}

/-- One forest comes from another by new nodes, which go to the ends of lists in the order in
which they are created. -/
structure Gains (f g : Forest) (fresh : List NodeId) : Prop where
  extend : f.Extends g
  mem_iff : ∀ i, i ∈ fresh ↔ g.Has i ∧ ¬ f.Has i
  nodup : fresh.Nodup
  appended : ∀ p b, ∃ more, (g.node p).linked b = (f.node p).linked b ++ more ∧
    more.Pairwise (·.index < ·.index) ∧ ∀ i ∈ more, i ∈ fresh

namespace Gains

theorem refl (f : Forest) : Gains f f [] where
  extend := .refl f
  mem_iff := by simp
  nodup := List.nodup_nil
  appended _ _ := ⟨[], by simp⟩

theorem index_lt (hfg : Gains f g fresh) (hgh : Gains g h fresh') {i j : NodeId} (hi : i ∈ fresh)
    (hj : j ∈ fresh') : i.index < j.index :=
  Nat.lt_of_lt_of_le ((hfg.mem_iff i).1 hi).1 (Nat.not_lt.1 ((hgh.mem_iff j).1 hj).2)

theorem trans (hfg : Gains f g fresh) (hgh : Gains g h fresh') : Gains f h (fresh ++ fresh') where
  extend := hfg.extend.trans hgh.extend
  mem_iff i := by
    rw [List.mem_append, hfg.mem_iff, hgh.mem_iff]
    constructor
    · rintro (⟨hg, hf⟩ | ⟨hh, hg⟩)
      · exact ⟨hgh.extend.has hg, hf⟩
      · exact ⟨hh, fun hf => hg (hfg.extend.has hf)⟩
    · rintro ⟨hh, hf⟩
      by_cases hg : g.Has i
      · exact .inl ⟨hg, hf⟩
      · exact .inr ⟨hh, hg⟩
  nodup := by
    refine List.nodup_append.2 ⟨hfg.nodup, hgh.nodup, ?_⟩
    rintro i hi _ hi' rfl
    exact Nat.lt_irrefl _ (hfg.index_lt hgh hi hi')
  appended p b := by
    obtain ⟨more, hmore, hordered, hfresh⟩ := hfg.appended p b
    obtain ⟨more', hmore', hordered', hfresh'⟩ := hgh.appended p b
    refine ⟨more ++ more', by rw [hmore', hmore, List.append_assoc], ?_, ?_⟩
    · exact List.pairwise_append.2 ⟨hordered, hordered', fun i hi j hj =>
        hfg.index_lt hgh (hfresh i hi) (hfresh' j hj)⟩
    · intro i hi
      rcases List.mem_append.1 hi with hi | hi
      · exact List.mem_append_left _ (hfresh i hi)
      · exact List.mem_append_right _ (hfresh' i hi)

theorem perm (hfg : Gains f g fresh) (hperm : fresh.Perm fresh') : Gains f g fresh' where
  extend := hfg.extend
  mem_iff i := hperm.mem_iff.symm.trans (hfg.mem_iff i)
  nodup := hperm.nodup_iff.1 hfg.nodup
  appended p b := by
    obtain ⟨more, hmore, hordered, hfresh⟩ := hfg.appended p b
    exact ⟨more, hmore, hordered, fun i hi => hperm.mem_iff.1 (hfresh i hi)⟩

end Gains

theorem gains_createLinked (hf : f.Consistent) (hp : f.Has p) :
    Gains f (f.createLinked p name value b).2 [⟨f.size⟩] where
  extend := extends_createLinked hf hp
  mem_iff i := by
    rw [has_createLinked, List.mem_singleton]
    constructor
    · rintro rfl
      exact ⟨.inr rfl, not_has_size f⟩
    · rintro ⟨hi | hi, hnew⟩
      · exact absurd hi hnew
      · exact hi
  nodup := List.nodup_singleton _
  appended q b' := by
    refine ⟨_, linked_createLinked hf hp q b', ?_, ?_⟩
    · split <;> simp
    · split <;> simp

theorem exists_gains_createPath (hf : f.Consistent) (hp : f.Has p) (names : List String) :
    ∃ steps, Gains f (f.createPath p names).2 steps ∧
      steps.map (fun i => ((f.createPath p names).2.node i).name) = names.map some ∧
      ∀ i ∈ steps, ((f.createPath p names).2.node i).value = .null ∧
        ((f.createPath p names).2.node i).isAttribute = false ∧
        (f.createPath p names).2.Above i (f.createPath p names).1 := by
  induction names generalizing f p with
  | nil => exact ⟨[], .refl f, rfl, by simp⟩
  | cons name names ih =>
    have hcreated : (f.createLinked p name .null false).2.Consistent := hf.createLinked hp
    have hnew : (f.createLinked p name .null false).2.Has ⟨f.size⟩ := has_createLinked.2 (.inr rfl)
    have hnode : (f.createLinked p name .null false).2.node ⟨f.size⟩ = _ :=
      node_createLinked hf hp ⟨f.size⟩
    rw [if_pos rfl] at hnode
    obtain ⟨steps, hgains, hnames, hsteps⟩ := ih hcreated hnew
    rw [createPath_cons]
    have hbare := hgains.extend.bare_eq _ hnew
    rw [hnode] at hbare
    refine ⟨⟨f.size⟩ :: steps, (gains_createLinked hf hp).trans hgains, ?_, ?_⟩
    · rw [List.map_cons, hnames, List.map_cons]
      exact congrArg (· :: _) (congrArg Node.name hbare :)
    · rintro i (_ | ⟨_, hi⟩)
      · exact ⟨congrArg Node.value hbare, congrArg Node.isAttribute hbare,
          above_createPath hcreated hnew names⟩
      · exact hsteps i hi

/-- An inserted node comes last, at the end of the path that is created for it. -/
theorem exists_gains_insertNode {place : Insertion} (hf : f.Consistent) (hp : f.Has place.parent)
    (value : Value) :
    ∃ steps, Gains f (f.insertNode place value).2 (steps ++ [(f.insertNode place value).1]) ∧
      steps.map (fun i => ((f.insertNode place value).2.node i).name) = place.missing.map some ∧
      ∀ i ∈ steps, ((f.insertNode place value).2.node i).value = .null ∧
        ((f.insertNode place value).2.node i).isAttribute = false ∧
        (f.insertNode place value).2.Above i (f.insertNode place value).1 := by
  obtain ⟨hcon, -, hend⟩ := createPath_spec hf hp place.missing
  obtain ⟨steps, hgains, hnames, hsteps⟩ := exists_gains_createPath hf hp place.missing
  rw [insertNode_eq, createLinked_fst]
  have hlinked : Gains _ ((f.createPath place.parent place.missing).2.createLinked _ place.name
      value place.isAttribute).2 _ := gains_createLinked hcon hend
  have hold (i : NodeId) (hi : i ∈ steps) := ((hgains.mem_iff i).1 hi).1
  refine ⟨steps, hgains.trans hlinked, ?_, fun i hi => ?_⟩
  · exact (List.map_congr_left fun i hi => hlinked.extend.name_eq (hold i hi)).trans hnames
  · obtain ⟨hvalue, hflag, ha⟩ := hsteps i hi
    rw [hlinked.extend.value_eq (hold i hi), hlinked.extend.isAttribute_eq (hold i hi)]
    exact ⟨hvalue, hflag, ((hlinked.extend.above_iff hcon hend).2 ha).trans
      (above_createLinked hcon hend ..)⟩

theorem name_insertNode {place : Insertion} (hf : f.Consistent) (hp : f.Has place.parent)
    (value : Value) :
    ((f.insertNode place value).2.node (f.insertNode place value).1).name = some place.name ∧
      ((f.insertNode place value).2.node (f.insertNode place value).1).isAttribute =
        place.isAttribute := by
  obtain ⟨hcon, -, hend⟩ := createPath_spec hf hp place.missing
  rw [insertNode_eq, createLinked_fst, node_createLinked hcon hend, if_pos rfl]
  exact ⟨rfl, rfl⟩

/-- What inserting nodes for a path and a last part appends: a node of the last part for each
value, in order, and valueless nodes of the path that lead to them. -/
structure Appends (path : List KeyPart) (last : KeyPart) (values : List Value) (f g : Forest)
    (steps created : List NodeId) : Prop where
  wellFormed : g.WellFormed
  gains : Gains f g (steps ++ created)
  ordered : created.Pairwise (·.index < ·.index)
  values_eq : created.map (fun i => (g.node i).value) = values
  named : ∀ i ∈ created,
    (g.node i).name = some last.name ∧ (g.node i).isAttribute = last.isAttribute
  valueless : ∀ i ∈ steps, (g.node i).value = .null ∧ (g.node i).isAttribute = false
  on_path : ∀ i ∈ steps,
    (∃ part ∈ path, (g.node i).name = some part.name) ∧ ∃ j ∈ created, g.Above i j

namespace Appends

theorem refl (hf : f.WellFormed) (path : List KeyPart) (last : KeyPart) :
    Appends path last [] f f [] [] where
  wellFormed := hf
  gains := .refl f
  ordered := .nil
  values_eq := rfl
  named := by simp
  valueless := by simp
  on_path := by simp

theorem trans (hfg : Appends path last values f g steps created)
    (hgh : Appends path last values' g h steps' created') :
    Appends path last (values ++ values') f h (steps ++ steps') (created ++ created') where
  wellFormed := hgh.wellFormed
  gains := by
    refine (hfg.gains.trans hgh.gains).perm ?_
    rw [List.append_assoc, List.append_assoc]
    refine .append_left steps ?_
    rw [← List.append_assoc, ← List.append_assoc]
    exact List.perm_append_comm.append_right created'
  ordered := by
    refine List.pairwise_append.2 ⟨hfg.ordered, hgh.ordered, fun i hi j hj => ?_⟩
    exact hfg.gains.index_lt hgh.gains (List.mem_append_right _ hi) (List.mem_append_right _ hj)
  values_eq := by
    rw [List.map_append, hgh.values_eq, ← hfg.values_eq]
    refine congrArg (· ++ _) (List.map_congr_left fun i hi => ?_)
    exact hgh.gains.extend.value_eq ((hfg.gains.mem_iff i).1 (List.mem_append_right _ hi)).1
  named i hi := by
    rcases List.mem_append.1 hi with hi | hi
    · have hold := ((hfg.gains.mem_iff i).1 (List.mem_append_right _ hi)).1
      rw [hgh.gains.extend.name_eq hold, hgh.gains.extend.isAttribute_eq hold]
      exact hfg.named i hi
    · exact hgh.named i hi
  valueless i hi := by
    rcases List.mem_append.1 hi with hi | hi
    · have hold := ((hfg.gains.mem_iff i).1 (List.mem_append_left _ hi)).1
      rw [hgh.gains.extend.value_eq hold, hgh.gains.extend.isAttribute_eq hold]
      exact hfg.valueless i hi
    · exact hgh.valueless i hi
  on_path i hi := by
    rcases List.mem_append.1 hi with hi | hi
    · have hold := ((hfg.gains.mem_iff i).1 (List.mem_append_left _ hi)).1
      rw [hgh.gains.extend.name_eq hold]
      obtain ⟨hpart, j, hj, ha⟩ := hfg.on_path i hi
      have hjold := ((hfg.gains.mem_iff j).1 (List.mem_append_right _ hj)).1
      exact ⟨hpart, j, List.mem_append_left _ hj,
        (hgh.gains.extend.above_iff hfg.wellFormed.consistent hjold).2 ha⟩
    · obtain ⟨hpart, j, hj, ha⟩ := hgh.on_path i hi
      exact ⟨hpart, j, List.mem_append_right _ hj, ha⟩

end Appends

theorem mem_names_of_mem_deepest (h : name ∈ (f.deepest p path).2) :
    ∃ part ∈ path, part.name = name := by
  induction path generalizing p with
  | nil => exact absurd h List.not_mem_nil
  | cons part path ih =>
    rw [deepest] at h
    split at h
    · obtain ⟨part', hmem, hname⟩ := ih h
      exact ⟨part', .tail part hmem, hname⟩
    · obtain ⟨part', hmem, hname⟩ := List.mem_map.1 h
      exact ⟨part', hmem, hname⟩

theorem exists_appends_insertNode (hf : f.WellFormed) (hroot : f.Has root) (path : List KeyPart)
    (last : KeyPart) (value : Value) :
    ∃ steps, steps.map (fun i =>
        ((f.insertNode (f.place root path last) value).2.node i).name) =
          (f.deepest root path).2.map some ∧
      Appends path last [value] f (f.insertNode (f.place root path last) value).2 steps
        [(f.insertNode (f.place root path last) value).1] := by
  have hp : f.Has (f.place root path last).parent := hf.has_deepest hroot
  obtain ⟨steps, hgains, hnames, hsteps⟩ := exists_gains_insertNode hf.consistent hp value
  refine ⟨steps, hnames, hf.insertNode hp value, hgains, List.pairwise_singleton _ _, ?_, ?_,
    fun i hi => ⟨(hsteps i hi).1, (hsteps i hi).2.1⟩,
    fun i hi => ⟨?_, _, List.mem_singleton_self _, ?_⟩⟩
  · rw [List.map_singleton, value_insertNode hf hp]
  · exact List.forall_mem_singleton.2 (name_insertNode hf.consistent hp value)
  · have hmem := List.mem_map_of_mem (f := fun i =>
      ((f.insertNode (f.place root path last) value).2.node i).name) hi
    rw [hnames] at hmem
    obtain ⟨name, hmissing, hname⟩ := List.mem_map.1 hmem
    obtain ⟨part, hpart, rfl⟩ := mem_names_of_mem_deepest hmissing
    exact ⟨part, hpart, hname.symm⟩
  · exact (hsteps i hi).2.2

theorem deepest_insertNode_of_descend (hf : f.WellFormed) (hindex : part.index? = none)
    (hkind : part.isAttribute = false) (hdescend : f.descend? r part = some child)
    (h : ((f.insertNode (f.place child path last) value).2.deepest child path).2 = []) :
    ((f.insertNode (f.place r (part :: path) last) value).2.deepest r (part :: path)).2 = [] := by
  rw [place_of_descend hdescend]
  have hparent : (f.node child).parent = some r :=
    ((hf.mem_children_iff r child).1 (mem_children_of_descend? hdescend)).1
  have hhas : f.Has (f.place child path last).parent := hf.has_deepest (has_of_parent hparent)
  have hstep : (f.insertNode (f.place child path last) value).2.step r part = f.step r part :=
    step_insertNode_of_ne hf hhas (hf.has_parent hparent) (ne_deepest_of_descend hf hdescend path)
      value part
  have hdescend' : (f.insertNode (f.place child path last) value).2.descend? r part =
      some child := by
    rwa [descend?_eq hindex hkind, hstep, ← descend?_eq hindex hkind]
  simp only [deepest, hdescend']
  exact h

theorem deepest_insertNode (hf : f.WellFormed) (hr : f.Has r)
    (hpath : ∀ part ∈ path, part.index? = none ∧ part.isAttribute = false) :
    ((f.insertNode (f.place r path last) value).2.deepest r path).2 = [] := by
  induction path generalizing f r with
  | nil => rfl
  | cons part path ih =>
    obtain ⟨hindex, hkind⟩ := hpath part List.mem_cons_self
    have ih {f : Forest} {child : NodeId} (hf : f.WellFormed) (hchild : f.Has child) :=
      ih hf hchild fun part' hpart => hpath part' (.tail part hpart)
    cases hdescend : f.descend? r part with
    | some child =>
      have hchild : f.Has child := hf.has_of_mem (b := false) (mem_children_of_descend? hdescend)
      exact deepest_insertNode_of_descend hf hindex hkind hdescend (ih hf hchild)
    | none =>
      have hwf : (f.createLinked r part.name .null false).2.WellFormed := hf.createLinked hr
      have hcreated := step_createLinked hf hr hindex .null
      rw [hkind] at hcreated
      have hdescend' : (f.createLinked r part.name .null false).2.descend? r part =
          some ⟨f.size⟩ := by
        rw [descend?_eq hindex hkind, hcreated, List.getLast?_concat]
      rw [insertNode_of_no_descend hf hr hindex hkind hdescend]
      exact deepest_insertNode_of_descend hwf hindex hkind hdescend'
        (ih hwf (has_createLinked.2 (.inr rfl)))

def insertAll (f : Forest) (root : NodeId) (path : List KeyPart) (last : KeyPart)
    (values : List Value) : Forest :=
  values.foldl (fun f value => (f.insertNode (f.place root path last) value).2) f

theorem exists_appends_insertAll (hf : f.WellFormed) (hroot : f.Has root) (path : List KeyPart)
    (last : KeyPart) (values : List Value) :
    ∃ steps created, Appends path last values f (f.insertAll root path last values) steps created ∧
      ((∀ part ∈ path, part.index? = none ∧ part.isAttribute = false) → last.index? = none →
        (f.insertAll root path last values).follow [root] (path ++ [last]) =
            f.follow [root] (path ++ [last]) ++ created ∧
          steps.map (fun i => ((f.insertAll root path last values).node i).name) =
            if values.isEmpty then [] else (f.deepest root path).2.map some) := by
  induction values generalizing f with
  | nil => exact ⟨[], [], .refl hf path last, fun _ _ => by simp [insertAll]⟩
  | cons value values ih =>
    obtain ⟨steps, hnames, hfirst⟩ := exists_appends_insertNode hf hroot path last value
    obtain ⟨steps', created, hrest, hplain⟩ := ih hfirst.wellFormed (hfirst.gains.extend.has hroot)
    refine ⟨steps ++ steps', _ :: created, hfirst.trans hrest, fun hpath hlast => ?_⟩
    obtain ⟨hfollow, hsteps⟩ := hplain hpath hlast
    constructor
    · have hinserted :
          (f.insertNode (f.place root path last) value).2.follow ([] ++ [root]) _ = _ :=
        follow_insertNode hf (.singleton hroot) hpath hlast
      rw [List.nil_append] at hinserted
      rw [insertAll, List.foldl_cons, ← insertAll, hfollow, hinserted, List.append_assoc,
        List.singleton_append]
    · rw [deepest_insertNode hf hroot hpath] at hsteps
      have hnone : steps' = [] := by
        rw [← List.map_eq_nil_iff, hsteps]
        simp
      rw [hnone, List.append_nil, ← hnames]
      refine List.map_congr_left fun i hi => ?_
      exact hrest.gains.extend.name_eq
        ((hfirst.gains.mem_iff i).1 (List.mem_append_left _ hi)).1

end Settings.Forest
