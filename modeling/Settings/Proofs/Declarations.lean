import Settings.Declaration
import Settings.Proofs.Occurrences
import Settings.Proofs.Rosters
import Settings.Proofs.Runs
import Settings.Proofs.Views

/-! # Nested declarations

The declarations nested in another one are entered child by child. What is entered
groups the children passed so far by their names, and each declaration has a view of
its own, which is made from the view of the enclosing declaration.
-/

namespace Settings

open Settings.Action

variable {w w' : World} {c : ConfigurationId} {key : Option String} {optional : Bool}
  {d e : Declaration} {node i : NodeId} {nodes passed rest : List NodeId}
  {found roster : Roster (Option String) (Nested Declaration)}
  {entry : Option String × Nested Declaration}

/-- A world in which the forest is still well-formed and every configuration there was
is over the same root. -/
structure World.Later (w w' : World) : Prop where
  wellFormed : w'.forest.WellFormed
  size_le : w.configurations.size ≤ w'.configurations.size
  root_eq : ∀ c : ConfigurationId, c.index < w.configurations.size → w'.root c = w.root c

namespace World.Later

theorem refl (h : w.forest.WellFormed) : w.Later w := ⟨h, Nat.le_refl _, fun _ _ => rfl⟩

theorem trans {w₁ w₂ w₃ : World} (h : w₁.Later w₂) (h' : w₂.Later w₃) : w₁.Later w₃ where
  wellFormed := h'.wellFormed
  size_le := Nat.le_trans h.size_le h'.size_le
  root_eq c hc := (h'.root_eq c (Nat.lt_of_lt_of_le hc h.size_le)).trans (h.root_eq c hc)

theorem addConfiguration (h : w.forest.WellFormed) (own : Configuration) :
    w.Later (w.addConfiguration own).2 where
  wellFormed := h
  size_le := by simp [World.addConfiguration]
  root_eq c hc := congrArg Configuration.root (configuration_addConfiguration w own hc)

theorem of_same (hf : w'.forest.WellFormed) (hroot : ∀ c, w'.root c = w.root c)
    (hsize : w'.configurations.size = w.configurations.size) : w.Later w' :=
  ⟨hf, Nat.le_of_eq hsize.symm, fun c _ => hroot c⟩

theorem of_evolves {P : Forest → Forest → Prop} (hw : w.Sound)
    (hc : c.index < w.configurations.size) (h : Evolves P c w w') : w.Later w' :=
  have h := h hw.wellFormed (hw.has_root c hc)
  .of_same h.wellFormed h.root_eq h.configurations_size

theorem modifyConfiguration (h : w.forest.WellFormed) (c : ConfigurationId)
    {change : Configuration → Configuration} (hchange : ∀ own, (change own).root = own.root) :
    w.Later (w.modifyConfiguration c change) :=
  .of_same h (fun d => root_modifyConfiguration w c d change hchange)
    (by simp [World.modifyConfiguration])

theorem configurationAt (h : w.forest.WellFormed) (c : ConfigurationId) (key : Option String) :
    w.Later ((c.configurationAt key).after w) := by
  rw [ConfigurationId.configurationAt, after_read_bind]
  cases w.fetchNodes c key with
  | error e => exact .refl h
  | ok nodes =>
    cases nodes with
    | nil => exact .refl h
    | cons node rest =>
      cases rest with
      | nil => exact .addConfiguration h _
      | cons other rest => exact .refl h

end World.Later

theorem World.Widens.later (h : w.Widens w') (hf : w.forest.WellFormed) : w.Later w' :=
  ⟨h.forest ▸ hf, h.size_le, fun c hc => congrArg Configuration.root (h.configuration_eq c hc)⟩

theorem Call.later_step {call : Call} (hw : w.Sound) (h : call.Permitted w) :
    w.Later (call.step w) := by
  have hf := hw.wellFormed
  have hstep := (sound_step hw h).wellFormed
  cases call with
  | createNode | assign | addChild | addAttribute | removeChild | removeAttribute
  | removeChildren | removeAttributes => exact .of_same hstep (fun _ => rfl) rfl
  | createConfiguration root => exact .addConfiguration hf _
  | createView c node => exact .addConfiguration hf _
  | configurationAt c key =>
    rw [step, perform, after_discard]
    exact .configurationAt hf c key
  | useMarkers c m => exact .modifyConfiguration hf c fun _ => rfl
  | useCommonMarkers m => exact .of_same hstep (fun _ => rfl) rfl
  | refuseMissing c throws => exact .modifyConfiguration hf c fun _ => rfl
  | addListener name reaction => exact .of_same hstep (fun _ => rfl) rfl
  | register c l => exact .modifyConfiguration hf c fun _ => rfl
  | deregister c l => exact .modifyConfiguration hf c fun _ => rfl
  | clearListeners c => exact .modifyConfiguration hf c fun _ => rfl
  | announce event => exact .of_evolves hw h (keeps_announce event rfl w)
  | addProperty c key value => exact .of_evolves hw h (keeps_addProperty key value w)
  | setProperty c key value => exact .of_evolves hw h (keeps_setProperty key value w)
  | clearProperty c key => exact .of_evolves hw h (keeps_clearProperty key w)
  | clearTree c key => exact .of_evolves hw h (keeps_clearTree key w)
  | addNodes c key nodes => exact .of_evolves hw h.1 (evolves_addNodes h.2.1 h.2.2)
  | clear c => exact .of_evolves hw h (keeps_clear w)

/-- A declaration in a world that is later than the one in which it was obtained, from
the node of a key or as one of those nested in a declaration that was obtained. -/
inductive Declaration.ObtainedIn : Declaration → World → Prop
  | atKey {w w' : World} {c : ConfigurationId} {key : Option String} {optional : Bool}
      {d : Declaration} : w.forest.WellFormed →
      (Declaration.atKey c key optional).run w = .ok d w' → ObtainedIn d w'
  | nested {w w' : World} {d e : Declaration} {entry : Option String × Nested Declaration}
      {roster : Roster (Option String) (Nested Declaration)} : ObtainedIn d w →
      d.nested.run w = .ok roster w' → entry ∈ roster → e ∈ entry.2.toList → ObtainedIn e w'
  | later {w w' : World} {d : Declaration} : ObtainedIn d w → w.Later w' → ObtainedIn d w'

theorem Declaration.ObtainedIn.step {call : Call} (h : d.ObtainedIn w) (hw : w.Sound)
    (hcall : call.Permitted w) : d.ObtainedIn (call.step w) :=
  h.later (Call.later_step hw hcall)

structure Declaration.Stands (w : World) (d : Declaration) : Prop where
  wellFormed : w.forest.WellFormed
  created : d.configuration.index < w.configurations.size
  root_eq : w.root d.configuration = d.node

theorem Declaration.Stands.later (h : d.Stands w) (hw : w.Later w') : d.Stands w' where
  wellFormed := hw.wellFormed
  created := Nat.lt_of_lt_of_le h.created hw.size_le
  root_eq := (hw.root_eq _ h.created).trans h.root_eq

def World.declare (w : World) (c : ConfigurationId) (node : NodeId) : Declaration × World :=
  let (view, w') := w.addConfiguration (.rootedAt node (some c))
  (⟨view, node⟩, w')

theorem World.stands_declare (h : w.forest.WellFormed) :
    (w.declare c node).1.Stands (w.declare c node).2 where
  wellFormed := h
  created := by simp [declare, addConfiguration]
  root_eq := congrArg Configuration.root (configuration_addConfiguration_new w _)

theorem run_ofView_addConfiguration (w : World) (own : Configuration) (node : NodeId) :
    (Declaration.ofView (w.addConfiguration own).1 node).run (w.addConfiguration own).2 =
      .ok ⟨(w.addConfiguration own).1, node⟩
        (w.addConfiguration { own with markers := none, throwsOnMissing := false }).2 :=
  congrArg (EStateM.Result.ok _) (w.modifyConfiguration_addConfiguration own _)

theorem run_ofView_viewAt (w : World) (c : ConfigurationId) (node : NodeId) :
    (do Declaration.ofView (← c.viewAt node) node).run w =
      .ok (w.declare c node).1 (w.declare c node).2 :=
  run_ofView_addConfiguration w (w.viewOver c node) node

theorem run_ofView_createView (w : World) (c : ConfigurationId) (node : NodeId) :
    (do Declaration.ofView (← c.createView node) node).run w =
      .ok (w.declare c node).1 (w.declare c node).2 :=
  run_ofView_addConfiguration w (.rootedAt node (some c)) node

theorem Declaration.run_atKey (h : w.fetchNodes c key = .ok [node]) (optional : Bool) :
    (atKey c key optional).run w = .ok (w.declare c node).1 (w.declare c node).2 := by
  rw [atKey, run_read_bind, h]
  exact run_ofView_viewAt w c node

/-- A declaration from a key has a new view, over a node that may be new itself. -/
theorem Declaration.declare_of_run_atKey (h : (atKey c key optional).run w = .ok d w') :
    ∃ f node, (w.forest.WellFormed → f.WellFormed) ∧
      (d, w') = World.declare { w with forest := f } c node := by
  obtain ⟨nodes, u, hread, hrun⟩ := run_bind_ok.1 h
  obtain ⟨hfetch, rfl⟩ := run_read_ok.1 hread
  match nodes, optional with
  | [node], _ =>
    obtain ⟨rfl, rfl⟩ := EStateM.Result.ok.inj ((run_atKey hfetch _).symm.trans h)
    exact ⟨w.forest, node, id, rfl⟩
  | [], true =>
    let u : World := { w with forest := (w.forest.create none .null false).2 }
    have hview := run_ofView_createView u c ⟨w.forest.size⟩
    obtain ⟨rfl, rfl⟩ := EStateM.Result.ok.inj (hview.symm.trans hrun)
    exact ⟨_, _, fun hf => hf.create none .null false, rfl⟩
  | [], false | i :: j :: rest, _ => cases hrun

theorem Declaration.stands_of_run_atKey (hf : w.forest.WellFormed)
    (h : (Declaration.atKey c key optional).run w = .ok d w') : d.Stands w' := by
  obtain ⟨f, node, hwf, heq⟩ := declare_of_run_atKey h
  obtain ⟨rfl, rfl⟩ := Prod.mk.inj heq
  exact World.stands_declare (hwf hf)

theorem Declaration.view_of_run_atKey (h : (atKey c key optional).run w = .ok d w') :
    w'.configuration d.configuration = .rootedAt d.node (some c) ∧
      w.configurations.size ≤ d.configuration.index := by
  obtain ⟨f, node, -, heq⟩ := declare_of_run_atKey h
  obtain ⟨rfl, rfl⟩ := Prod.mk.inj heq
  exact ⟨World.configuration_addConfiguration_new _ _, Nat.le_refl _⟩

def Nested.DeclaredBy : Nested Declaration → List NodeId → Prop
  | .single one, nodes => nodes = [one.node]
  | .multiple all, nodes => nodes = all.map (·.node) ∧ 2 ≤ nodes.length

theorem Nested.DeclaredBy.nodes_eq {n : Nested Declaration} (h : n.DeclaredBy nodes) :
    nodes = n.toList.map (·.node) := by
  cases n with
  | single one => exact h
  | multiple all => exact h.1

theorem Nested.DeclaredBy.add {n : Nested Declaration} (h : n.DeclaredBy nodes)
    (e : Declaration) : (n.add e).DeclaredBy (nodes ++ [e.node]) := by
  have hnonempty : nodes ≠ [] := by
    cases n with
    | single one => exact h ▸ List.cons_ne_nil _ _
    | multiple all => exact List.ne_nil_of_length_pos (by have := h.2; omega)
  refine ⟨?_, ?_⟩
  · rw [h.nodes_eq, List.map_append, List.map_singleton]
  · have hpos := List.length_pos_of_ne_nil hnonempty
    rw [List.length_append, List.length_singleton]
    omega

/-- A roster groups declarations at some nodes by the names of these nodes, in the order in
which the names first occur. Each declaration has a view over its node that is made from the
enclosing view, refuses no missing keys and has no key language of its own. -/
structure Declaration.Groups (d : Declaration) (w : World) (nodes : List NodeId)
    (roster : Roster (Option String) (Nested Declaration)) : Prop where
  names : FirstOccurrences (nodes.map fun i => (w.forest.node i).name) roster.names
  declared : ∀ entry ∈ roster,
    entry.2.DeclaredBy (nodes.filter fun i => (w.forest.node i).name = entry.1)
  views : ∀ entry ∈ roster, ∀ e ∈ entry.2.toList, w.configuration e.configuration =
    { root := e.node, markers := none, throwsOnMissing := false, parent := d.configuration
      listeners := [] }

/-- The declarations that were entered have younger views than the enclosing one. -/
def Declaration.Precedes (d : Declaration)
    (roster : Roster (Option String) (Nested Declaration)) : Prop :=
  ∀ entry ∈ roster, ∀ e ∈ entry.2.toList, d.configuration.index < e.configuration.index

def Nested.joined (earlier : Option (Nested Declaration)) (e : Declaration) :
    Nested Declaration :=
  match earlier with
  | none => .single e
  | some n => n.add e

namespace Declaration.Groups

theorem nil (d : Declaration) (w : World) : d.Groups w [] [] :=
  ⟨.nil, fun _ h => (List.not_mem_nil h).elim, fun _ h => (List.not_mem_nil h).elim⟩

theorem mem_nodes {entry : Option String × Nested Declaration} (h : d.Groups w nodes roster)
    (hentry : entry ∈ roster) (he : e ∈ entry.2.toList) : e.node ∈ nodes := by
  have hmem : e.node ∈ entry.2.toList.map (·.node) := List.mem_map_of_mem he
  rw [← (h.declared entry hentry).nodes_eq] at hmem
  exact List.mem_of_mem_filter hmem

theorem length_eq (h : d.Groups w nodes roster) :
    (roster.flatMap (·.2.toList)).length = nodes.length := by
  have hfibers : (roster.flatMap (·.2.toList)).map (·.node) =
      roster.names.flatMap fun name => nodes.filter fun i => (w.forest.node i).name = name := by
    rw [List.map_flatMap, Roster.names, List.flatMap_map]
    exact List.flatMap_congr fun entry hentry => (h.declared entry hentry).nodes_eq.symm
  have hperm := flatMap_fibers_perm (f := fun i => (w.forest.node i).name) h.names.nodup
    fun i hi => (h.names.mem_iff _).2 (List.mem_map_of_mem hi)
  rw [← hperm.length_eq, ← hfibers, List.length_map]

/-- Declarations have views that exist, so a further view leaves these as they are. -/
theorem configuration_eq (h : d.Groups w nodes roster) (hentry : entry ∈ roster)
    (he : e ∈ entry.2.toList) (own : Configuration) :
    (w.addConfiguration own).2.configuration e.configuration =
      w.configuration e.configuration :=
  World.configuration_addConfiguration w own
    (World.lt_of_parent (congrArg Configuration.parent (h.views entry hentry e he)))

theorem joined_declaredBy (h : d.Groups w passed found) (name : Option String)
    (e : Declaration) : (Nested.joined (found.get? name) e).DeclaredBy
      ((passed.filter fun i => (w.forest.node i).name = name) ++ [e.node]) := by
  cases hget : found.get? name with
  | none =>
    have hnone : (passed.filter fun i => (w.forest.node i).name = name) = [] := by
      refine List.filter_eq_nil_iff.2 fun i hi hname => ?_
      refine Roster.get?_eq_none_iff.1 hget ((h.names.mem_iff name).2 ?_)
      exact List.mem_map.2 ⟨i, hi, of_decide_eq_true hname⟩
    rw [hnone]
    rfl
  | some n => exact (h.declared _ (Roster.mem_of_get? hget)).add e

theorem mem_toList_joined {name : Option String} {next : Declaration}
    (he : e ∈ (Nested.joined (found.get? name) next).toList) :
    e = next ∨ ∃ entry ∈ found, e ∈ entry.2.toList := by
  cases hget : found.get? name with
  | none =>
    rw [hget] at he
    exact .inl (List.mem_singleton.1 he)
  | some n =>
    rw [hget] at he
    obtain hmem | hnext := List.mem_append.1 he
    · exact .inr ⟨_, Roster.mem_of_get? hget, hmem⟩
    · exact .inl (List.mem_singleton.1 hnext)

theorem names_put (h : d.Groups w passed found) (i : NodeId) (n : Nested Declaration) :
    FirstOccurrences ((passed ++ [i]).map fun i => (w.forest.node i).name)
      (Roster.put found (w.forest.node i).name n).names := by
  rw [List.map_append, List.map_singleton]
  exact Roster.names_put h.names _ n

theorem enter (h : d.Groups w passed found) (i : NodeId) :
    d.Groups (w.declare d.configuration i).2 (passed ++ [i])
      (found.put (w.forest.node i).name
        (.joined (found.get? (w.forest.node i).name) (w.declare d.configuration i).1)) := by
  have hnew := World.configuration_addConfiguration_new w (.rootedAt i (some d.configuration))
  refine ⟨h.names_put i _, fun entry hentry => ?_, fun entry hentry e he => ?_⟩
  · change entry.2.DeclaredBy
      ((passed ++ [i]).filter fun j => (w.forest.node j).name = entry.1)
    rw [List.filter_append]
    obtain rfl | ⟨hmem, hne⟩ := Roster.mem_put h.names.nodup hentry
    · have hown : [i].filter (fun j => (w.forest.node j).name = (w.forest.node i).name) = [i] := by
        simp
      rw [hown]
      exact h.joined_declaredBy _ (w.declare d.configuration i).1
    · simpa [Ne.symm hne] using h.declared entry hmem
  · have hold {entry} (hmem : entry ∈ found) (he : e ∈ entry.2.toList) :=
      (h.configuration_eq hmem he (.rootedAt i (some d.configuration))).trans
        (h.views entry hmem e he)
    obtain rfl | ⟨hmem, -⟩ := Roster.mem_put h.names.nodup hentry
    · obtain rfl | ⟨entry, hmem, he⟩ := mem_toList_joined he
      · exact hnew
      · exact hold hmem he
    · exact hold hmem he

theorem precedes_enter (h : d.Groups w passed found) (hprecedes : d.Precedes found)
    (hd : d.configuration.index < w.configurations.size) (i : NodeId) :
    d.Precedes (found.put (w.forest.node i).name
      (.joined (found.get? (w.forest.node i).name) (w.declare d.configuration i).1)) := by
  intro entry hentry e he
  obtain rfl | ⟨hmem, -⟩ := Roster.mem_put h.names.nodup hentry
  · obtain rfl | ⟨entry, hmem, he⟩ := mem_toList_joined he
    · exact hd
    · exact hprecedes entry hmem e he
  · exact hprecedes entry hmem e he

end Declaration.Groups

theorem Declaration.Stands.run_nestedAt (h : d.Stands w)
    (hi : i ∈ (w.forest.node d.node).children) :
    (d.nestedAt i).run w =
      .ok (w.declare d.configuration i).1 (w.declare d.configuration i).2 := by
  have hmem : (w.childrenOf d.configuration (w.forest.node i).name).contains i = true := by
    simp [World.childrenOf, h.root_eq, hi]
  rw [Declaration.nestedAt, EStateM.run_bind, EStateM.run_get]
  dsimp only
  rw [if_pos hmem]
  exact run_ofView_viewAt w d.configuration i

theorem Forest.WellFormed.filter_isReserved {f : Forest} (hf : f.WellFormed) (p : NodeId) :
    (f.node p).children.filter (!f.isReserved ·) = (f.node p).children := by
  refine List.filter_eq_self.2 fun i hi => ?_
  simp [Forest.isReserved, ((hf.mem_children_iff p i).1 hi).2]

def Declaration.enterChild (d : Declaration) (f : Forest)
    (found : Roster (Option String) (Nested Declaration)) (i : NodeId) :
    Action (Roster (Option String) (Nested Declaration)) := do
  let next ← d.nestedAt i
  return found.put (f.node i).name (.joined (found.get? (f.node i).name) next)

theorem Declaration.run_nested_eq (hf : w.forest.WellFormed) :
    d.nested.run w =
      ((w.forest.node d.node).children.foldlM (d.enterChild w.forest) []).run w := by
  rw [← hf.filter_isReserved]
  rfl

theorem Declaration.Stands.run_loop (h : d.Stands w) (hg : d.Groups w passed found)
    (hp : d.Precedes found) (hrest : ∀ i ∈ rest, i ∈ (w.forest.node d.node).children) :
    ∃ roster w', (rest.foldlM (d.enterChild w.forest) found).run w = .ok roster w' ∧
      w.Widens w' ∧ d.Groups w' (passed ++ rest) roster ∧ d.Precedes roster := by
  induction rest generalizing w passed found with
  | nil => exact ⟨found, w, rfl, .refl w, by rwa [List.append_nil], hp⟩
  | cons i rest ih =>
    have hwidens : w.Widens (w.declare d.configuration i).2 := .addConfiguration w _
    obtain ⟨roster, w', hrun, hwidens', hgroups, hprecedes⟩ :=
      ih (h.later (hwidens.later h.wellFormed)) (hg.enter i) (hg.precedes_enter hp h.created i)
        fun j hj => hrest j (.tail _ hj)
    refine ⟨roster, w', ?_, hwidens.trans hwidens', by simpa using hgroups, hprecedes⟩
    rw [List.foldlM_cons, EStateM.run_bind, Declaration.enterChild, EStateM.run_bind,
      h.run_nestedAt (hrest i (.head _))]
    exact hrun

theorem Declaration.Stands.run_nested (h : d.Stands w) :
    ∃ roster w', d.nested.run w = .ok roster w' ∧ w.Widens w' ∧
      d.Groups w' (w.forest.node d.node).children roster ∧ d.Precedes roster := by
  rw [run_nested_eq h.wellFormed]
  exact h.run_loop (.nil d w) (fun _ hentry => (List.not_mem_nil hentry).elim) fun _ hi => hi

theorem Declaration.ObtainedIn.stands (h : d.ObtainedIn w) : d.Stands w := by
  induction h with
  | atKey hf hrun => exact stands_of_run_atKey hf hrun
  | @nested w w' d e entry roster _ hrun hentry he ih =>
    obtain ⟨roster', u, hrun', hwidens, hgroups, -⟩ := ih.run_nested
    obtain ⟨rfl, rfl⟩ := EStateM.Result.ok.inj (hrun'.symm.trans hrun)
    have hview := hgroups.views entry hentry e he
    exact ⟨hwidens.forest ▸ ih.wellFormed,
      World.lt_of_parent (congrArg Configuration.parent hview),
      congrArg Configuration.root hview⟩
  | later _ hlater ih => exact ih.later hlater

/-- The declarations nested in one that was obtained are always found. They group the
children of its node by name, and there are as many of them as there are children. -/
theorem Declaration.nested_groups (h : d.ObtainedIn w) :
    ∃ roster w', d.nested.run w = .ok roster w' ∧ w'.forest = w.forest ∧ w.Later w' ∧
      d.Groups w' (w.forest.node d.node).children roster ∧
      (roster.flatMap (·.2.toList)).length = (w.forest.node d.node).children.length := by
  obtain ⟨roster, w', hrun, hwidens, hgroups, -⟩ := h.stands.run_nested
  exact ⟨roster, w', hrun, hwidens.forest, hwidens.later h.stands.wellFormed, hgroups,
    hgroups.length_eq⟩

/-- Twins on both sides of a child without a name. The first of them has a child of its own. -/
theorem Declaration.nested_groups_twins :
    let twin := ((Forest.empty.create none .null false).2.createLinked ⟨0⟩ "a" .null false).2
    let beside := (twin.create none .null false).2.addChild ⟨0⟩ ⟨2⟩
    let twins := (beside.createLinked ⟨0⟩ "a" .null false).2
    let forest := (twins.createLinked ⟨1⟩ "x" .null false).2
    let w := { World.fresh [] with forest, configurations := #[.rootedAt ⟨0⟩ none] }
    let d : Declaration := ⟨⟨1⟩, ⟨0⟩⟩
    ∃ w₁ w₂ w₃ roster inner, ∃ first : Declaration,
      (forest.WellFormed ∧ (atKey ⟨0⟩ none false).run w = .ok d w₁) ∧
      d.nested.run w₁ = .ok roster w₂ ∧ roster.names = [some "a", none] ∧
      d.Groups w₂ [⟨1⟩, ⟨2⟩, ⟨3⟩] roster ∧ first.node = ⟨1⟩ ∧
      first.nested.run w₂ = .ok inner w₃ ∧ first.Groups w₃ [⟨4⟩] inner := by
  intro twin beside twins forest w d
  have htwin : twin.WellFormed :=
    (Forest.WellFormed.empty.create none .null false).createLinked (by decide)
  have hroot : ((twin.create none .null false).2.node ⟨0⟩).parent = none := by decide +kernel
  have hbeside : beside.WellFormed := (htwin.create none .null false).link (b := false)
    (by decide) (by decide) fun ha => absurd (ha.eq_of_root hroot) (by decide)
  have hf : forest.WellFormed := (hbeside.createLinked (by decide)).createLinked (by decide)
  have hkey : (atKey ⟨0⟩ none false).run w = .ok d (w.declare ⟨0⟩ ⟨0⟩).2 :=
    run_atKey (w := w) (by decide +kernel) false
  have hd : d.ObtainedIn (w.declare ⟨0⟩ ⟨0⟩).2 :=
    @ObtainedIn.atKey w (w.declare ⟨0⟩ ⟨0⟩).2 ⟨0⟩ none false d hf hkey
  have hchildren : (forest.node ⟨0⟩).children = [⟨1⟩, ⟨2⟩, ⟨3⟩] := by decide +kernel
  have hnames : [⟨1⟩, ⟨2⟩, ⟨3⟩].map (fun i => (forest.node i).name) =
      [some "a", none, some "a"] := by decide +kernel
  have hfirsts : FirstOccurrences [some "a", none, some "a"] [some "a", none] :=
    ⟨by simp [or_comm], by decide⟩
  have htwins : [⟨1⟩, ⟨2⟩, ⟨3⟩].filter (fun i => (forest.node i).name = some "a") =
      [⟨1⟩, ⟨3⟩] := by decide +kernel
  have hinner : (forest.node ⟨1⟩).children = [⟨4⟩] := by decide +kernel
  obtain ⟨roster, w₂, hrun, hforest, -, hgroups, -⟩ := nested_groups hd
  have hforest : w₂.forest = forest := hforest
  have hgroups : d.Groups w₂ [⟨1⟩, ⟨2⟩, ⟨3⟩] roster := hchildren ▸ hgroups
  have hroster : roster.names = [some "a", none] := by
    refine hgroups.names.unique ?_
    rwa [hforest, hnames]
  have hmem : some "a" ∈ roster.names := by simp [hroster]
  obtain ⟨⟨_, n⟩, hentry, rfl⟩ := List.mem_map.1 hmem
  have hnodes := (hgroups.declared _ hentry).nodes_eq
  rw [hforest, htwins] at hnodes
  obtain ⟨first, rest, hlist, hfirst, -⟩ := List.map_eq_cons_iff.1 hnodes.symm
  have hfirst' : first.ObtainedIn w₂ := .nested hd hrun hentry (hlist ▸ List.mem_cons_self)
  obtain ⟨inner, w₃, hrun', -, -, hgroups', -⟩ := nested_groups hfirst'
  rw [hforest, hfirst, hinner] at hgroups'
  exact ⟨_, w₂, w₃, roster, inner, first, ⟨hf, hkey⟩, hrun, hroster, hgroups, hfirst, hrun',
    hgroups'⟩

end Settings
