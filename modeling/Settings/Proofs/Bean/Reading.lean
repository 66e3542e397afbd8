import Settings.Proofs.Declarations

/-! # What a declaration reads

A declaration reads its attributes through its own view, and its variables are those at the
end of the chain of views. All declarations at one node over views of one chain read the same,
however many views were made in between.
-/

namespace Settings

open Settings.Action

variable {w u u' : World} {c e e' : ConfigurationId} {d d' : Declaration} {key : Option String}
  {i k : NodeId}

namespace World

theorem Widens.expandFrom_eq (h : w.Widens u) (hc : c.index < w.configurations.size) :
    u.expandFrom c = w.expandFrom c := by
  funext text
  have hproperty : u.getProperty c = w.getProperty c := by
    funext key
    simp only [getProperty, fetchNodes, valuesOf, markers, root, h.forest, h.common,
      h.configuration_eq c hc]
  have hvariable : u.variableText c = w.variableText c := by
    funext name
    simp only [variableText, resolveVariable, hproperty, h.environment]
  simp only [expandFrom, hvariable, referenceCount, h.forest, h.environment]

theorem Widens.interpolate_eq (h : w.Widens u) (hc : c.index < w.configurations.size)
    (he : u.outermost e = w.outermost c) : u.interpolate e = w.interpolate c := by
  have hend : (w.outermost c).index < w.configurations.size :=
    Nat.lt_of_le_of_lt (w.outermost_index_le c) hc
  funext v
  cases v <;> simp only [interpolate, expandText, he, h.expandFrom_eq hend]

theorem getString_congr (hproperty : u.getProperty e key = u'.getProperty e' key)
    (hinterpolate : u.interpolate e = u'.interpolate e')
    (hthrows : (u.configuration e).throwsOnMissing = (u'.configuration e').throwsOnMissing)
    (default_ : Value) : u.getString e key default_ = u'.getString e' key default_ := by
  have hrefuses : u.refusesMissing e default_ = u'.refusesMissing e' default_ := by
    rw [refusesMissing, refusesMissing, hthrows]
  rw [getString, getString, getSingle, getSingle, hproperty, hinterpolate, hrefuses]

end World

/-- In a world with more views, a declaration over a view that was made from one whose chain
ends where that of a configuration ends. -/
structure Declaration.Seated (w : World) (c : ConfigurationId) (u : World) (d : Declaration) :
    Prop where
  widens : w.Widens u
  view : ∃ p, u.configuration d.configuration = .rootedAt d.node (some p) ∧
    p.index < d.configuration.index ∧ u.outermost p = w.outermost c

namespace Declaration.Seated

theorem created (h : d.Seated w c u) : d.configuration.index < u.configurations.size := by
  obtain ⟨p, hview, -, -⟩ := h.view
  exact World.lt_of_parent (congrArg Configuration.parent hview)

theorem outermost_eq (h : d.Seated w c u) : u.outermost d.configuration = w.outermost c := by
  obtain ⟨p, hview, holder, houter⟩ := h.view
  rw [World.outermost, hview]
  exact (if_pos holder).trans houter

theorem outermost_enclosing (h : d.Seated w c u) :
    u.outermost (d.enclosing u) = w.outermost c := by
  obtain ⟨p, hview, -, houter⟩ := h.view
  rw [enclosing, hview]
  exact houter

theorem widen (h : d.Seated w c u) (hu : u.Widens u') : d.Seated w c u' := by
  have hcreated := h.created
  obtain ⟨p, hview, holder, houter⟩ := h.view
  refine ⟨h.widens.trans hu, p, (hu.configuration_eq _ hcreated).trans hview, holder, ?_⟩
  exact (hu.outermost_eq (Nat.lt_trans holder hcreated)).trans houter

theorem stands (h : d.Seated w c u) (hf : w.forest.WellFormed) : d.Stands u := by
  obtain ⟨p, hview, -, -⟩ := h.view
  exact ⟨h.widens.forest ▸ hf, h.created, congrArg Configuration.root hview⟩

theorem of_nested {nodes : List NodeId} {roster : Roster (Option String) (Nested Declaration)}
    {entry : Option String × Nested Declaration} (h : d.Seated w c u) (hu : u.Widens u')
    (hgroups : d.Groups u' nodes roster) (hprecedes : d.Precedes roster)
    (hentry : entry ∈ roster) (hd' : d' ∈ entry.2.toList) : d'.Seated w c u' := by
  refine ⟨h.widens.trans hu, d.configuration, hgroups.views entry hentry d' hd',
    hprecedes entry hentry d' hd', ?_⟩
  exact (hu.outermost_eq h.created).trans h.outermost_eq

theorem getProperty_eq (h : d.Seated w c u) (h' : d'.Seated w c u') (hnode : d'.node = d.node)
    (key : Option String) :
    u.getProperty d.configuration key = u'.getProperty d'.configuration key := by
  obtain ⟨p, hview, -, -⟩ := h.view
  obtain ⟨p', hview', -, -⟩ := h'.view
  simp only [World.getProperty, World.fetchNodes, World.valuesOf, World.markers, World.root, hview,
    hview', Configuration.rootedAt, h.widens.forest, h'.widens.forest, h.widens.common,
    h'.widens.common, hnode]

theorem markers_eq (h : d.Seated w c u) (hcommon : w.common = .standard) :
    u.markers d.configuration = .standard := by
  obtain ⟨p, hview, -, -⟩ := h.view
  rw [World.markers, hview, h.widens.common, hcommon]
  rfl

theorem exists_factoryParameter (h : d.Seated w c u) (hcommon : w.common = .standard) :
    ∃ v, d.factoryParameter u = .ok v := by
  obtain ⟨parts, hparse⟩ : ∃ parts, Markers.standard.parse (some parameterKey) = .ok parts :=
    exists_of_toBool (by decide +kernel)
  have hfetch : u.fetchNodes d.configuration (some parameterKey) =
      .ok (u.forest.follow [u.root d.configuration] parts) := by
    rw [World.fetchNodes, h.markers_eq hcommon, Forest.select, hparse]
    rfl
  rw [factoryParameter, World.getProperty, hfetch]
  exact ⟨_, rfl⟩

theorem declare (w : World) (hc : c.index < w.configurations.size) (i : NodeId) :
    (w.declare c i).1.Seated w c (w.declare c i).2 := by
  have hwidens : w.Widens (w.declare c i).2 := .addConfiguration w _
  exact ⟨hwidens, c, World.configuration_addConfiguration_new w _, hc, hwidens.outermost_eq hc⟩

variable (hc : c.index < w.configurations.size)

include hc

theorem interpolate_eq (h : d.Seated w c u) : d.interpolate u = w.interpolate c :=
  h.widens.interpolate_eq hc h.outermost_enclosing

theorem getString_eq (h : d.Seated w c u) (h' : d'.Seated w c u') (hnode : d'.node = d.node)
    (key : Option String) (default_ : Value) :
    u.getString d.configuration key default_ = u'.getString d'.configuration key default_ := by
  refine World.getString_congr (h.getProperty_eq h' hnode key) ?_ ?_ default_
  · rw [h.widens.interpolate_eq hc h.outermost_eq, h'.widens.interpolate_eq hc h'.outermost_eq]
  · obtain ⟨p, hview, -, -⟩ := h.view
    obtain ⟨p', hview', -, -⟩ := h'.view
    rw [hview, hview']
    rfl

end Declaration.Seated

/-- What a node declares, simple properties first: the names of its attributes, apart from
reserved ones, and of its children. -/
def Forest.propertyNames (f : Forest) (i : NodeId) : List String :=
  ((f.node i).attributes.filter (!f.isReserved ·) ++ (f.node i).children).filterMap
    fun k => (f.node k).name

theorem Forest.propertyNames_eq (f : Forest) (i : NodeId) : f.propertyNames i =
    ((f.node i).attributes.filter (!f.isReserved ·)).filterMap (fun k => (f.node k).name) ++
      (f.node i).children.filterMap fun k => (f.node k).name :=
  List.filterMap_append

theorem Forest.WellFormed.not_isReserved_iff {f : Forest} (hf : f.WellFormed)
    (hk : k ∈ (f.node i).attributes) :
    f.isReserved k = false ↔ ∃ name, (f.node k).name = some name ∧
      name.startsWith reservedStem = false := by
  have hflag := ((hf.mem_attributes_iff i k).1 hk).2
  cases hname : (f.node k).name with
  | none => simp [Forest.isReserved, hflag, hname]
  | some name => simp [Forest.isReserved, hflag, hname]

theorem Forest.mem_unreserved {f : Forest} : k ∈ (f.node i).attributes.filter (!f.isReserved ·) ↔
    k ∈ (f.node i).attributes ∧ f.isReserved k = false := by
  simp

theorem Forest.WellFormed.name_ne_none_of_unreserved {f : Forest} (hf : f.WellFormed)
    (hk : k ∈ (f.node i).attributes.filter (!f.isReserved ·)) : (f.node k).name ≠ none := by
  obtain ⟨hmem, hfree⟩ := mem_unreserved.1 hk
  obtain ⟨name, hname, -⟩ := (hf.not_isReserved_iff hmem).1 hfree
  simp [hname]

theorem Forest.WellFormed.filter_unreserved {f : Forest} {name : String} (hf : f.WellFormed)
    (hk : k ∈ (f.node i).attributes.filter (!f.isReserved ·))
    (hname : (f.node k).name = some name) :
    ((f.node i).attributes.filter (!f.isReserved ·)).filter
      (fun j => (f.node j).name = some name) = f.attributesNamed i (some name) := by
  obtain ⟨hmem, hfree⟩ := mem_unreserved.1 hk
  obtain ⟨name', hname', hstem⟩ := (hf.not_isReserved_iff hmem).1 hfree
  obtain rfl := Option.some.inj (hname'.symm.trans hname)
  rw [attributesNamed, List.filter_filter]
  refine List.filter_congr fun j hj => ?_
  by_cases hshared : (f.node j).name = some name'
  · simp [hshared, (hf.not_isReserved_iff hj).2 ⟨name', hshared, hstem⟩]
  · simp [hshared]

/-- What is read off attributes: each name where it first occurs, with the value of the last
attribute of that name. -/
structure World.ReadOff (w : World) (c : ConfigurationId) (passed : List NodeId)
    (found : Roster (Option String) Value) : Prop where
  names : FirstOccurrences (passed.map fun k => (w.forest.node k).name) found.names
  last : ∀ e ∈ found, ∃ k,
    (passed.filter fun k => (w.forest.node k).name = e.1).getLast? = some k ∧
      w.interpolate c (w.forest.node k).value = .ok e.2

theorem World.ReadOff.concat {passed : List NodeId} {found : Roster (Option String) Value}
    {v : Value} (h : w.ReadOff c passed found)
    (hv : w.interpolate c (w.forest.node k).value = .ok v) :
    w.ReadOff c (passed ++ [k]) (found.put (w.forest.node k).name v) := by
  constructor
  · rw [List.map_append]
    exact Roster.names_put h.names _ v
  · intro e he
    rcases Roster.mem_put h.names.nodup he with rfl | ⟨hmem, hne⟩
    · exact ⟨k, by simp, hv⟩
    · obtain ⟨last, hlast, hvalue⟩ := h.last e hmem
      refine ⟨last, ?_, hvalue⟩
      have hother : [k].filter (fun k => (w.forest.node k).name = e.1) = [] := by
        simp [Ne.symm hne]
      rw [List.filter_append, hother, List.append_nil, hlast]

theorem Declaration.Seated.exists_readOff {passed : List NodeId} (h : d.Seated w c u)
    (hc : c.index < w.configurations.size)
    (hpassed : ∀ k ∈ passed, ∃ v, w.interpolate c (w.forest.node k).value = .ok v) :
    ∃ found, passed.foldlM (fun found k => do
      return Roster.put found (u.forest.node k).name (← d.interpolate u (u.forest.node k).value))
        [] = .ok found ∧ w.ReadOff c passed found := by
  induction passed using List.reverseRecOn with
  | nil => exact ⟨[], rfl, .nil, fun _ he => (List.not_mem_nil he).elim⟩
  | append_singleton passed k ih =>
    obtain ⟨found, hrun, hread⟩ := ih fun k hk => hpassed k (List.mem_append_left _ hk)
    obtain ⟨v, hv⟩ := hpassed k (by simp)
    refine ⟨_, ?_, hread.concat hv⟩
    rw [List.foldlM_append, hrun, ok_bind, List.foldlM_cons, h.interpolate_eq hc,
      h.widens.forest, hv]
    rfl

theorem Roster.exists_named {α : Type} {r : Roster (Option String) α}
    (h : none ∉ r.names) : ∃ named : Roster String α, r = named.map fun e => (some e.1, e.2) := by
  induction r with
  | nil => exact ⟨[], rfl⟩
  | cons first rest ih =>
    obtain ⟨hfirst, hrest⟩ := not_or.1 (mt List.mem_cons.2 h)
    obtain ⟨named, rfl⟩ := ih hrest
    obtain ⟨name, hname⟩ := Option.ne_none_iff_exists'.1 (Ne.symm hfirst)
    exact ⟨(name, first.2) :: named, by rw [List.map_cons, ← hname]⟩

theorem map_name_eq {f : Forest} {nodes : List NodeId} (h : ∀ k ∈ nodes, (f.node k).name ≠ none) :
    nodes.map (fun k => (f.node k).name) =
      (nodes.filterMap fun k => (f.node k).name).map some := by
  induction nodes with
  | nil => rfl
  | cons k nodes ih =>
    rw [List.forall_mem_cons] at h
    obtain ⟨name, hname⟩ := Option.ne_none_iff_exists'.1 h.1
    rw [List.map_cons, ih h.2, List.filterMap_cons, hname, List.map_cons]

/-- The simple properties can be read when all their values can be expanded. -/
theorem Declaration.Seated.exists_properties (h : d.Seated w c u) (hf : w.forest.WellFormed)
    (hc : c.index < w.configurations.size)
    (hvalues : ∀ k ∈ (w.forest.node d.node).attributes, w.forest.isReserved k = false →
      ∃ v, w.interpolate c (w.forest.node k).value = .ok v) :
    ∃ named : Roster String Value,
      d.properties u = .ok (named.map fun e => (some e.1, e.2)) ∧
      FirstOccurrences (((w.forest.node d.node).attributes.filter
        (!w.forest.isReserved ·)).filterMap fun k => (w.forest.node k).name) named.names ∧
      ∀ e ∈ named, ∃ k, (w.forest.attributesNamed d.node (some e.1)).getLast? = some k ∧
        w.interpolate c (w.forest.node k).value = .ok e.2 := by
  obtain ⟨found, hrun, hread⟩ := h.exists_readOff hc fun k hk =>
    hvalues k (Forest.mem_unreserved.1 hk).1 (Forest.mem_unreserved.1 hk).2
  have hnames := hread.names
  rw [map_name_eq fun k hk => hf.name_ne_none_of_unreserved hk] at hnames
  obtain ⟨named, rfl⟩ := Roster.exists_named fun hnone => by
    simpa using (hnames.mem_iff none).1 hnone
  have hsome : Roster.names (named.map fun e => (some e.1, e.2)) = named.names.map some := by
    simp [Roster.names]
  rw [hsome] at hnames
  have hnames := hnames.of_map_some
  refine ⟨named, ?_, hnames, fun e he => ?_⟩
  · rw [properties, h.widens.forest]
    rw [h.widens.forest] at hrun
    exact hrun
  · obtain ⟨k, hk, hvalue⟩ := hread.last (some e.1, e.2) (List.mem_map_of_mem he)
    have hname := (hnames.mem_iff e.1).1 (List.mem_map_of_mem he)
    obtain ⟨first, hfirst, hname⟩ := List.mem_filterMap.1 hname
    rw [hf.filter_unreserved hfirst hname] at hk
    exact ⟨k, hk, hvalue⟩

end Settings
