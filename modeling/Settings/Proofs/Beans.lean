import Mathlib.Logic.Relation
import Settings.Proofs.Bean.Properties
import Settings.Proofs.Bean.Reading
import Settings.Proofs.Forest.Walks

/-! # Beans mirror their declarations

Where every declaration in a tree names a class that takes what is declared, the bean that is
created has the shape of the tree: simple properties from attributes, complex ones from children,
and both in the order of the document.
-/

namespace Settings

open Settings.Action

variable {w u : World} {c : ConfigurationId} {d e : Declaration} {i j : NodeId} {depth : Nat}
  {h : BeanHelper} {cls : BeanClass} {className name : String} {p : BeanProperty}
  {properties : List (String × BeanProperty)} {act : Declaration → Action Bean}
  {R : Declaration → Bean → Prop}

def BeanClass.Accepts (cls : BeanClass) (name : String) : Prop :=
  (cls.rules.lookup name).getD cls.otherwise = .accepted

theorem BeanClass.setProperty_of_accepts (haccepts : cls.Accepts name) :
    cls.setProperty (.mk className properties) (some name) p =
      .ok (.mk className (cls.set properties name p)) := by
  rw [Accepts] at haccepts
  simp only [setProperty, Option.map_some, assign, haccepts]
  rfl

theorem run_foldlM_setProperty {named : Roster String Value}
    (haccepts : ∀ e ∈ named, cls.Accepts e.1) :
    EStateM.run (List.foldlM (fun bean (name, v) =>
        Action.ofExcept (cls.setProperty bean name (.value v))) (.mk className properties)
      (named.map fun e => (some e.1, e.2))) u =
      .ok (.mk className (cls.fill properties (named.map fun e => (e.1, .value e.2)))) u := by
  induction named generalizing properties with
  | nil => rfl
  | cons first rest ih =>
    rw [List.forall_mem_cons] at haccepts
    rw [List.map_cons, List.foldlM_cons, EStateM.run_bind]
    dsimp only
    rw [BeanClass.setProperty_of_accepts haccepts.1]
    exact ih haccepts.2

inductive Nested.Related (R : Declaration → Bean → Prop) : Nested Declaration → Nested Bean → Prop
  | single {one : Declaration} {bean : Bean} : R one bean → Related R (.single one) (.single bean)
  | multiple {all : List Declaration} {beans : List Bean} :
      List.Forall₂ R all beans → Related R (.multiple all) (.multiple beans)

/-- An action that makes a bean of a declaration in every wider world, and leaves a wider one. -/
def Makes (act : Declaration → Action Bean) (R : Declaration → Bean → Prop) (u : World)
    (e : Declaration) : Prop :=
  ∀ u', u.Widens u' → ∃ bean u'', (act e).run u' = .ok bean u'' ∧ u'.Widens u'' ∧ R e bean

theorem Makes.widen {u' : World} (hmakes : Makes act R u e) (hu : u.Widens u') :
    Makes act R u' e := fun _ hu' => hmakes _ (hu.trans hu')

theorem run_mapM_of_makes {all : List Declaration} (hmakes : ∀ e ∈ all, Makes act R u e) :
    ∃ beans u', (all.mapM act).run u = .ok beans u' ∧ u.Widens u' ∧ List.Forall₂ R all beans := by
  induction all generalizing u with
  | nil => exact ⟨[], u, rfl, .refl u, .nil⟩
  | cons e all ih =>
    rw [List.forall_mem_cons] at hmakes
    obtain ⟨bean, u', hrun, hu, hbean⟩ := hmakes.1 u (.refl u)
    obtain ⟨beans, u'', hruns, hu', hbeans⟩ := ih fun e he => (hmakes.2 e he).widen hu
    refine ⟨bean :: beans, u'', ?_, hu.trans hu', .cons hbean hbeans⟩
    rw [List.mapM_cons, EStateM.run_bind, hrun]
    dsimp only
    rw [EStateM.run_bind, hruns]
    rfl

theorem run_mapAction_of_makes {n : Nested Declaration} (hmakes : ∀ e ∈ n.toList, Makes act R u e) :
    ∃ made u', (n.mapAction act).run u = .ok made u' ∧ u.Widens u' ∧ n.Related R made := by
  cases n with
  | single one =>
    obtain ⟨bean, u', hrun, hu, hbean⟩ := hmakes one (List.mem_singleton.2 rfl) u (.refl u)
    refine ⟨.single bean, u', ?_, hu, .single hbean⟩
    rw [Nested.mapAction, EStateM.run_bind, hrun]
    rfl
  | multiple all =>
    have hall : ∀ e ∈ all, Makes act R u e := hmakes
    obtain ⟨beans, u', hrun, hu, hbeans⟩ := run_mapM_of_makes hall
    refine ⟨.multiple beans, u', ?_, hu, .multiple hbeans⟩
    rw [Nested.mapAction, EStateM.run_bind, hrun]
    rfl

def MadeOf (R : Declaration → Bean → Prop) (entry : Option String × Nested Declaration)
    (s : String × BeanProperty) : Prop :=
  entry.1 = some s.1 ∧ ∃ made, entry.2.Related R made ∧ s.2 = .ofNested made

theorem run_foldlM_nested {roster : Roster (Option String) (Nested Declaration)}
    (hmakes : ∀ entry ∈ roster, ∀ e ∈ entry.2.toList, Makes act R u e)
    (haccepts : ∀ entry ∈ roster, ∃ name, entry.1 = some name ∧ cls.Accepts name) :
    ∃ sets u', EStateM.run (List.foldlM (fun bean (name, entry) => do
        let made ← Nested.mapAction act entry
        Action.ofExcept (cls.setProperty bean name (.ofNested made)))
        (.mk className properties) roster) u = .ok (.mk className (cls.fill properties sets)) u' ∧
      u.Widens u' ∧ List.Forall₂ (MadeOf R) roster sets := by
  induction roster generalizing u properties with
  | nil => exact ⟨[], u, rfl, .refl u, .nil⟩
  | cons entry roster ih =>
    rw [List.forall_mem_cons] at hmakes haccepts
    obtain ⟨made, u', hrun, hu, hmade⟩ := run_mapAction_of_makes hmakes.1
    obtain ⟨name, hname, haccept⟩ := haccepts.1
    have hrest : ∀ entry ∈ roster, ∀ e ∈ entry.2.toList, Makes act R u' e :=
      fun entry hentry e he => (hmakes.2 entry hentry e he).widen hu
    obtain ⟨sets, u'', hruns, hu', hsets⟩ :=
      @ih u' (cls.set properties name (.ofNested made)) hrest haccepts.2
    refine ⟨(name, .ofNested made) :: sets, u'', ?_, hu.trans hu',
      .cons ⟨hname, made, hmade, rfl⟩ hsets⟩
    rw [List.foldlM_cons, EStateM.run_bind]
    dsimp only
    rw [EStateM.run_bind, hrun, hname]
    dsimp only
    rw [BeanClass.setProperty_of_accepts haccept]
    exact hruns

/-- The class that a node names for its bean. -/
def World.NamesClass (w : World) (c : ConfigurationId) (catalog : Catalog) (i : NodeId)
    (cls : BeanClass) : Prop :=
  ∃ path name, (w.declare c i).1.className (w.declare c i).2 = .ok (some path) ∧
    catalog.load path = .ok (name, cls)

mutual

/-- A bean that mirrors a node: an instance of the class that the node names, on which what the
node declares was set, each property once and simple ones first. -/
inductive Mirrors (w : World) (c : ConfigurationId) (catalog : Catalog) : NodeId → Bean → Prop
  | bean {i : NodeId} {cls : BeanClass} {sets : Roster String BeanProperty} :
      w.NamesClass c catalog i cls →
      FirstOccurrences (w.forest.propertyNames i) sets.names →
      (∀ e ∈ sets, MirrorsProperty w c catalog i e.1 e.2) →
      Mirrors w c catalog i (.mk cls.name (cls.fill cls.initial sets))

/-- What a property holds: the value of the last attribute of its name, unless there are
children of the name, and then their beans. -/
inductive MirrorsProperty (w : World) (c : ConfigurationId) (catalog : Catalog) :
    NodeId → String → BeanProperty → Prop
  | value {i k : NodeId} {name : String} {v : Value} :
      w.forest.childrenNamed i (some name) = [] →
      (w.forest.attributesNamed i (some name)).getLast? = some k →
      w.interpolate c (w.forest.node k).value = .ok v →
      MirrorsProperty w c catalog i name (.value v)
  | single {i j : NodeId} {name : String} {one : Bean} :
      w.forest.childrenNamed i (some name) = [j] → Mirrors w c catalog j one →
      MirrorsProperty w c catalog i name (.bean one)
  | multiple {i : NodeId} {name : String} {all : List Bean} :
      2 ≤ (w.forest.childrenNamed i (some name)).length →
      List.Forall₂ (Mirrors w c catalog) (w.forest.childrenNamed i (some name)) all →
      MirrorsProperty w c catalog i name (.beans all)

end

/-- Everything that a bean for a node needs is there. -/
structure World.Declares (w : World) (c : ConfigurationId) (catalog : Catalog) (i : NodeId)
    (cls : BeanClass) : Prop where
  named : w.NamesClass c catalog i cls
  no_factory : (w.declare c i).1.factoryName (w.declare c i).2 = .ok none
  instantiable : cls.needsArguments = false
  orderly : cls.Orderly
  accepts : ∀ name ∈ w.forest.propertyNames i, cls.Accepts name
  children_named : ∀ j ∈ (w.forest.node i).children, (w.forest.node j).name ≠ none
  expands : ∀ k ∈ (w.forest.node i).attributes, w.forest.isReserved k = false →
    ∃ v, w.interpolate c (w.forest.node k).value = .ok v

namespace World.Declares

variable {catalog : Catalog} (hcls : w.Declares c catalog i cls)

include hcls

theorem accepts_simple {named : Roster String Value}
    (hnames : FirstOccurrences (((w.forest.node i).attributes.filter
      (!w.forest.isReserved ·)).filterMap fun k => (w.forest.node k).name) named.names)
    {s : String × Value} (hs : s ∈ named) : cls.Accepts s.1 := by
  refine hcls.accepts s.1 ?_
  rw [Forest.propertyNames_eq]
  exact List.mem_append_left _ ((hnames.mem_iff s.1).1 (List.mem_map_of_mem hs))

theorem accepts_complex {roster : Roster (Option String) (Nested Declaration)}
    (hnames : FirstOccurrences ((w.forest.node i).children.map fun j => (w.forest.node j).name)
      roster.names) {entry : Option String × Nested Declaration} (hentry : entry ∈ roster) :
    ∃ name, entry.1 = some name ∧ cls.Accepts name := by
  obtain ⟨j, hj, hname⟩ := List.mem_map.1 ((hnames.mem_iff entry.1).1 (List.mem_map_of_mem hentry))
  obtain ⟨name, hsome⟩ := Option.ne_none_iff_exists'.1 (hcls.children_named j hj)
  refine ⟨name, hname.symm.trans hsome, hcls.accepts name ?_⟩
  rw [Forest.propertyNames_eq]
  exact List.mem_append_right _ (List.mem_filterMap.2 ⟨j, hj, hsome⟩)

end World.Declares

def Forest.Nests (f : Forest) : NodeId → NodeId → Prop :=
  Relation.ReflTransGen fun p j => j ∈ (f.node p).children

theorem Forest.Nests.mem {f : Forest} {nodes : List NodeId} (h : f.Nests i j)
    (hclosed : ∀ p ∈ nodes, ∀ k ∈ (f.node p).children, k ∈ nodes) (hi : i ∈ nodes) :
    j ∈ nodes := by
  induction h with
  | refl => exact hi
  | tail _ hchild ih => exact hclosed _ ih _ hchild

theorem Nested.Related.mirrors {n : Nested Declaration} {made : Nested Bean} {catalog : Catalog}
    (hrelated : n.Related (fun e bean => Mirrors w c catalog e.node bean) made)
    (hdeclared : n.DeclaredBy (w.forest.childrenNamed i (some name))) :
    MirrorsProperty w c catalog i name (.ofNested made) := by
  cases hrelated with
  | single hone => exact .single hdeclared hone
  | multiple hall =>
    obtain ⟨hnodes, hlength⟩ := hdeclared
    refine .multiple hlength ?_
    rw [hnodes]
    exact List.forall₂_map_left_iff.2 hall

theorem names_of_madeOf {roster : Roster (Option String) (Nested Declaration)}
    {sets : List (String × BeanProperty)} (hmade : List.Forall₂ (MadeOf R) roster sets) :
    roster.names = (sets.map (·.1)).map some := by
  induction hmade with
  | nil => rfl
  | cons hfirst _ ih => exact congrArg₂ List.cons hfirst.1 ih

theorem exists_entry_of_madeOf {roster : Roster (Option String) (Nested Declaration)}
    {sets : List (String × BeanProperty)} {s : String × BeanProperty}
    (hmade : List.Forall₂ (MadeOf R) roster sets) (hs : s ∈ sets) :
    ∃ entry ∈ roster, MadeOf R entry s := by
  induction hmade with
  | nil => cases hs
  | @cons entry first _ _ hfirst _ ih =>
    rcases List.mem_cons.1 hs with rfl | hs
    · exact ⟨entry, .head _, hfirst⟩
    · obtain ⟨other, hmem, hother⟩ := ih hs
      exact ⟨other, .tail _ hmem, hother⟩

theorem names_values (named : Roster String Value) :
    Roster.names (named.map fun e => (e.1, BeanProperty.value e.2)) = named.names := by
  simp [Roster.names]

section Shape

variable {catalog : Catalog} {named : Roster String Value}
  {roster : Roster (Option String) (Nested Declaration)} {sets : List (String × BeanProperty)}
  {v : World} (hforest : v.forest = w.forest)
  (hgroups : d.Groups v (w.forest.node i).children roster)
  (hmade : List.Forall₂ (MadeOf fun e bean => Mirrors w c catalog e.node bean) roster sets)

include hforest hgroups hmade

theorem firstOccurrences_of_madeOf
    (hnamed : ∀ j ∈ (w.forest.node i).children, (w.forest.node j).name ≠ none) :
    FirstOccurrences ((w.forest.node i).children.filterMap fun j => (w.forest.node j).name)
      (sets.map (·.1)) := by
  have hnames := hgroups.names
  rw [hforest, map_name_eq hnamed, names_of_madeOf hmade] at hnames
  exact hnames.of_map_some

theorem mirrorsProperty_of_madeOf {s : String × BeanProperty} (hs : s ∈ sets) :
    MirrorsProperty w c catalog i s.1 s.2 := by
  obtain ⟨entry, hentry, hname, made, hrelated, hproperty⟩ := exists_entry_of_madeOf hmade hs
  have hdeclared := hgroups.declared entry hentry
  rw [hforest, hname] at hdeclared
  rw [hproperty]
  exact hrelated.mirrors hdeclared

/-- Simple properties are set first. A complex property replaces a simple one of its name. -/
theorem mirrors_of_madeOf (hcls : w.Declares c catalog i cls)
    (hnames : FirstOccurrences (((w.forest.node i).attributes.filter
      (!w.forest.isReserved ·)).filterMap fun k => (w.forest.node k).name) named.names)
    (hlast : ∀ e ∈ named, ∃ k, (w.forest.attributesNamed i (some e.1)).getLast? = some k ∧
      w.interpolate c (w.forest.node k).value = .ok e.2) :
    Mirrors w c catalog i (.mk cls.name (cls.fill cls.initial
      (Roster.putAll (named.map fun e => (e.1, .value e.2)) sets))) := by
  have hchildren := firstOccurrences_of_madeOf hforest hgroups hmade hcls.children_named
  rw [← names_values] at hnames
  refine .bean hcls.named ?_ fun e he => ?_
  · rw [Forest.propertyNames_eq]
    exact hchildren.append_right (Roster.names_putAll hnames sets)
  · rcases Roster.mem_putAll hnames he with hs | ⟨hvalue, hnone⟩
    · exact mirrorsProperty_of_madeOf hforest hgroups hmade hs
    · obtain ⟨entry, hentry, rfl⟩ := List.mem_map.1 hvalue
      obtain ⟨k, hk, hexpands⟩ := hlast entry hentry
      refine .value (List.filter_eq_nil_iff.2 fun j hj hname => hnone ?_) hk hexpands
      rw [hchildren.mem_iff, List.mem_filterMap]
      exact ⟨j, hj, by simpa using hname⟩

end Shape

namespace BeanHelper

def setDeclared (beanClass : BeanClass)
    (enter : Bean → Option String × Nested Declaration → Action Bean) (d : Declaration)
    (bean : Bean) : Action Bean := do
  let bean ← (← Action.read d.properties).foldlM (fun bean (name, v) =>
    Action.ofExcept (beanClass.setProperty bean name (.value v))) bean
  (← d.nested).foldlM enter bean

def createWith (h : BeanHelper)
    (enter : BeanClass → Bean → Option String × Nested Declaration → Action Bean)
    (d : Declaration) (fallback : Option BeanClass) (parameter : Value) : Action Bean := do
  let factory ← Action.read fun w => h.factoryFor w d
  let beanClass ← Action.read fun w => h.classFor w d fallback factory
  let declared ← Action.read d.factoryParameter
  let parameter := if declared.isNull then parameter else declared
  let bean ← Action.ofExcept beanClass.instantiate
  let bean ←
    if factory.recordsParameter then
      Action.ofExcept (beanClass.assign bean "param" (.value parameter))
    else pure bean
  if !factory.initializes then return bean
  setDeclared beanClass (enter beanClass) d bean

def enterTo (h : BeanHelper) (depth : Nat) (beanClass : BeanClass) (bean : Bean)
    (entry : Option String × Nested Declaration) : Action Bean := do
  let made ← entry.2.mapAction fun e => h.createTo depth e none .null
  Action.ofExcept (beanClass.setProperty bean entry.1 (.ofNested made))

theorem createTo_zero (h : BeanHelper) :
    h.createTo 0 = h.createWith fun _ bean _ => pure bean := rfl

theorem createTo_succ (h : BeanHelper) (depth : Nat) :
    h.createTo (depth + 1) = h.createWith (h.enterTo depth) := rfl

end BeanHelper

section Creation

variable (hc : c.index < w.configurations.size) (hcommon : w.common = .standard)
  (hfactory : h.defaultFactory = .standard)

include hc hfactory

theorem Declaration.Seated.factoryFor_eq (hd : d.Seated w c u)
    (hdeclares : w.Declares c h.catalog d.node cls) : h.factoryFor u d = .ok .standard := by
  have hname := hdeclares.no_factory
  rw [Declaration.factoryName, ← hd.getString_eq hc (.declare w hc d.node) rfl] at hname
  rw [BeanHelper.factoryFor, Declaration.factoryName, hname, hfactory]
  rfl

omit hfactory in
theorem Declaration.Seated.classFor_eq (hd : d.Seated w c u)
    (hdeclares : w.Declares c h.catalog d.node cls) (fallback : Option BeanClass)
    (factory : Factory) : h.classFor u d fallback factory = .ok cls := by
  obtain ⟨path, name, hpath, hload⟩ := hdeclares.named
  rw [Declaration.className, ← hd.getString_eq hc (.declare w hc d.node) rfl] at hpath
  rw [BeanHelper.classFor, Declaration.className, hpath]
  simp only [ok_bind, hload]
  rfl

include hcommon

theorem Declaration.Seated.run_createTo_succ (hd : d.Seated w c u)
    (hdeclares : w.Declares c h.catalog d.node cls) {named : Roster String Value}
    (hproperties : d.properties u = .ok (named.map fun e => (some e.1, e.2)))
    (haccepts : ∀ e ∈ named, cls.Accepts e.1) (fallback : Option BeanClass) (parameter : Value) :
    (h.createTo (depth + 1) d fallback parameter).run u = EStateM.run (do
      (← d.nested).foldlM (fun bean (name, entry) => do
        let made ← entry.mapAction fun e => h.createTo depth e none .null
        Action.ofExcept (cls.setProperty bean name (.ofNested made)))
        (.mk cls.name (cls.fill cls.initial (named.map fun e => (e.1, .value e.2))))) u := by
  obtain ⟨declared, hdeclared⟩ := hd.exists_factoryParameter hcommon
  have hinstantiate : cls.instantiate = .ok (.mk cls.name cls.initial) := by
    rw [BeanClass.instantiate, hdeclares.instantiable]
    rfl
  rw [BeanHelper.createTo_succ, BeanHelper.createWith, run_read_bind,
    hd.factoryFor_eq hc hfactory hdeclares]
  dsimp only
  rw [run_read_bind, hd.classFor_eq hc hdeclares]
  dsimp only
  rw [run_read_bind, hdeclared]
  dsimp only
  rw [hinstantiate]
  change EStateM.run (Action.read d.properties >>= _) u = _
  rw [run_read_bind, hproperties]
  dsimp only
  rw [EStateM.run_bind, run_foldlM_setProperty haccepts]
  rfl

/-- A declaration below which every node says what is needed is made into a bean that mirrors
its node. -/
theorem Declaration.Seated.run_createTo (hf : w.forest.WellFormed) (hd : d.Seated w c u)
    (hroom : w.forest.Room d.node depth)
    (hdeclares : ∀ i, w.forest.Nests d.node i → ∃ cls, w.Declares c h.catalog i cls) :
    ∃ bean u', (∀ fallback parameter, (h.createTo depth d fallback parameter).run u = .ok bean u') ∧
      u.Widens u' ∧ Mirrors w c h.catalog d.node bean := by
  induction depth generalizing u d with
  | zero => exact absurd hroom Forest.not_room_zero
  | succ depth ih =>
    obtain ⟨cls, hcls⟩ := hdeclares d.node .refl
    obtain ⟨named, hproperties, hnames, hlast⟩ := hd.exists_properties hf hc hcls.expands
    obtain ⟨roster, v, hnested, hwidens, hgroups, hprecedes⟩ := (hd.stands hf).run_nested
    have hchildren : (u.forest.node d.node).children = (w.forest.node d.node).children := by
      rw [hd.widens.forest]
    rw [hchildren] at hgroups
    have hmakes : ∀ entry ∈ roster, ∀ e ∈ entry.2.toList,
        Makes (fun e => h.createTo depth e none .null)
          (fun e bean => Mirrors w c h.catalog e.node bean) v e := by
      intro entry hentry e he v' hv
      have hseat := (hd.of_nested hwidens hgroups hprecedes hentry he).widen hv
      have hchild := hgroups.mem_nodes hentry he
      obtain ⟨bean, v'', hrun, hv', hmirrors⟩ :=
        ih hseat (hroom.child hf hchild) fun i hi => hdeclares i (.head hchild hi)
      exact ⟨bean, v'', hrun none .null, hv', hmirrors⟩
    have hforest : v.forest = w.forest := hwidens.forest.trans hd.widens.forest
    have hchildnames := hgroups.names
    rw [hforest] at hchildnames
    obtain ⟨sets, u', hrun, hu', hmade⟩ :=
      run_foldlM_nested hmakes fun _ hentry => hcls.accepts_complex hchildnames hentry
    refine ⟨_, u', fun fallback parameter => ?_, hwidens.trans hu',
      mirrors_of_madeOf hforest hgroups hmade hcls hnames hlast⟩
    have hnodup := hnames.nodup
    rw [← names_values] at hnodup
    rw [hd.run_createTo_succ hc hcommon hfactory hcls hproperties
      fun _ he => hcls.accepts_simple hnames he, EStateM.run_bind, hnested]
    dsimp only
    rw [hrun, BeanClass.fill_putAll hcls.orderly hnodup]

end Creation

/-- The bean of a declaration from a key mirrors the tree below its node. Whoever asks for it has
no say in it. -/
theorem BeanHelper.create_mirrors {w₀ w₁ : World} {key : Option String} {optional : Bool}
    (hc : c.index < w₀.configurations.size)
    (hkey : (Declaration.atKey c key optional).run w₀ = .ok d w₁) (hw : w.Sound)
    (hview : w.configuration d.configuration = w₁.configuration d.configuration)
    (hcommon : w.common = .standard) (hfactory : h.defaultFactory = .standard)
    (hdeclares : ∀ i, w.forest.Nests d.node i → ∃ cls, w.Declares c h.catalog i cls) :
    ∃ bean w', (∀ fallback parameter,
        (h.create (some d) fallback parameter).run w = .ok bean w') ∧
      w'.forest = w.forest ∧ Mirrors w c h.catalog d.node bean := by
  obtain ⟨hown, holder⟩ := Declaration.view_of_run_atKey hkey
  rw [hown] at hview
  have hcreated := World.lt_of_parent (congrArg Configuration.parent hview)
  have hyounger : c.index < d.configuration.index := Nat.lt_of_lt_of_le hc holder
  have hseat : d.Seated w c w := ⟨.refl w, c, hview, hyounger, rfl⟩
  have hroot : w.root d.configuration = d.node := congrArg Configuration.root hview
  have hroom : w.forest.Room d.node w.forest.size :=
    Forest.room_of_le (hroot ▸ hw.has_root d.configuration hcreated) (Nat.le_refl _)
  obtain ⟨bean, w', hrun, hwidens, hmirrors⟩ := hseat.run_createTo
    (Nat.lt_trans hyounger hcreated) hcommon hfactory hw.wellFormed hroom hdeclares
  exact ⟨bean, w', hrun, hwidens.forest, hmirrors⟩

def BeanClass.open (name : String) : BeanClass :=
  ⟨name, [], openRules, .accepted, none, false⟩

/-- A declaration with an attribute and a child of the same name, and with twins. -/
theorem BeanHelper.create_mirrors_twins :
    let cls := BeanClass.open "A"
    let h : BeanHelper := ⟨[("m", [("A", cls)])], [], .standard⟩
    let declared (f : Forest) (p : NodeId) :=
      (f.createLinked p "config-class" (.str "m.A") true).2
    let bare := (Forest.empty.create none .null false).2
    let simple := ((declared bare ⟨0⟩).createLinked ⟨0⟩ "x" (.int 1) true).2
    let single := declared (simple.createLinked ⟨0⟩ "x" .null false).2 ⟨3⟩
    let first := declared (single.createLinked ⟨0⟩ "y" .null false).2 ⟨5⟩
    let forest := declared (first.createLinked ⟨0⟩ "y" .null false).2 ⟨7⟩
    let w₀ := (World.addConfiguration { World.fresh [] with forest } (.rootedAt ⟨0⟩ none)).2
    let w := (w₀.declare ⟨0⟩ ⟨0⟩).2
    let d : Declaration := ⟨⟨1⟩, ⟨0⟩⟩
    ((Declaration.atKey ⟨0⟩ none false).run w₀ = .ok d w ∧ w.Sound ∧
      ∀ i, forest.Nests ⟨0⟩ i → ∃ cls, w.Declares ⟨0⟩ h.catalog i cls) ∧
    ∃ bean w', (∀ fallback parameter,
        (h.create (some d) fallback parameter).run w = .ok bean w') ∧
      w'.forest = forest ∧ Mirrors w ⟨0⟩ h.catalog ⟨0⟩ bean := by
  intro cls h declared bare simple single first forest w₀ w d
  have hbare : bare.WellFormed := Forest.WellFormed.empty.create none .null false
  have hsimple : simple.WellFormed := (hbare.createLinked (by decide)).createLinked (by decide)
  have hsingle : single.WellFormed := (hsimple.createLinked (by decide)).createLinked (by decide)
  have hfirst : first.WellFormed := (hsingle.createLinked (by decide)).createLinked (by decide)
  have hf : forest.WellFormed := (hfirst.createLinked (by decide)).createLinked (by decide)
  have hw₀ : w₀.Sound :=
    ((World.sound_fresh []).withForest hf (Nat.zero_le _)).addConfiguration (by decide)
  have hw : w.Sound := hw₀.addConfiguration (by decide)
  have hkey : (Declaration.atKey ⟨0⟩ none false).run w₀ = .ok d w :=
    Declaration.run_atKey (by decide +kernel) false
  have hclosed : ∀ p ∈ [⟨0⟩, ⟨3⟩, ⟨5⟩, ⟨7⟩], ∀ j ∈ (forest.node p).children,
      j ∈ [⟨0⟩, ⟨3⟩, ⟨5⟩, ⟨7⟩] := by decide +kernel
  have hnests : ∀ i, forest.Nests ⟨0⟩ i → i ∈ [⟨0⟩, ⟨3⟩, ⟨5⟩, ⟨7⟩] :=
    fun i hi => hi.mem hclosed (by decide)
  have hdeclares : ∀ i, forest.Nests ⟨0⟩ i → ∃ cls, w.Declares ⟨0⟩ h.catalog i cls := by
    intro i hi
    have hneeds : ∀ i ∈ [⟨0⟩, ⟨3⟩, ⟨5⟩, ⟨7⟩],
        (w.declare ⟨0⟩ i).1.className (w.declare ⟨0⟩ i).2 = .ok (some "m.A") ∧
        (w.declare ⟨0⟩ i).1.factoryName (w.declare ⟨0⟩ i).2 = .ok none ∧
        (∀ name ∈ forest.propertyNames i, name ∈ ["x", "y"]) ∧
        (∀ j ∈ (forest.node i).children, (forest.node j).name ≠ none) ∧
        ∀ k ∈ (forest.node i).attributes, forest.isReserved k = false →
          (w.interpolate ⟨0⟩ (forest.node k).value).toBool = true := by decide +kernel
    have haccepts : ∀ name ∈ ["x", "y"], cls.Accepts name := by
      rw [List.forall_mem_cons, List.forall_mem_singleton]
      exact ⟨rfl, rfl⟩
    obtain ⟨hclass, hfactory, hnames, hchildren, hvalues⟩ := hneeds i (hnests i hi)
    exact ⟨cls, ⟨"m.A", "A", hclass, rfl⟩, hfactory, rfl, (fun _ horder => nomatch horder),
      fun name hname => haccepts name (hnames name hname), hchildren,
      fun k hk hfree => exists_of_toBool (hvalues k hk hfree)⟩
  exact ⟨⟨hkey, hw, hdeclares⟩, create_mirrors (by decide) hkey hw rfl rfl rfl hdeclares⟩

end Settings
