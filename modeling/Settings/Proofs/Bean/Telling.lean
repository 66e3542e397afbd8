import Settings.Proofs.Expansion
import Settings.Proofs.Value.Text
import Settings.Proofs.Widening

/-! # What a tree says of itself

As long as no value refers to a variable, a description can be read off the tree alone. Whatever
settings there are around a declaration, it says what the tree does.
-/

namespace Settings

open Settings.Action

variable {w u : World} {c : ConfigurationId} {d : Declaration} {i : NodeId} {text : String}
  {v : Value}

def Reference.Absent (text : String) : Prop := ¬ ['$', '\x7b'] <:+: text.toList

theorem Reference.names_eq_nil (h : Absent text) : names text = [] := by
  refine List.eq_nil_iff_forall_not_mem.2 fun name hname => h ?_
  have hpiece : (Piece.variable name.toList).written <:+: text.toList := by
    rw [← flatMap_written_pieces text.toList]
    exact List.infix_of_mem_flatten (List.mem_map_of_mem (mem_names_iff.1 hname))
  exact List.IsInfix.trans ⟨[], name.toList ++ ['\x7d'], rfl⟩ hpiece

instance : DecidablePred Reference.Absent :=
  fun text => inferInstanceAs (Decidable (¬ ['$', '\x7b'] <:+: text.toList))

def Value.Inert : Value → Prop
  | .str text => Reference.Absent text
  | _ => True

instance : DecidablePred Value.Inert
  | .str text => inferInstanceAs (Decidable (Reference.Absent text))
  | .null | .bool _ | .int _ | .float _ | .nan | .list _ | .tuple _ | .mapping _ => .isTrue trivial

theorem Value.Inert.interpolate_eq (h : v.Inert) : w.interpolate c v = .ok v := by
  cases v with
  | str text =>
    have hnames : Reference.names text = [] := Reference.names_eq_nil h
    rw [World.interpolate, World.expandText, World.expandFrom, Reference.expand_of_unresolved]
    · rfl
    · exact fun name hname => absurd (hnames ▸ hname) List.not_mem_nil
  | _ => rfl

theorem Value.inert_first_collect {values : List Value}
    (h : ∀ v ∈ values, v.Inert ∧ v.first.Inert) : (World.collect values).first.Inert := by
  match values with
  | [] => exact trivial
  | [v] => exact (h v (.head _)).2
  | v :: _ :: _ => exact (h v (.head _)).1

namespace Forest

variable (f : Forest)

def attributeValue (i : NodeId) (name : String) : Value :=
  World.collect (((f.attributesNamed i (some name)).map fun k => (f.node k).value).filter
    (!·.isNull))

def attributeText (i : NodeId) (name : String) : Except Fault (Option String) :=
  match (f.attributeValue i name).first with
  | .null => return none
  | v => return some (← v.text)

def simpleProperties (i : NodeId) : Roster (Option String) Value :=
  ((f.node i).attributes.filter (!f.isReserved ·)).foldl
    (fun found k => found.put (f.node k).name (f.node k).value) []

/-- No attribute of a node refers to a variable. -/
def InertAt (i : NodeId) : Prop :=
  ∀ k ∈ (f.node i).attributes, (f.node k).value.Inert ∧ (f.node k).value.first.Inert

instance (i : NodeId) : Decidable (f.InertAt i) :=
  inferInstanceAs (Decidable (∀ k ∈ (f.node i).attributes, _ ∧ _))

variable {f}

theorem InertAt.first_attributeValue (h : f.InertAt i) (name : String) :
    (f.attributeValue i name).first.Inert := by
  refine Value.inert_first_collect fun v hv => ?_
  obtain ⟨k, hk, rfl⟩ := List.mem_map.1 (List.mem_of_mem_filter hv)
  exact h k (List.mem_of_mem_filter hk)

theorem WellFormed.mem_names_simpleProperties (hf : f.WellFormed) {name : Option String} :
    name ∈ (f.simpleProperties i).names ↔ ∃ k ∈ (f.node i).attributes, (f.node k).name = name ∧
      ∃ text, name = some text ∧ text.startsWith reservedStem = false := by
  have hfold (attributes : List NodeId) (found : Roster (Option String) Value) :
      name ∈ (attributes.foldl (fun found k => found.put (f.node k).name (f.node k).value)
        found).names ↔ name ∈ found.names ∨ ∃ k ∈ attributes, (f.node k).name = name := by
    induction attributes generalizing found with
    | nil => simp
    | cons k attributes ih =>
      rw [List.foldl_cons, ih, Roster.mem_names_put, List.exists_mem_cons_iff, or_assoc,
        or_left_comm, eq_comm]
  rw [simpleProperties, hfold]
  constructor
  · rintro (hnone | ⟨k, hk, rfl⟩)
    · cases hnone
    · obtain ⟨hmem, hfree⟩ := mem_unreserved.1 hk
      exact ⟨k, hmem, rfl, (hf.not_isReserved_iff hmem).1 hfree⟩
  · rintro ⟨k, hk, rfl, hname⟩
    exact .inr ⟨k, mem_unreserved.2 ⟨hk, (hf.not_isReserved_iff hk).2 hname⟩, rfl⟩

end Forest

/-- Whatever a declaration says of itself stands in the attributes of its node. It refuses no
missing key. Among its simple properties are the attributes with a name that is not reserved, and
no other. -/
structure Declaration.ReadsOwnNode (u : World) (d : Declaration) : Prop where
  className : d.className u = u.forest.attributeText d.node "config-class"
  factoryName : d.factoryName u = u.forest.attributeText d.node "config-factory"
  factoryParameter :
    d.factoryParameter u = .ok (u.forest.attributeValue d.node "config-factoryParam")
  properties : d.properties u = .ok (u.forest.simpleProperties d.node)
  mem_names_iff : ∀ name, name ∈ (u.forest.simpleProperties d.node).names ↔
    ∃ k ∈ (u.forest.node d.node).attributes, (u.forest.node k).name = name ∧
      ∃ text, name = some text ∧ text.startsWith "config-" = false

namespace Declaration.Seated

variable (h : d.Seated w c u)

include h

theorem getProperty_attribute (hcommon : w.common = .standard) {key name : String}
    (hparse : Markers.standard.parse (some key) = .ok [.attr name]) :
    u.getProperty d.configuration (some key) = .ok (u.forest.attributeValue d.node name) := by
  obtain ⟨p, hview, -, -⟩ := h.view
  have hroot : u.root d.configuration = d.node := congrArg Configuration.root hview
  rw [World.getProperty, World.fetchNodes, h.markers_eq hcommon, hroot, Forest.select, hparse]
  simp [World.valuesOf, Forest.attributeValue, Forest.follow, Forest.step]

theorem getString_attribute (hcommon : w.common = .standard) (hinert : u.forest.InertAt d.node)
    {key name : String} (hparse : Markers.standard.parse (some key) = .ok [.attr name]) :
    u.getString d.configuration (some key) .null = u.forest.attributeText d.node name := by
  have hinert := hinert.first_attributeValue name
  have hsingle : u.getSingle d.configuration (some key) .null =
      .ok (u.forest.attributeValue d.node name).first := by
    rw [World.getSingle, h.getProperty_attribute hcommon hparse, ok_bind]
    split
    · rename_i hnull
      obtain ⟨p, hview, -, -⟩ := h.view
      rw [World.refusesMissing, hview, hnull]
      rfl
    · exact hinert.interpolate_eq
  rw [World.getString, hsingle, ok_bind]
  rfl

omit h in
theorem properties_eq (hinert : u.forest.InertAt d.node) :
    d.properties u = .ok (u.forest.simpleProperties d.node) := by
  have hfold (attributes : List NodeId) (found : Roster (Option String) Value)
      (hattributes : ∀ k ∈ attributes, (u.forest.node k).value.Inert) :
      attributes.foldlM (fun found k => do
        return Roster.put found (u.forest.node k).name
          (← d.interpolate u (u.forest.node k).value)) found =
        (Except.ok (attributes.foldl
          (fun found k => found.put (u.forest.node k).name (u.forest.node k).value) found) :
            Except Fault _) := by
    induction attributes generalizing found with
    | nil => rfl
    | cons k attributes ih =>
      rw [List.forall_mem_cons] at hattributes
      rw [List.foldlM_cons, interpolate, hattributes.1.interpolate_eq]
      exact ih _ hattributes.2
  exact hfold _ [] fun k hk => (hinert k (List.mem_of_mem_filter hk)).1

theorem readsOwnNode (hf : w.forest.WellFormed) (hcommon : w.common = .standard)
    (hinert : u.forest.InertAt d.node) : d.ReadsOwnNode u where
  className := h.getString_attribute hcommon hinert (by decide +kernel)
  factoryName := h.getString_attribute hcommon hinert (by decide +kernel)
  factoryParameter := h.getProperty_attribute hcommon (by decide +kernel)
  properties := properties_eq hinert
  mem_names_iff _ := (h.stands hf).wellFormed.mem_names_simpleProperties

end Declaration.Seated

namespace Forest

def toldTogether (told : NodeId → Except Fault Description) :
    List NodeId → Except Fault (Nested Description)
  | [j] => return .single (← told j)
  | nodes => return .multiple (← nodes.mapM told)

def toldUnder (f : Forest) (told : NodeId → Except Fault Description) (children : List NodeId)
    (name : Option String) : Except Fault (Option String × Nested Description) :=
  return (name, ← toldTogether told (children.filter fun j => (f.node j).name = name))

def toldOver (f : Forest) (i : NodeId) (described : List (Option String × Nested Description)) :
    Except Fault Description := do
  let className ← f.attributeText i "config-class"
  let factory ← f.attributeText i "config-factory"
  return .mk className factory (f.attributeValue i "config-factoryParam")
    (f.simpleProperties i) described

/-- What a node says, with its children and down to a depth. -/
def told (f : Forest) : Nat → NodeId → Except Fault Description
  | 0, i => f.toldOver i []
  | depth + 1, i => do
    let children := (f.node i).children
    let names := (children.map fun j => (f.node j).name).eraseDups
    f.toldOver i (← names.mapM (f.toldUnder (f.told depth) children))

theorem toldTogether_multiple {told : NodeId → Except Fault Description} {nodes : List NodeId}
    (h : 2 ≤ nodes.length) : toldTogether told nodes = do return .multiple (← nodes.mapM told) := by
  match nodes with
  | [] | [j] => simp at h
  | _ :: _ :: _ => rfl

theorem toldTogether_congr {told told' : NodeId → Except Fault Description} {nodes : List NodeId}
    (h : ∀ j ∈ nodes, told j = told' j) : toldTogether told nodes = toldTogether told' nodes := by
  have hmap : nodes.mapM told = nodes.mapM told' := by
    induction nodes with
    | nil => rfl
    | cons j nodes ih =>
      rw [List.forall_mem_cons] at h
      rw [List.mapM_cons, List.mapM_cons, h.1, ih h.2]
  match nodes with
  | [] => rfl
  | [j] => rw [toldTogether, toldTogether, h j (.head _)]
  | _ :: _ :: _ => rw [toldTogether_multiple (by simp), toldTogether_multiple (by simp), hmap]

theorem toldUnder_congr {f : Forest} {told told' : NodeId → Except Fault Description}
    {children : List NodeId} (h : ∀ j ∈ children, told j = told' j) :
    f.toldUnder told children = f.toldUnder told' children := by
  funext name
  rw [toldUnder, toldUnder, toldTogether_congr fun j hj => h j (List.mem_of_mem_filter hj)]

theorem WellFormed.told_eq {f : Forest} (hf : f.WellFormed) {i : NodeId} {depth depth' : Nat}
    (h : f.Room i depth) (h' : f.Room i depth') : f.told depth i = f.told depth' i := by
  induction depth generalizing i depth' with
  | zero => exact absurd h not_room_zero
  | succ depth ih =>
    cases depth' with
    | zero => exact absurd h' not_room_zero
    | succ depth' =>
      rw [told, told, toldUnder_congr fun j hj => ih (h.child hf hj) (h'.child hf hj)]

end Forest

theorem Nested.DeclaredBy.outcome_mapAction {n : Nested Declaration} {nodes : List NodeId}
    {act : Declaration → Action Description} {told : NodeId → Except Fault Description}
    (h : n.DeclaredBy nodes) (hkeeps : ∀ e, Keeps World.Widens (act e))
    (htold : ∀ e ∈ n.toList, ∀ v, u.Widens v → (act e).outcome v = told e.node) :
    (n.mapAction act).outcome u = Forest.toldTogether told nodes := by
  cases n with
  | single one =>
    subst h
    have hone := htold one (List.mem_singleton.2 rfl) u (.refl u)
    rw [mapAction, outcome_bind, hone]
    rfl
  | multiple all =>
    obtain ⟨rfl, hlength⟩ := h
    have hall : (all.mapM act).outcome u = _ := outcome_mapM hkeeps htold
    rw [Forest.toldTogether_multiple hlength, List.mapM_map, mapAction, outcome_bind, hall]
    rfl

namespace Declaration

theorem Groups.names_eq {nodes : List NodeId}
    {roster : Roster (Option String) (Nested Declaration)} (h : d.Groups u nodes roster) :
    roster.names = (nodes.map fun j => (u.forest.node j).name).eraseDups := by
  rw [h.names.eq_eraseDups]
  exact congrArg (@List.eraseDups _ · _) (lawful_beq_subsingleton _ _)

theorem Groups.outcome_describeEntry {v : World} {depth : Nat} {nodes : List NodeId}
    {roster : Roster (Option String) (Nested Declaration)}
    {entry : Option String × Nested Declaration} {told : NodeId → Except Fault Description}
    (h : d.Groups u nodes roster) (hentry : entry ∈ roster)
    (htold : ∀ e ∈ entry.2.toList, ∀ v', v.Widens v' → (e.describeTo depth).outcome v' =
      told e.node) :
    (describeEntry depth entry).outcome v = u.forest.toldUnder told nodes entry.1 := by
  rw [describeEntry, outcome_bind,
    (h.declared entry hentry).outcome_mapAction (keeps_describeTo · depth) htold]
  rfl

namespace Seated

theorem outcome_sayOver (h : d.Seated w c u) (hf : w.forest.WellFormed)
    (hcommon : w.common = .standard) (hinert : w.forest.InertAt d.node)
    (described : List (Option String × Nested Description)) :
    (d.sayOver described).outcome u = w.forest.toldOver d.node described := by
  rw [← h.widens.forest] at hinert ⊢
  have hreads := h.readsOwnNode hf hcommon hinert
  simp only [sayOver, outcome_bind, outcome_read, after_read, hreads.className,
    hreads.factoryName, hreads.factoryParameter, hreads.properties]
  rfl

/-- What a declaration says is what the tree does, wherever its view was made. -/
theorem outcome_describeTo (h : d.Seated w c u) (hf : w.forest.WellFormed)
    (hcommon : w.common = .standard)
    (hinert : ∀ i, w.forest.Nests d.node i → w.forest.InertAt i) (depth : Nat) :
    (d.describeTo depth).outcome u = w.forest.told depth d.node := by
  induction depth generalizing u d with
  | zero =>
    obtain ⟨roster, v, hnested, hwidens, -, -⟩ := (h.stands hf).run_nested
    rw [describeTo_zero, outcome_bind, outcome_of_run hnested, after_of_run hnested]
    exact (h.widen hwidens).outcome_sayOver hf hcommon (hinert _ .refl) []
  | succ depth ih =>
    obtain ⟨roster, v, hnested, hwidens, hgroups, hprecedes⟩ := (h.stands hf).run_nested
    have hforest : v.forest = w.forest := hwidens.forest.trans h.widens.forest
    rw [h.widens.forest] at hgroups
    have hentry : ∀ entry ∈ roster, ∀ v', v.Widens v' → (describeEntry depth entry).outcome v' =
        w.forest.toldUnder (w.forest.told depth) (w.forest.node d.node).children entry.1 := by
      intro entry hentry v' hv
      rw [← hforest, hgroups.outcome_describeEntry hentry fun e he v'' hv' => ?_, hforest]
      have hseat := (h.of_nested hwidens hgroups hprecedes hentry he).widen (hv.trans hv')
      exact ih hseat fun i hi => hinert i (.head (hgroups.mem_nodes hentry he) hi)
    have hkeeps := keeps_describeEntry (keeps_describeTo · depth)
    have hlast : v.Widens ((roster.mapM (describeEntry depth)).after v) := Keeps.mapM hkeeps v
    have hnames := hgroups.names_eq
    rw [hforest] at hnames
    rw [describeTo_succ, outcome_bind, outcome_of_run hnested, after_of_run hnested, ok_bind,
      outcome_bind, outcome_mapM hkeeps hentry, Forest.told, ← hnames, Roster.names, List.mapM_map]
    exact bind_congr fun described =>
      ((h.widen hwidens).widen hlast).outcome_sayOver hf hcommon (hinert _ .refl) described

end Seated

end Declaration

namespace Forest

variable {f : Forest}

theorem attributeText_refusals (f : Forest) (i : NodeId) (name : String) :
    RefusedOnlyFor .integerTooLong (f.attributeText i name) := by
  rw [attributeText]
  split
  · exact .ok none
  · exact .bind (Value.text_refusals _) fun _ => .ok _

theorem toldOver_refusals (f : Forest) (i : NodeId)
    (described : List (Option String × Nested Description)) :
    RefusedOnlyFor .integerTooLong (f.toldOver i described) :=
  .bind (f.attributeText_refusals i _) fun _ => .bind (f.attributeText_refusals i _) fun _ => .ok _

theorem toldTogether_refusals {told : NodeId → Except Fault Description}
    (h : ∀ j, RefusedOnlyFor .integerTooLong (told j)) (nodes : List NodeId) :
    RefusedOnlyFor .integerTooLong (toldTogether told nodes) := by
  rw [toldTogether.eq_def]
  split
  · exact .bind (h _) fun _ => .ok _
  · exact .bind (.mapM fun j _ => h j) fun _ => .ok _

/-- A description fails on nothing but an integer that is too long to be written. -/
theorem told_refusals (f : Forest) (depth : Nat) (i : NodeId) :
    RefusedOnlyFor .integerTooLong (f.told depth i) := by
  induction depth generalizing i with
  | zero => exact f.toldOver_refusals i []
  | succ depth ih =>
    refine .bind (.mapM fun name _ => ?_) (f.toldOver_refusals i)
    exact .bind (toldTogether_refusals ih _) fun _ => .ok _

end Forest

end Settings
