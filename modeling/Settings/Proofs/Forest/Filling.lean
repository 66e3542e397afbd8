import Settings.Configuration.View
import Settings.Proofs.Forest.Clearing
import Settings.Proofs.Forest.Walks

/-! # Filling a tree

The entries of a mapping are written below a node. What the tree has afterwards
along a path of names is what it had before and then what the mapping holds there;
the nodes elsewhere stay as they were.
-/

namespace Settings

namespace Value

variable {entries : Mapping}

def role? (key : Value) : Option EntryRole := key.text.toOption.map .ofKey

def noted (v : Value) : List (Value × Value) → Value
  | [] => v
  | (key, value) :: rest =>
    match key.role? with
    | some .ownValue => noted value rest
    | _ => noted v rest

def own : Value → Value
  | mapping entries => null.noted entries
  | v => v

def itemsOf (name : String) (e : Value × Value) : List Value :=
  match e.1.role? with
  | some (.child child) => if name = child then e.2.occurrences else []
  | _ => []

def itemsNamed : Value → String → List Value
  | mapping entries, name => entries.flatMap (itemsOf name)
  | _, _ => []

def held : Value → List String → List Value
  | v, [] => [v.own]
  | v, name :: names => (v.itemsNamed name).flatMap (·.held names)

/-- The keys that are read while a value is written as a tree have texts. -/
inductive Writable : Value → Prop
  | plain {v : Value} (hlist : ∀ items, v ≠ .list items)
      (hmapping : ∀ entries, v ≠ .mapping entries) : Writable v
  | list {items : List Value}
      (mappings : ∀ entries, .mapping entries ∈ items → Writable (.mapping entries)) :
      Writable (.list items)
  | mapping {entries : Mapping} (keys : ∀ e ∈ entries, ∃ text, e.1.text = .ok text)
      (children : ∀ e ∈ entries, ∀ name, e.1.role? = some (.child name) → Writable e.2) :
      Writable (.mapping entries)

theorem Writable.of_mem (h : Writable (.mapping entries)) :
    ∀ e ∈ entries, (∃ text, e.1.text = .ok text) ∧
      ∀ name, e.1.role? = some (.child name) → Writable e.2 := by
  cases h with
  | plain _ hmapping => exact absurd rfl (hmapping entries)
  | mapping keys children => exact fun e he => ⟨keys e he, children e he⟩

end Value

namespace Forest

variable {f g h : Forest} {i j c : NodeId} {b : Bool} {name : String} {names : List String}
  {value : Value} {entries : Mapping}

def valuesAlong (f : Forest) (i : NodeId) (names : List String) : List Value :=
  (f.follow [i] (names.map (.element · none))).map fun j => (f.node j).value

theorem valuesAlong_nil (f : Forest) (i : NodeId) : f.valuesAlong i [] = [(f.node i).value] := rfl

theorem valuesAlong_cons (f : Forest) (i : NodeId) (name : String) (names : List String) :
    f.valuesAlong i (name :: names) =
      (f.childrenNamed i (some name)).flatMap (f.valuesAlong · names) := by
  rw [valuesAlong, List.map_cons, follow, follow_eq_flatMap, List.flatMap_singleton,
    List.map_flatMap]
  rfl

theorem WellFormed.valuesAlong_congr (hf : f.WellFormed)
    (hsame : ∀ j, f.Above i j → g.node j = f.node j) (names : List String) :
    g.valuesAlong i names = f.valuesAlong i names := by
  induction names generalizing i with
  | nil => rw [valuesAlong_nil, valuesAlong_nil, hsame i .here]
  | cons name names ih =>
    have hchildren : g.childrenNamed i (some name) = f.childrenNamed i (some name) := by
      rw [childrenNamed, childrenNamed, hsame i .here]
      exact List.filter_congr fun c hc => by rw [hsame c (hf.above_child hc)]
    rw [valuesAlong_cons, valuesAlong_cons, hchildren]
    refine List.flatMap_congr fun c hc => ih fun j hj => hsame j ?_
    exact (hf.above_child (List.mem_of_mem_filter hc)).trans hj

/-- A forest holds the nodes of another as they were, but for one, which keeps its name. -/
structure GrowsAt (f : Forest) (i : NodeId) (g : Forest) : Prop where
  wellFormed : g.WellFormed
  size_le : f.size ≤ g.size
  node_eq : ∀ j, f.Has j → j ≠ i → g.node j = f.node j
  name_eq : (g.node i).name = (f.node i).name

namespace GrowsAt

theorem refl (hf : f.WellFormed) (i : NodeId) : f.GrowsAt i f :=
  ⟨hf, Nat.le_refl _, fun _ _ _ => rfl, rfl⟩

theorem has (hfg : f.GrowsAt i g) (hj : f.Has j) : g.Has j :=
  Nat.lt_of_lt_of_le hj hfg.size_le

theorem trans (hfg : f.GrowsAt i g) (hgh : g.GrowsAt i h) : f.GrowsAt i h where
  wellFormed := hgh.wellFormed
  size_le := Nat.le_trans hfg.size_le hgh.size_le
  node_eq j hj hne := (hgh.node_eq j (hfg.has hj) hne).trans (hfg.node_eq j hj hne)
  name_eq := hgh.name_eq.trans hfg.name_eq

theorem node_eq_below (hfg : f.GrowsAt i g) (hf : f.WellFormed)
    (hc : (f.node c).parent = some i) (hj : f.Above c j) : g.node j = f.node j := by
  refine hfg.node_eq j ?_ ?_
  · cases hj with
    | here => exact has_of_parent hc
    | up hp _ => exact has_of_parent hp
  · rintro rfl
    exact (hf.rooted c).not_above_parent hc hj

/-- Values along a path are found where they were, and then below the children that
came to be. -/
theorem valuesAlong_eq (hfg : f.GrowsAt i g) (hf : f.WellFormed) {new : List NodeId}
    (hnew : (g.node i).children = (f.node i).children ++ new) (name : String)
    (names : List String) :
    g.valuesAlong i (name :: names) = f.valuesAlong i (name :: names) ++
      (new.filter fun c => (g.node c).name = some name).flatMap (g.valuesAlong · names) := by
  have hsame : ∀ c ∈ (f.node i).children, ∀ j, f.Above c j → g.node j = f.node j :=
    fun c hc j hj => hfg.node_eq_below hf ((hf.mem_children_iff i c).1 hc).1 hj
  have hold : (f.node i).children.filter (fun c => (g.node c).name = some name) =
      f.childrenNamed i (some name) :=
    List.filter_congr fun c hc => by rw [hsame c hc c .here]
  rw [valuesAlong_cons, valuesAlong_cons, childrenNamed, hnew, List.filter_append,
    List.flatMap_append, hold]
  congr 1
  refine List.flatMap_congr fun c hc => hf.valuesAlong_congr (hsame c ?_) names
  exact List.mem_of_mem_filter hc

end GrowsAt

theorem growsAt_createLinked (hf : f.WellFormed) (hi : f.Has i) (name : String) (value : Value)
    (b : Bool) : f.GrowsAt i (f.createLinked i name value b).2 where
  wellFormed := hf.createLinked hi
  size_le := by simp
  node_eq j hj hne := by simp [node_createLinked hf.consistent hi, hj.ne_new, hne]
  name_eq := by simp [node_createLinked hf.consistent hi, hi.ne_new]

theorem node_createChild (hf : f.WellFormed) (hi : f.Has i) (name : String) (value : Value) :
    (f.createChild i name value).2.node ⟨f.size⟩ = ⟨some name, value, false, some i, [], []⟩ := by
  have hnode : (f.createChild i name value).2.node ⟨f.size⟩ = _ :=
    node_createLinked (b := false) hf.consistent hi ⟨f.size⟩
  rw [hnode, if_pos rfl]

theorem has_createChild (f : Forest) (i : NodeId) (name : String) (value : Value) :
    (f.createChild i name value).2.Has ⟨f.size⟩ :=
  (has_createLinked (b := false)).2 (.inr rfl)

/-- A node of a forest was filled: it has a value now, and behind what it had, for
every name some more items. -/
structure Filled (f : Forest) (i : NodeId) (g : Forest) (value : Value)
    (items : String → List Value) : Prop where
  growsAt : f.GrowsAt i g
  value_eq : (g.node i).value = value
  valuesAlong_eq : ∀ name names, g.valuesAlong i (name :: names) =
    f.valuesAlong i (name :: names) ++ (items name).flatMap (·.held names)

theorem Filled.trans {value value' : Value} {items items' : String → List Value}
    (hfg : f.Filled i g value items) (hgh : g.Filled i h value' items') :
    f.Filled i h value' fun name => items name ++ items' name where
  growsAt := hfg.growsAt.trans hgh.growsAt
  value_eq := hgh.value_eq
  valuesAlong_eq name names := by
    rw [hgh.valuesAlong_eq, hfg.valuesAlong_eq, List.flatMap_append, List.append_assoc]

theorem GrowsAt.filled (hfg : f.GrowsAt i g) (hf : f.WellFormed)
    (hchildren : (g.node i).children = (f.node i).children) :
    f.Filled i g (g.node i).value fun _ => [] where
  growsAt := hfg
  value_eq := rfl
  valuesAlong_eq name names := by
    have hnew : (g.node i).children = (f.node i).children ++ [] := by simpa using hchildren
    rw [hfg.valuesAlong_eq hf hnew]
    rfl

theorem filled_setValue (hf : f.WellFormed) (hi : f.Has i) (value : Value) :
    f.Filled i (f.setValue i value) value fun _ => [] := by
  have hnode (j : NodeId) : (f.setValue i value).node j =
      if j = i then { f.node j with value } else f.node j := by
    rw [setValue, node_modify]
    simp [hi]
  have hgrows : f.GrowsAt i (f.setValue i value) :=
    ⟨hf.setValue i value, by simp [setValue], fun j _ hne => by rw [hnode, if_neg hne],
      by rw [hnode, if_pos rfl]⟩
  have hfilled := hgrows.filled hf (by rw [hnode, if_pos rfl])
  rwa [hnode, if_pos rfl] at hfilled

theorem filled_createAttributes (hf : f.WellFormed) (hi : f.Has i) (name : String)
    (values : List Value) :
    f.Filled i (values.foldl (·.createAttribute i name ·) f) (f.node i).value fun _ => [] := by
  induction values generalizing f with
  | nil => exact (GrowsAt.refl hf i).filled hf rfl
  | cons value values ih =>
    have hgrows : f.GrowsAt i (f.createAttribute i name value) :=
      growsAt_createLinked hf hi name value true
    have hnode : (f.createAttribute i name value).node i = _ :=
      node_createLinked (b := true) hf.consistent hi i
    rw [if_neg hi.ne_new] at hnode
    have hfilled := (hgrows.filled hf (by simp [hnode])).trans
      (ih hgrows.wellFormed (hgrows.has hi))
    rwa [hnode] at hfilled

section

variable {first : Value} (hf : f.WellFormed) (hi : f.Has i)
  (hchild : GrowsAt (f.createChild i name first).2 ⟨f.size⟩ g)
include hf hi hchild

theorem node_of_child :
    g.node i = { f.node i with children := (f.node i).children ++ [⟨f.size⟩] } := by
  have hcreated : f.GrowsAt i (f.createChild i name first).2 :=
    growsAt_createLinked hf hi name first false
  have hnode : (f.createChild i name first).2.node i = _ :=
    node_createLinked (b := false) hf.consistent hi i
  rw [hchild.node_eq i (hcreated.has hi) hi.ne_new, hnode, if_neg hi.ne_new]
  simp

theorem name_of_child : (g.node ⟨f.size⟩).name = some name := by
  rw [hchild.name_eq, node_createChild hf hi]

theorem growsAt_of_child : f.GrowsAt i g := by
  have hcreated : f.GrowsAt i (f.createChild i name first).2 :=
    growsAt_createLinked hf hi name first false
  refine ⟨hchild.wellFormed, Nat.le_trans hcreated.size_le hchild.size_le, fun j hj hne => ?_, ?_⟩
  · exact (hchild.node_eq j (hcreated.has hj) hj.ne_new).trans (hcreated.node_eq j hj hne)
  · rw [node_of_child hf hi hchild]

end

/-- A new child, with what is then written below it, is the item it stands for. -/
theorem filled_child (hf : f.WellFormed) (hi : f.Has i) {first v : Value}
    (hchild : Filled (f.createChild i name first).2 ⟨f.size⟩ g v.own v.itemsNamed) :
    f.Filled i g (f.node i).value fun n => if n = name then [v] else [] := by
  have hgrows : f.GrowsAt i g := growsAt_of_child hf hi hchild.growsAt
  have hnode := node_of_child hf hi hchild.growsAt
  have hname := name_of_child hf hi hchild.growsAt
  have hheld (names : List String) : g.valuesAlong ⟨f.size⟩ names = v.held names := by
    cases names with
    | nil => rw [valuesAlong_nil, hchild.value_eq]; rfl
    | cons name names =>
      rw [hchild.valuesAlong_eq, valuesAlong_cons, childrenNamed, node_createChild hf hi]
      rfl
  refine ⟨hgrows, by rw [hnode], fun n names => ?_⟩
  rw [hgrows.valuesAlong_eq hf (by rw [hnode]), List.filter_singleton, hname]
  congr 1
  by_cases hn : n = name
  · simp [hn, hheld]
  · simp [hn, Ne.symm hn]

theorem addOccurrences_mapping (f : Forest) (i : NodeId) (name : String) (entries : Mapping) :
    f.addOccurrences i name (.mapping entries) =
      (f.createChild i name .null).2.fill ⟨f.size⟩ entries := by
  rw [addOccurrences]
  rfl

theorem addItems_mapping (f : Forest) (i : NodeId) (name : String) (entries : Mapping)
    (items : List Value) :
    f.addItems i name (.mapping entries :: items) =
      f.addOccurrences i name (.mapping entries) >>= (·.addItems i name items) := by
  rw [addItems, addOccurrences_mapping]
  rfl

/-- An entry with this value can be written anywhere, and there are the items of the value
more then. -/
def Writes (v : Value) : Prop :=
  ∀ (f : Forest) (i : NodeId) (name : String), f.WellFormed → f.Has i →
    ∃ g, f.addOccurrences i name v = .ok g ∧
      f.Filled i g (f.node i).value fun n => if n = name then v.occurrences else []

theorem filled_createChild (hf : f.WellFormed) (hi : f.Has i) (name : String) {v : Value}
    (hv : ∀ entries, v ≠ .mapping entries) :
    f.Filled i (f.createChild i name v).2 (f.node i).value
      fun n => if n = name then [v] else [] := by
  have hgrows : f.GrowsAt i (f.createChild i name v).2 := growsAt_createLinked hf hi name v false
  have hown : v.own = v := by cases v <;> first | rfl | exact absurd rfl (hv _)
  have hitems (n : String) : v.itemsNamed n = [] := by
    cases v <;> first | rfl | exact absurd rfl (hv _)
  have hchild : Filled (f.createChild i name v).2 ⟨f.size⟩ (f.createChild i name v).2 v.own
      v.itemsNamed := by
    refine ⟨.refl hgrows.wellFormed _, ?_, fun n names => ?_⟩
    · rw [node_createChild hf hi, hown]
    · rw [hitems, List.flatMap_nil, List.append_nil]
  exact filled_child hf hi hchild

theorem exists_addItems (name : String) {items : List Value}
    (h : ∀ entries, .mapping entries ∈ items → Writes (.mapping entries)) (hf : f.WellFormed)
    (hi : f.Has i) :
    ∃ g, f.addItems i name items = .ok g ∧
      f.Filled i g (f.node i).value fun n => if n = name then items else [] := by
  induction items generalizing f with
  | nil =>
    refine ⟨f, by rw [addItems], ?_⟩
    simpa using (GrowsAt.refl hf i).filled hf rfl
  | cons v items ih =>
    have hfirst : ∃ g, f.addItems i name (v :: items) = g.addItems i name items ∧
        f.Filled i g (f.node i).value fun n => if n = name then [v] else [] := by
      by_cases hv : ∃ entries, v = .mapping entries
      · obtain ⟨entries, rfl⟩ := hv
        obtain ⟨g, hg, hfilled⟩ := h entries List.mem_cons_self f i name hf hi
        exact ⟨g, by rw [addItems_mapping, hg, ok_bind], hfilled⟩
      · rw [not_exists] at hv
        refine ⟨_, ?_, filled_createChild hf hi name hv⟩
        rw [addItems]
        exact hv
    obtain ⟨g, hg, hfilled⟩ := hfirst
    obtain ⟨g', hg', hfilled'⟩ := ih (fun entries he => h entries (List.mem_cons_of_mem v he))
      hfilled.growsAt.wellFormed (hfilled.growsAt.has hi)
    refine ⟨g', hg.trans hg', ?_⟩
    have htrans := hfilled.trans hfilled'
    rw [hfilled.value_eq] at htrans
    convert htrans using 2 with n
    split <;> rfl

theorem fill_cons {key : Value} {text : String} (h : key.text = .ok text) (f : Forest)
    (i : NodeId) (value : Value) (entries : Mapping) :
    f.fill i ((key, value) :: entries) =
      match EntryRole.ofKey text with
      | .ownValue => fill (f.setValue i value) i entries
      | .attr name => fill (value.occurrences.foldl (·.createAttribute i name ·) f) i entries
      | .child name => f.addOccurrences i name value >>= (fill · i entries) := by
  rw [fill, h]
  rfl

theorem exists_fill (h : ∀ e ∈ entries, (∃ text, e.1.text = .ok text) ∧
      ∀ name, e.1.role? = some (.child name) → Writes e.2)
    (hf : f.WellFormed) (hi : f.Has i) :
    ∃ g, f.fill i entries = .ok g ∧
      f.Filled i g ((f.node i).value.noted entries) (Value.mapping entries).itemsNamed := by
  induction entries generalizing f with
  | nil =>
    refine ⟨f, by rw [fill], ?_⟩
    exact (GrowsAt.refl hf i).filled hf rfl
  | cons e entries ih =>
    obtain ⟨key, value⟩ := e
    obtain ⟨⟨⟨text, htext⟩, hvalue⟩, hrest⟩ := List.forall_mem_cons.1 h
    dsimp only at htext hvalue
    have hrole : key.role? = some (.ofKey text) := by rw [Value.role?, htext]; rfl
    have hfirst : ∃ g, f.fill i ((key, value) :: entries) = g.fill i entries ∧
        f.Filled i g ((f.node i).value.noted [(key, value)]) (Value.itemsOf · (key, value)) := by
      rw [fill_cons htext, Value.noted, Value.noted]
      simp only [Value.itemsOf, hrole]
      cases hkind : EntryRole.ofKey text with
      | ownValue => exact ⟨_, rfl, filled_setValue hf hi value⟩
      | attr name => exact ⟨_, rfl, filled_createAttributes hf hi name _⟩
      | child name =>
        obtain ⟨g, hg, hfilled⟩ := hvalue name (hrole.trans (congrArg some hkind)) f i name hf hi
        exact ⟨g, by dsimp only; rw [hg, ok_bind], hfilled⟩
    obtain ⟨g, hg, hfilled⟩ := hfirst
    obtain ⟨g', hg', hfilled'⟩ := ih hrest hfilled.growsAt.wellFormed (hfilled.growsAt.has hi)
    refine ⟨g', hg.trans hg', ?_⟩
    have htrans := hfilled.trans hfilled'
    have hnoted : (g.node i).value.noted entries =
        (f.node i).value.noted ((key, value) :: entries) := by
      rw [hfilled.value_eq]
      simp only [Value.noted]
      cases key.role? with
      | none => rfl
      | some role => cases role <;> rfl
    rwa [hnoted] at htrans

theorem writes_of_writable {v : Value} (hv : v.Writable) : Writes v := by
  induction hv with
  | @plain v hlist hmapping =>
    intro f i name hf hi
    have hoccurrences : v.occurrences = [v] := by
      cases v <;> first | rfl | exact absurd rfl (hlist _)
    rw [hoccurrences]
    refine ⟨_, ?_, filled_createChild hf hi name hmapping⟩
    rw [addOccurrences]
    · exact hlist
    · exact hmapping
  | @list items _ ih =>
    intro f i name hf hi
    rw [addOccurrences]
    exact exists_addItems name ih hf hi
  | @mapping entries keys _ ih =>
    intro f i name hf hi
    rw [addOccurrences_mapping]
    have hgrows : f.GrowsAt i (f.createChild i name .null).2 :=
      growsAt_createLinked hf hi name .null false
    obtain ⟨g, hg, hfilled⟩ := exists_fill (fun e he => ⟨keys e he, ih e he⟩) hgrows.wellFormed
      (has_createChild f i name .null)
    rw [node_createChild hf hi] at hfilled
    exact ⟨g, hg, filled_child hf hi hfilled⟩

/-- The entries of a mapping can be written below any node, and what the mapping holds along
a path is found behind what was there. -/
theorem exists_fill_of_writable (h : (Value.mapping entries).Writable) (hf : f.WellFormed)
    (hi : f.Has i) :
    ∃ g, f.fill i entries = .ok g ∧
      f.Filled i g ((f.node i).value.noted entries) (Value.mapping entries).itemsNamed :=
  exists_fill (fun e he => (h.of_mem e he).imp_right fun hchild name hrole =>
    writes_of_writable (hchild name hrole)) hf hi

end Forest

theorem run_createFromMapping {w : World} {entries : Mapping} {g : Forest}
    (hg : (w.forest.create none .null false).2.fill ⟨w.forest.size⟩ entries = .ok g) :
    ∃ c w', (createFromMapping entries).run w = .ok c w' ∧ w'.forest = g ∧
      w'.configuration c = .rootedAt ⟨w.forest.size⟩ none ∧ w'.common = w.common := by
  let w' : World := { w with
    forest := g, configurations := w.configurations.push (.rootedAt ⟨w.forest.size⟩ none) }
  refine ⟨⟨w.configurations.size⟩, w', ?_, rfl, by simp [w', World.configuration], rfl⟩
  have hof : w.forest.ofMapping entries = .ok (⟨w.forest.size⟩, g) := by
    rw [Forest.ofMapping]
    change (do return (_, ← Forest.fill (w.forest.create none .null false).2 ⟨w.forest.size⟩
      entries)) = _
    rw [hg]
    rfl
  rw [createFromMapping, EStateM.run_bind, EStateM.run_get]
  dsimp only
  rw [hof]
  rfl

end Settings
