import Settings.Proofs.Evolution
import Settings.Proofs.Forest.Insertion
import Settings.Proofs.Forest.Pruning

/-! # Reading back what was set

Setting a property writes into the nodes of its key, clears those left over
and adds those still missing. Under a key without indices the nodes that bear
a value afterwards are the written ones and, behind them, the added ones.
-/

namespace Settings

open Settings.Action

variable {w w' : World} {c : ConfigurationId} {key : Option String} {value : Value}
  {parts : List KeyPart} {nodes : List NodeId} {values : List Value} {α β : Type}

theorem run_announce_of_silent {event : Event}
    (h : (w.configuration event.source).listeners = []) : (announce event).run w = .ok () w := by
  have hall (nested : Announcer) : (deliverAll nested event).run w = .ok () w := by
    simp only [deliverAll, EStateM.run_bind, EStateM.run_get, h]
    rfl
  simp only [announce, EStateM.run_bind, EStateM.run_get]
  cases w.pendingMutations <;> exact hall _

def Forest.setValues (f : Forest) (writes : List (NodeId × Value)) : Forest :=
  writes.foldl (fun f (i, v) => f.setValue i v) f

theorem run_overwrite (nodes : List NodeId) (values : List Value) (w : World) :
    (ConfigurationId.overwrite nodes values).run w =
      .ok () { w with forest := w.forest.setValues (nodes.zip values) } := by
  unfold ConfigurationId.overwrite
  induction nodes.zip values generalizing w with
  | nil => rfl
  | cons write writes ih => exact ih _

theorem run_clearNodes (nodes : List NodeId) (w : World) :
    (c.clearNodes nodes).run w =
      .ok () { w with forest := w.forest.clearAll (w.root c) nodes } := by
  unfold ConfigurationId.clearNodes
  induction nodes generalizing w with
  | nil => rfl
  | cons i nodes ih => exact ih _

namespace Forest

variable {f : Forest} {i : NodeId} {writes : List (NodeId × Value)}

theorem value_setValues_of_not_mem (hhas : ∀ i ∈ writes.map Prod.fst, f.Has i)
    (hi : i ∉ writes.map Prod.fst) : ((f.setValues writes).node i).value = (f.node i).value := by
  induction writes generalizing f with
  | nil => rfl
  | cons write writes ih =>
    simp only [List.map_cons, List.mem_cons, not_or, forall_eq_or_imp] at hhas hi
    refine (ih (f := f.setValue write.1 write.2) ?_ hi.2).trans ?_
    · simpa [Has] using hhas.2
    · rw [value_setValue hhas.1, if_neg hi.1]

theorem setValues_spec (hf : f.WellFormed) (hhas : ∀ i ∈ writes.map Prod.fst, f.Has i)
    (hnodup : (writes.map Prod.fst).Nodup) :
    (f.setValues writes).WellFormed ∧ (f.setValues writes).size = f.size ∧
      (∀ nodes parts, (f.setValues writes).follow nodes parts = f.follow nodes parts) ∧
      ∀ write ∈ writes, ((f.setValues writes).node write.1).value = write.2 := by
  induction writes generalizing f with
  | nil => exact ⟨hf, rfl, fun _ _ => rfl, fun _ h => absurd h List.not_mem_nil⟩
  | cons write writes ih =>
    simp only [List.map_cons, List.mem_cons, forall_eq_or_imp, List.nodup_cons] at hhas hnodup
    have hrest : ∀ i ∈ writes.map Prod.fst, (f.setValue write.1 write.2).Has i := by
      simpa [Has] using hhas.2
    obtain ⟨hwf, hsize, hfollow, hvalue⟩ := ih (hf.setValue write.1 write.2) hrest hnodup.2
    refine ⟨hwf, hsize.trans (size_setValue f write.1 write.2), fun nodes parts => ?_, ?_⟩
    · exact (hfollow nodes parts).trans (follow_setValue hf write.1 write.2 nodes parts)
    · rintro later (_ | ⟨_, hlater⟩)
      · refine (value_setValues_of_not_mem hrest hnodup.1).trans ?_
        rw [value_setValue hhas.1, if_pos rfl]
      · exact hvalue later hlater

end Forest

/-- What adding nodes for a key to a forest gives: the nodes of the key go on
with the new ones, which bear the values. -/
structure Added (root : NodeId) (parts : List KeyPart) (values : List Value) (f g : Forest)
    (created : List NodeId) : Prop where
  extend : f.Extends g
  fresh : ∀ i ∈ created, ¬ f.Has i
  has : ∀ i ∈ created, g.Has i
  follow_eq : g.follow [root] parts = f.follow [root] parts ++ created
  values_eq : created.map (fun i => (g.node i).value) = values

theorem Added.cons {root i : NodeId} {created : List NodeId} {f g h : Forest}
    (hg : Added root parts [value] f g [i]) (hh : Added root parts values g h created) :
    Added root parts (value :: values) f h (i :: created) where
  extend := hg.extend.trans hh.extend
  fresh := by
    rintro j (_ | ⟨_, hj⟩)
    · exact hg.fresh i (by simp)
    · exact fun hold => hh.fresh j hj (hg.extend.has hold)
  has := by
    rintro j (_ | ⟨_, hj⟩)
    · exact hh.extend.has (hg.has i (by simp))
    · exact hh.has j hj
  follow_eq := by rw [hh.follow_eq, hg.follow_eq, List.append_assoc, List.singleton_append]
  values_eq := by
    have hvalue := hg.values_eq
    rw [List.map_singleton] at hvalue
    rw [List.map_cons, hh.values_eq, hh.extend.value_eq (hg.has i (by simp)),
      List.singleton_inj.1 hvalue]

theorem Forest.added_insertNode {f : Forest} {root : NodeId} {path : List KeyPart} {last : KeyPart}
    (hf : f.WellFormed) (hroot : f.Has root)
    (hpath : ∀ part ∈ path, part.index? = none ∧ part.isAttribute = false)
    (hlast : last.index? = none) (value : Value) :
    Added root (path ++ [last]) [value] f (f.insertNode (f.place root path last) value).2
      [(f.insertNode (f.place root path last) value).1] := by
  have hplace : f.Has (f.place root path last).parent := hf.has_deepest hroot
  have hspec := insertNode_spec hf.consistent hplace value
  have hlayer : f.Layer ([] ++ [root]) := .singleton hroot
  exact {
    extend := hspec.2.1
    fresh := by simpa using not_has_insertNode hf hplace
    has := by simpa using hspec.2.2
    follow_eq := follow_insertNode hf hlayer hpath hlast
    values_eq := by rw [List.map_singleton, value_insertNode hf hplace] }

theorem run_addEach_ok (hf : w.forest.WellFormed) (hroot : w.forest.Has (w.root c))
    (hparse : (w.markers c).parse key = .ok parts) (hplain : ∀ part ∈ parts, part.index? = none)
    (hrun : (c.addEach key values).run w = .ok () w') :
    ∃ g created, w' = { w with forest := g } ∧
      Added (w.root c) parts values w.forest g created := by
  induction values generalizing w with
  | nil =>
    cases hrun
    exact ⟨w'.forest, [], rfl, .refl _, by simp, by simp, by simp, rfl⟩
  | cons value values ih =>
    obtain ⟨_, u, hadd, hrest⟩ := run_bind_ok.1 hrun
    obtain ⟨place, v, hread, hadd⟩ := run_bind_ok.1 hadd
    obtain ⟨hplace, rfl⟩ := run_read_ok.1 hread
    cases hadd
    obtain ⟨path, last, hpath, hkinds, rfl⟩ := Forest.prepareAdd_eq_ok.1 hplace
    obtain rfl := Except.ok.inj (hparse.symm.trans hpath)
    have hpath : ∀ part ∈ path, part.index? = none ∧ part.isAttribute = false := fun part hpart =>
      ⟨hplain part (List.mem_append_left _ hpart), hkinds part hpart⟩
    have hadded := Forest.added_insertNode hf hroot hpath (hplain last (by simp)) value
    have hplace : w.forest.Has (w.forest.place (w.root c) path last).parent := hf.has_deepest hroot
    have hwf := hf.insertNode hplace value
    obtain ⟨g, created, rfl, hcreated⟩ := ih (w := { w with forest := _ }) hwf
      (hadded.extend.has hroot) hparse hrest
    exact ⟨g, _, rfl, hadded.cons hcreated⟩

/-- The world when the values of a property are written into its nodes, the
surplus nodes are cleared, and none is added yet. -/
def World.rewritten (w : World) (c : ConfigurationId) (nodes : List NodeId)
    (values : List Value) : World :=
  { w with forest :=
    (w.forest.setValues (nodes.zip values)).clearAll (w.root c) (nodes.drop values.length) }

theorem run_setProperty_ok (hsilent : (w.configuration c).listeners = [])
    (hfetch : w.fetchNodes c key = .ok nodes)
    (hrun : (c.setProperty key value).run w = .ok () w') :
    ∃ u, (c.addEach key (value.spread.drop nodes.length)).run
        (w.rewritten c nodes value.spread) = .ok () u ∧
      (announce ⟨c, Event.setProperty, key, .value value, false⟩).run u = .ok () w' := by
  have hphases : EStateM.run (do
      announce ⟨c, Event.setProperty, key, .value value, true⟩
      ConfigurationId.overwrite nodes value.spread
      c.clearNodes (nodes.drop value.spread.length)
      c.addEach key (value.spread.drop nodes.length)
      announce ⟨c, Event.setProperty, key, .value value, false⟩) w = .ok () w' := by
    obtain ⟨_, _, hread, hrun⟩ := run_bind_ok.1 hrun
    obtain ⟨hnodes, rfl⟩ := run_read_ok.1 hread
    obtain rfl := Except.ok.inj (hfetch.symm.trans hnodes)
    dsimp only at hrun
    split at hrun
    · obtain ⟨_, _, hread, hrun⟩ := run_bind_ok.1 hrun
      obtain ⟨-, rfl⟩ := run_read_ok.1 hread
      exact hrun
    · exact hrun
  obtain ⟨_, _, hannounce, hphases⟩ := run_bind_ok.1 hphases
  rw [run_announce_of_silent hsilent] at hannounce
  cases hannounce
  obtain ⟨_, _, hwrite, hphases⟩ := run_bind_ok.1 hphases
  rw [run_overwrite] at hwrite
  cases hwrite
  obtain ⟨_, _, hclear, hphases⟩ := run_bind_ok.1 hphases
  rw [run_clearNodes] at hclear
  cases hclear
  obtain ⟨_, u, hadd, hlast⟩ := run_bind_ok.1 hphases
  exact ⟨u, hadd, hlast⟩

theorem World.valuesOf_eq (w : World) (nodes : List NodeId) :
    w.valuesOf nodes = (w.forest.bearing nodes).map fun i => (w.forest.node i).value := by
  simp only [valuesOf, Forest.bearing, List.filter_map]
  rfl

theorem map_fst_zip (nodes : List NodeId) (values : List Value) :
    (nodes.zip values).map Prod.fst = nodes.take values.length := by
  rw [List.zip_eq_zip_take_min, List.map_fst_zip (by simp), List.take_eq_take_iff]
  omega

theorem map_snd_zip (nodes : List NodeId) (values : List Value) :
    (nodes.zip values).map Prod.snd = values.take nodes.length := by
  rw [List.zip_eq_zip_take_min, List.map_snd_zip (by simp), List.take_eq_take_iff]
  omega

/-- What the rewriting leaves of the nodes of a key: those that were written to. -/
theorem World.rewritten_spec {old : List NodeId} (hf : w.forest.WellFormed)
    (hold : w.forest.Layer old) (hfollow : w.forest.follow [w.root c] parts = old)
    (hplain : ∀ part ∈ parts, part.index? = none) (values : List Value) :
    let g := (w.rewritten c old values).forest
    g.WellFormed ∧ g.size = w.forest.size ∧
      g.bearing (g.follow [w.root c] parts) = g.bearing (old.take values.length) ∧
      (old.take values.length).map (fun i => (g.node i).value) = values.take old.length := by
  have hhas : ∀ i ∈ (old.zip values).map Prod.fst, w.forest.Has i := by
    rw [map_fst_zip]
    exact fun i hi => hold.has i (List.mem_of_mem_take hi)
  have hnodup : ((old.zip values).map Prod.fst).Nodup := by
    rw [map_fst_zip]
    exact hold.nodup.sublist (List.take_sublist _ _)
  obtain ⟨hwf, hsize, hsame, hwritten⟩ := Forest.setValues_spec hf hhas hnodup
  have hsurplus : ∀ i ∈ old.drop values.length, (w.forest.setValues (old.zip values)).Has i := by
    intro i hi
    rw [Forest.Has, hsize]
    exact hold.has i (List.mem_of_mem_drop hi)
  obtain ⟨hvalue, hbearing⟩ := Forest.clearAll_spec hwf hsurplus hplain (w.root c)
  have hapart : ∀ i ∈ old.take values.length, i ∉ old.drop values.length :=
    fun i hi hi' => List.disjoint_take_drop hold.nodup (Nat.le_refl _) hi hi'
  refine ⟨hwf.clearAll _ _, (Forest.size_clearAll _ _ _).trans hsize, hbearing.trans ?_, ?_⟩
  · have hkept : old.filter (· ∉ old.drop values.length) = old.take values.length := by
      have hsplit := List.filter_append (p := fun i => decide (i ∉ old.drop values.length))
        (old.take values.length) (old.drop values.length)
      rw [List.take_append_drop] at hsplit
      rw [hsplit, List.filter_eq_self.2 (by simpa using hapart),
        List.filter_eq_nil_iff.2 (by simp), List.append_nil]
    rw [hsame, hfollow, Forest.bearing, List.filter_comm, hkept]
    exact (Forest.bearing_congr fun i hi => hvalue i (hapart i hi)).symm
  · rw [← map_snd_zip, ← map_fst_zip, List.map_map]
    refine List.map_congr_left fun write hwrite => ?_
    have hmem : write.1 ∈ old.take values.length :=
      map_fst_zip old values ▸ List.mem_map_of_mem hwrite
    exact (hvalue _ (hapart _ hmem)).trans (hwritten write hwrite)

/-- After a property is set, the nodes of its key that bear a value are the
first of the old ones, as many as there are values, and new ones behind them;
their values are the values set. -/
theorem World.valuesOf_setProperty (hf : w.forest.WellFormed) (hroot : w.forest.Has (w.root c))
    (hsilent : (w.configuration c).listeners = [])
    (hparse : (w.markers c).parse key = .ok parts) (hplain : ∀ part ∈ parts, part.index? = none)
    (hrun : (c.setProperty key value).run w = .ok () w') :
    ∃ old created nodes, w.fetchNodes c key = .ok old ∧ (∀ i ∈ created, ¬ w.forest.Has i) ∧
      w'.fetchNodes c key = .ok nodes ∧
      w'.forest.bearing nodes =
        w'.forest.bearing (old.take value.spread.length ++ created) ∧
      w'.valuesOf nodes = value.spread.filter (!·.isNull) := by
  have hfetch (u : World) (hu : u.markers c = w.markers c) :
      u.fetchNodes c key = .ok (u.forest.follow [u.root c] parts) :=
    Forest.select_eq_ok.2 ⟨parts, hu ▸ hparse, rfl⟩
  obtain ⟨u, hadd, hannounce⟩ := run_setProperty_ok hsilent (hfetch w rfl) hrun
  have hold := (Forest.Layer.singleton hroot).follow hf parts
  have hfetch' := hfetch w rfl
  generalize hfollow : w.forest.follow [w.root c] parts = old at hadd hold hfetch'
  obtain ⟨hwf, hsize, hkept, htaken⟩ := rewritten_spec hf hold hfollow hplain value.spread
  have hhas {i : NodeId} : (w.rewritten c old value.spread).forest.Has i ↔ w.forest.Has i := by
    rw [Forest.Has, hsize, Forest.Has]
  obtain ⟨g, created, rfl, hadded⟩ := run_addEach_ok hwf (hhas.2 hroot) hparse hplain hadd
  rw [run_announce_of_silent hsilent] at hannounce
  cases hannounce
  have hreached := (Forest.Layer.singleton (hhas.2 hroot)).follow hwf parts
  have hbearing : g.bearing (g.follow [w.root c] parts) =
      g.bearing (old.take value.spread.length ++ created) := by
    have hgrown {nodes : List NodeId} (h : ∀ i ∈ nodes, w.forest.Has i) : g.bearing nodes =
        (w.rewritten c old value.spread).forest.bearing nodes :=
      Forest.bearing_congr fun i hi => hadded.extend.value_eq (hhas.2 (h i hi))
    rw [Forest.bearing_append, hgrown fun i hi => hold.has i (List.mem_of_mem_take hi), ← hkept,
      ← hgrown fun i hi => hhas.1 (hreached.has i hi), ← Forest.bearing_append]
    exact congrArg g.bearing hadded.follow_eq
  refine ⟨old, created, _, hfetch', fun i hi h => hadded.fresh i hi (hhas.2 h), hfetch _ rfl,
    hbearing, ?_⟩
  have hsame : (old.take value.spread.length).map (fun i => (g.node i).value) =
      value.spread.take old.length := by
    refine Eq.trans (List.map_congr_left fun i hi => ?_) htaken
    exact hadded.extend.value_eq (hhas.2 (hold.has i (List.mem_of_mem_take hi)))
  calc World.valuesOf { w with forest := g } (g.follow [w.root c] parts)
      = World.valuesOf { w with forest := g } (old.take value.spread.length ++ created) := by
        rw [valuesOf_eq, valuesOf_eq, hbearing]
    _ = (value.spread.take old.length ++ value.spread.drop old.length).filter (!·.isNull) := by
        rw [valuesOf, List.map_append, hsame, hadded.values_eq]
    _ = value.spread.filter (!·.isNull) := by rw [List.take_append_drop]

/-- Two branches bear a name, and the last of them lacks the node to be added. -/
theorem World.valuesOf_setProperty_branches :
    let branches := ((Forest.empty.create none .null false).2.createLinked ⟨0⟩ "a" .null false).2
    let forest := (((branches.createLinked ⟨1⟩ "b" (.int 7) false).2.createLinked
      ⟨1⟩ "b" (.int 8) false).2.createLinked ⟨0⟩ "a" .null false).2
    let w := { World.fresh [] with forest, configurations := #[.rootedAt ⟨0⟩ none] }
    let value := Value.list [.int 1, .null, .int 2]
    ∃ w' nodes, (ConfigurationId.setProperty ⟨0⟩ (some "a.b") value).run w = .ok () w' ∧
      w'.fetchNodes ⟨0⟩ (some "a.b") = .ok nodes ∧ w'.valuesOf nodes = [.int 1, .int 2] := by
  intro branches forest w value
  have hbranches : branches.WellFormed :=
    (Forest.WellFormed.empty.create none .null false).createLinked (by decide)
  have hforest : forest.WellFormed :=
    ((hbranches.createLinked (by decide)).createLinked (by decide)).createLinked (by decide)
  have hparse : Markers.standard.parse (some "a.b") =
      .ok [.element "a" none, .element "b" none] := by
    simp [Markers.parse, Markers.scan, Markers.flush, Markers.readElement, Markers.indexed?,
      Markers.standard, Text.after?, List.isSuffixOf, pure, Except.pure, bind, Except.bind]
    rfl
  have hok : Action.succeeds (ConfigurationId.setProperty ⟨0⟩ (some "a.b") value) w = true := by
    decide +kernel
  obtain ⟨_, w', hrun⟩ := run_of_succeeds hok
  obtain ⟨-, -, nodes, -, -, hnodes, -, hvalues⟩ := valuesOf_setProperty (w := w) hforest
    (by decide) (by rfl) (by exact hparse) (by simp [KeyPart.index?]) hrun
  exact ⟨w', nodes, hrun, hnodes, hvalues⟩

end Settings
