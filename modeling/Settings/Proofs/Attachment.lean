import Settings.Proofs.Appending
import Settings.Proofs.Changes
import Settings.Proofs.Forest.CutLinks
import Settings.Proofs.Views
import Settings.Proofs.Withering

/-! # How long a view stays attached

A view shares its nodes with the configuration it was made from, and changes go
through either of them. What the view writes is found in the tree of the
configuration until the configuration itself clears the root of the view away:
pruning stops at the root of the configuration that was asked to clear.
-/

namespace Settings

open Settings.Action

namespace Forest

variable {f g : Forest} {shed : NodeId → Prop}

theorem parent_setValues (f : Forest) (writes : List (NodeId × Value)) (i : NodeId) :
    ((f.setValues writes).node i).parent = (f.node i).parent :=
  List.foldlRecOn writes _ (motive := fun g => (g.node i).parent = (f.node i).parent) rfl
    fun g hg write _ => (parent_setValue g write.1 i write.2).trans hg

@[simp] theorem size_setValues (f : Forest) (writes : List (NodeId × Value)) :
    (f.setValues writes).size = f.size :=
  List.foldlRecOn writes _ (motive := fun g => g.size = f.size) rfl
    fun g hg write _ => (size_setValue g write.1 write.2).trans hg

theorem Loses.of_setValues {writes : List (NodeId × Value)}
    (h : Loses shed (f.setValues writes) g) : Loses shed f g where
  wellFormed := h.wellFormed
  size_le := size_setValues f writes ▸ h.size_le
  parent_eq_none := h.parent_eq_none
  parent_eq i hi hkept := by
    rw [h.parent_eq i (by rwa [Has, size_setValues]) hkept, parent_setValues]

end Forest

variable {w : World} {c d v : ConfigurationId} {key : Option String} {value : Value}
  {nodes : List NodeId} {parts : List KeyPart} {change : Change} {i j : NodeId}

theorem exists_run_setProperty (hsilent : (w.configuration c).listeners = [])
    (hfetch : w.fetchNodes c key = .ok nodes)
    (hmissing : nodes.length < value.spread.length →
      ∃ place, w.forest.prepareAdd (w.markers c) (w.root c) key = .ok place) :
    ∃ path last,
      (nodes.length < value.spread.length → (w.markers c).parse key = .ok (path ++ [last])) ∧
      (∀ part ∈ path, part.isAttribute = false) ∧
      (c.setProperty key value).run w =
        .ok () { w with
          forest := (w.rewritten c nodes value.spread).forest.insertAll (w.root c) path last
            (value.spread.drop nodes.length) } := by
  have hwrite {added : Forest}
      (hadd : (c.addEach key (value.spread.drop nodes.length)).run
        (w.rewritten c nodes value.spread) = .ok () { w with forest := added }) :
      (Change.writeValues c key value nodes).run w =
        .ok (.value value) { w with forest := added } :=
    run_bind_ok.2 ⟨(), _, run_overwrite nodes value.spread w,
      run_bind_ok.2 ⟨(), _, run_clearNodes _ _, run_bind_ok.2 ⟨(), _, hadd, rfl⟩⟩⟩
  have hperform {added : Forest} (hprepare : (Change.setProperty key value).prepare c w =
      .ok (Change.writeValues c key value nodes))
      (hadd : (c.addEach key (value.spread.drop nodes.length)).run
        (w.rewritten c nodes value.spread) = .ok () { w with forest := added }) :
      ((Change.setProperty key value).perform c).run w = .ok () { w with forest := added } :=
    Change.run_perform_of_silent (by simp) hsilent hprepare (hwrite hadd)
  by_cases hlt : nodes.length < value.spread.length
  · obtain ⟨place, hplace⟩ := hmissing hlt
    obtain ⟨path, last, hparse, hkinds, -⟩ := Forest.prepareAdd_eq_ok.1 hplace
    refine ⟨path, last, fun _ => hparse, hkinds, hperform ?_ ?_⟩
    · rw [Change.prepare, hfetch, ok_bind, if_pos hlt, hplace]
      rfl
    · exact run_addEach_eq (w := w.rewritten c nodes value.spread) hparse hkinds _
  · refine ⟨[], .attr "", fun h => absurd h hlt, by simp, hperform ?_ ?_⟩
    · rw [Change.prepare, hfetch, ok_bind, if_neg hlt]
      rfl
    · rw [List.drop_eq_nil_of_le (by omega)]
      rfl

namespace Change

def OnProperty : Change → Prop
  | addProperty .. | setProperty .. | clearProperty _ => True
  | clearTree _ | addNodes .. | clear => False

def written : Change → List Value
  | addProperty _ value | setProperty _ value => value.spread
  | _ => []

/-- The nodes that a change through a configuration clears away: those that are dead when it
comes to clear nodes. Setting a property clears the surplus nodes, the others being written. -/
def Sheds (c : ConfigurationId) (w : World) (i : NodeId) : Change → Prop
  | setProperty key value => ∃ nodes, w.fetchNodes c key = .ok nodes ∧
      (w.forest.setValues (nodes.zip value.spread)).Dead (w.root c)
        (nodes.drop value.spread.length) i
  | clearProperty key => ∃ nodes, w.fetchNodes c key = .ok nodes ∧
      w.forest.Dead (w.root c) nodes i
  | _ => False

theorem sheds_setProperty_iff (hfetch : w.fetchNodes c key = .ok nodes) :
    (setProperty key value).Sheds c w i ↔
      (w.forest.setValues (nodes.zip value.spread)).Dead (w.root c)
        (nodes.drop value.spread.length) i := by
  simp [Sheds, hfetch]

theorem sheds_clearProperty_iff (hfetch : w.fetchNodes c key = .ok nodes) :
    (clearProperty key).Sheds c w i ↔ w.forest.Dead (w.root c) nodes i := by
  simp [Sheds, hfetch]

theorem Sheds.above (h : change.Sheds c w i) : w.forest.Above (w.root c) i ∧ i ≠ w.root c := by
  cases change with
  | setProperty key value =>
    obtain ⟨nodes, -, hdead⟩ := h
    exact ⟨(Forest.above_congr (Forest.parent_setValues _ _)).1 hdead.above, hdead.ne_root⟩
  | clearProperty key =>
    obtain ⟨nodes, -, hdead⟩ := h
    exact ⟨hdead.above, hdead.ne_root⟩
  | _ => exact h.elim

end Change

theorem World.setValues_spec (hf : w.forest.WellFormed) (hroot : w.forest.Has (w.root c))
    (hfetch : w.fetchNodes c key = .ok nodes) (values : List Value) :
    let f := w.forest.setValues (nodes.zip values)
    f.WellFormed ∧ f.Has (w.root c) ∧ f.Layer (nodes.drop values.length) ∧
      ∀ i ∈ nodes.drop values.length, f.Above (w.root c) i := by
  intro f
  obtain ⟨hlayer, hbelow⟩ := layer_of_fetchNodes hf hroot hfetch
  have hfst : (nodes.zip values).map Prod.fst = nodes.take values.length := map_fst_zip nodes values
  have hwf : f.WellFormed := by
    refine And.left (Forest.setValues_spec hf ?_ ?_)
    · rw [hfst]
      exact fun i hi => hlayer.has i (List.mem_of_mem_take hi)
    · rw [hfst]
      exact hlayer.nodup.sublist (List.take_sublist _ _)
  have hhas {i : NodeId} (hi : w.forest.Has i) : f.Has i := by
    rwa [Forest.Has, Forest.size_setValues]
  have habove {a i : NodeId} : f.Above a i ↔ w.forest.Above a i :=
    Forest.above_congr (Forest.parent_setValues _ _)
  refine ⟨hwf, hhas hroot, ⟨fun i hi => ?_, ?_, fun p hp q hq ha => ?_⟩, fun i hi => ?_⟩
  · exact hhas (hlayer.has i (List.mem_of_mem_drop hi))
  · exact hlayer.nodup.sublist (List.drop_sublist _ _)
  · exact hlayer.apart p (List.mem_of_mem_drop hp) q (List.mem_of_mem_drop hq) (habove.1 ha)
  · exact habove.2 (hbelow i (List.mem_of_mem_drop hi))

theorem Change.Sheds.of_above (h : change.Sheds c w i) (hf : w.forest.WellFormed)
    (hroot : w.forest.Has (w.root c)) (ha : w.forest.Above i j) : change.Sheds c w j := by
  cases change with
  | setProperty key value =>
    obtain ⟨nodes, hfetch, hdead⟩ := h
    refine ⟨nodes, hfetch, hdead.of_above (w.setValues_spec hf hroot hfetch value.spread).1 ?_⟩
    exact (Forest.above_congr (Forest.parent_setValues _ _)).2 ha
  | clearProperty key =>
    obtain ⟨nodes, hfetch, hdead⟩ := h
    exact ⟨nodes, hfetch, hdead.of_above hf ha⟩
  | _ => exact h.elim

theorem after_perform_of_refused {e : Fault} (hne : ∀ key, change ≠ .addNodes key [])
    (hprepare : change.prepare c w = .error e) : (change.perform c).after w = w := by
  rw [Action.after, Change.run_perform change hne, hprepare]

/-- A change leaves all but the tree as it is. In the tree the old nodes lose their parents if
the change sheds them, and keep them otherwise. -/
def World.Shedding (w : World) (c : ConfigurationId) (change : Change) : Prop :=
  ∃ g, (change.perform c).after w = { w with forest := g } ∧
    Forest.Loses (change.Sheds c w ·) w.forest g

section Silent

variable (hf : w.forest.WellFormed) (hroot : w.forest.Has (w.root c))
  (hsilent : (w.configuration c).listeners = [])

include hf

theorem shedding_of_unchanged (hafter : (change.perform c).after w = w)
    (hnone : ∀ i, ¬ change.Sheds c w i) : w.Shedding c change :=
  ⟨w.forest, hafter, .of_extends hf (.refl _) hnone⟩

include hroot hsilent

theorem shedding_addProperty (key : Option String) (value : Value) :
    w.Shedding c (.addProperty key value) := by
  cases hplace : w.forest.prepareAdd (w.markers c) (w.root c) key with
  | error e =>
    refine shedding_of_unchanged hf (after_perform_of_refused (e := e) (by simp) ?_) fun _ h => h
    rw [Change.prepare, hplace]
    rfl
  | ok place =>
    obtain ⟨path, last, hparse, hkinds, -⟩ := Forest.prepareAdd_eq_ok.1 hplace
    obtain ⟨_, _, happends, -⟩ := Forest.exists_appends_insertAll hf hroot path last value.spread
    exact ⟨_, after_of_run (run_addProperty hsilent hparse hkinds value),
      .of_extends happends.wellFormed happends.gains.extend fun _ h => h⟩

theorem shedding_clearProperty (key : Option String) : w.Shedding c (.clearProperty key) := by
  cases hfetch : w.fetchNodes c key with
  | error e =>
    refine shedding_of_unchanged hf ?_ fun i ⟨nodes, hnodes, _⟩ => ?_
    · rw [Action.after, Change.perform, ConfigurationId.clearProperty, EStateM.run_bind,
        run_announce_of_silent hsilent]
      dsimp only
      rw [run_read_bind, hfetch]
    · cases hfetch.symm.trans hnodes
  | ok nodes =>
    obtain ⟨hlayer, hbelow⟩ := World.layer_of_fetchNodes hf hroot hfetch
    have hloses := Forest.Loses.of_clearAll hf hroot hlayer hbelow
      (hf.clearAll (w.root c) nodes) (.refl _)
    exact ⟨_, after_of_run (run_clearProperty hsilent hfetch),
      hloses.congr fun i => Change.sheds_clearProperty_iff hfetch⟩

theorem shedding_setProperty (key : Option String) (value : Value) :
    w.Shedding c (.setProperty key value) := by
  cases hfetch : w.fetchNodes c key with
  | error e =>
    refine shedding_of_unchanged hf (after_perform_of_refused (e := e) (by simp) ?_)
      fun i ⟨nodes, hnodes, _⟩ => ?_
    · rw [Change.prepare, hfetch]
      rfl
    · cases hfetch.symm.trans hnodes
  | ok nodes =>
    by_cases haccepted : nodes.length < value.spread.length →
        ∃ place, w.forest.prepareAdd (w.markers c) (w.root c) key = .ok place
    · obtain ⟨path, last, -, -, hrun⟩ := exists_run_setProperty hsilent hfetch haccepted
      obtain ⟨hwf, hhas, hlayer, hbelow⟩ := w.setValues_spec hf hroot hfetch value.spread
      have hcleared := hwf.clearAll (w.root c) (nodes.drop value.spread.length)
      obtain ⟨_, _, happends, -⟩ := Forest.exists_appends_insertAll hcleared
        (by rwa [Forest.Has, Forest.size_clearAll]) path last (value.spread.drop nodes.length)
      have hloses := Forest.Loses.of_clearAll hwf hhas hlayer hbelow happends.wellFormed
        happends.gains.extend
      exact ⟨_, after_of_run hrun,
        hloses.of_setValues.congr fun i => Change.sheds_setProperty_iff hfetch⟩
    · obtain ⟨hlt, hrefused⟩ := Classical.not_imp.1 haccepted
      cases hplace : w.forest.prepareAdd (w.markers c) (w.root c) key with
      | ok place => exact absurd ⟨place, hplace⟩ hrefused
      | error e =>
        refine shedding_of_unchanged hf (after_perform_of_refused (e := e) (by simp) ?_)
          fun i hshed => ?_
        · rw [Change.prepare, hfetch, ok_bind, if_pos hlt, hplace]
          rfl
        · rw [Change.sheds_setProperty_iff hfetch, List.drop_eq_nil_of_le (Nat.le_of_lt hlt)]
            at hshed
          obtain ⟨s, hs, -⟩ := hshed.exists_mem
          exact absurd hs List.not_mem_nil

theorem shedding_of_onProperty (hchange : change.OnProperty) : w.Shedding c change := by
  cases change with
  | addProperty key value => exact shedding_addProperty hf hroot hsilent key value
  | setProperty key value => exact shedding_setProperty hf hroot hsilent key value
  | clearProperty key => exact shedding_clearProperty hf hroot hsilent key
  | _ => exact hchange.elim

end Silent

def World.afterAll (w : World) (calls : List (ConfigurationId × Change)) : World :=
  calls.foldl (fun w call => (call.2.perform call.1).after w) w

/-- No change through a configuration sheds a node in the course of a run. -/
def World.NeverSheds (c : ConfigurationId) (i : NodeId) :
    World → List (ConfigurationId × Change) → Prop
  | _, [] => True
  | w, (d, change) :: calls =>
    ¬ (d = c ∧ change.Sheds c w i) ∧ NeverSheds c i ((change.perform d).after w) calls

/-- Two configurations over a well-formed forest that nobody listens to. -/
structure World.Shares (c v : ConfigurationId) (w : World) : Prop where
  wellFormed : w.forest.WellFormed
  has_root : ∀ d ∈ [c, v], w.forest.Has (w.root d)
  silent : ∀ d ∈ [c, v], (w.configuration d).listeners = []

namespace World.Shares

/-- A change through a view climbs no further than the root of the view, which therefore stays
where it is. A change through the configuration detaches it when it sheds it. -/
theorem step (h : w.Shares c v) (hd : d ∈ [c, v]) (hchange : change.OnProperty) :
    ∃ g, (change.perform d).after w = { w with forest := g } ∧
      Shares c v { w with forest := g } ∧
      (g.Above (w.root c) (w.root v) ↔
        w.forest.Above (w.root c) (w.root v) ∧ ¬ (d = c ∧ change.Sheds c w (w.root v))) := by
  obtain ⟨g, hafter, hloses⟩ :=
    shedding_of_onProperty h.wellFormed (h.has_root d hd) (h.silent d hd) hchange
  refine ⟨g, hafter, ⟨hloses.wellFormed, fun e he => ?_, h.silent⟩, fun ha => ⟨?_, ?_⟩, ?_⟩
  · exact Nat.lt_of_lt_of_le (h.has_root e he) hloses.size_le
  · exact hloses.above_of_above h.wellFormed (h.has_root v (by simp)) ha
  · rintro ⟨rfl, hshed⟩
    exact hshed.above.2 (ha.eq_of_root (hloses.parent_eq_none _ hshed)).symm
  · rintro ⟨ha, hkept⟩
    refine hloses.above ha fun j hj hjv hne hshed => ?_
    by_cases hdc : d = c
    · subst hdc
      exact hkept ⟨rfl, hshed.of_above h.wellFormed (h.has_root d hd) hjv⟩
    · obtain rfl : d = v := by simpa [hdc] using hd
      exact hshed.above.2 (h.wellFormed.above_antisymm hjv hshed.above.1)

/-- Over a run, the view stays attached as long as the configuration does not shed its root. -/
theorem above_afterAll_iff (h : w.Shares c v) {calls : List (ConfigurationId × Change)}
    (hcalls : ∀ call ∈ calls, call.1 ∈ [c, v] ∧ call.2.OnProperty) :
    ∃ g, w.afterAll calls = { w with forest := g } ∧ Shares c v { w with forest := g } ∧
      (g.Above (w.root c) (w.root v) ↔
        w.forest.Above (w.root c) (w.root v) ∧ NeverSheds c (w.root v) w calls) := by
  induction calls generalizing w with
  | nil => exact ⟨w.forest, rfl, h, by simp [NeverSheds]⟩
  | cons call calls ih =>
    obtain ⟨d, change⟩ := call
    obtain ⟨hd, hchange⟩ := hcalls _ List.mem_cons_self
    dsimp only at hd hchange
    obtain ⟨f, hafter, hshares, hiff⟩ := h.step hd hchange
    obtain ⟨g, hrun, hshares', hiff'⟩ := ih hshares fun call hcall => hcalls call (.tail _ hcall)
    refine ⟨g, ?_, hshares', hiff'.trans ?_⟩
    · change afterAll ((change.perform d).after w) calls = _
      rw [hafter]
      exact hrun
    · rw [NeverSheds, hafter, ← and_assoc]
      exact and_congr_left fun _ => hiff

end World.Shares

theorem World.shares_configurationAt {u : World} (hf : u.forest.WellFormed)
    (hc : c.index < u.configurations.size) (hroot : u.forest.Has (u.root c))
    (hsilent : (u.configuration c).listeners = [])
    (hview : (c.configurationAt key).run u = .ok v w) :
    w.Shares c v ∧ c ≠ v ∧ w.forest.Above (w.root c) (w.root v) := by
  obtain ⟨node, hfetch⟩ : ∃ node, u.fetchNodes c key = .ok [node] := by
    obtain ⟨nodes, u', hread, hrun⟩ := run_bind_ok.1 hview
    obtain ⟨hfetch, -⟩ := run_read_ok.1 hread
    rcases nodes with _ | ⟨node, _ | ⟨j, rest⟩⟩
    · cases hrun
    · exact ⟨node, hfetch⟩
    · cases hrun
  rw [run_configurationAt hfetch] at hview
  cases hview
  obtain ⟨hlayer, hbelow⟩ := layer_of_fetchNodes hf hroot hfetch
  have hold := configuration_addConfiguration u (u.viewOver c node) hc
  have hnew := configuration_addConfiguration_new u (u.viewOver c node)
  have hne : c ≠ (u.addConfiguration (u.viewOver c node)).1 :=
    fun heq => Nat.lt_irrefl _ (congrArg ConfigurationId.index heq ▸ hc)
  refine ⟨⟨hf, ?_, ?_⟩, hne, ?_⟩
  · rw [List.forall_mem_cons, List.forall_mem_singleton, root, root, hold, hnew]
    exact ⟨hroot, hlayer.has node (by simp)⟩
  · rw [List.forall_mem_cons, List.forall_mem_singleton, hold, hnew]
    exact ⟨hsilent, rfl⟩
  · rw [root, root, hold, hnew]
    exact hbelow node (by simp)

theorem Forest.follow_insertAll {f : Forest} {root : NodeId} {path : List KeyPart} {last : KeyPart}
    (values : List Value) (hf : f.WellFormed) (hroot : f.Has root)
    (hkinds : ∀ part ∈ path, part.isAttribute = false)
    (hparts : values ≠ [] → parts = path ++ [last]) (hplain : ∀ part ∈ parts, part.index? = none) :
    (∀ i ∈ f.follow [root] parts, i ∈ (f.insertAll root path last values).follow [root] parts ∧
      ((f.insertAll root path last values).node i).value = (f.node i).value) ∧
    ∀ x ∈ values, ∃ i ∈ (f.insertAll root path last values).follow [root] parts,
      ((f.insertAll root path last values).node i).value = x := by
  by_cases hvalues : values = []
  · subst hvalues
    exact ⟨fun i hi => ⟨hi, rfl⟩, by simp⟩
  · obtain rfl := hparts hvalues
    obtain ⟨_, created, happends, hfollow⟩ :=
      exists_appends_insertAll hf hroot path last values
    obtain ⟨hfollow, -⟩ := hfollow
      (fun part hpart => ⟨hplain part (List.mem_append_left _ hpart), hkinds part hpart⟩)
      (hplain last (by simp))
    have hhas := ((Layer.singleton hroot).follow hf (path ++ [last])).has
    rw [hfollow]
    refine ⟨fun i hi => ⟨List.mem_append_left _ hi, happends.gains.extend.value_eq (hhas i hi)⟩,
      fun x hx => ?_⟩
    rw [← happends.values_eq] at hx
    obtain ⟨i, hi, hvalue⟩ := List.mem_map.1 hx
    exact ⟨i, List.mem_append_right _ hi, hvalue⟩

section Silent

variable (hf : w.forest.WellFormed) (hroot : w.forest.Has (w.root c))
  (hsilent : (w.configuration c).listeners = [])

include hf hroot hsilent

theorem found_of_setProperty (haccepted : (Change.setProperty key value).Accepts c w)
    (hparse : (w.markers c).parse key = .ok parts) (hplain : ∀ part ∈ parts, part.index? = none) :
    ∃ g, (c.setProperty key value).run w = .ok () { w with forest := g } ∧
      ∀ x ∈ value.spread, x.isNull = false →
        ∃ i ∈ g.follow [w.root c] parts, (g.node i).value = x := by
  have hfetch : w.fetchNodes c key = .ok (w.forest.follow [w.root c] parts) :=
    Forest.select_eq_ok.2 ⟨parts, hparse, rfl⟩
  obtain ⟨nodes, hnodes, hmissing⟩ := haccepted
  obtain rfl := Except.ok.inj (hfetch.symm.trans hnodes)
  obtain ⟨path, last, hpath, hkinds, hrun⟩ := exists_run_setProperty hsilent hfetch hmissing
  have hlayer := (Forest.Layer.singleton hroot).follow hf parts
  obtain ⟨hwf, hsize, hkept, hwritten⟩ := w.rewritten_spec hf hlayer rfl hplain value.spread
  generalize w.forest.follow [w.root c] parts = nodes at hrun hpath hwf hsize hkept hwritten
  obtain ⟨hold, hnew⟩ := Forest.follow_insertAll (value.spread.drop nodes.length) hwf
    (by rwa [Forest.Has, hsize]) hkinds
    (fun hne => Except.ok.inj (hparse.symm.trans (hpath (by simpa using hne)))) hplain
  refine ⟨_, hrun, fun x hx hnull => ?_⟩
  rw [← List.take_append_drop nodes.length value.spread, List.mem_append] at hx
  rcases hx with hx | hx
  · rw [← hwritten] at hx
    obtain ⟨i, hi, rfl⟩ := List.mem_map.1 hx
    have hbearing : i ∈ (w.rewritten c nodes value.spread).forest.bearing
        (nodes.take value.spread.length) := List.mem_filter.2 ⟨hi, by simpa using hnull⟩
    rw [← hkept] at hbearing
    obtain ⟨hmem, hvalue⟩ := hold i (List.mem_of_mem_filter hbearing)
    exact ⟨i, hmem, hvalue⟩
  · exact hnew x hx

theorem found_of_perform (hchange : change.OnProperty) (haccepted : change.Accepts c w)
    (hparse : (w.markers c).parse change.key = .ok parts)
    (hplain : ∀ part ∈ parts, part.index? = none) :
    ∃ g, (change.perform c).run w = .ok () { w with forest := g } ∧
      ∀ x ∈ change.written, x.isNull = false →
        ∃ i ∈ g.follow [w.root c] parts, (g.node i).value = x := by
  cases change with
  | addProperty key value =>
    obtain ⟨place, hplace⟩ := haccepted
    obtain ⟨path, last, hpath, hkinds, -⟩ := Forest.prepareAdd_eq_ok.1 hplace
    obtain ⟨-, hnew⟩ := Forest.follow_insertAll value.spread hf hroot hkinds
      (fun _ => Except.ok.inj (hparse.symm.trans hpath)) hplain
    exact ⟨_, run_addProperty hsilent hpath hkinds value, fun x hx _ => hnew x hx⟩
  | setProperty key value => exact found_of_setProperty hf hroot hsilent haccepted hparse hplain
  | clearProperty key =>
    obtain ⟨nodes, hfetch⟩ := haccepted
    exact ⟨_, run_clearProperty hsilent hfetch, fun x hx => absurd hx List.not_mem_nil⟩
  | _ => exact hchange.elim

end Silent

/-- However properties are added, set and cleared through a configuration and through a view made
from it, the root of the view is found in the tree of the configuration exactly as long as no
call on the configuration itself sheds it. As long as it is, so is every value that is written
through the view under a key without indices. -/
theorem World.attached_configurationAt {u : World} {calls : List (ConfigurationId × Change)}
    (hf : u.forest.WellFormed) (hc : c.index < u.configurations.size)
    (hroot : u.forest.Has (u.root c)) (hsilent : (u.configuration c).listeners = [])
    (hview : (c.configurationAt key).run u = .ok v w)
    (hcalls : ∀ call ∈ calls, call.1 ∈ [c, v] ∧ call.2.OnProperty) :
    ∃ f, w.afterAll calls = { w with forest := f } ∧
      (f.Finds (w.root c) (w.root v) ↔ NeverSheds c (w.root v) w calls) ∧
      (f.Finds (w.root c) (w.root v) → ∀ (change : Change) parts, change.OnProperty →
        change.Accepts v { w with forest := f } → (w.markers v).parse change.key = .ok parts →
        (∀ part ∈ parts, part.index? = none) →
        ∃ g nodes, (change.perform v).run { w with forest := f } = .ok () { w with forest := g } ∧
          World.fetchNodes { w with forest := g } v change.key = .ok nodes ∧
          ∀ x ∈ change.written, x.isNull = false →
            ∃ i ∈ nodes, (g.node i).value = x ∧ g.Finds (w.root c) i) := by
  obtain ⟨hshares, hne, habove⟩ := shares_configurationAt hf hc hroot hsilent hview
  obtain ⟨f, hrun, hafter, hiff⟩ := hshares.above_afterAll_iff hcalls
  refine ⟨f, hrun, ?_, fun hfinds change parts hchange haccepted hparse hplain => ?_⟩
  · rw [hafter.wellFormed.consistent.finds_iff_above, hiff]
    exact and_iff_right habove
  · rw [hafter.wellFormed.consistent.finds_iff_above] at hfinds
    obtain ⟨g, hperform, hfound⟩ := found_of_perform hafter.wellFormed
      (hafter.has_root v (by simp)) (hafter.silent v (by simp)) hchange haccepted hparse hplain
    obtain ⟨g', hstep, hlater, hstays⟩ := hafter.step (d := v) (by simp) hchange
    obtain rfl : g' = g :=
      congrArg World.forest (hstep.symm.trans (after_of_run hperform))
    have hview := hstays.2 ⟨hfinds, fun h => hne h.1.symm⟩
    refine ⟨g', _, hperform, Forest.select_eq_ok.2 ⟨parts, hparse, rfl⟩, fun x hx hnull => ?_⟩
    obtain ⟨i, hi, hvalue⟩ := hfound x hx hnull
    obtain ⟨q, hq, ha⟩ := Forest.above_of_mem_follow hlater.wellFormed.consistent hi
    rw [List.mem_singleton.1 hq] at ha
    exact ⟨i, hi, hvalue, hlater.wellFormed.consistent.finds_iff_above.2 (hview.trans ha)⟩

def World.branched : World :=
  let branch := ((Forest.empty.create none .null false).2.createLinked ⟨0⟩ "db" .null false).2
  { World.fresh [] with
    forest := (branch.createLinked ⟨1⟩ "host" (.str "h") false).2
    configurations := #[.rootedAt ⟨0⟩ none] }

theorem World.wellFormed_branched : branched.forest.WellFormed := by
  have hbranch : ((Forest.empty.create none .null false).2.createLinked
      ⟨0⟩ "db" .null false).2.WellFormed :=
    (Forest.WellFormed.empty.create none .null false).createLinked (by decide)
  have hforest : (Forest.createLinked _ ⟨1⟩ "host" (.str "h") false).2.WellFormed :=
    hbranch.createLinked (by decide)
  exact hforest

/-- A view that clears its last property leaves its root in place. -/
theorem World.attached_configurationAt_cleared :
    let calls := [(⟨1⟩, Change.clearProperty (some "host")),
      (⟨0⟩, Change.addProperty (some "other") (.int 1))]
    ∃ w f, (ConfigurationId.configurationAt ⟨0⟩ (some "db")).run branched = .ok ⟨1⟩ w ∧
      w.afterAll calls = { w with forest := f } ∧ f.Finds (w.root ⟨0⟩) (w.root ⟨1⟩) ∧
      ∃ g i, (ConfigurationId.addProperty ⟨1⟩ (some "host") (.str "x")).run
          { w with forest := f } = .ok () { w with forest := g } ∧
        (g.node i).value = .str "x" ∧ g.Finds (w.root ⟨0⟩) i := by
  intro calls
  have hfetch : branched.fetchNodes ⟨0⟩ (some "db") = .ok [⟨1⟩] := by decide +kernel
  have hview := run_configurationAt hfetch
  have hcalls : ∀ call ∈ calls, call.1 ∈ [(⟨0⟩ : ConfigurationId), ⟨1⟩] ∧ call.2.OnProperty := by
    rw [List.forall_mem_cons, List.forall_mem_singleton]
    exact ⟨⟨by decide, trivial⟩, ⟨by decide, trivial⟩⟩
  obtain ⟨f, hafter, hiff, hfound⟩ := attached_configurationAt wellFormed_branched (by decide)
    (by decide) rfl hview hcalls
  have hfinds := hiff.2 ⟨fun h => absurd h.1 (by decide), fun h => h.2, trivial⟩
  have haccepted : ∃ place, branched.forest.prepareAdd .standard ⟨1⟩ (some "host") = .ok place :=
    exists_of_toBool (by decide +kernel)
  have hplace := Forest.exists_place haccepted f
  obtain ⟨g, nodes, hrun, -, hmem⟩ := hfound hfinds (.addProperty (some "host") (.str "x"))
    [.element "host" none] trivial hplace (by decide +kernel) (by decide)
  obtain ⟨i, -, hvalue, hi⟩ := hmem (.str "x") List.mem_cons_self rfl
  exact ⟨_, f, hview, hafter, hfinds, g, i, hrun, hvalue, hi⟩

/-- The configuration clears the only property below the root of a view: the branch is gone, and
what the view sets is not found from the configuration any longer. -/
theorem World.detached_configurationAt :
    let view := ConfigurationId.configurationAt ⟨0⟩ (some "db")
    let clearing := (Change.clearProperty (some "db.host")).perform ⟨0⟩
    let setting := (Change.setProperty (some "host") (.str "x")).perform ⟨1⟩
    let viewed := view.after branched
    let cleared := clearing.after viewed
    let written := setting.after cleared
    view.succeeds branched = true ∧ clearing.succeeds viewed = true ∧
      setting.succeeds cleared = true ∧
      ¬ cleared.forest.Finds (cleared.root ⟨0⟩) (cleared.root ⟨1⟩) ∧
      ∀ i, written.forest.Finds (written.root ⟨0⟩) i →
        (written.forest.node i).value.isNull = true := by
  intro view clearing setting viewed cleared written
  have hcleared : ∀ b, (cleared.forest.node (cleared.root ⟨0⟩)).linked b = [] := by
    decide +kernel
  have hwritten : ∀ b, (written.forest.node (written.root ⟨0⟩)).linked b = [] := by
    decide +kernel
  refine ⟨by decide +kernel, by decide +kernel, by decide +kernel, fun h => ?_, fun i h => ?_⟩
  · have hne : cleared.root ⟨1⟩ ≠ cleared.root ⟨0⟩ := by decide +kernel
    exact hne (h.eq_of_leaf hcleared)
  · rw [h.eq_of_leaf hwritten]
    decide +kernel

end Settings
