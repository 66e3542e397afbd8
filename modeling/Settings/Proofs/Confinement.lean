import Settings.Proofs.Announcing
import Settings.Proofs.Changes
import Settings.Proofs.Forest.Regions

/-! # Changes through a view stay inside it

A change through a configuration is confined to the tree below its root, whoever
shares the nodes, as long as its own listeners only note what they are told. Nobody
else is told anything. The nodes that are added leave their places elsewhere.
-/

namespace Settings

open Settings.Action

variable {c : ConfigurationId} {w u : World} {key : Option String} {nodes : List NodeId}
  {change : Change} {event : Event} {l : ListenerId} {α : Type}

/-- Besides the forest, one world comes from another by notices that the listeners of a
configuration took of its events. -/
structure HeardOnly (c : ConfigurationId) (w u : World) : Prop where
  configuration_eq : ∀ d, u.configuration d = w.configuration d
  reaction_eq : ∀ l, (u.listener l).reaction = (w.listener l).reaction
  listener_eq : ∀ l, l ∉ (w.configuration c).listeners → u.listener l = w.listener l
  notices_eq : ∃ new, u.notices = w.notices ++ new ∧
    ∀ n ∈ new, n.listener ∈ (w.configuration c).listeners ∧ n.event.source = c

namespace HeardOnly

theorem refl (c : ConfigurationId) (w : World) : HeardOnly c w w :=
  ⟨fun _ => rfl, fun _ => rfl, fun _ _ => rfl, [], by simp⟩

theorem withForest (h : HeardOnly c w u) (f : Forest) : HeardOnly c w { u with forest := f } :=
  ⟨h.configuration_eq, h.reaction_eq, h.listener_eq, h.notices_eq⟩

theorem root_eq (h : HeardOnly c w u) : u.root c = w.root c :=
  congrArg Configuration.root (h.configuration_eq c)

theorem notedBy (h : HeardOnly c w u) (he : event.source = c) :
    HeardOnly c w (u.notedBy event (w.configuration c).listeners) where
  configuration_eq d := (World.configuration_notedBy d).trans (h.configuration_eq d)
  reaction_eq l := (World.notedBy_congr (fun _ _ => rfl) l).trans (h.reaction_eq l)
  listener_eq l hl := (World.listener_notedBy_of_not_mem hl).trans (h.listener_eq l hl)
  notices_eq := by
    obtain ⟨new, hnew, hown⟩ := h.notices_eq
    refine ⟨new ++ noticesOf event u.forest (w.configuration c).listeners, ?_, ?_⟩
    · rw [World.notices_notedBy, hnew, List.append_assoc]
    · simp only [noticesOf, List.forall_mem_append, List.forall_mem_map]
      exact ⟨hown, fun l hl => ⟨hl, he⟩⟩

theorem announce (h : HeardOnly c w u)
    (hrecord : ∀ l ∈ (w.configuration c).listeners, (w.listener l).reaction = .record)
    (he : event.source = c) :
    (Settings.announce event).run u = .ok () (u.notedBy event (w.configuration c).listeners) := by
  have hown : (u.configuration event.source).listeners = (w.configuration c).listeners := by
    rw [he, h.configuration_eq]
  have hreaction : ∀ l ∈ (u.configuration event.source).listeners,
      (u.listener l).reaction = .record := by
    rw [hown]
    exact fun l hl => (h.reaction_eq l).trans (hrecord l hl)
  rw [run_announce_ok (fun l hl => by rw [Listener.isPassive, hreaction l hl])
    (fun l hl => by rw [Listener.refuses, hreaction l hl]), hown]

end HeardOnly

namespace Forest.Within

variable {f g : Forest} {root : NodeId}

theorem setValues (hw : Within root f g) {writes : List (NodeId × Value)}
    (h : ∀ write ∈ writes, f.Inside root write.1) : Within root f (g.setValues writes) :=
  List.foldlRecOn writes _ hw fun _ hw write hwrite => hw.setValue (h write hwrite) write.2

theorem dropAll (hw : Within root f g) (hf : f.WellFormed) (h : ∀ i ∈ nodes, f.Inside root i) :
    Within root f (g.dropAll root nodes) := by
  refine List.foldlRecOn nodes _ hw fun g hw i hi => ?_
  split
  · rename_i heq
    exact heq ▸ hw.reset
  · rename_i hne
    exact hw.detach hf (h i hi) hne

end Forest.Within

/-- One world comes from another by changes below the root of a configuration, of which
nobody hears but its listeners. -/
structure Contained (c : ConfigurationId) (w u : World) : Prop where
  within : Forest.Within (w.root c) w.forest u.forest
  heard : HeardOnly c w u

def Action.Preserving (P : World → Prop) (w w' : World) : Prop := P w → P w'

instance {P : World → Prop} : IsPreorder World (Preserving P) where
  refl _ := id
  trans _ _ _ hab hbc := hbc ∘ hab

namespace Contained

theorem withForest (hu : Contained c w u) {f : Forest}
    (hw : Forest.Within (w.root c) w.forest f) : Contained c w { u with forest := f } :=
  ⟨hw, hu.heard.withForest f⟩

theorem keeps_overwrite (hnodes : ∀ i ∈ nodes, w.forest.Inside (w.root c) i)
    (values : List Value) :
    Keeps (Preserving (Contained c w)) (ConfigurationId.overwrite nodes values) := by
  intro u hu
  rw [after_of_run (run_overwrite nodes values u)]
  exact hu.withForest (hu.within.setValues fun write hwrite =>
    hnodes write.1 (List.of_mem_zip hwrite).1)

section Tree

variable (hf : w.forest.WellFormed)

include hf

theorem inside_of_fetchNodes (hu : Contained c w u) (h : u.fetchNodes c key = .ok nodes) :
    ∀ i ∈ nodes, w.forest.Inside (w.root c) i := by
  obtain ⟨parts, -, rfl⟩ := Forest.select_eq_ok.1 h
  intro i hi
  obtain ⟨q, hq, ha⟩ := Forest.above_of_mem_follow hu.within.wellFormed.consistent hi
  rw [List.mem_singleton.1 hq, hu.heard.root_eq] at ha
  exact hu.within.inside_of_above hf ha

theorem keeps_addEach (hroot : w.forest.Has (w.root c)) (values : List Value) :
    Keeps (Preserving (Contained c w)) (c.addEach key values) := by
  refine .forM fun v => .read_bind fun u place hplace hu => ?_
  obtain ⟨path, last, -, -, rfl⟩ := Forest.prepareAdd_eq_ok.1 hplace
  rw [hu.heard.root_eq] at hplace ⊢
  have hhas := hu.within.wellFormed.has_of_prepareAdd (hu.within.has hroot) hplace
  have habove := Forest.above_deepest hu.within.wellFormed.consistent (w.root c) path
  exact hu.withForest (hu.within.insertNode hf hhas habove v)

theorem keeps_clearNodes (hnodes : ∀ i ∈ nodes, w.forest.Inside (w.root c) i) :
    Keeps (Preserving (Contained c w)) (c.clearNodes nodes) := by
  intro u hu
  rw [after_of_run (run_clearNodes nodes u), hu.heard.root_eq]
  exact hu.withForest (hu.within.clearAll hf hnodes)

theorem keeps_dropNodes (hnodes : ∀ i ∈ nodes, w.forest.Inside (w.root c) i) :
    Keeps (Preserving (Contained c w)) (c.dropNodes nodes) := by
  intro u hu
  rw [after_of_run (run_dropNodes nodes u), hu.heard.root_eq]
  exact hu.withForest (hu.within.dropAll hf hnodes)

end Tree

section Listeners

variable (hrecord : ∀ l ∈ (w.configuration c).listeners, (w.listener l).reaction = .record)

include hrecord

theorem keeps_announce (event : Event) (he : event.source = c) :
    Keeps (Preserving (Contained c w)) (announce event) := by
  intro u hu
  rw [after_of_run (hu.heard.announce hrecord he)]
  exact ⟨by simpa using hu.within, hu.heard.notedBy he⟩

theorem keeps_clear : Keeps (Preserving (Contained c w)) c.clear := by
  refine .bind (keeps_announce hrecord _ rfl) fun _ => .get_bind fun u hu => ?_
  refine related_bind (R := Preserving (Contained c w)) (fun hu => ?_)
    (fun _ _ _ => keeps_announce hrecord _ rfl _) hu
  rw [after_onForest, hu.heard.root_eq]
  exact hu.withForest hu.within.reset

variable (hf : w.forest.WellFormed)

include hf

theorem keeps_setProperty (hroot : w.forest.Has (w.root c)) (value : Value) :
    Keeps (Preserving (Contained c w)) (c.setProperty key value) := by
  refine .read_bind fun u nodes hnodes hu => ?_
  have hinside := hu.inside_of_fetchNodes hf hnodes
  have hwrite : Keeps (Preserving (Contained c w)) (do
      announce ⟨c, Event.setProperty, key, .value value, true⟩
      ConfigurationId.overwrite nodes value.spread
      c.clearNodes (nodes.drop value.spread.length)
      c.addEach key (value.spread.drop nodes.length)
      announce ⟨c, Event.setProperty, key, .value value, false⟩) :=
    .bind (keeps_announce hrecord _ rfl) fun _ => .bind (keeps_overwrite hinside _) fun _ =>
      .bind (keeps_clearNodes hf fun i hi => hinside i (List.mem_of_mem_drop hi)) fun _ =>
        .bind (keeps_addEach hf hroot _) fun _ => keeps_announce hrecord _ rfl
  dsimp only
  split
  · exact Keeps.bind (.read _) (fun _ => hwrite) u hu
  · exact hwrite u hu

theorem keeps_clearProperty : Keeps (Preserving (Contained c w)) (c.clearProperty key) :=
  .bind (keeps_announce hrecord _ rfl) fun _ => .read_bind fun u _ hnodes hu =>
    Keeps.bind (keeps_clearNodes hf (hu.inside_of_fetchNodes hf hnodes))
      (fun _ => keeps_announce hrecord _ rfl) u hu

theorem keeps_clearTree : Keeps (Preserving (Contained c w)) (c.clearTree key) :=
  .bind (keeps_announce hrecord _ rfl) fun _ => .read_bind fun u _ hnodes hu =>
    Keeps.bind (keeps_dropNodes hf (hu.inside_of_fetchNodes hf hnodes))
      (fun _ => keeps_announce hrecord _ rfl) u hu

theorem keeps_perform (hroot : w.forest.Has (w.root c))
    (hchange : ∀ key nodes, change ≠ .addNodes key nodes) :
    Keeps (Preserving (Contained c w)) (change.perform c) := by
  cases change with
  | addProperty key value =>
    exact .bind (.read _) fun _ => .bind (keeps_announce hrecord _ rfl) fun _ =>
      .bind (keeps_addEach hf hroot _) fun _ => keeps_announce hrecord _ rfl
  | setProperty key value => exact keeps_setProperty hrecord hf hroot value
  | clearProperty key => exact keeps_clearProperty hrecord hf
  | clearTree key => exact keeps_clearTree hrecord hf
  | addNodes key nodes => exact absurd rfl (hchange key nodes)
  | clear => exact keeps_clear hrecord

end Listeners

end Contained

theorem above_base_of_addTarget {target : AddTarget} (hf : w.forest.Consistent)
    (h : w.addTarget c key = .ok target) : w.forest.Above (w.root c) target.base := by
  obtain ⟨nodes, hfetch, h⟩ := bind_eq_ok.1 h
  match nodes with
  | [] =>
    obtain ⟨place, hplace, h⟩ := bind_eq_ok.1 h
    obtain ⟨path, last, -, -, rfl⟩ := Forest.prepareAdd_eq_ok.1 hplace
    split at h
    · cases h
    · cases h
      exact Forest.above_deepest hf (w.root c) path
  | [node] =>
    dsimp only at h
    split at h
    · cases h
    · cases h
      obtain ⟨parts, -, hfollow⟩ := Forest.select_eq_ok.1 hfetch
      have hmem : node ∈ w.forest.follow [w.root c] parts := by simp [hfollow]
      obtain ⟨q, hq, ha⟩ := Forest.above_of_mem_follow hf hmem
      exact List.mem_singleton.1 hq ▸ ha
  | i :: j :: rest => cases h

theorem Forest.confined_appendTo {f : Forest} {root : NodeId} {target : AddTarget}
    (hf : f.WellFormed) (hhas : f.Has target.base) (ha : f.Above root target.base)
    (hnodes : ∀ i ∈ nodes, f.Has i ∧ ¬ f.Above i target.base) :
    Confined root nodes f (f.appendTo target nodes) := by
  have hrefl := Within.refl hf root
  cases target with
  | existing node => exact hrefl.confined_append hf hhas ha hnodes
  | missing place =>
    obtain ⟨-, hext, hnew⟩ := insertNode_spec hf.consistent hhas .null
    refine (hrefl.insertNode hf hhas ha .null).confined_append hf hnew
      (above_insertNode hf.consistent hhas ha .null) fun i hi => ?_
    obtain ⟨hi, hup⟩ := hnodes i hi
    exact ⟨hext.has hi, fun h => hup (.of_insertNode hf.consistent hhas hi h)⟩

namespace Change

def handed : Change → List NodeId
  | addNodes _ nodes => nodes
  | _ => []

def taken (c : ConfigurationId) (w : World) (change : Change) : List NodeId :=
  if (change.perform c).succeeds w then change.handed else []

section

variable (hf : w.forest.WellFormed) (hroot : w.forest.Has (w.root c))
  (hrecord : ∀ l ∈ (w.configuration c).listeners, (w.listener l).reaction = .record)

include hf hroot hrecord

/-- Nodes that have a target are appended, with two announcements around it. -/
theorem run_addNodes_confined {target : AddTarget} (hne : nodes ≠ [])
    (hhanded : ∀ i ∈ nodes, w.forest.Has i) (htarget : w.addTarget c key = .ok target)
    (hfree : ∀ i ∈ nodes, ¬ w.forest.Above i target.base) :
    ∃ w', ((addNodes key nodes).perform c).run w = .ok () w' ∧
      Forest.Confined (w.root c) nodes w.forest w'.forest ∧ HeardOnly c w w' := by
  have hself := HeardOnly.refl c w
  have hsource (before : Bool) : ((addNodes key nodes).event c w before).source = c := rfl
  have hfirst := hself.announce hrecord (hsource true)
  have hbefore := hself.notedBy (hsource true)
  have hconfined := Forest.confined_appendTo hf (has_base_of_addTarget hf hroot htarget)
    (above_base_of_addTarget hf.consistent htarget) fun i hi => ⟨hhanded i hi, hfree i hi⟩
  have hafter := hbefore.withForest (w.forest.appendTo target nodes)
  have hsecond := hafter.announce hrecord (hsource false)
  refine ⟨_, ?_, ?_, hafter.notedBy (hsource false)⟩
  · have hprepare : (addNodes key nodes).prepare c w = .ok (appendNodes nodes target) := by
      rw [prepare, htarget]
      rfl
    rw [run_perform _ (by simpa using hne), hprepare]
    dsimp only
    rw [EStateM.run_bind, hfirst]
    dsimp only
    rw [conclude, EStateM.run_bind, run_appendNodes, World.forest_notedBy]
    exact hsecond
  · rwa [World.forest_notedBy]

/-- A change through a configuration whose listeners only note what they are told is
confined to the tree below its root, and nobody else hears of it. -/
theorem perform_confined (hhanded : ∀ i ∈ change.handed, w.forest.Has i)
    (hfree : ∀ target, w.addTarget c change.key = .ok target →
      ∀ i ∈ change.handed, ¬ w.forest.Above i target.base) :
    Forest.Confined (w.root c) (change.taken c w) w.forest ((change.perform c).after w).forest ∧
      HeardOnly c w ((change.perform c).after w) := by
  have hself : Contained c w w := ⟨.refl hf _, .refl c w⟩
  by_cases hadd : ∃ key nodes, change = .addNodes key nodes
  · obtain ⟨key, nodes, rfl⟩ := hadd
    by_cases hne : nodes = []
    · subst hne
      rw [taken, handed, ite_self]
      exact ⟨hself.within.confined hf, hself.heard⟩
    · cases htarget : w.addTarget c key with
      | error e =>
        have hrun : ((addNodes key nodes).perform c).run w = .error e w := by
          rw [run_perform _ (by simpa using hne), prepare, htarget]
          rfl
        simp only [taken, Action.succeeds, Action.after, hrun]
        exact ⟨hself.within.confined hf, hself.heard⟩
      | ok target =>
        obtain ⟨w', hrun, hconfined, hheard⟩ := run_addNodes_confined hf hroot hrecord hne hhanded
          htarget (hfree target htarget)
        simp only [taken, Action.succeeds, Action.after, hrun]
        exact ⟨hconfined, hheard⟩
  · have hother : ∀ key nodes, change ≠ .addNodes key nodes := by simpa using hadd
    have hnone : change.taken c w = [] := by
      cases change <;> first | exact absurd rfl (hother _ _) | exact ite_self []
    have hcontained := Contained.keeps_perform hrecord hf hroot hother w hself
    rw [hnone]
    exact ⟨hcontained.within.confined hf, hcontained.heard⟩

end

/-- A view takes a node from behind its root, while a listener of the whole tree that would
refuse every event is not asked. -/
theorem perform_confined_moved :
    let branch := ((Forest.empty.create none .null false).2.createLinked ⟨0⟩ "a" .null false).2
    let forest := ((branch.createLinked ⟨1⟩ "x" (.int 1) false).2.createLinked ⟨0⟩ "b" (.int 2)
      false).2
    let w := { World.fresh [] with
      forest
      configurations := #[{ Configuration.rootedAt ⟨0⟩ none with listeners := [⟨0⟩] },
        { Configuration.rootedAt ⟨1⟩ (some ⟨0⟩) with listeners := [⟨1⟩] }]
      listeners := #[⟨"guard", .veto none true, false⟩, ⟨"own", .record, false⟩] }
    let view : ConfigurationId := ⟨1⟩
    let change : Change := .addNodes (some "x") [⟨3⟩]
    (w.forest.WellFormed ∧ w.forest.Has (w.root view) ∧
      (∀ l ∈ (w.configuration view).listeners, (w.listener l).reaction = .record) ∧
      (∀ i ∈ change.handed, w.forest.Has i) ∧
      ∀ target, w.addTarget view change.key = .ok target →
        ∀ i ∈ change.handed, ¬ w.forest.Above i target.base) ∧
    change.taken view w = [⟨3⟩] ∧
    (((change.perform view).after w).forest.node ⟨0⟩).linked false = [⟨1⟩] ∧
    ((change.perform view).after w).listener ⟨0⟩ = w.listener ⟨0⟩ := by
  intro branch forest w view change
  have hbranch : branch.WellFormed :=
    (Forest.WellFormed.empty.create none .null false).createLinked (by decide)
  have hf : forest.WellFormed := (hbranch.createLinked (by decide)).createLinked (by decide)
  have hrecord : ∀ l ∈ (w.configuration view).listeners, (w.listener l).reaction = .record := by
    have hown : (w.configuration view).listeners = [⟨1⟩] := by decide +kernel
    rw [hown]
    simp only [List.forall_mem_singleton]
    rfl
  have hfree : ∀ target, w.addTarget view change.key = .ok target →
      ∀ i ∈ change.handed, ¬ w.forest.Above i target.base := by
    have hselect : w.fetchNodes view (some "x") = .ok [⟨2⟩] := by decide +kernel
    have hparents : (w.forest.node ⟨2⟩).parent = some ⟨1⟩ ∧
        (w.forest.node ⟨1⟩).parent = some ⟨0⟩ ∧ (w.forest.node ⟨0⟩).parent = none := by
      decide +kernel
    intro target htarget i hi ha
    obtain ⟨nodes, hnodes, htarget⟩ := bind_eq_ok.1 htarget
    cases hselect.symm.trans hnodes
    obtain rfl : i = ⟨3⟩ := List.mem_singleton.1 hi
    have hbase : target.base = ⟨2⟩ := by
      dsimp only at htarget
      split at htarget <;> cases htarget
      rfl
    rw [hbase] at ha
    cases ha with
    | up hp ha =>
      cases hparents.1.symm.trans hp
      cases ha with
      | up hp ha =>
        cases hparents.2.1.symm.trans hp
        cases ha with
        | up hp _ => cases hparents.2.2.symm.trans hp
  have htaken : change.taken view w = [⟨3⟩] := by decide +kernel
  have hroot : w.forest.Has (w.root view) := by decide +kernel
  have hhanded : ∀ i ∈ change.handed, w.forest.Has i := by decide +kernel
  obtain ⟨hconfined, hheard⟩ := perform_confined (w := w) (c := view) hf hroot hrecord
    hhanded hfree
  rw [htaken] at hconfined
  refine ⟨⟨hf, hroot, hrecord, hhanded, hfree⟩, htaken, ?_, hheard.listener_eq ⟨0⟩ ?_⟩
  · have hparent : (w.forest.node ⟨1⟩).parent = some ⟨0⟩ := by decide +kernel
    have hout : ¬ w.forest.Above ⟨1⟩ ⟨0⟩ := (hf.rooted ⟨1⟩).not_above_parent hparent
    have hhas : w.forest.Has ⟨0⟩ := by decide +kernel
    rw [hconfined.linked_eq ⟨0⟩ hhas hout false]
    decide +kernel
  · decide +kernel

end Change

end Settings
