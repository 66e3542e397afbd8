import Settings.Proofs.Actions
import Settings.Proofs.Forest.Clearing
import Settings.Proofs.Forest.Paths

/-! # How updates change a world

Every update, whatever its listeners do and wherever it is refused, leads from
a well-formed forest to a well-formed one and leaves the configurations over
their roots. Announcing an event can only make the forest grow.
-/

namespace Settings

open Settings.Action

structure Evolution (P : Forest → Forest → Prop) (w w' : World) : Prop where
  wellFormed : w'.forest.WellFormed
  size_le : w.forest.size ≤ w'.forest.size
  related : P w.forest w'.forest
  root_eq : ∀ d, w'.root d = w.root d
  configurations_size : w'.configurations.size = w.configurations.size

/-- What holds of changes made through a configuration whose root is a node of
a well-formed forest. -/
def Evolves (P : Forest → Forest → Prop) (c : ConfigurationId) (w w' : World) : Prop :=
  w.forest.WellFormed → w.forest.Has (w.root c) → Evolution P w w'

variable {P Q : Forest → Forest → Prop} {c d : ConfigurationId} {w w' : World} {α : Type}

instance [IsPreorder Forest P] : IsPreorder World (Evolves P c) where
  refl _ hf _ := ⟨hf, Nat.le_refl _, refl_of P _, fun _ => rfl, rfl⟩
  trans u v w huv hvw hf hroot := by
    have h := huv hf hroot
    have h' := hvw h.wellFormed (by
      rw [h.root_eq]
      exact Nat.lt_of_lt_of_le hroot h.size_le)
    exact ⟨h'.wellFormed, Nat.le_trans h.size_le h'.size_le, trans_of P h.related h'.related,
      fun d => (h'.root_eq d).trans (h.root_eq d),
      h'.configurations_size.trans h.configurations_size⟩

instance : IsPreorder Forest Forest.Extends where
  refl := .refl
  trans _ _ _ := .trans

def Forest.Any (_ _ : Forest) : Prop := True

instance : IsPreorder Forest Forest.Any where
  refl _ := trivial
  trans _ _ _ _ _ := trivial

theorem Evolves.weaken (h : Evolves P c w w') : Evolves Forest.Any c w w' := fun hf hroot =>
  have h := h hf hroot
  ⟨h.wellFormed, h.size_le, trivial, h.root_eq, h.configurations_size⟩

theorem root_modifyConfiguration (w : World) (c d : ConfigurationId)
    (change : Configuration → Configuration) (h : ∀ own, (change own).root = own.root) :
    (w.modifyConfiguration c change).root d = w.root d := by
  simp only [World.root, World.configuration, World.modifyConfiguration,
    Array.getD_eq_getD_getElem?, Array.getElem?_modify]
  split
  · cases w.configurations[d.index]? <;> simp [h]
  · rfl

section Preorder

variable [IsPreorder Forest P]

theorem keeps_modify {change : World → World} (hforest : ∀ w, (change w).forest = w.forest)
    (hroot : ∀ w d, (change w).root d = w.root d)
    (hsize : ∀ w, (change w).configurations.size = w.configurations.size) :
    Keeps (Evolves P c) (modify change) := by
  intro w hf _
  rw [after_modify]
  exact ⟨by rwa [hforest], Nat.le_of_eq (by rw [hforest]), by rw [hforest]; exact refl_of P _,
    hroot w, hsize w⟩

theorem keeps_modifyConfiguration {change : Configuration → Configuration}
    (h : ∀ own, (change own).root = own.root) :
    Keeps (Evolves P c) (modify (·.modifyConfiguration d change)) :=
  keeps_modify (fun _ => rfl) (fun w d' => root_modifyConfiguration w d d' change h)
    (fun _ => by simp [World.modifyConfiguration])

omit [IsPreorder Forest P] in
theorem evolves_onForest {change : Forest → Forest}
    (h : w.forest.WellFormed → w.forest.Has (w.root c) →
      (change w.forest).WellFormed ∧ w.forest.size ≤ (change w.forest).size ∧
        P w.forest (change w.forest)) :
    Evolves P c w ((onForest change).after w) := by
  intro hf hroot
  obtain ⟨hwf, hle, hp⟩ := h hf hroot
  exact ⟨hwf, hle, hp, fun _ => rfl, rfl⟩

end Preorder

theorem keeps_addEach (key : Option String) (values : List Value) :
    Keeps (Evolves Forest.Extends c) (c.addEach key values) := by
  refine .forM fun v => .read_bind fun w place hplace => evolves_onForest fun hf hroot => ?_
  have hhas := hf.has_of_prepareAdd hroot hplace
  obtain ⟨-, hext, -⟩ := Forest.insertNode_spec hf.consistent hhas v
  exact ⟨hf.insertNode hhas v, hext.size_le, hext⟩

theorem keeps_addPropertyWith {announce : Announcer} (key : Option String) (value : Value)
    (h : ∀ event, event.source = c → Keeps (Evolves Forest.Extends c) (announce event)) :
    Keeps (Evolves Forest.Extends c) (c.addPropertyWith announce key value) :=
  .bind (.read _) fun _ => .bind (h _ rfl) fun _ => .bind (keeps_addEach key _) fun _ => h _ rfl

theorem keeps_deliver {nested : Announcer} {event : Event} (l : ListenerId)
    (h : ∀ event, event.source = c → Keeps (Evolves Forest.Extends c) (nested event))
    (he : event.source = c) : Keeps (Evolves Forest.Extends c) (deliver nested event l) :=
  .deliver (keeps_modify (fun _ => rfl) (fun _ _ => rfl) fun _ => rfl)
    (fun _ => keeps_modify (fun _ => rfl) (fun _ _ => rfl) fun _ => rfl)
    (fun _ => keeps_modifyConfiguration fun _ => rfl)
    fun key value => he ▸ keeps_addPropertyWith key value (he ▸ h)

theorem keeps_announceTo (depth : Nat) (event : Event) (he : event.source = c) :
    Keeps (Evolves Forest.Extends c) (announceTo depth event) := by
  induction depth generalizing event with
  | zero => exact .get_bind fun w => Keeps.forM (fun l => keeps_deliver l (fun _ _ => .pure _) he) w
  | succ depth ih => exact .get_bind fun w => Keeps.forM (fun l => keeps_deliver l ih he) w

theorem keeps_announce (event : Event) (he : event.source = c) :
    Keeps (Evolves Forest.Extends c) (announce event) :=
  .get_bind fun w => keeps_announceTo _ event he w

theorem Action.Keeps.weaken {a : Action α} (h : Keeps (Evolves P c) a) :
    Keeps (Evolves Forest.Any c) a :=
  h.mono Evolves.weaken

theorem keeps_announce_any (event : Event) (he : event.source = c) :
    Keeps (Evolves Forest.Any c) (announce event) :=
  (keeps_announce event he).weaken

theorem evolves_any_onForest {change : Forest → Forest}
    (h : w.forest.WellFormed → w.forest.Has (w.root c) →
      (change w.forest).WellFormed ∧ (change w.forest).size = w.forest.size) :
    Evolves Forest.Any c w ((onForest change).after w) :=
  evolves_onForest fun hf hroot => ⟨(h hf hroot).1, Nat.le_of_eq (h hf hroot).2.symm, trivial⟩

theorem keeps_addProperty (key : Option String) (value : Value) :
    Keeps (Evolves Forest.Extends c) (c.addProperty key value) :=
  keeps_addPropertyWith key value keeps_announce

theorem keeps_overwrite (nodes : List NodeId) (values : List Value) :
    Keeps (Evolves Forest.Any c) (ConfigurationId.overwrite nodes values) :=
  .forM fun (i, v) _ => evolves_any_onForest fun hf _ => ⟨hf.setValue i v, by simp⟩

theorem keeps_clearNodes (nodes : List NodeId) :
    Keeps (Evolves Forest.Any c) (c.clearNodes nodes) :=
  .forM fun i => .get_bind fun _ => evolves_any_onForest fun hf _ => ⟨hf.clearNode _ i, by simp⟩

theorem keeps_setProperty (key : Option String) (value : Value) :
    Keeps (Evolves Forest.Any c) (c.setProperty key value) := by
  refine .bind (.read _) fun nodes => ?_
  have hwrite : Keeps (Evolves Forest.Any c) (do
      announce ⟨c, Event.setProperty, key, .value value, true⟩
      ConfigurationId.overwrite nodes value.spread
      c.clearNodes (nodes.drop value.spread.length)
      c.addEach key (value.spread.drop nodes.length)
      announce ⟨c, Event.setProperty, key, .value value, false⟩) :=
    .bind (keeps_announce_any _ rfl) fun _ => .bind (keeps_overwrite nodes _) fun _ =>
      .bind (keeps_clearNodes _) fun _ => .bind (keeps_addEach key _).weaken fun _ =>
        keeps_announce_any _ rfl
  dsimp only
  split
  · exact .bind (.read _) fun _ => hwrite
  · exact hwrite

theorem keeps_clearProperty (key : Option String) :
    Keeps (Evolves Forest.Any c) (c.clearProperty key) :=
  .bind (keeps_announce_any _ rfl) fun _ => .bind (.read _) fun _ =>
    .bind (keeps_clearNodes _) fun _ => keeps_announce_any _ rfl

theorem keeps_dropNodes (nodes : List NodeId) :
    Keeps (Evolves Forest.Any c) (c.dropNodes nodes) := by
  refine .forM fun i => .get_bind fun w => evolves_any_onForest fun hf _ => ?_
  split
  · exact ⟨hf.reset i, by simp⟩
  · exact ⟨hf.detach i, by simp⟩

theorem keeps_clearTree (key : Option String) :
    Keeps (Evolves Forest.Any c) (c.clearTree key) :=
  .bind (keeps_announce_any _ rfl) fun _ => .bind (.read _) fun _ =>
    .bind (keeps_dropNodes _) fun _ => keeps_announce_any _ rfl

theorem keeps_clear : Keeps (Evolves Forest.Any c) c.clear := by
  refine .bind (keeps_announce_any _ rfl) fun _ => .get_bind fun w => ?_
  refine related_bind (evolves_any_onForest fun hf _ => ?_) fun _ w' _ => ?_
  · exact ⟨hf.reset _, Forest.size_reset _ _⟩
  · exact keeps_announce_any _ (by rfl) w'

def AddTarget.base : AddTarget → NodeId
  | .existing node => node
  | .missing place => place.parent

theorem has_base_of_addTarget {key : Option String} {target : AddTarget}
    (hf : w.forest.WellFormed) (hroot : w.forest.Has (w.root c))
    (h : w.addTarget c key = .ok target) : w.forest.Has target.base := by
  obtain ⟨nodes, hfetch, h⟩ := bind_eq_ok.1 h
  match nodes with
  | [] =>
    obtain ⟨place, hplace, h⟩ := bind_eq_ok.1 h
    split at h
    · cases h
    · cases h
      exact hf.has_of_prepareAdd hroot hplace
  | [node] =>
    dsimp only at h
    split at h
    · cases h
    · cases h
      exact hf.has_of_select hroot hfetch node (by simp)
  | i :: j :: rest => cases h

theorem evolves_linkAll {node : NodeId} {nodes : List NodeId} (key : Option String)
    (hnode : w.forest.Has node) (h : ∀ i ∈ nodes, w.forest.Has i ∧ ¬ w.forest.Above i node) :
    Evolves Forest.Any c w (Action.after (do
      onForest fun f => nodes.foldl (·.append node ·) f
      announce ⟨c, Event.addNodes, key, .nodes nodes, false⟩) w) := by
  refine related_bind (evolves_any_onForest fun hf _ => ?_) fun _ w' _ => ?_
  · exact ⟨hf.foldl_append hnode h, Forest.size_foldl_append _ _ _⟩
  · exact keeps_announce_any _ (by rfl) w'

/-- Adding nodes none of which is above the place where they go. -/
theorem evolves_addNodes {key : Option String} {nodes : List NodeId}
    (hnodes : ∀ i ∈ nodes, w.forest.Has i)
    (h : ∀ target, w.addTarget c key = .ok target → ∀ i ∈ nodes, ¬ w.forest.Above i target.base) :
    Evolves Forest.Any c w ((c.addNodes key nodes).after w) := by
  unfold ConfigurationId.addNodes
  split
  · exact refl_of (Evolves Forest.Any c) w
  rw [after_read_bind]
  cases htarget : w.addTarget c key with
  | error e => exact refl_of (Evolves Forest.Any c) w
  | ok target =>
    intro hf hroot
    have hbase := has_base_of_addTarget hf hroot htarget
    have hfree := h target htarget
    -- The announcement only lets the forest grow, so the place stays out of reach of the nodes.
    have hgrown := keeps_announce ⟨c, Event.addNodes, key, .nodes nodes, true⟩ rfl w
    refine related_bind (R := Evolves Forest.Any c) hgrown.weaken (fun _ w₁ hrun => ?_) hf hroot
    rw [after_of_run hrun] at hgrown
    obtain ⟨hf₁, -, hext, -, -⟩ := hgrown hf hroot
    have hnodes₁ : ∀ i ∈ nodes, w₁.forest.Has i ∧ ¬ w₁.forest.Above i target.base := fun i hi =>
      ⟨hext.has (hnodes i hi), fun ha => hfree i hi ((hext.above_iff hf.consistent hbase).1 ha)⟩
    cases target with
    | existing node => exact evolves_linkAll key (hext.has hbase) hnodes₁
    | missing place =>
      have hplace : w₁.forest.Has place.parent := hext.has hbase
      obtain ⟨-, hext₂, hhas⟩ := Forest.insertNode_spec hf₁.consistent hplace .null
      refine related_bind (fun _ _ => ?_) fun node w₂ hinsert => ?_
      · exact ⟨hf₁.insertNode hplace .null, hext₂.size_le, trivial, fun _ => rfl, rfl⟩
      · cases hinsert
        refine evolves_linkAll key hhas fun i hi => ?_
        obtain ⟨hi₁, hup⟩ := hnodes₁ i hi
        exact ⟨hext₂.has hi₁, fun ha => hup (.of_insertNode hf₁.consistent (hext.has hbase) hi₁ ha)⟩

end Settings
