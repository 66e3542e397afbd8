import Settings.Configuration.View
import Settings.Proofs.Actions
import Settings.Proofs.Forest.Paths
import Settings.Proofs.Key.Joining

/-! # Views and what they are made from

A view at a key reads under a second key what its configuration reads under
both keys joined. It takes over the settings of its configuration, and its
variables are those of the configuration at the end of the chain.
-/

namespace Settings

open Settings.Action

variable {w : World} {c c' : ConfigurationId} {key key' : Option String}

namespace World

/-- Two configurations read the same under two keys, up to the wording of faults. -/
structure ReadAlike (w : World) (c c' : ConfigurationId) (key key' : Option String) : Prop where
  fetchNodes : SameOutcome (w.fetchNodes c key) (w.fetchNodes c' key')
  getProperty : SameOutcome (w.getProperty c key) (w.getProperty c' key')
  containsKey : SameOutcome (w.containsKey c key) (w.containsKey c' key')
  getMaxIndex : SameOutcome (w.getMaxIndex c key) (w.getMaxIndex c' key')
  getString : ∀ default_,
    SameOutcome (w.getString c key default_) (w.getString c' key' default_)
  getInt : ∀ default_, SameOutcome (w.getInt c key default_) (w.getInt c' key' default_)
  getFloat : ∀ default_, SameOutcome (w.getFloat c key default_) (w.getFloat c' key' default_)
  getBool : ∀ default_, SameOutcome (w.getBool c key default_) (w.getBool c' key' default_)
  getList : ∀ default_, SameOutcome (w.getList c key default_) (w.getList c' key' default_)

theorem interpolate_congr (h : w.outermost c = w.outermost c') :
    w.interpolate c = w.interpolate c' := by
  funext v
  cases v <;> simp only [interpolate, expandText, h]

theorem refusesMissing_congr
    (h : (w.configuration c).throwsOnMissing = (w.configuration c').throwsOnMissing) :
    w.refusesMissing c = w.refusesMissing c' := by
  funext default_
  rw [refusesMissing, refusesMissing, h]

theorem refuseConversion_sameOutcome {α : Type} (key key' : Option String) (target : Target)
    (v : Value) :
    SameOutcome (refuseConversion key target v : Except Fault α)
      (refuseConversion key' target v) :=
  .bind_same _ fun _ => .throw rfl

theorem getProperty_sameOutcome (h : SameOutcome (w.fetchNodes c key) (w.fetchNodes c' key')) :
    SameOutcome (w.getProperty c key) (w.getProperty c' key') :=
  h.bind fun _ => .refl _

section Reading

variable (hfetch : SameOutcome (w.fetchNodes c key) (w.fetchNodes c' key'))
  (hthrows : (w.configuration c).throwsOnMissing = (w.configuration c').throwsOnMissing)
  (houtermost : w.outermost c = w.outermost c')

include hfetch hthrows houtermost

theorem getSingle_sameOutcome (default_ : Value) :
    SameOutcome (w.getSingle c key default_) (w.getSingle c' key' default_) := by
  refine (getProperty_sameOutcome hfetch).bind fun v => ?_
  rw [refusesMissing_congr hthrows, interpolate_congr houtermost]
  split
  · split
    · exact .throw rfl
    · exact .refl _
  · exact .refl _

theorem conversions_sameOutcome (default_ : Value) :
    SameOutcome (w.getInt c key default_) (w.getInt c' key' default_) ∧
      SameOutcome (w.getFloat c key default_) (w.getFloat c' key' default_) ∧
      SameOutcome (w.getBool c key default_) (w.getBool c' key' default_) := by
  have hsingle := getSingle_sameOutcome hfetch hthrows houtermost default_
  refine ⟨?_, ?_, ?_⟩ <;>
  · refine hsingle.bind fun v => ?_
    split
    · exact .refl _
    · refine .bind_same _ fun converted => ?_
      split
      · exact .refl _
      · exact refuseConversion_sameOutcome key key' _ v

theorem getList_sameOutcome (default_ : Value) :
    SameOutcome (w.getList c key default_) (w.getList c' key' default_) := by
  refine (getProperty_sameOutcome hfetch).bind fun v => ?_
  rw [refusesMissing_congr hthrows, interpolate_congr houtermost]
  split
  · split
    · exact .throw rfl
    · exact .refl _
  · exact .refl _

theorem ReadAlike.of_fetchNodes : w.ReadAlike c c' key key' where
  fetchNodes := hfetch
  getProperty := getProperty_sameOutcome hfetch
  containsKey := (getProperty_sameOutcome hfetch).bind fun _ => .refl _
  getMaxIndex := hfetch.bind fun _ => .refl _
  getString default_ := (getSingle_sameOutcome hfetch hthrows houtermost default_).bind
    fun _ => .refl _
  getInt default_ := (conversions_sameOutcome hfetch hthrows houtermost default_).1
  getFloat default_ := (conversions_sameOutcome hfetch hthrows houtermost default_).2.1
  getBool default_ := (conversions_sameOutcome hfetch hthrows houtermost default_).2.2
  getList default_ := getList_sameOutcome hfetch hthrows houtermost default_

end Reading

theorem configuration_addConfiguration (w : World) (own : Configuration)
    (h : c.index < w.configurations.size) :
    (w.addConfiguration own).2.configuration c = w.configuration c := by
  simp only [configuration, addConfiguration, Array.getD_eq_getD_getElem?, Array.getElem?_push]
  rw [if_neg (Nat.ne_of_lt h)]

theorem configuration_addConfiguration_new (w : World) (own : Configuration) :
    (w.addConfiguration own).2.configuration (w.addConfiguration own).1 = own := by
  simp [configuration, addConfiguration]

def Each (w : World) (Q : Configuration → Prop) : Prop :=
  ∀ c : ConfigurationId, c.index < w.configurations.size → Q (w.configuration c)

theorem Each.addConfiguration {Q : Configuration → Prop} {own : Configuration} (h : w.Each Q)
    (hown : Q own) : (w.addConfiguration own).2.Each Q := by
  intro c hc
  by_cases hlt : c.index < w.configurations.size
  · rw [configuration_addConfiguration w own hlt]
    exact h c hlt
  · simp only [World.addConfiguration, Array.size_push] at hc
    obtain rfl : c = (w.addConfiguration own).1 :=
      congrArg ConfigurationId.mk (by omega : c.index = w.configurations.size)
    rwa [configuration_addConfiguration_new]

theorem Each.modifyConfiguration {Q : Configuration → Prop} {change : Configuration → Configuration}
    (h : w.Each Q) (c : ConfigurationId) (hchange : ∀ own, Q own → Q (change own)) :
    (w.modifyConfiguration c change).Each Q := by
  intro d hd
  simp only [World.modifyConfiguration, Array.size_modify] at hd
  have hown := h d hd
  simp only [configuration, World.modifyConfiguration, Array.getD_eq_getD_getElem?,
    Array.getElem?_modify, Array.getElem?_eq_getElem hd] at hown ⊢
  split
  · exact hchange _ hown
  · exact hown

theorem modifyConfiguration_addConfiguration (w : World) (own : Configuration)
    (change : Configuration → Configuration) :
    (w.addConfiguration own).2.modifyConfiguration (w.addConfiguration own).1 change =
      (w.addConfiguration (change own)).2 := by
  have hmodify : (w.configurations.push own).modify w.configurations.size change =
      w.configurations.push (change own) := by
    refine Array.ext_getElem? fun k => ?_
    rw [Array.getElem?_modify, Array.getElem?_push, Array.getElem?_push]
    by_cases hk : k = w.configurations.size <;> simp [hk, eq_comm]
  simp only [modifyConfiguration, addConfiguration, hmodify]

/-- A world with more configurations, and nothing else that is new. -/
structure Widens (w w' : World) : Prop where
  forest : w'.forest = w.forest
  common : w'.common = w.common
  environment : w'.environment = w.environment
  size_le : w.configurations.size ≤ w'.configurations.size
  configuration_eq : ∀ c : ConfigurationId, c.index < w.configurations.size →
    w'.configuration c = w.configuration c

namespace Widens

theorem refl (w : World) : w.Widens w := ⟨rfl, rfl, rfl, Nat.le_refl _, fun _ _ => rfl⟩

theorem trans {w₁ w₂ w₃ : World} (h : w₁.Widens w₂) (h' : w₂.Widens w₃) : w₁.Widens w₃ where
  forest := h'.forest.trans h.forest
  common := h'.common.trans h.common
  environment := h'.environment.trans h.environment
  size_le := Nat.le_trans h.size_le h'.size_le
  configuration_eq c hc :=
    (h'.configuration_eq c (Nat.lt_of_lt_of_le hc h.size_le)).trans (h.configuration_eq c hc)

theorem addConfiguration (w : World) (own : Configuration) :
    w.Widens (w.addConfiguration own).2 where
  forest := rfl
  common := rfl
  environment := rfl
  size_le := by simp [World.addConfiguration]
  configuration_eq _ hc := configuration_addConfiguration w own hc

end Widens

theorem lt_of_parent {p : ConfigurationId} (h : (w.configuration c).parent = some p) :
    c.index < w.configurations.size := by
  by_contra hlt
  rw [configuration, Array.getD_eq_getD_getElem?, Array.getElem?_eq_none (Nat.le_of_not_lt hlt)]
    at h
  cases h

theorem outermost_index_le (w : World) (c : ConfigurationId) : (w.outermost c).index ≤ c.index := by
  induction hn : c.index using Nat.strongRecOn generalizing c with
  | ind n ih =>
    rw [outermost]
    cases (w.configuration c).parent with
    | none => exact Nat.le_of_eq hn
    | some p =>
      dsimp only
      split
      · rename_i hlt
        exact Nat.le_of_lt (Nat.lt_of_le_of_lt (ih p.index (hn ▸ hlt) p rfl) (hn ▸ hlt))
      · exact Nat.le_of_eq hn

theorem Widens.outermost_eq {w' : World} (h : w.Widens w') (hc : c.index < w.configurations.size) :
    w'.outermost c = w.outermost c := by
  induction hn : c.index using Nat.strongRecOn generalizing c with
  | ind n ih =>
    rw [outermost, outermost, h.configuration_eq c hc]
    cases (w.configuration c).parent with
    | none => rfl
    | some p =>
      dsimp only
      split
      · rename_i hlt
        exact ih p.index (hn ▸ hlt) (Nat.lt_trans hlt hc) rfl
      · rfl

theorem outermost_addConfiguration (w : World) (own : Configuration)
    (h : c.index < w.configurations.size) :
    (w.addConfiguration own).2.outermost c = w.outermost c :=
  (Widens.addConfiguration w own).outermost_eq h

theorem outermost_outermost (w : World) (c : ConfigurationId) :
    w.outermost (w.outermost c) = w.outermost c := by
  induction hn : c.index using Nat.strongRecOn generalizing c with
  | ind n ih =>
    cases hparent : (w.configuration c).parent with
    | none =>
      have hself : w.outermost c = c := by rw [outermost, hparent]
      rw [hself, hself]
    | some p =>
      by_cases hlt : p.index < c.index
      · have hstep : w.outermost c = w.outermost p := by
          rw [outermost, hparent]
          exact if_pos hlt
        rw [hstep]
        exact ih p.index (hn ▸ hlt) p rfl
      · have hself : w.outermost c = c := by
          rw [outermost, hparent]
          exact if_neg hlt
        rw [hself, hself]

def viewOver (w : World) (c : ConfigurationId) (node : NodeId) : Configuration :=
  { Configuration.rootedAt node (some c) with
    markers := (w.configuration c).markers
    throwsOnMissing := (w.configuration c).throwsOnMissing }

theorem run_configurationAt {node : NodeId} (h : w.fetchNodes c key = .ok [node]) :
    (c.configurationAt key).run w = .ok (w.addConfiguration (w.viewOver c node)).1
      (w.addConfiguration (w.viewOver c node)).2 := by
  rw [ConfigurationId.configurationAt, EStateM.run_bind, run_read, h]
  rfl

/-- Below the only node of a key, another key leads to the nodes of both joined. -/
theorem select_join {f : Forest} {m : Markers} {root node : NodeId} {d : Char}
    {first second : String} (hd : m.delimiter = [d]) (hstart : d ∉ m.attributeStart)
    (hselect : f.select m root (some first) = .ok [node])
    (hlast : first.toList.getLast? ≠ some d) (hfirst : second.toList.head? ≠ some d) :
    SameOutcome (f.select m node (some second))
      (f.select m root (some (first ++ String.singleton d ++ second))) := by
  obtain ⟨parts, hparts, hfollow⟩ := Forest.select_eq_ok.1 hselect
  have hjoin := Markers.parse_join hd hstart hlast hfirst hparts
  refine SameOutcome.symm ((hjoin.bind fun _ => .refl _).trans (.of_eq ?_))
  rw [Forest.select]
  cases m.parse (some second) with
  | error e => rfl
  | ok rest =>
    change Except.ok (f.follow [root] (parts ++ rest)) = Except.ok (f.follow [node] rest)
    rw [Forest.follow_append, hfollow]

/-- A view at a key reads under a second key what its configuration reads
under both joined; the variables of both are those of the same configuration. -/
theorem readAlike_configurationAt {node : NodeId} {d : Char} {first second : String}
    (hc : c.index < w.configurations.size) (hd : (w.markers c).delimiter = [d])
    (hstart : d ∉ (w.markers c).attributeStart)
    (hselect : w.fetchNodes c (some first) = .ok [node])
    (hlast : first.toList.getLast? ≠ some d) (hfirst : second.toList.head? ≠ some d) :
    ∃ v w', (c.configurationAt (some first)).run w = .ok v w' ∧
      w'.ReadAlike v c (some second) (some (first ++ String.singleton d ++ second)) ∧
      ∀ e ∈ [v, c], w'.outermost e = w.outermost c ∧
        ∀ text, w'.expandText e text = w'.expandText (w.outermost c) text := by
  have hrun := run_configurationAt hselect
  generalize hown : w.viewOver c node = own at hrun
  have hview := configuration_addConfiguration_new w own
  have hparent := configuration_addConfiguration w own hc
  have houter := outermost_addConfiguration w own hc
  have hyounger : c.index < (w.addConfiguration own).1.index := hc
  have hforest : (w.addConfiguration own).2.forest = w.forest := rfl
  have hcommon : (w.addConfiguration own).2.common = w.common := rfl
  generalize (w.addConfiguration own).1 = v at hrun hview hyounger
  generalize (w.addConfiguration own).2 = w' at hrun hview hparent houter hforest hcommon
  subst hown
  have hvouter : w'.outermost v = w.outermost c := by
    rw [outermost, hview]
    exact (if_pos hyounger).trans houter
  have hfetch : SameOutcome (w'.fetchNodes v (some second))
      (w'.fetchNodes c (some (first ++ String.singleton d ++ second))) := by
    have hjoin := select_join hd hstart hselect hlast hfirst
    simpa only [fetchNodes, markers, root, hview, hparent, hforest, hcommon, viewOver,
      Configuration.rootedAt] using hjoin
  have hthrows : (w'.configuration v).throwsOnMissing = (w'.configuration c).throwsOnMissing := by
    rw [hview, hparent, viewOver]
  refine ⟨v, w', hrun, .of_fetchNodes hfetch hthrows (hvouter.trans houter.symm), ?_⟩
  have hends : w'.outermost (w.outermost c) = w.outermost c := by
    rw [← houter, outermost_outermost]
  intro e he
  have heouter : w'.outermost e = w.outermost c := by
    simp only [List.mem_cons, List.not_mem_nil, or_false] at he
    rcases he with rfl | rfl
    · exact hvouter
    · exact houter
  exact ⟨heouter, fun text => by rw [expandText, expandText, heouter, hends]⟩

/-- A view made from a view, over a node whose name contains the delimiter. -/
theorem readAlike_configurationAt_nested :
    let branch := ((Forest.empty.create none .null false).2.createLinked ⟨0⟩ "a.b" .null false).2
    let forest := (branch.createLinked ⟨1⟩ "x" (.str "y") false).2
    let w := { World.fresh [] with
      forest, configurations := #[.rootedAt ⟨0⟩ none, .rootedAt ⟨0⟩ (some ⟨0⟩)] }
    ∃ v w', (ConfigurationId.configurationAt ⟨1⟩ (some "a..b")).run w = .ok v w' ∧
      w'.ReadAlike v ⟨1⟩ (some "x") (some "a..b.x") ∧ w'.outermost v = ⟨0⟩ := by
  intro branch forest w
  have hselect : w.fetchNodes ⟨1⟩ (some "a..b") = .ok [⟨1⟩] := by decide +kernel
  obtain ⟨v, w', hrun, halike, hchain⟩ := readAlike_configurationAt (w := w) (d := '.')
    (by decide) (by rfl) (by decide) hselect (by decide : _ ≠ _) (by decide : "x".toList.head? ≠ _)
  have houter : w.outermost ⟨1⟩ = ⟨0⟩ := by decide +kernel
  exact ⟨v, w', hrun, halike, (hchain v (by simp)).1.trans houter⟩

end World

end Settings
