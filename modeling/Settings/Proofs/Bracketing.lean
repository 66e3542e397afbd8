import Settings.Proofs.Announcing
import Settings.Proofs.Changes

/-! # Changes between their announcements

Every change that is accepted happens between two announcements. Who refuses the
first one prevents the change, who refuses the second one comes too late for it. An
addition that is refused for its key is never announced, and one that was announced
goes through.
-/

namespace Settings

open Settings.Action

variable {c : ConfigurationId} {w : World} {change : Change} {l : ListenerId}
  {earlier later : List ListenerId}

/-- The world in which nobody listens to a configuration. -/
def World.silenced (w : World) (c : ConfigurationId) : World :=
  w.modifyConfiguration c fun own => { own with listeners := [] }

theorem World.configuration_silenced (w : World) (c : ConfigurationId) :
    (w.silenced c).configuration c = { w.configuration c with listeners := [] } := by
  simp only [silenced, modifyConfiguration, configuration, Array.getD_eq_getD_getElem?,
    Array.getElem?_modify, if_true]
  cases w.configurations[c.index]? <;> rfl

namespace SameTree

theorem refl (c : ConfigurationId) (w : World) : SameTree c w w := ⟨rfl, rfl, rfl⟩

theorem silenced (c : ConfigurationId) (w : World) : SameTree c w (w.silenced c) where
  forest := rfl
  root := by rw [World.root, World.configuration_silenced]; rfl
  markers := by rw [World.markers, World.configuration_silenced]; rfl

theorem notedBy (c : ConfigurationId) (w : World) (event : Event) (listeners : List ListenerId) :
    SameTree c w (w.notedBy event listeners) := by
  obtain ⟨called, heq⟩ := w.notedBy_eq event listeners
  rw [heq]
  exact ⟨rfl, rfl, rfl⟩

end SameTree

theorem Change.Accepts.ne (h : change.Accepts c w) (key : Option String) :
    change ≠ .addNodes key [] := by
  rintro rfl
  exact h.1 rfl

/-- How a change goes in every world with the same tree: it announces itself, is carried
out, and announces itself again on the final forest. -/
structure Change.Phases (c : ConfigurationId) (w : World) (change : Change)
    (carryOut : Action Payload) (final : Forest) : Prop where
  opens : ∀ u, SameTree c w u → (change.perform c).run u =
    (announce (change.event c u true) >>= fun _ => change.conclude c carryOut).run u
  closes : ∀ u, SameTree c w u → (change.conclude c carryOut).run u =
    (announce (change.event c w false)).run { u with forest := final }

theorem Change.Accepts.phases (haccepts : change.Accepts c w) :
    ∃ carryOut final, change.prepare c w = .ok carryOut ∧ change.Phases c w carryOut final := by
  obtain ⟨carryOut, hprepare, hcarryOut⟩ := Change.prepare_spec haccepts
  obtain ⟨final, hrun⟩ := hcarryOut w ⟨rfl, rfl⟩
  refine ⟨carryOut, final, hprepare w (.refl c w), fun u hsame => ?_, fun u hsame => ?_⟩
  · rw [Change.run_perform change haccepts.ne, hprepare u hsame]
  · rw [Change.conclude, EStateM.run_bind, hrun u hsame]
    rfl

namespace Change.Phases

variable {carryOut : Action Payload} {final : Forest} (h : change.Phases c w carryOut final)

include h

theorem run_silenced :
    (change.perform c).run (w.silenced c) = .ok () { w.silenced c with forest := final } := by
  have hsilent : ((w.silenced c).configuration c).listeners = [] := by
    rw [World.configuration_silenced]
  rw [h.opens _ (.silenced c w), EStateM.run_bind, run_announce_of_silent hsilent]
  exact (h.closes _ (.silenced c w)).trans (run_announce_of_silent hsilent)

section

variable (hpassive : ∀ l ∈ (w.configuration c).listeners, (w.listener l).isPassive = true)

include hpassive

theorem run_refused_before
    (hsplit : (w.configuration c).listeners = earlier ++ l :: later)
    (hearlier : ∀ d ∈ earlier, (w.listener d).refuses (change.event c w true) = false)
    (hrefuse : (w.listener l).refuses (change.event c w true) = true) :
    (change.perform c).run w = .error (.vetoed (w.listener l).name)
      (w.notedBy (change.event c w true) (earlier ++ [l])) := by
  rw [h.opens w (.refl c w), EStateM.run_bind,
    run_announce_refused hpassive hsplit hearlier hrefuse]

section

variable (hall : ∀ l ∈ (w.configuration c).listeners,
  (w.listener l).refuses (change.event c w true) = false)

include hall

theorem run_carried :
    ∃ u, (change.perform c).run w = (announce (change.event c w false)).run u ∧
      SameListeners c w u ∧ u.forest = final ∧
      u.notices = w.notices ++
        noticesOf (change.event c w true) w.forest (w.configuration c).listeners := by
  refine ⟨{ w.notedBy (change.event c w true) (w.configuration c).listeners with
    forest := final }, ?_, (SameListeners.notedBy c w _ _).withForest final, rfl, by simp⟩
  rw [h.opens w (.refl c w), EStateM.run_bind, run_announce_ok hpassive hall]
  exact h.closes _ (.notedBy c w _ _)

theorem run_accepted (haccept : ∀ l ∈ (w.configuration c).listeners,
      (w.listener l).refuses (change.event c w false) = false) :
    ∃ w', (change.perform c).run w = .ok () w' ∧ w'.forest = final ∧
      w'.notices = w.notices ++
        noticesOf (change.event c w true) w.forest (w.configuration c).listeners ++
        noticesOf (change.event c w false) final (w.configuration c).listeners := by
  obtain ⟨u, hu, hsame, rfl, hnotices⟩ := h.run_carried hpassive hall
  rw [hu, run_announce_ok (hsame.all_passive hpassive) (hsame.none_refuses haccept)]
  refine ⟨_, rfl, World.forest_notedBy, ?_⟩
  rw [World.notices_notedBy, hnotices]
  exact congrArg (fun own => _ ++ noticesOf _ _ own.listeners) hsame.configuration

/-- The final forest is there already when a listener refuses the second announcement. -/
theorem run_refused_after
    (hsplit : (w.configuration c).listeners = earlier ++ l :: later)
    (hearlier : ∀ d ∈ earlier, (w.listener d).refuses (change.event c w false) = false)
    (hrefuse : (w.listener l).refuses (change.event c w false) = true) :
    ∃ w', (change.perform c).run w = .error (.vetoed (w.listener l).name) w' ∧
      w'.forest = final ∧
      w'.notices = w.notices ++
        noticesOf (change.event c w true) w.forest (w.configuration c).listeners ++
        noticesOf (change.event c w false) final (earlier ++ [l]) := by
  obtain ⟨u, hu, hsame, rfl, hnotices⟩ := h.run_carried hpassive hall
  have hsplit' : (u.configuration c).listeners = earlier ++ l :: later := by
    rw [hsame.configuration]
    exact hsplit
  have hearlier' : ∀ d ∈ earlier, (u.listener d).refuses (change.event c w false) = false := by
    simpa only [hsame.refuses] using hearlier
  have hrefuse' : (u.listener l).refuses (change.event c w false) = true := by
    rwa [hsame.refuses]
  rw [hu, run_announce_refused (hsame.all_passive hpassive) hsplit' hearlier' hrefuse', hsame.name]
  refine ⟨_, rfl, World.forest_notedBy, ?_⟩
  rw [World.notices_notedBy, hnotices]

end

end

end Change.Phases

/-- An accepted change announces itself, is carried out and announces itself again, all
registered listeners being passive. Nobody refusing, each of them hears of it twice. -/
theorem run_perform_bracketed (haccepts : change.Accepts c w)
    (hpassive : ∀ l ∈ (w.configuration c).listeners, (w.listener l).isPassive = true) :
    ∃ final,
      (change.perform c).run (w.silenced c) = .ok () { w.silenced c with forest := final } ∧
      let listeners := (w.configuration c).listeners
      let before := change.event c w true
      let after := change.event c w false
      ((∀ l ∈ listeners, (w.listener l).refuses before = false ∧
          (w.listener l).refuses after = false) →
        ∃ w', (change.perform c).run w = .ok () w' ∧ w'.forest = final ∧
          w'.notices = w.notices ++ noticesOf before w.forest listeners ++
            noticesOf after final listeners) ∧
      ∀ earlier l later, listeners = earlier ++ l :: later →
        ((∀ d ∈ earlier, (w.listener d).refuses before = false) →
          (w.listener l).refuses before = true →
          ∃ w', (change.perform c).run w = .error (.vetoed (w.listener l).name) w' ∧
            w'.forest = w.forest ∧
            w'.notices = w.notices ++ noticesOf before w.forest (earlier ++ [l])) ∧
        ((∀ d ∈ listeners, (w.listener d).refuses before = false) →
          (∀ d ∈ earlier, (w.listener d).refuses after = false) →
          (w.listener l).refuses after = true →
          ∃ w', (change.perform c).run w = .error (.vetoed (w.listener l).name) w' ∧
            w'.forest = final ∧
            w'.notices = w.notices ++ noticesOf before w.forest listeners ++
              noticesOf after final (earlier ++ [l])) := by
  obtain ⟨carryOut, final, -, hphases⟩ := haccepts.phases
  refine ⟨final, hphases.run_silenced, fun haccept => ?_, fun earlier l later hsplit => ⟨?_, ?_⟩⟩
  · exact hphases.run_accepted hpassive (fun l hl => (haccept l hl).1) fun l hl => (haccept l hl).2
  · intro hearlier hrefuse
    exact ⟨_, hphases.run_refused_before hpassive hsplit hearlier hrefuse,
      World.forest_notedBy, World.notices_notedBy⟩
  · intro hall hearlier hrefuse
    exact hphases.run_refused_after hpassive hall hsplit hearlier hrefuse

/-- The second of two listeners refuses, too late, that two values are added. -/
theorem run_perform_bracketed_late :
    let w := { World.fresh [] with
      forest := (Forest.empty.create none .null false).2
      configurations := #[⟨⟨0⟩, none, false, none, [⟨0⟩, ⟨1⟩]⟩]
      listeners := #[⟨"first", .record, false⟩, ⟨"second", .veto none false, false⟩] }
    let c : ConfigurationId := ⟨0⟩
    let change := Change.addProperty (some "a") (.list [.int 1, .int 2])
    (change.Accepts c w ∧
      ∀ l ∈ (w.configuration c).listeners, (w.listener l).isPassive = true) ∧
    ∃ final w', final.size = 3 ∧
      (change.perform c).run (w.silenced c) = .ok () { w.silenced c with forest := final } ∧
      (change.perform c).run w = .error (.vetoed "second") w' ∧ w'.forest = final ∧
      w'.notices = noticesOf (change.event c w true) w.forest [⟨0⟩, ⟨1⟩] ++
        noticesOf (change.event c w false) final [⟨0⟩, ⟨1⟩] := by
  intro w c change
  have haccepts : change.Accepts c w := by
    have hplace :
        (w.forest.prepareAdd (w.markers c) (w.root c) (some "a")).toOption.isSome = true := by
      decide +kernel
    cases hresult : w.forest.prepareAdd (w.markers c) (w.root c) (some "a") with
    | ok place => exact ⟨place, hresult⟩
    | error e =>
      rw [hresult] at hplace
      cases hplace
  have hpassive : ∀ l ∈ (w.configuration c).listeners, (w.listener l).isPassive = true := by
    decide
  have hsize : ((change.perform c).after (w.silenced c)).forest.size = 3 := by decide +kernel
  obtain ⟨final, hsilent, -, hrefused⟩ := run_perform_bracketed haccepts hpassive
  obtain ⟨w', hrun, hforest, hnotices⟩ :=
    (hrefused [⟨0⟩] ⟨1⟩ [] rfl).2 (by decide) (by decide) (by decide)
  rw [after_of_run hsilent] at hsize
  exact ⟨⟨haccepts, hpassive⟩, final, w', hsize, hsilent, hrun, hforest, hnotices⟩

def Change.isAddition : Change → Bool
  | addProperty .. | setProperty .. | addNodes .. => true
  | _ => false

/-- The checks of an addition are complete. -/
theorem Change.accepts_of_prepare {carryOut : Action Payload} (hadds : change.isAddition = true)
    (hne : ∀ key, change ≠ .addNodes key []) (h : change.prepare c w = .ok carryOut) :
    change.Accepts c w := by
  cases change with
  | addProperty key value =>
    obtain ⟨place, hplace, -⟩ := bind_eq_ok.1 h
    exact ⟨place, hplace⟩
  | setProperty key value =>
    obtain ⟨nodes, hnodes, h⟩ := bind_eq_ok.1 h
    refine ⟨nodes, hnodes, fun hlt => ?_⟩
    rw [if_pos hlt] at h
    obtain ⟨place, hplace, -⟩ := bind_eq_ok.1 h
    exact ⟨place, hplace⟩
  | addNodes key nodes =>
    obtain ⟨target, htarget, -⟩ := bind_eq_ok.1 h
    refine ⟨?_, target, htarget⟩
    rintro rfl
    exact hne key rfl
  | _ => cases hadds

section

variable (hpassive : ∀ l ∈ (w.configuration c).listeners, (w.listener l).isPassive = true)
  (haccept : ∀ event, ∀ l ∈ (w.configuration c).listeners, (w.listener l).refuses event = false)

include hpassive haccept

theorem Change.run_opening :
    (change.opening c).run w = match change.prepare c w with
      | .ok carryOut =>
        .ok carryOut (w.notedBy (change.event c w true) (w.configuration c).listeners)
      | .error e => .error e w := by
  rw [opening, run_read_bind]
  cases change.prepare c w with
  | error e => rfl
  | ok carryOut =>
    change (announce (change.event c w true) >>= fun _ => pure carryOut).run w = _
    rw [EStateM.run_bind, run_announce_ok hpassive (haccept _)]
    rfl

theorem Change.eq_of_run_opening_error {e : Fault} {u : World}
    (hrefused : (change.opening c).run w = .error e u) : u = w := by
  rw [run_opening hpassive haccept] at hrefused
  cases hprepare : change.prepare c w with
  | ok carryOut =>
    rw [hprepare] at hrefused
    cases hrefused
  | error e =>
    rw [hprepare] at hrefused
    cases hrefused
    rfl

theorem Change.run_conclude_of_isAddition {carryOut : Action Payload} {u : World}
    (hadds : change.isAddition = true) (hne : ∀ key, change ≠ .addNodes key [])
    (hopened : (change.opening c).run w = .ok carryOut u) :
    ∃ w', (change.conclude c carryOut).run u = .ok () w' := by
  rw [run_opening hpassive haccept] at hopened
  cases hprepare : change.prepare c w with
  | error e =>
    rw [hprepare] at hopened
    cases hopened
  | ok carryOut' =>
    rw [hprepare] at hopened
    cases hopened
    obtain ⟨carryOut', final, hprepare', hphases⟩ :=
      (Change.accepts_of_prepare hadds hne hprepare).phases
    cases hprepare.symm.trans hprepare'
    rw [hphases.closes _ (.notedBy c w _ _)]
    have hsame := (SameListeners.notedBy c w (change.event c w true)
      (w.configuration c).listeners).withForest final
    exact ⟨_, run_announce_ok (hsame.all_passive hpassive) (hsame.none_refuses (haccept _))⟩

end

/-- An addition before listeners that only record is refused without a trace or not at all:
a refusal leaves the world as it was, and what was announced once goes through. -/
theorem run_addition (hadds : change.isAddition = true)
    (hrecord : ∀ l ∈ (w.configuration c).listeners, (w.listener l).reaction = .record) :
    (∀ fault w', (change.perform c).run w = .error fault w' → w' = w) ∧
      ((∀ key, change ≠ .addNodes key []) →
        (change.perform c).run w = (change.opening c >>= change.conclude c).run w ∧
          ∀ carryOut u, (change.opening c).run w = .ok carryOut u →
            ∃ w', (change.conclude c carryOut).run u = .ok () w') := by
  have hpassive : ∀ l ∈ (w.configuration c).listeners, (w.listener l).isPassive = true := by
    intro l hl
    simp only [Listener.isPassive, hrecord l hl]
  have haccept (event : Event) : ∀ l ∈ (w.configuration c).listeners,
      (w.listener l).refuses event = false := by
    intro l hl
    simp only [Listener.refuses, hrecord l hl]
  have hconclude (hne : ∀ key, change ≠ .addNodes key []) (carryOut : Action Payload) (u : World)
      (hopened : (change.opening c).run w = .ok carryOut u) :
      ∃ w', (change.conclude c carryOut).run u = .ok () w' :=
    Change.run_conclude_of_isAddition hpassive haccept hadds hne hopened
  refine ⟨fun fault w' hrun => ?_, fun hne => ⟨Change.run_perform_eq hne, hconclude hne⟩⟩
  by_cases hne : ∀ key, change ≠ .addNodes key []
  · rw [Change.run_perform_eq hne, EStateM.run_bind] at hrun
    cases hopened : (change.opening c).run w with
    | ok carryOut u =>
      obtain ⟨w'', hdone⟩ := hconclude hne carryOut u hopened
      rw [hopened] at hrun
      cases hrun.symm.trans hdone
    | error e u =>
      rw [hopened] at hrun
      cases hrun
      exact Change.eq_of_run_opening_error hpassive haccept hopened
  · obtain ⟨key, hempty⟩ := not_forall.1 hne
    obtain rfl := not_not.1 hempty
    cases hrun

/-- A key with an attribute in front is refused, and two values are added for another one. -/
theorem run_addition_twice :
    let w := { World.fresh [] with
      forest := (Forest.empty.create none .null false).2
      configurations := #[⟨⟨0⟩, none, false, none, [⟨0⟩]⟩]
      listeners := #[⟨"first", .record, false⟩] }
    let c : ConfigurationId := ⟨0⟩
    let refused := Change.setProperty (some "[@a].b") (.int 1)
    let accepted := Change.addProperty (some "a") (.list [.int 1, .int 2])
    (refused.isAddition = true ∧ accepted.isAddition = true ∧
      ∀ l ∈ (w.configuration c).listeners, (w.listener l).reaction = .record) ∧
    (∃ fault, (refused.perform c).run w = .error fault w) ∧
    ∃ carryOut u w', (accepted.opening c).run w = .ok carryOut u ∧
      (accepted.conclude c carryOut).run u = .ok () w' ∧
        (accepted.perform c).run w = .ok () w' := by
  intro w c refused accepted
  have hrecord : ∀ l ∈ (w.configuration c).listeners, (w.listener l).reaction = .record := by
    intro l hl
    obtain rfl := List.mem_singleton.1 hl
    rfl
  refine ⟨⟨rfl, rfl, hrecord⟩, ?_, ?_⟩
  · have hfails : (refused.perform c).succeeds w = false := by decide +kernel
    obtain ⟨fault, w', hrun⟩ := run_of_not_succeeds hfails
    obtain rfl := (run_addition rfl hrecord).1 fault w' hrun
    exact ⟨fault, hrun⟩
  · have hopens : (accepted.opening c).succeeds w = true := by decide +kernel
    obtain ⟨carryOut, u, hopened⟩ := run_of_succeeds hopens
    have hadds : accepted.isAddition = true := rfl
    obtain ⟨hperform, hconclude⟩ := (run_addition hadds hrecord).2 (by simp [accepted])
    obtain ⟨w', hdone⟩ := hconclude carryOut u hopened
    refine ⟨carryOut, u, w', hopened, hdone, ?_⟩
    rw [hperform, EStateM.run_bind, hopened]
    exact hdone

end Settings
