import Settings.Proofs.Bracketing

/-! # Listeners that change what is about to change

A listener may add a property when it hears for the first time of a change that is still to
come. The change is then carried out on the tree with the addition, but with the nodes that
were looked up before: only a change that looks up nothing, or would find the same again,
does what it would have done after the addition.
-/

namespace Settings

open Settings.Action

def Listener.isIdle (l : Listener) : Bool :=
  match l.reaction with
  | .record => true
  | .mutate .. => l.called
  | _ => false

def Listener.isPending (l : Listener) : Bool :=
  match l.reaction with
  | .mutate .. => !l.called
  | _ => false

variable {c : ConfigurationId} {w u : World} {event : Event} {nested : Announcer}
  {l d : ListenerId} {listeners : List ListenerId} {key : Option String} {value : Value}
  {change : Change}

theorem World.isIdle_noted (h : (w.listener d).isIdle = true) :
    ((w.noted event l).listener d).isIdle = true := by
  obtain ⟨called, heq, hcalled⟩ := w.listener_noted event l d
  rw [heq]
  unfold Listener.isIdle at h ⊢
  cases hreaction : (w.listener d).reaction with
  | mutate => exact hcalled (by simpa only [hreaction] using h)
  | _ => simp_all

theorem World.isIdle_notedBy (h : (w.listener d).isIdle = true) :
    ((w.notedBy event listeners).listener d).isIdle = true := by
  induction listeners generalizing w with
  | nil => exact h
  | cons l rest ih => exact ih (isIdle_noted h)

theorem World.getElem?_of_mutate (h : (w.listener l).reaction = .mutate key value) :
    w.listeners[l.index]? = some (w.listener l) := by
  rw [listener, Array.getD_eq_getD_getElem?] at h ⊢
  cases hl : w.listeners[l.index]? with
  | none =>
    rw [hl] at h
    cases h
  | some own => rfl

theorem World.pendingMutations_pos (h : (w.listener l).isPending = true) :
    0 < w.pendingMutations := by
  refine List.countP_pos_iff.2 ⟨w.listener l, ?_, h⟩
  cases hreaction : (w.listener l).reaction with
  | mutate => exact Array.mem_toList_iff.2 (Array.mem_of_getElem? (getElem?_of_mutate hreaction))
  | _ => simp [Listener.isPending, hreaction] at h

theorem World.isIdle_noted_self (h : (w.listener l).reaction = .mutate key value) :
    ((w.noted event l).listener l).isIdle = true := by
  have hl := getElem?_of_mutate h
  simp only [noted, modifyListener]
  rw [listener, Array.getD_eq_getD_getElem?, Array.getElem?_modify, if_pos rfl, hl]
  simp [Listener.isIdle, h]

theorem run_deliver_idle (h : (w.listener l).isIdle = true) :
    (deliver nested event l).run w = .ok () (w.noted event l) := by
  simp only [deliver, EStateM.run_bind, EStateM.run_get]
  unfold Listener.isIdle at h
  cases hreaction : (w.listener l).reaction with
  | record => rfl
  | mutate =>
    simp only [hreaction] at h
    simp only [h]
    rfl
  | _ =>
    rw [hreaction] at h
    cases h

theorem run_forM_deliver_idle (h : ∀ d ∈ listeners, (w.listener d).isIdle = true) :
    (listeners.forM (deliver nested event)).run w = .ok () (w.notedBy event listeners) := by
  induction listeners generalizing w with
  | nil => rfl
  | cons l rest ih =>
    rw [List.forall_mem_cons] at h
    change (deliver nested event l >>= fun _ => rest.forM (deliver nested event)).run w = _
    rw [EStateM.run_bind, run_deliver_idle h.1]
    exact ih fun d hd => World.isIdle_noted (h.2 d hd)

theorem run_deliver_pending (hreaction : (w.listener l).reaction = .mutate key value)
    (hpending : (w.listener l).called = false) :
    (deliver nested event l).run w =
      (event.source.addPropertyWith nested key value).run (w.noted event l) := by
  simp only [deliver, EStateM.run_bind, EStateM.run_get, hreaction, hpending]
  rfl

/-- Another world has the same configuration, but nobody who listens to it does more than
note events. -/
structure Calm (c : ConfigurationId) (w u : World) : Prop where
  configuration : u.configuration c = w.configuration c
  common : u.common = w.common
  isIdle : ∀ d ∈ (w.configuration c).listeners, (u.listener d).isIdle = true

namespace Calm

theorem sameKeys (h : Calm c w u) : SameKeys c w u where
  root := congrArg Configuration.root h.configuration
  markers := by rw [World.markers, World.markers, h.configuration, h.common]

theorem sameTree (h : Calm c w u) (hforest : u.forest = w.forest) : SameTree c w u :=
  ⟨hforest, h.sameKeys.root, h.sameKeys.markers⟩

theorem withForest (h : Calm c w u) (f : Forest) : Calm c w { u with forest := f } :=
  ⟨h.configuration, h.common, h.isIdle⟩

theorem notedBy (h : Calm c w u) (event : Event) (listeners : List ListenerId) :
    Calm c w (u.notedBy event listeners) where
  configuration := (World.configuration_notedBy c).trans h.configuration
  common := by
    obtain ⟨called, heq⟩ := u.notedBy_eq event listeners
    rw [heq, h.common]
  isIdle d hd := World.isIdle_notedBy (h.isIdle d hd)

theorem run_deliverAll (h : Calm c w u) (hsource : event.source = c) :
    (deliverAll nested event).run u =
      .ok () (u.notedBy event (w.configuration c).listeners) := by
  simp only [deliverAll, EStateM.run_bind, EStateM.run_get, hsource, h.configuration]
  exact run_forM_deliver_idle h.isIdle

theorem run_announce (h : Calm c w u) (hsource : event.source = c) :
    (announce event).run u = .ok () (u.notedBy event (w.configuration c).listeners) := by
  obtain ⟨nested, hrun⟩ := Settings.run_announce u event
  rw [hrun, hsource, h.configuration]
  exact run_forM_deliver_idle h.isIdle

end Calm

theorem run_addPropertyWith (value : Value)
    (hplace : ∃ place, w.forest.prepareAdd (w.markers c) (w.root c) key = .ok place) :
    ∃ final, ∀ (announcer : Announcer) (u v z : World), SameTree c w u → SameTree c w v →
      (announcer ⟨c, Event.addProperty, key, .value value, true⟩).run u = .ok () v →
      (announcer ⟨c, Event.addProperty, key, .value value, false⟩).run { v with forest := final } =
        .ok () z →
      (c.addPropertyWith announcer key value).run u = .ok () z := by
  obtain ⟨final, hadded⟩ := run_addEach hplace value.spread
  refine ⟨final, fun announcer u v z hu hv hbefore hafter => ?_⟩
  obtain ⟨place, hplace⟩ := hplace
  simp only [ConfigurationId.addPropertyWith, run_read_bind, hu.prepareAdd, hplace]
  rw [EStateM.run_bind, hbefore]
  change (c.addEach key value.spread >>= _).run v = _
  rw [EStateM.run_bind, hadded v hv.forest hv.root hv.markers]
  exact hafter

/-- Among those who listen to a configuration, one adds a property when it is called, which
it was not yet, and nobody else does more than note events. -/
structure World.Interposes (w : World) (c : ConfigurationId) (l : ListenerId)
    (key : Option String) (value : Value) : Prop where
  mem : l ∈ (w.configuration c).listeners
  reaction : (w.listener l).reaction = .mutate key value
  pending : (w.listener l).called = false
  others : ∀ d ∈ (w.configuration c).listeners, d ≠ l → (w.listener d).reaction = .record

/-- An announcement in a world with a listener that is still to add something lets this
listener announce its addition. -/
theorem run_announce_pending (h : 0 < w.pendingMutations) (event : Event) :
    ∃ nested, (announce event).run w = EStateM.run
      ((w.configuration event.source).listeners.forM (deliver (deliverAll nested) event)) w := by
  simp only [announce, EStateM.run_bind, EStateM.run_get]
  cases hdepth : w.pendingMutations with
  | zero => omega
  | succ depth =>
    cases depth with
    | zero => exact ⟨fun _ => pure (), rfl⟩
    | succ depth => exact ⟨announceTo depth, rfl⟩

namespace World.Interposes

variable (h : w.Interposes c l key value)
include h

theorem pendingMutations_pos : 0 < w.pendingMutations := by
  refine World.pendingMutations_pos (l := l) ?_
  simp [Listener.isPending, h.reaction, h.pending]

theorem calm_notedBy {earlier : List ListenerId} (hearlier : l ∉ earlier) :
    Calm c w (w.notedBy event (earlier ++ [l])) := by
  have hcalm : ∀ d ∈ (w.configuration c).listeners,
      ((w.notedBy event (earlier ++ [l])).listener d).isIdle = true := by
    intro d hd
    by_cases hdl : d = l
    · subst hdl
      have hsame : (w.notedBy event earlier).listener d = w.listener d :=
        World.listener_notedBy_of_not_mem hearlier
      rw [World.notedBy_append]
      exact isIdle_noted_self (hsame ▸ h.reaction)
    · refine World.isIdle_notedBy ?_
      simp only [Listener.isIdle, h.others d hd hdl]
  refine ⟨World.configuration_notedBy c, ?_, hcalm⟩
  obtain ⟨called, heq⟩ := w.notedBy_eq event (earlier ++ [l])
  rw [heq]

/-- An announcement adds the property that is interposed, and leaves nobody who interferes. -/
theorem run_announce (hplace : ∃ place,
      w.forest.prepareAdd (w.markers c) (w.root c) key = .ok place) :
    ∃ added, (c.addProperty key value).run (w.silenced c) = .ok () added ∧
      SameKeys c w added ∧ (added.configuration c).listeners = [] ∧
      ∀ event : Event, event.source = c →
        ∃ u, (announce event).run w = .ok () u ∧ Calm c w u ∧ u.forest = added.forest := by
  obtain ⟨added, hadded⟩ := run_addPropertyWith value hplace
  have hsilent : ((w.silenced c).configuration c).listeners = [] := by
    rw [World.configuration_silenced]
  have hkeys := (SameTree.silenced c w).sameKeys
  refine ⟨{ w.silenced c with forest := added }, ?_, ⟨hkeys.root, hkeys.markers⟩, hsilent,
    fun event hsource => ?_⟩
  · exact hadded announce _ _ _ (.silenced c w) (.silenced c w) (run_announce_of_silent hsilent)
      (run_announce_of_silent hsilent)
  · obtain ⟨nested, hrun⟩ := run_announce_pending h.pendingMutations_pos event
    obtain ⟨earlier, later, hsplit, hearlier⟩ := List.eq_append_cons_of_mem h.mem
    have hidle : ∀ d ∈ earlier, (w.listener d).isIdle = true := by
      intro d hd
      have hne : d ≠ l := by
        rintro rfl
        exact hearlier hd
      simp only [Listener.isIdle, h.others d (hsplit ▸ List.mem_append_left _ hd) hne]
    have hsame : (w.notedBy event earlier).listener l = w.listener l :=
      World.listener_notedBy_of_not_mem hearlier
    have hcalled : Calm c w (w.notedBy event (earlier ++ [l])) := h.calm_notedBy hearlier
    have haddition : ∃ z, (c.addPropertyWith (deliverAll nested) key value).run
        ((w.notedBy event earlier).noted event l) = .ok () z ∧ Calm c w z ∧ z.forest = added := by
      have hbefore := hcalled.notedBy ⟨c, Event.addProperty, key, .value value, true⟩
        (w.configuration c).listeners
      have hadd := hbefore.withForest added
      rw [World.notedBy_append] at hcalled hbefore hadd
      refine ⟨_, hadded (deliverAll nested) _ _ _ (hcalled.sameTree ?_)
        (hbefore.sameTree ?_) (hcalled.run_deliverAll rfl) (hadd.run_deliverAll rfl),
        hadd.notedBy _ _, World.forest_notedBy⟩
      · rw [World.forest_notedBy, World.forest_notedBy]
      · rw [World.forest_notedBy, World.forest_notedBy, World.forest_notedBy]
    obtain ⟨z, hz, hcalm, hforest⟩ := haddition
    refine ⟨z.notedBy event later, ?_, hcalm.notedBy event later,
      World.forest_notedBy.trans hforest⟩
    rw [hrun, hsource, hsplit, List.forM_eq_forM, List.forM_append, EStateM.run_bind,
      ← List.forM_eq_forM, run_forM_deliver_idle hidle]
    change (deliver (deliverAll nested) event l >>= fun _ => later.forM _).run
      (w.notedBy event earlier) = _
    rw [EStateM.run_bind, run_deliver_pending (hsame ▸ h.reaction) (hsame ▸ h.pending), hsource, hz]
    refine run_forM_deliver_idle fun d hd => hcalm.isIdle d ?_
    rw [hsplit]
    exact List.mem_append_right _ (List.mem_cons_of_mem _ hd)

end World.Interposes

/-- What a change looks up before it is announced is the same in another world. -/
def Change.Settled (c : ConfigurationId) (w u : World) : Change → Prop
  | .setProperty key _ => u.fetchNodes c key = w.fetchNodes c key
  | .addNodes key _ => u.addTarget c key = w.addTarget c key
  | _ => True

theorem Change.Settled.prepare_eq (h : change.Settled c w u) (hkeys : SameKeys c w u)
    (haccepts : change.Accepts c w) : change.prepare c u = change.prepare c w := by
  cases change with
  | addProperty key value =>
    obtain ⟨place, hplace⟩ := haccepts
    obtain ⟨place', hplace'⟩ := hkeys.exists_place ⟨place, hplace⟩
    rw [prepare, prepare, hplace, hplace']
    rfl
  | setProperty key value =>
    obtain ⟨nodes, hnodes, hmissing⟩ := haccepts
    have hnodes' : u.fetchNodes c key = .ok nodes := h.trans hnodes
    simp only [prepare, hnodes, hnodes', ok_bind]
    split
    · rename_i hlt
      obtain ⟨place, hplace⟩ := hmissing hlt
      obtain ⟨place', hplace'⟩ := hkeys.exists_place ⟨place, hplace⟩
      rw [hplace, hplace']
      rfl
    · rfl
  | addNodes key nodes => rw [prepare, prepare, show u.addTarget c key = w.addTarget c key from h]
  | _ => rfl

/-- A change that a listener interposes an addition into is carried out on the tree with the
addition as it was prepared on the tree without. This is what the change does after the
addition if it looks up nothing before it is announced, or would look up the same again. -/
theorem run_perform_interposed (haccepts : change.Accepts c w)
    (hplace : ∃ place, w.forest.prepareAdd (w.markers c) (w.root c) key = .ok place)
    (h : w.Interposes c l key value) :
    ∃ added carryOut payload final,
      (c.addProperty key value).run (w.silenced c) = .ok () added ∧
      change.prepare c w = .ok carryOut ∧
      carryOut.run added = .ok payload { added with forest := final } ∧
      (∃ w', (change.perform c).run w = .ok () w' ∧ w'.forest = final) ∧
      (change.Settled c w added →
        (change.perform c).run added = .ok () { added with forest := final }) := by
  obtain ⟨added, hadded, hkeys, hsilent, hannounce⟩ := h.run_announce hplace
  obtain ⟨carryOut, hprepare, hcarryOut⟩ := Change.prepare_spec haccepts
  have hprepare := hprepare w (.refl c w)
  obtain ⟨final, hfinal⟩ := hcarryOut added hkeys
  have hrun := hfinal added (.refl c added)
  refine ⟨added, carryOut, _, final, hadded, hprepare, hrun, ?_, fun hsettled => ?_⟩
  · obtain ⟨u, hu, hcalm, hforest⟩ := hannounce (change.event c w true) rfl
    have hsame : SameTree c added u :=
      ⟨hforest, hcalm.sameKeys.root.trans hkeys.root.symm,
        hcalm.sameKeys.markers.trans hkeys.markers.symm⟩
    have hafter : (announce ⟨c, change.code, change.key, change.payload c added false, false⟩).run
        { u with forest := final } = _ := (hcalm.withForest final).run_announce rfl
    refine ⟨_, Eq.trans ?_ hafter, World.forest_notedBy⟩
    rw [Change.run_perform change haccepts.ne, hprepare]
    dsimp only
    rw [EStateM.run_bind, hu]
    dsimp only
    rw [Change.conclude, EStateM.run_bind, hfinal u hsame]
  · exact Change.run_perform_of_silent haccepts.ne hsilent
      ((hsettled.prepare_eq hkeys haccepts).trans hprepare) hrun

def World.watched : World :=
  { World.fresh [] with
    forest := (Forest.empty.create none .null false).2
    configurations := #[⟨⟨0⟩, none, false, none, [⟨0⟩]⟩]
    listeners := #[⟨"adds", .mutate (some "a") (.int 2), false⟩] }

theorem World.interposes_watched : watched.Interposes ⟨0⟩ ⟨0⟩ (some "a") (.int 2) :=
  ⟨by decide, rfl, rfl, fun _ hd hne => absurd (List.mem_singleton.1 hd) hne⟩

theorem World.exists_place_watched : ∃ place,
    watched.forest.prepareAdd (watched.markers ⟨0⟩) (watched.root ⟨0⟩) (some "a") = .ok place :=
  exists_of_toBool (by decide +kernel)

theorem run_perform_interposed_cleared :
    let c : ConfigurationId := ⟨0⟩
    let change := Change.clearProperty (some "a")
    (change.Accepts c .watched ∧ World.watched.Interposes c ⟨0⟩ (some "a") (.int 2)) ∧
    ∃ added w', (c.addProperty (some "a") (.int 2)).run (World.watched.silenced c) = .ok () added ∧
      (change.perform c).run .watched = .ok () w' ∧
      (change.perform c).run added = .ok () { added with forest := w'.forest } := by
  intro c change
  have haccepts : change.Accepts c .watched := ⟨[], by decide +kernel⟩
  obtain ⟨added, -, -, final, hadded, -, -, ⟨w', hrun, rfl⟩, hsettled⟩ :=
    run_perform_interposed haccepts World.exists_place_watched World.interposes_watched
  exact ⟨⟨haccepts, World.interposes_watched⟩, added, w', hadded, hrun, hsettled trivial⟩

/-- When `a` is about to be set to another value, none of its nodes has been looked up, so both
values stay. After the addition the value is replaced. -/
theorem run_setProperty_stale :
    let c : ConfigurationId := ⟨0⟩
    let change := Change.setProperty (some "a") (.int 1)
    (World.watched.forest.WellFormed ∧ change.Accepts c .watched ∧
      World.watched.Interposes c ⟨0⟩ (some "a") (.int 2)) ∧
    (∃ w', (change.perform c).run .watched = .ok () w' ∧ w'.getMaxIndex c (some "a") = .ok 1) ∧
    ∃ added w', (c.addProperty (some "a") (.int 2)).run (World.watched.silenced c) = .ok () added ∧
      (change.perform c).run added = .ok () w' ∧ w'.getMaxIndex c (some "a") = .ok 0 := by
  intro c change
  have hinterposed : (change.perform c).succeeds .watched = true := by decide +kernel
  have hadds : (c.addProperty (some "a") (.int 2)).succeeds (World.watched.silenced c) = true := by
    decide +kernel
  have hafter : (change.perform c).succeeds
      ((c.addProperty (some "a") (.int 2)).after (World.watched.silenced c)) = true := by
    decide +kernel
  obtain ⟨_, w', hrun⟩ := run_of_succeeds hinterposed
  obtain ⟨_, added, hadded⟩ := run_of_succeeds hadds
  rw [after_of_run hadded] at hafter
  obtain ⟨_, w'', hrun'⟩ := run_of_succeeds hafter
  refine ⟨⟨Forest.WellFormed.empty.create none .null false,
    ⟨[], by decide +kernel, fun _ => World.exists_place_watched⟩, World.interposes_watched⟩,
    ⟨w', hrun, ?_⟩, added, w'', hadded, hrun', ?_⟩
  · rw [← after_of_run hrun]
    decide +kernel
  · rw [← after_of_run hrun', ← after_of_run hadded]
    decide +kernel

end Settings
