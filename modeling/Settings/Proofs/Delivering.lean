import Settings.Proofs.Interposing

/-! # Whom an event reaches

An event goes to the listeners that are registered when it is fired, whatever these listeners do
in the meantime: they may register and deregister, fire further events, which go to those that
are registered by then, or refuse the event, which ends it. Announcements are such firings, in
which the listeners announce what they do.
-/

namespace Settings

open Settings.Action

variable {w w' u : World} {c : ConfigurationId} {call : ListenerId → Action Unit} {event : Event}
  {l : ListenerId} {listeners : List ListenerId} {fault : Fault} {a b : Announcer} {depth : Nat}

/-- Calls each listener that is registered with the source of an event at this moment. -/
def fire (call : Event → ListenerId → Action Unit) : Announcer := fun event => do
  ((← get).configuration event.source).listeners.forM (call event)

theorem deliverAll_eq_fire (nested : Announcer) : deliverAll nested = fire (deliver nested) := rfl

/-- Listeners are called one after the other, each in the world that the one before has left,
and none of them refuses. -/
inductive CalledInTurn (call : ListenerId → Action Unit) : List ListenerId → World → World → Prop
  | done {w : World} : CalledInTurn call [] w w
  | next {w u w' : World} {l : ListenerId} {rest : List ListenerId} :
      (call l).run w = .ok () u → CalledInTurn call rest u w' → CalledInTurn call (l :: rest) w w'

theorem run_forM_cons (l : ListenerId) (rest : List ListenerId) :
    ((l :: rest).forM call).run w = match (call l).run w with
      | .ok _ u => (rest.forM call).run u
      | .error e u => .error e u := by
  change (call l >>= fun _ => rest.forM call).run w = _
  rw [EStateM.run_bind]
  cases (call l).run w <;> rfl

theorem run_forM_ok_iff : (listeners.forM call).run w = .ok () w' ↔
    CalledInTurn call listeners w w' := by
  induction listeners generalizing w with
  | nil =>
    constructor
    · intro h
      cases h
      exact .done
    · rintro ⟨⟩
      rfl
  | cons l rest ih =>
    rw [run_forM_cons]
    constructor
    · intro h
      cases hcall : (call l).run w with
      | ok x u =>
        rw [hcall] at h
        exact .next hcall (ih.1 h)
      | error e u =>
        rw [hcall] at h
        cases h
    · rintro (_ | ⟨hcall, hrest⟩)
      rw [hcall]
      exact ih.2 hrest

/-- The one that refuses is the first that does, and the last that is called. -/
theorem run_forM_error_iff : (listeners.forM call).run w = .error fault w' ↔
    ∃ earlier l later u, listeners = earlier ++ l :: later ∧ CalledInTurn call earlier w u ∧
      (call l).run u = .error fault w' := by
  induction listeners generalizing w with
  | nil =>
    constructor
    · intro h
      cases h
    · rintro ⟨earlier, l, later, u, hsplit, -⟩
      simp at hsplit
  | cons l rest ih =>
    rw [run_forM_cons]
    constructor
    · intro h
      cases hcall : (call l).run w with
      | ok x u =>
        rw [hcall] at h
        obtain ⟨earlier, d, later, v, rfl, hearlier, hd⟩ := ih.1 h
        exact ⟨l :: earlier, d, later, v, rfl, .next hcall hearlier, hd⟩
      | error e u =>
        rw [hcall] at h
        exact ⟨[], l, rest, w, rfl, .done, hcall.trans h⟩
    · rintro ⟨earlier, d, later, u, hsplit, hearlier, hd⟩
      cases hearlier with
      | done =>
        obtain ⟨rfl, rfl⟩ := List.cons.inj hsplit
        rw [hd]
      | next hcall hearlier =>
        obtain ⟨rfl, rfl⟩ := List.cons.inj hsplit
        rw [hcall]
        exact ih.2 ⟨_, d, later, u, rfl, hearlier, hd⟩

theorem Listener.isPending_called (own : Listener) :
    ({ own with called := true } : Listener).isPending = false := by
  unfold isPending
  cases own.reaction <;> rfl

namespace World

/-- No more listeners than before will still add a property. -/
def Spends (w w' : World) : Prop := w'.pendingMutations ≤ w.pendingMutations

instance : IsPreorder World Spends where
  refl _ := Nat.le_refl _
  trans _ _ _ h h' := Nat.le_trans h' h

def called (w : World) (l : ListenerId) : World :=
  w.modifyListener l fun own => { own with called := true }

theorem pendingMutations_called (w : World) (l : ListenerId) :
    (w.called l).pendingMutations =
      w.pendingMutations - if (w.listener l).isPending then 1 else 0 := by
  change ((w.listeners.modify l.index _).toList).countP Listener.isPending =
    w.listeners.toList.countP Listener.isPending - _
  rw [Array.toList_modify, List.modify_eq_set, listener, Array.getD_eq_getD_getElem?,
    ← Array.getElem?_toList]
  by_cases hl : l.index < w.listeners.toList.length
  · rw [List.countP_set hl, Listener.isPending_called, List.getElem?_eq_getElem hl]
    rfl
  · rw [List.set_eq_of_length_le (by omega), List.getElem?_eq_none (by omega)]
    rfl

end World

theorem spends_modify {change : World → World} (h : ∀ w, (change w).listeners = w.listeners) :
    Keeps World.Spends (modify change) := by
  intro w
  rw [after_modify, World.Spends, World.pendingMutations, h]
  exact Nat.le_refl _

theorem spends_called (l : ListenerId) : Keeps World.Spends (modify (·.called l)) := by
  intro w
  rw [after_modify, World.Spends, World.pendingMutations_called]
  exact Nat.sub_le ..

theorem spends_addEach (key : Option String) (values : List Value) :
    Keeps World.Spends (c.addEach key values) :=
  .forM fun _ => .bind (.read _) fun _ => spends_modify fun _ => rfl

theorem spends_addPropertyWith (ha : ∀ event, Keeps World.Spends (a event)) (key : Option String)
    (value : Value) : Keeps World.Spends (c.addPropertyWith a key value) :=
  .bind (.read _) fun _ => .bind (ha _) fun _ => .bind (spends_addEach key _) fun _ => ha _

theorem spends_deliver (ha : ∀ event, Keeps World.Spends (a event)) (event : Event)
    (l : ListenerId) : Keeps World.Spends (deliver a event l) :=
  .deliver (spends_called l) (fun _ => spends_modify fun _ => rfl)
    (fun _ => spends_modify fun _ => rfl) (spends_addPropertyWith ha)

theorem spends_fire (ha : ∀ event, Keeps World.Spends (a event)) (event : Event) :
    Keeps World.Spends (fire (deliver a) event) :=
  .get_bind fun w => Keeps.forM (spends_deliver ha event) w

theorem spends_announceTo (depth : Nat) (event : Event) :
    Keeps World.Spends (announceTo depth event) := by
  induction depth generalizing event with
  | zero =>
    rw [announceTo, deliverAll_eq_fire]
    exact spends_fire (fun _ => .pure _) event
  | succ depth ih =>
    rw [announceTo, deliverAll_eq_fire]
    exact spends_fire ih event

theorem spends_announce (event : Event) : Keeps World.Spends (announce event) :=
  .get_bind fun w => spends_announceTo _ event w

/-- Two ways of announcing do the same where less than so many listeners are pending. -/
def Announcer.AgreesBelow (depth : Nat) (a b : Announcer) : Prop :=
  ∀ event w, w.pendingMutations < depth → (a event).run w = (b event).run w

section

variable (hagree : a.AgreesBelow depth b) (hb : ∀ event, Keeps World.Spends (b event))

include hagree hb

theorem run_addPropertyWith_congr (key : Option String) (value : Value)
    (hw : w.pendingMutations < depth) :
    (c.addPropertyWith a key value).run w = (c.addPropertyWith b key value).run w := by
  refine run_bind_congr rfl fun place u hread => ?_
  obtain ⟨-, rfl⟩ := run_read_ok.1 hread
  refine run_bind_congr (hagree _ w hw) fun _ u hbefore => ?_
  have hu : w.Spends u := after_of_run hbefore ▸ hb _ w
  refine run_bind_congr rfl fun _ v hadded => ?_
  have hv : u.Spends v := after_of_run hadded ▸ spends_addEach key value.spread u
  exact hagree _ v (Nat.lt_of_le_of_lt (Nat.le_trans hv hu) hw)

theorem run_deliver_congr (event : Event) (l : ListenerId) (hw : w.pendingMutations ≤ depth) :
    (deliver a event l).run w = (deliver b event l).run w := by
  simp only [deliver, EStateM.run_bind, EStateM.run_get]
  cases hreaction : (w.listener l).reaction with
  | mutate key value =>
    cases hcalled : (w.listener l).called with
    | true => rfl
    | false =>
      refine run_addPropertyWith_congr (w := w.noted event l) hagree hb key value ?_
      have hpending : (w.listener l).isPending = true := by
        simp [Listener.isPending, hreaction, hcalled]
      have hspent : (w.noted event l).pendingMutations = w.pendingMutations - 1 := by
        have hcall := w.pendingMutations_called l
        rwa [if_pos hpending] at hcall
      have hsome := World.pendingMutations_pos hpending
      omega
  | _ => rfl

theorem run_forM_deliver_congr (event : Event) (listeners : List ListenerId)
    (hw : w.pendingMutations ≤ depth) :
    (listeners.forM (deliver a event)).run w = (listeners.forM (deliver b event)).run w := by
  induction listeners generalizing w with
  | nil => rfl
  | cons l rest ih =>
    refine run_bind_congr (run_deliver_congr hagree hb event l hw) fun _ u hrun => ?_
    have hu : w.Spends u := after_of_run hrun ▸ spends_deliver hb event l w
    exact ih (Nat.le_trans hu hw)

theorem run_fire_congr (event : Event) (hw : w.pendingMutations ≤ depth) :
    (fire (deliver a) event).run w = (fire (deliver b) event).run w :=
  run_forM_deliver_congr hagree hb event _ hw

end

/-- Room for more announcements inside each other than there are pending listeners is not used. -/
theorem run_announceTo_succ (h : w.pendingMutations ≤ depth) (event : Event) :
    (announceTo (depth + 1) event).run w = (announceTo depth event).run w := by
  -- whoever announces something inside is not pending any more, so less room is needed for it
  induction depth generalizing event w with
  | zero =>
    have hagree : (announceTo 0).AgreesBelow 0 fun _ => pure () :=
      fun _ _ hlt => absurd hlt (Nat.not_lt_zero _)
    exact run_fire_congr hagree (fun _ => .pure _) event h
  | succ depth ih =>
    exact run_fire_congr (fun event u hlt => ih (Nat.le_of_lt_succ hlt) event)
      (spends_announceTo depth) event h

theorem run_announceTo_of_le (h : w.pendingMutations ≤ depth) (event : Event) :
    (announceTo depth event).run w = (announce event).run w := by
  induction h with
  | refl => rfl
  | step hle ih => rw [run_announceTo_succ hle, ih]

/-- What listeners do while an event is announced is announced as everything is. -/
theorem announce_eq_fire (event : Event) : announce event = fire (deliver announce) event := by
  funext w
  change (announce event).run w = (fire (deliver announce) event).run w
  rw [← run_announceTo_of_le (Nat.le_succ w.pendingMutations)]
  exact run_fire_congr (fun event u hlt => run_announceTo_of_le (Nat.le_of_lt hlt) event)
    spends_announce event (Nat.le_refl _)

def World.withRegistered (w : World) (c : ConfigurationId) (listeners : List ListenerId) : World :=
  w.modifyConfiguration c fun own => { own with listeners }

theorem World.modifyConfiguration_congr {change change' : Configuration → Configuration}
    (h : change (w.configuration c) = change' (w.configuration c)) :
    w.modifyConfiguration c change = w.modifyConfiguration c change' := by
  refine congrArg (fun configurations => { w with configurations }) (Array.ext_getElem? fun i => ?_)
  rw [Array.getElem?_modify, Array.getElem?_modify]
  split
  · rename_i hi
    subst hi
    rw [configuration, Array.getD_eq_getD_getElem?] at h
    cases hown : w.configurations[c.index]? with
    | none => rfl
    | some own =>
      rw [hown] at h
      exact congrArg some h
  · rfl

theorem run_register (c : ConfigurationId) (l : ListenerId) (w : World) :
    (c.register l).run w =
      .ok () (w.withRegistered c ((w.configuration c).listeners ++ [l])) :=
  congrArg (EStateM.Result.ok ()) (World.modifyConfiguration_congr rfl)

theorem run_deregister (c : ConfigurationId) (l : ListenerId) (w : World) :
    let registered := (w.configuration c).listeners
    ∃ left, (c.deregister l).run w = .ok (registered.contains l) (w.withRegistered c left) ∧
      (l ∉ registered ∧ left = registered ∨ ∃ earlier later,
        registered = earlier ++ l :: later ∧ l ∉ earlier ∧ left = earlier ++ later) := by
  intro registered
  refine ⟨registered.erase l, ?_, ?_⟩
  · exact congrArg (EStateM.Result.ok _) (World.modifyConfiguration_congr rfl)
  · by_cases hl : l ∈ registered
    · obtain ⟨earlier, later, hearlier, hsplit, herase⟩ := List.exists_erase_eq hl
      exact .inr ⟨earlier, later, hsplit, hearlier, herase⟩
    · exact .inl ⟨hl, List.erase_of_not_mem hl⟩

/-- Whatever its listeners do, an event reaches exactly those that are registered with its source
when it is fired: once for each registration, in this order, down to the first that refuses it.
An announcement is such an event, and so is every announcement that a listener makes meanwhile.
Each registration is the last one for the time being, and deregistering takes only the earliest
one of a listener away. -/
theorem fire_reaches_registered (call : Event → ListenerId → Action Unit) (event : Event)
    (w : World) :
    let registered := (w.configuration event.source).listeners
    (∀ w', (fire call event).run w = .ok () w' ↔ CalledInTurn (call event) registered w w') ∧
    (∀ fault w', (fire call event).run w = .error fault w' ↔
      ∃ earlier l later u, registered = earlier ++ l :: later ∧
        CalledInTurn (call event) earlier w u ∧ (call event l).run u = .error fault w') ∧
    announce event = fire (deliver announce) event ∧
    (∀ l, (event.source.register l).run w =
      .ok () (w.withRegistered event.source (registered ++ [l]))) ∧
    event.source.clearListeners.run w = .ok () (w.withRegistered event.source []) ∧
    ∀ l, ∃ left, (event.source.deregister l).run w =
        .ok (registered.contains l) (w.withRegistered event.source left) ∧
      (l ∉ registered ∧ left = registered ∨ ∃ earlier later,
        registered = earlier ++ l :: later ∧ l ∉ earlier ∧ left = earlier ++ later) :=
  ⟨fun _ => run_forM_ok_iff, fun _ _ => run_forM_error_iff, announce_eq_fire event,
    fun l => run_register event.source l w, rfl, fun l => run_deregister event.source l w⟩

/-- The first listener, registered twice, takes itself out once in each call; the second adds
the fourth, and the third clears the registrations. All three hear of the event as often as they
were registered, and the fourth does not. -/
theorem fire_reaches_registered_meanwhile :
    let w := { World.fresh [] with
      configurations := #[⟨⟨0⟩, none, false, none, [⟨0⟩, ⟨1⟩, ⟨0⟩, ⟨2⟩, ⟨1⟩]⟩]
      listeners := #[⟨"leaves", .removes ⟨0⟩, false⟩, ⟨"brings", .adds "new", false⟩,
        ⟨"clears", .clears, false⟩, ⟨"new", .record, false⟩] }
    let event : Event := ⟨⟨0⟩, Event.clear, none, .value .null, true⟩
    ∃ w', (announce event).run w = .ok () w' ∧
      CalledInTurn (deliver announce event) [⟨0⟩, ⟨1⟩, ⟨0⟩, ⟨2⟩, ⟨1⟩] w w' ∧
      w'.notices.map (·.listener.index) = [0, 1, 0, 2, 1] ∧
      (w'.configuration ⟨0⟩).listeners = [⟨3⟩] := by
  intro w event
  have hgoes : (announce event).succeeds w = true := by decide +kernel
  have hafter : ((announce event).after w).notices.map (·.listener.index) = [0, 1, 0, 2, 1] ∧
      (((announce event).after w).configuration ⟨0⟩).listeners = [⟨3⟩] := by
    decide +kernel
  obtain ⟨_, w', hrun⟩ := run_of_succeeds hgoes
  rw [after_of_run hrun] at hafter
  obtain ⟨hreaches, -, hannounce, -⟩ := fire_reaches_registered (deliver announce) event w
  exact ⟨w', hrun, (hreaches w').1 (hannounce ▸ hrun), hafter⟩

end Settings
