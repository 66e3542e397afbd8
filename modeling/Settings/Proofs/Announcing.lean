import Mathlib.Tactic.Common
import Settings.Proofs.Writing

/-! # Announcements to passive listeners

A passive listener notes what it is told and may refuse it, and does nothing else.
An announcement reaches such listeners in the order of their registrations, up to
the first that refuses, and leaves nothing behind but their notices.
-/

namespace Settings

open Settings.Action

/-- A listener that notes events and at most refuses some. -/
def Listener.isPassive (l : Listener) : Bool :=
  match l.reaction with
  | .record | .veto .. => true
  | _ => false

def Listener.refuses (l : Listener) (event : Event) : Bool :=
  match l.reaction with
  | .veto code before => event.before = before && code.all (· = event.code)
  | _ => false

def World.noted (event : Event) (w : World) (l : ListenerId) : World :=
  { w.modifyListener l fun own => { own with called := true } with
    notices := w.notices ++ [⟨l, event, w.forest, none⟩] }

def noticesOf (event : Event) (seen : Forest) (listeners : List ListenerId) : List Notice :=
  listeners.map (⟨·, event, seen, none⟩)

def World.notedBy (w : World) (event : Event) (listeners : List ListenerId) : World :=
  listeners.foldl (noted event) w

variable {w : World} {event : Event} {nested : Announcer} {l d : ListenerId}
  {listeners earlier later : List ListenerId}

namespace World

@[simp] theorem notedBy_nil : w.notedBy event [] = w := rfl

theorem notedBy_cons :
    w.notedBy event (l :: listeners) = (w.noted event l).notedBy event listeners :=
  rfl

theorem notedBy_append :
    w.notedBy event (earlier ++ later) = (w.notedBy event earlier).notedBy event later :=
  List.foldl_append

theorem notedBy_eq (w : World) (event : Event) (listeners : List ListenerId) :
    ∃ called, w.notedBy event listeners =
      { w with
        listeners := called
        notices := w.notices ++ noticesOf event w.forest listeners } := by
  induction listeners generalizing w with
  | nil => exact ⟨w.listeners, by simp [noticesOf]⟩
  | cons l rest ih =>
    obtain ⟨called, heq⟩ := ih (w.noted event l)
    refine ⟨called, ?_⟩
    rw [notedBy_cons, heq]
    simp [noted, modifyListener, noticesOf]

@[simp] theorem forest_notedBy : (w.notedBy event listeners).forest = w.forest := by
  obtain ⟨called, heq⟩ := notedBy_eq w event listeners
  rw [heq]

@[simp] theorem notices_notedBy :
    (w.notedBy event listeners).notices = w.notices ++ noticesOf event w.forest listeners := by
  obtain ⟨called, heq⟩ := notedBy_eq w event listeners
  rw [heq]

@[simp] theorem configuration_notedBy (c : ConfigurationId) :
    (w.notedBy event listeners).configuration c = w.configuration c := by
  obtain ⟨called, heq⟩ := notedBy_eq w event listeners
  rw [heq]
  rfl

theorem listener_noted (w : World) (event : Event) (l d : ListenerId) :
    ∃ called, (w.noted event l).listener d = { w.listener d with called } ∧
      ((w.listener d).called = true → called = true) := by
  simp only [noted, modifyListener, listener, Array.getD_eq_getD_getElem?, Array.getElem?_modify]
  split
  · cases w.listeners[d.index]? with
    | none => exact ⟨_, rfl, id⟩
    | some own => exact ⟨true, rfl, fun _ => rfl⟩
  · exact ⟨_, rfl, id⟩

theorem notedBy_congr {α : Type} {f : Listener → α}
    (h : ∀ own called, f { own with called } = f own) (d : ListenerId) :
    f ((w.notedBy event listeners).listener d) = f (w.listener d) := by
  induction listeners generalizing w with
  | nil => rfl
  | cons l rest ih =>
    obtain ⟨called, heq, -⟩ := listener_noted w event l d
    rw [notedBy_cons, ih, heq, h]

theorem listener_notedBy_of_not_mem (h : l ∉ listeners) :
    (w.notedBy event listeners).listener l = w.listener l := by
  induction listeners generalizing w with
  | nil => rfl
  | cons other rest ih =>
    rw [List.mem_cons, not_or] at h
    rw [notedBy_cons, ih h.2]
    simp only [noted, modifyListener, listener, Array.getD_eq_getD_getElem?, Array.getElem?_modify]
    refine congrArg (Option.getD · default) (if_neg fun heq => h.1 ?_)
    cases l
    cases other
    simpa [eq_comm] using heq

@[simp] theorem isPassive_notedBy (d : ListenerId) :
    ((w.notedBy event listeners).listener d).isPassive = (w.listener d).isPassive :=
  notedBy_congr (fun _ _ => rfl) d

@[simp] theorem refuses_notedBy {later : Event} (d : ListenerId) :
    ((w.notedBy event listeners).listener d).refuses later = (w.listener d).refuses later :=
  notedBy_congr (f := (·.refuses later)) (fun _ _ => rfl) d

@[simp] theorem name_notedBy (d : ListenerId) :
    ((w.notedBy event listeners).listener d).name = (w.listener d).name :=
  notedBy_congr (fun _ _ => rfl) d

end World

/-- Another world has the same listeners for a configuration, whether or not they were
called. -/
structure SameListeners (c : ConfigurationId) (w u : World) : Prop where
  configuration : u.configuration c = w.configuration c
  isPassive : ∀ d, (u.listener d).isPassive = (w.listener d).isPassive
  refuses : ∀ d event, (u.listener d).refuses event = (w.listener d).refuses event
  name : ∀ d, (u.listener d).name = (w.listener d).name

theorem SameListeners.notedBy (c : ConfigurationId) (w : World) (event : Event)
    (listeners : List ListenerId) : SameListeners c w (w.notedBy event listeners) :=
  ⟨World.configuration_notedBy c, World.isPassive_notedBy, fun d _ => World.refuses_notedBy d,
    World.name_notedBy⟩

theorem SameListeners.withForest {c : ConfigurationId} {u : World} (h : SameListeners c w u)
    (f : Forest) : SameListeners c w { u with forest := f } :=
  ⟨h.configuration, h.isPassive, h.refuses, h.name⟩

theorem SameListeners.all_passive {c : ConfigurationId} {u : World} (h : SameListeners c w u)
    (hpassive : ∀ l ∈ (w.configuration c).listeners, (w.listener l).isPassive = true) :
    ∀ l ∈ (u.configuration c).listeners, (u.listener l).isPassive = true := by
  simpa only [h.configuration, h.isPassive] using hpassive

theorem SameListeners.none_refuses {c : ConfigurationId} {u : World} (h : SameListeners c w u)
    (haccept : ∀ l ∈ (w.configuration c).listeners, (w.listener l).refuses event = false) :
    ∀ l ∈ (u.configuration c).listeners, (u.listener l).refuses event = false := by
  simpa only [h.configuration, h.refuses] using haccept

theorem run_deliver (hpassive : (w.listener l).isPassive = true) :
    (deliver nested event l).run w =
      if (w.listener l).refuses event then .error (.vetoed (w.listener l).name) (w.noted event l)
      else .ok () (w.noted event l) := by
  simp only [deliver, EStateM.run_bind, EStateM.run_get]
  unfold Listener.isPassive at hpassive
  unfold Listener.refuses
  cases hreaction : (w.listener l).reaction with
  | record => rfl
  | veto code before =>
    simp only [EStateM.run_bind]
    change EStateM.run (if event.before = before && code.all (· = event.code) then
      throw (Fault.vetoed (w.listener l).name) else pure PUnit.unit) (w.noted event l) = _
    split <;> rfl
  | _ =>
    rw [hreaction] at hpassive
    cases hpassive

theorem run_forM_deliver (hpassive : ∀ l ∈ listeners, (w.listener l).isPassive = true)
    (haccept : ∀ l ∈ listeners, (w.listener l).refuses event = false) :
    (listeners.forM (deliver nested event)).run w = .ok () (w.notedBy event listeners) := by
  induction listeners generalizing w with
  | nil => rfl
  | cons l rest ih =>
    rw [List.forall_mem_cons] at hpassive haccept
    change (deliver nested event l >>= fun _ => rest.forM (deliver nested event)).run w = _
    rw [EStateM.run_bind, run_deliver hpassive.1, if_neg (by simp [haccept.1])]
    change (rest.forM (deliver nested event)).run (w.notedBy event [l]) = _
    exact ih (by simpa using hpassive.2) (by simpa using haccept.2)

/-- The first listener that refuses an event is the last one to hear of it. -/
theorem run_forM_deliver_refused
    (hpassive : ∀ d ∈ earlier ++ [l], (w.listener d).isPassive = true)
    (haccept : ∀ d ∈ earlier, (w.listener d).refuses event = false)
    (hrefuse : (w.listener l).refuses event = true) :
    ((earlier ++ l :: later).forM (deliver nested event)).run w =
      .error (.vetoed (w.listener l).name) (w.notedBy event (earlier ++ [l])) := by
  rw [List.forall_mem_append] at hpassive
  rw [List.forM_eq_forM, List.forM_append, EStateM.run_bind, ← List.forM_eq_forM,
    run_forM_deliver hpassive.1 haccept]
  change (deliver nested event l >>= fun _ => later.forM (deliver nested event)).run
    (w.notedBy event earlier) = _
  rw [EStateM.run_bind, run_deliver (by simpa using hpassive.2), World.notedBy_append,
    World.refuses_notedBy, World.name_notedBy, if_pos hrefuse]
  rfl

theorem run_announce (w : World) (event : Event) : ∃ nested, (announce event).run w =
    ((w.configuration event.source).listeners.forM (deliver nested event)).run w := by
  simp only [announce, EStateM.run_bind, EStateM.run_get]
  cases w.pendingMutations with
  | zero => exact ⟨fun _ => pure (), rfl⟩
  | succ depth => exact ⟨announceTo depth, rfl⟩

section

variable (hpassive : ∀ l ∈ (w.configuration event.source).listeners,
  (w.listener l).isPassive = true)

include hpassive

theorem run_announce_ok (haccept : ∀ l ∈ (w.configuration event.source).listeners,
    (w.listener l).refuses event = false) :
    (announce event).run w =
      .ok () (w.notedBy event (w.configuration event.source).listeners) := by
  obtain ⟨nested, hrun⟩ := run_announce w event
  rw [hrun]
  exact run_forM_deliver hpassive haccept

theorem run_announce_refused
    (hsplit : (w.configuration event.source).listeners = earlier ++ l :: later)
    (haccept : ∀ d ∈ earlier, (w.listener d).refuses event = false)
    (hrefuse : (w.listener l).refuses event = true) :
    (announce event).run w =
      .error (.vetoed (w.listener l).name) (w.notedBy event (earlier ++ [l])) := by
  obtain ⟨nested, hrun⟩ := run_announce w event
  rw [hrun, hsplit]
  rw [hsplit] at hpassive
  refine run_forM_deliver_refused (fun d hd => hpassive d ?_) haccept hrefuse
  rcases List.mem_append.1 hd with hd | hd
  · exact List.mem_append_left _ hd
  · rw [List.mem_singleton.1 hd]
    exact List.mem_append_cons_self

end

end Settings
