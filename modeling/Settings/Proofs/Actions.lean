import Mathlib.Order.Defs.Unbundled
import Settings.Configuration.Update

/-! # What actions leave behind

An action is judged by the world it leaves, also when it is refused. A
relation that is reflexive and transitive passes from the steps of an action
to the whole.
-/

namespace Settings.Action

variable {α β : Type} {w w' : World}

/-- The world an action leaves, whether it succeeds or is refused. -/
def after (a : Action α) (w : World) : World :=
  match a.run w with
  | .ok _ w' => w'
  | .error _ w' => w'

theorem after_bind (a : Action α) (k : α → Action β) (w : World) :
    (a >>= k).after w =
      match a.run w with
      | .ok x w' => (k x).after w'
      | .error _ w' => w' := by
  simp only [after, EStateM.run_bind]
  cases a.run w <;> rfl

@[simp] theorem after_modify (change : World → World) (w : World) :
    (modify change : Action PUnit).after w = change w := rfl

@[simp] theorem after_onForest (change : Forest → Forest) (w : World) :
    (onForest change).after w = { w with forest := change w.forest } := rfl

@[simp] theorem after_discard (a : Action α) (w : World) : (discard a).after w = a.after w := by
  change after (EStateM.map (fun _ => PUnit.unit) a) w = after a w
  simp only [after, EStateM.run, EStateM.map]
  cases a w <;> rfl

theorem run_read (r : World → Except Fault α) (w : World) :
    (read r).run w = match r w with
      | .ok x => .ok x w
      | .error e => .error e w := by
  simp only [read, EStateM.run_bind, EStateM.run_get]
  cases r w <;> rfl

theorem run_read_bind (r : World → Except Fault α) (k : α → Action β) (w : World) :
    (read r >>= k).run w = match r w with
      | .ok x => (k x).run w
      | .error e => .error e w := by
  rw [EStateM.run_bind, run_read]
  cases r w <;> rfl

theorem run_bind_ok {a : Action α} {k : α → Action β} {y : β} :
    (a >>= k).run w = .ok y w' ↔ ∃ x u, a.run w = .ok x u ∧ (k x).run u = .ok y w' := by
  rw [EStateM.run_bind]
  cases a.run w with
  | ok x u =>
    constructor
    · exact fun h => ⟨x, u, rfl, h⟩
    · rintro ⟨_, _, heq, h⟩
      cases heq
      exact h
  | error e u => simp

theorem run_bind_congr {a b : Action α} {k k' : α → Action β} (h : a.run w = b.run w)
    (hk : ∀ x u, b.run w = .ok x u → (k x).run u = (k' x).run u) :
    (a >>= k).run w = (b >>= k').run w := by
  rw [EStateM.run_bind, EStateM.run_bind, h]
  cases hrun : b.run w with
  | ok x u => exact hk x u hrun
  | error e u => rfl

theorem run_read_ok {r : World → Except Fault α} {x : α} :
    (read r).run w = .ok x w' ↔ r w = .ok x ∧ w = w' := by
  rw [run_read]
  cases r w <;> simp

def succeeds (a : Action α) (w : World) : Bool :=
  match a.run w with
  | .ok .. => true
  | .error .. => false

theorem run_of_succeeds {a : Action α} (h : a.succeeds w = true) :
    ∃ x w', a.run w = .ok x w' := by
  unfold succeeds at h
  cases hrun : a.run w with
  | ok x w' => exact ⟨x, w', rfl⟩
  | error e w' => simp [hrun] at h

theorem run_of_not_succeeds {a : Action α} (h : a.succeeds w = false) :
    ∃ e w', a.run w = .error e w' := by
  unfold succeeds at h
  cases hrun : a.run w with
  | ok x w' => simp [hrun] at h
  | error e w' => exact ⟨e, w', rfl⟩

@[simp] theorem after_read (r : World → Except Fault α) (w : World) : (read r).after w = w := by
  rw [after, run_read]
  cases r w <;> rfl

theorem after_read_bind (r : World → Except Fault α) (k : α → Action β) (w : World) :
    (read r >>= k).after w = match r w with
      | .ok x => (k x).after w
      | .error _ => w := by
  rw [after_bind, run_read]
  cases r w <;> rfl

theorem after_of_run {a : Action α} {x : α} {w' : World} (h : a.run w = .ok x w') :
    a.after w = w' := by
  rw [after, h]

def outcome (a : Action α) (w : World) : Except Fault α :=
  match a.run w with
  | .ok x _ => .ok x
  | .error e _ => .error e

theorem outcome_of_run {a : Action α} {x : α} (h : a.run w = .ok x w') : a.outcome w = .ok x := by
  rw [outcome, h]

theorem outcome_bind (a : Action α) (k : α → Action β) (w : World) :
    (a >>= k).outcome w = a.outcome w >>= fun x => (k x).outcome (a.after w) := by
  simp only [outcome, after, EStateM.run_bind]
  cases a.run w <;> rfl

@[simp] theorem outcome_pure (x : α) (w : World) : (pure x : Action α).outcome w = .ok x := rfl

@[simp] theorem outcome_read (r : World → Except Fault α) (w : World) :
    (read r).outcome w = r w := by
  rw [outcome, run_read]
  cases r w <;> rfl

theorem related_bind {R : World → World → Prop} [IsPreorder World R] {a : Action α}
    {k : α → Action β} (ha : R w (a.after w))
    (hk : ∀ x w', a.run w = .ok x w' → R w' ((k x).after w')) : R w ((a >>= k).after w) := by
  rw [after_bind]
  cases hrun : a.run w with
  | ok x w' =>
    rw [after_of_run hrun] at ha
    exact trans_of R ha (hk x w' hrun)
  | error e w' => simpa [after, hrun] using ha

/-- Whatever world an action leaves is in a relation to the one before. -/
def Keeps (R : World → World → Prop) (a : Action α) : Prop := ∀ w, R w (a.after w)

namespace Keeps

variable {R S : World → World → Prop} [IsPreorder World R]

theorem pure (x : α) : Keeps R (pure x) := fun w => refl_of R w

theorem throw (e : Fault) : Keeps R (throw e : Action α) := fun w => refl_of R w

theorem read (r : World → Except Fault α) : Keeps R (Action.read r) := by
  intro w
  rw [after_read]
  exact refl_of R w

theorem bind {a : Action α} {k : α → Action β} (ha : Keeps R a) (hk : ∀ x, Keeps R (k x)) :
    Keeps R (a >>= k) := fun w => related_bind (ha w) fun x w' _ => hk x w'

omit [IsPreorder World R] in
theorem get_bind {k : World → Action β} (hk : ∀ w, R w ((k w).after w)) :
    Keeps R (get >>= k) := hk

theorem read_bind {r : World → Except Fault α} {k : α → Action β}
    (hk : ∀ w x, r w = .ok x → R w ((k x).after w)) : Keeps R (Action.read r >>= k) := by
  intro w
  rw [after_read_bind]
  cases hr : r w with
  | ok x => exact hk w x hr
  | error e => exact refl_of R w

theorem forM {xs : List α} {a : α → Action PUnit} (ha : ∀ x, Keeps R (a x)) :
    Keeps R (xs.forM a) := by
  induction xs with
  | nil => exact .pure _
  | cons x xs ih => exact .bind (ha x) fun _ => ih

theorem ofExcept (r : Except Fault α) : Keeps R (Action.ofExcept r) := by
  cases r with
  | ok x => exact .pure x
  | error e => exact .throw e

theorem foldlM {xs : List α} {f : β → α → Action β} (hf : ∀ y x, Keeps R (f y x)) (y : β) :
    Keeps R (xs.foldlM f y) := by
  induction xs generalizing y with
  | nil => exact .pure y
  | cons x xs ih => exact .bind (hf y x) ih

theorem mapM {xs : List α} {f : α → Action β} (hf : ∀ x, Keeps R (f x)) :
    Keeps R (xs.mapM f) := by
  induction xs with
  | nil => exact .pure []
  | cons x xs ih =>
    rw [List.mapM_cons]
    exact .bind (hf x) fun _ => .bind ih fun _ => .pure _

/-- A listener that hears of an event is called, takes notice, and changes the registrations or
adds a property. -/
theorem deliver {nested : Announcer} {event : Event} {l : ListenerId}
    (hcalled : Keeps R (modify (·.modifyListener l fun own => { own with called := true })))
    (hnotice : ∀ peeked, Keeps R (takeNotice l event peeked))
    (hregistered : ∀ change : List ListenerId → List ListenerId,
      Keeps R (modify (·.modifyConfiguration event.source fun own =>
        { own with listeners := change own.listeners })))
    (hadds : ∀ key value, Keeps R (event.source.addPropertyWith nested key value)) :
    Keeps R (deliver nested event l) := by
  refine .get_bind fun w => ?_
  dsimp only
  refine bind hcalled (fun _ => ?_) w
  cases (w.listener l).reaction with
  | record => exact hnotice none
  | peek key => exact .bind (.read _) fun value => hnotice _
  | veto code before =>
    refine .bind (hnotice none) fun _ => ?_
    split
    · exact .throw _
    · exact .pure _
  | adds other =>
    refine .bind (hnotice none) fun _ => .get_bind fun w => ?_
    cases w.listenerNamed? other with
    | some found => exact hregistered (· ++ [found]) w
    | none => exact Keeps.throw _ w
  | removes other =>
    exact .bind (hnotice none) fun _ => .bind (.get_bind fun w => hregistered (·.erase other) w)
      fun _ => .pure _
  | clears => exact .bind (hnotice none) fun _ => hregistered fun _ => []
  | mutate key value =>
    refine .bind (hnotice none) fun _ => ?_
    split
    · exact hadds key value
    · exact .pure _

omit [IsPreorder World R] in
theorem mono {a : Action α} (ha : Keeps R a) (h : ∀ {w w'}, R w w' → S w w') : Keeps S a :=
  fun w => h (ha w)

end Keeps

theorem outcome_mapM {R : World → World → Prop} [IsPreorder World R] {xs : List α}
    {f : α → Action β} {g : α → Except Fault β} (hf : ∀ x, Keeps R (f x))
    (h : ∀ x ∈ xs, ∀ w', R w w' → (f x).outcome w' = g x) :
    (xs.mapM f).outcome w = xs.mapM g := by
  induction xs generalizing w with
  | nil => rfl
  | cons x xs ih =>
    rw [List.forall_mem_cons] at h
    have hrest := ih fun y hy w' hw' => h.2 y hy w' (trans_of R (hf x w) hw')
    simp only [List.mapM_cons, outcome_bind, h.1 w (refl_of R w), hrest, outcome_pure]
    rfl

end Settings.Action
