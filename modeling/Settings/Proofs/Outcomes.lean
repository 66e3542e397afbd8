import Settings.Fault

/-! # Outcomes up to the wording of faults

Two readings agree when both give the same value, or both are refused with
faults of one kind. Readings made in the same way from agreeing ones agree.
-/

namespace Settings

variable {α β : Type} {x y : Except Fault α} {k l : α → Except Fault β}

/-- The same value, or faults of the same kind. -/
def SameOutcome (x y : Except Fault α) : Prop :=
  x.mapError Fault.kind = y.mapError Fault.kind

theorem ok_bind (a : α) (k : α → Except Fault β) : Except.ok a >>= k = k a := rfl

theorem bind_eq_ok {b : β} : x >>= k = .ok b ↔ ∃ a, x = .ok a ∧ k a = .ok b := by
  cases x <;> simp [Bind.bind, Except.bind]

theorem bind_eq_error {e : Fault} :
    x >>= k = .error e ↔ x = .error e ∨ ∃ a, x = .ok a ∧ k a = .error e := by
  cases x <;> simp [Bind.bind, Except.bind]

theorem map_eq_error {e : Fault} {f : α → β} : (do return f (← x)) = .error e ↔ x = .error e := by
  cases x <;> simp [Bind.bind, Except.bind, Pure.pure, Except.pure]

theorem exists_of_toBool (h : x.toBool = true) : ∃ a, x = .ok a := by
  cases x with
  | ok a => exact ⟨a, rfl⟩
  | error e => cases h

namespace SameOutcome

theorem refl (x : Except Fault α) : SameOutcome x x := rfl

theorem of_eq (h : x = y) : SameOutcome x y := congrArg _ h

theorem symm (h : SameOutcome x y) : SameOutcome y x := Eq.symm h

theorem trans {z : Except Fault α} (h : SameOutcome x y) (h' : SameOutcome y z) :
    SameOutcome x z := Eq.trans h h'

theorem throw {e e' : Fault} (h : e.kind = e'.kind) :
    SameOutcome (.error e : Except Fault α) (.error e') := congrArg Except.error h

theorem bind (h : SameOutcome x y) (hk : ∀ a, SameOutcome (k a) (l a)) :
    SameOutcome (x >>= k) (y >>= l) := by
  cases x with
  | ok a =>
    cases y with
    | ok b =>
      obtain rfl := Except.ok.inj h
      exact hk a
    | error e => cases h
  | error e =>
    cases y with
    | ok b => cases h
    | error e' => exact throw (Except.error.inj h)

theorem bind_same (x : Except Fault α) (hk : ∀ a, SameOutcome (k a) (l a)) :
    SameOutcome (x >>= k) (x >>= l) :=
  (refl x).bind hk

end SameOutcome

def RefusedOnlyFor (fault : Fault) (x : Except Fault α) : Prop := ∀ e, x = .error e → e = fault

namespace RefusedOnlyFor

variable {fault : Fault}

theorem ok (a : α) : RefusedOnlyFor fault (.ok a : Except Fault α) := fun _ h => nomatch h

theorem bind (h : RefusedOnlyFor fault x) (hk : ∀ a, RefusedOnlyFor fault (k a)) :
    RefusedOnlyFor fault (x >>= k) := by
  cases x with
  | ok a => exact hk a
  | error e => exact fun e' he' => h e' (congrArg Except.error (Except.error.inj he'))

theorem mapM {xs : List α} (h : ∀ a ∈ xs, RefusedOnlyFor fault (k a)) :
    RefusedOnlyFor fault (xs.mapM k) := by
  induction xs with
  | nil => exact .ok []
  | cons a xs ih =>
    rw [List.forall_mem_cons] at h
    rw [List.mapM_cons]
    exact .bind h.1 fun _ => .bind (ih h.2) fun _ => .ok _

end RefusedOnlyFor

inductive RefusedWhen (p : Prop) (fault : Fault) : Except Fault α → Prop
  | error (h : p) : RefusedWhen p fault (.error fault)
  | ok (h : ¬ p) (a : α) : RefusedWhen p fault (.ok a)

namespace RefusedWhen

variable {p q : Prop} {fault e : Fault}

theorem never (a : α) : RefusedWhen False fault (.ok a) := .ok not_false a

theorem congr (h : RefusedWhen p fault x) (hiff : p ↔ q) : RefusedWhen q fault x :=
  propext hiff ▸ h

theorem bind (h : RefusedWhen p fault x) (hk : ∀ a, RefusedWhen q fault (k a)) :
    RefusedWhen (p ∨ q) fault (x >>= k) := by
  cases h with
  | error hp => exact .error (.inl hp)
  | ok hp a =>
    rw [ok_bind]
    have hnext := hk a
    generalize k a = y at hnext
    cases hnext with
    | error hq => exact .error (.inr hq)
    | ok hq b => exact .ok (not_or.2 ⟨hp, hq⟩) b

theorem map (h : RefusedWhen p fault x) (f : α → β) :
    RefusedWhen p fault (do return f (← x)) :=
  (h.bind fun a => never (f a)).congr (by rw [or_false])

theorem eq_error_iff (h : RefusedWhen p fault x) : x = .error e ↔ e = fault ∧ p := by
  cases h with
  | error hp => simp [hp, eq_comm]
  | ok hp a => simp [hp]

theorem refusedOnlyFor (h : RefusedWhen p fault x) : RefusedOnlyFor fault x :=
  fun _ he => (h.eq_error_iff.1 he).1

end RefusedWhen

end Settings
