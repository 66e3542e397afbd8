import Settings.Proofs.Beans

/-! # What declarations leave behind

Whatever is read from a declaration or created from one, also when this is refused in the
midst of it, the only thing that is new afterwards are more views.
-/

namespace Settings

open Settings.Action

instance World.Widens.isPreorder : IsPreorder World World.Widens where
  refl := .refl
  trans _ _ _ := .trans

theorem Nested.keeps_mapAction {α β : Type} {act : α → Action β}
    (h : ∀ a, Keeps World.Widens (act a)) (n : Nested α) :
    Keeps World.Widens (n.mapAction act) := by
  cases n with
  | single one => exact .bind (h one) fun _ => .pure _
  | multiple all => exact .bind (.mapM h) fun _ => .pure _

namespace Declaration

variable (d : Declaration)

theorem keeps_nestedAt (i : NodeId) : Keeps World.Widens (d.nestedAt i) := by
  refine .get_bind fun w => ?_
  dsimp only
  split
  · rw [after_of_run (run_ofView_viewAt w d.configuration i)]
    exact .addConfiguration w _
  · exact .refl w

theorem keeps_nested : Keeps World.Widens d.nested :=
  .get_bind fun _ => Keeps.foldlM (fun _ i => .bind (d.keeps_nestedAt i) fun _ => .pure _) [] _

def sayOver (described : List (Option String × Nested Description)) : Action Description := do
  let className ← Action.read d.className
  let factory ← Action.read d.factoryName
  let parameter ← Action.read d.factoryParameter
  let properties ← Action.read d.properties
  return .mk className factory parameter properties described

theorem keeps_sayOver (described : List (Option String × Nested Description)) :
    Keeps World.Widens (d.sayOver described) :=
  .bind (.read _) fun _ => .bind (.read _) fun _ => .bind (.read _) fun _ =>
    .bind (.read _) fun _ => .pure _

def describeEntry (depth : Nat) (entry : Option String × Nested Declaration) :
    Action (Option String × Nested Description) :=
  return (entry.1, ← entry.2.mapAction (describeTo depth))

theorem describeTo_zero : d.describeTo 0 = (do let _ ← d.nested; d.sayOver []) := rfl

theorem describeTo_succ (depth : Nat) : d.describeTo (depth + 1) =
    (do d.sayOver (← (← d.nested).mapM (describeEntry depth))) := rfl

theorem keeps_describeEntry {depth : Nat} (h : ∀ d, Keeps World.Widens (describeTo depth d))
    (entry : Option String × Nested Declaration) :
    Keeps World.Widens (describeEntry depth entry) :=
  .bind (entry.2.keeps_mapAction h) fun _ => .pure _

theorem keeps_describeTo (depth : Nat) : Keeps World.Widens (d.describeTo depth) := by
  induction depth generalizing d with
  | zero =>
    rw [describeTo_zero]
    exact .bind d.keeps_nested fun _ => d.keeps_sayOver []
  | succ depth ih =>
    rw [describeTo_succ]
    exact .bind d.keeps_nested fun _ =>
      .bind (.mapM (keeps_describeEntry ih)) d.keeps_sayOver

theorem keeps_describe : Keeps World.Widens d.describe :=
  .get_bind fun w => d.keeps_describeTo w.forest.size w

end Declaration

namespace BeanHelper

variable (h : BeanHelper)

theorem keeps_setDeclared {beanClass : BeanClass}
    {enter : Bean → Option String × Nested Declaration → Action Bean}
    (henter : ∀ bean entry, Keeps World.Widens (enter bean entry)) (d : Declaration) (bean : Bean) :
    Keeps World.Widens (setDeclared beanClass enter d bean) := by
  refine .bind (.read _) fun properties => .bind ?_ fun bean => ?_
  · exact .foldlM (fun _ _ => .ofExcept _) bean
  · exact .bind d.keeps_nested fun _ => .foldlM henter bean

theorem keeps_createWith
    {enter : BeanClass → Bean → Option String × Nested Declaration → Action Bean}
    (henter : ∀ beanClass bean entry, Keeps World.Widens (enter beanClass bean entry))
    (d : Declaration) (fallback : Option BeanClass) (parameter : Value) :
    Keeps World.Widens (h.createWith enter d fallback parameter) := by
  unfold createWith
  refine .bind (.read _) fun factory => .bind (.read _) fun beanClass => ?_
  refine .bind (.read _) fun declared => .bind (.ofExcept _) fun bean => ?_
  have hfinish (bean : Bean) : Keeps World.Widens (do
      if !factory.initializes then return bean
      setDeclared beanClass (enter beanClass) d bean) := by
    split
    · exact .pure bean
    · exact keeps_setDeclared (henter beanClass) d bean
  dsimp only
  split
  · exact .bind (.ofExcept _) hfinish
  · exact .bind (.pure bean) hfinish

theorem keeps_createTo (depth : Nat) (d : Declaration) (fallback : Option BeanClass)
    (parameter : Value) : Keeps World.Widens (h.createTo depth d fallback parameter) := by
  induction depth generalizing d fallback parameter with
  | zero =>
    rw [createTo_zero]
    exact h.keeps_createWith (fun _ bean _ => .pure bean) d fallback parameter
  | succ depth ih =>
    rw [createTo_succ]
    refine h.keeps_createWith (fun beanClass bean entry => ?_) d fallback parameter
    exact .bind (entry.2.keeps_mapAction fun d => ih d none .null) fun _ => .ofExcept _

theorem keeps_create (d : Declaration) (fallback : Option BeanClass) (parameter : Value) :
    Keeps World.Widens (h.create (some d) fallback parameter) :=
  .get_bind fun w => h.keeps_createTo w.forest.size d fallback parameter w

end BeanHelper

end Settings
