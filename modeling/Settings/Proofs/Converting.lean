import Settings.Proofs.Key.Refusing
import Settings.Proofs.Value.Range
import Settings.Proofs.Value.Text
import Settings.Proofs.Variables

/-! # Numbers that are refused

A value that is no number is refused as a fault of its conversion, which quotes the value.
Three faults go past this one: a number that is out of range, a value that cannot be quoted,
and a text with a variable that cannot be looked up.
-/

namespace Settings

open Decimal Reference

variable {α : Type} {convert : Value → Except Fault (Option α)} {outOfRange : Value → Prop}
  {key : Option String} {target : Target} {v : Value} {fault : Fault} {text name : String}

namespace Value

def IsInfinite (v : Value) : Prop := ∃ x, v = .float x ∧ x.isNaN = false ∧ x.isFinite = false

def IsLarge (v : Value) : Prop := ∃ n, v = .int n ∧ doubleLimit ≤ n.natAbs

/-- A conversion is refused for numbers out of a range only. Of the values that cannot be
written it has a number for those that are one. -/
structure Converts (convert : Value → Except Fault (Option α)) (outOfRange : Value → Prop) :
    Prop where
  null : convert .null = .ok none
  str (text : String) : ∃ found, convert (.str text) = .ok found
  error_iff {v : Value} {fault : Fault} :
    convert v = .error fault ↔ fault = .overflow ∧ outOfRange v
  none_iff {v : Value} : v.Overlong → (convert v = .ok none ↔ v.number? = none)

theorem Converts.not_outOfRange_str (hconvert : Converts convert outOfRange) (text : String) :
    ¬ outOfRange (.str text) := fun h => by
  obtain ⟨found, hfound⟩ := hconvert.str text
  cases hfound.symm.trans (hconvert.error_iff.2 ⟨rfl, h⟩)

theorem converts_toInt? : Converts toInt? IsInfinite where
  null := rfl
  str _ := ⟨_, rfl⟩
  error_iff {v fault} := by
    cases v with
    | float x =>
      simp only [toInt?, IsInfinite, float.injEq, exists_eq_left']
      split
      · rename_i hnan
        simp only [reduceCtorEq, hnan, Bool.true_eq_false, false_and, and_false]
      · rename_i hnan
        split
        · rename_i hfinite
          simp only [reduceCtorEq, hfinite, Bool.true_eq_false, and_false]
        · rename_i hinfinite
          simp only [Except.error.injEq, Bool.eq_false_iff.2 hnan, Bool.eq_false_iff.2 hinfinite,
            and_true, eq_comm]
    | _ => simp [toInt?, IsInfinite]
  none_iff h := by cases h <;> simp [toInt?, number?]

theorem converts_toFloat? : Converts toFloat? IsLarge where
  null := rfl
  str _ := ⟨_, rfl⟩
  error_iff {v fault} := by
    cases v with
    | int n =>
      simp only [toFloat?, IsLarge, int.injEq, exists_eq_left']
      split
      · rename_i hfinite
        simp [isFinite_ofInt_iff.1 hfinite]
      · rename_i hlarge
        rw [isFinite_ofInt_iff, not_lt] at hlarge
        simp [hlarge, eq_comm]
    | _ => simp [toFloat?, IsLarge]
  none_iff h := by
    cases h with
    | int =>
      simp only [toFloat?, number?]
      split <;> simp
    | _ => simp [toFloat?, number?]

end Value

open Value

namespace World

variable {w : World} {c : ConfigurationId} {nodes : List NodeId}

def numbered (convert : Value → Except Fault (Option α)) (key : Option String) (target : Target) :
    Value → Except Fault (Option α)
  | .null => .ok none
  | v => do
    match ← convert v with
    | some a => return some a
    | none => refuseConversion key target v

theorem getInt_eq (default_ : Value) :
    w.getInt c key default_ = w.getSingle c key default_ >>= numbered toInt? key .int := by
  refine congrArg (w.getSingle c key default_ >>= ·) (funext fun v => ?_)
  cases v with
  | null => rfl
  | _ =>
    refine congrArg (toInt? _ >>= ·) (funext fun found => ?_)
    cases found <;> rfl

theorem getFloat_eq (default_ : Value) :
    w.getFloat c key default_ = w.getSingle c key default_ >>= numbered toFloat? key .float := by
  refine congrArg (w.getSingle c key default_ >>= ·) (funext fun v => ?_)
  cases v with
  | null => rfl
  | _ =>
    refine congrArg (toFloat? _ >>= ·) (funext fun found => ?_)
    cases found <;> rfl

theorem numbered_of_ne_null (hne : v ≠ .null) :
    numbered convert key target v = convert v >>= fun
      | some a => .ok (some a)
      | none => refuseConversion key target v := by
  cases v with
  | null => exact absurd rfl hne
  | _ => rfl

theorem refuseConversion_refusals
    (h : refuseConversion key target v = (.error fault : Except Fault α)) :
    fault.kind = .conversion ∨ fault = .integerTooLong ∧ v.Overlong := by
  rcases bind_eq_error.1 h with hliteral | ⟨shown, -, hthrow⟩
  · exact .inr (literal_eq_error_iff.1 hliteral)
  · cases hthrow
    exact .inl rfl

theorem numbered_refusals (hconvert : Converts convert outOfRange)
    (h : numbered convert key target v = .error fault) :
    fault.kind = .conversion ∨ fault = .overflow ∧ outOfRange v ∨
      fault = .integerTooLong ∧ v.number? = none ∧ v.Overlong := by
  rcases eq_or_ne v .null with rfl | hne
  · cases h
  · rw [numbered_of_ne_null hne] at h
    rcases bind_eq_error.1 h with herror | ⟨found, hfound, hthen⟩
    · exact .inr (.inl (hconvert.error_iff.1 herror))
    · cases found with
      | some a => cases hthen
      | none =>
        rcases refuseConversion_refusals hthen with hkind | ⟨rfl, hlong⟩
        · exact .inl hkind
        · exact .inr (.inr ⟨rfl, (hconvert.none_iff hlong).1 hfound, hlong⟩)

theorem numbered_of_outOfRange (hconvert : Converts convert outOfRange) (h : outOfRange v) :
    numbered convert key target v = .error .overflow := by
  have herror := hconvert.error_iff.2 ⟨rfl, h⟩
  rw [numbered_of_ne_null, herror]
  · rfl
  · rintro rfl
    cases hconvert.null.symm.trans herror

theorem numbered_of_overlong (hconvert : Converts convert outOfRange) (h : v.number? = none)
    (hlong : v.Overlong) : numbered convert key target v = .error .integerTooLong := by
  rw [numbered_of_ne_null, (hconvert.none_iff hlong).2 h, ok_bind]
  · change refuseConversion key target v = _
    rw [refuseConversion, literal_eq_error_iff.2 ⟨rfl, hlong⟩]
    rfl
  · rintro rfl
    cases hlong

theorem kind_of_numbered_str (hconvert : Converts convert outOfRange)
    (h : numbered convert key target (.str text) = .error fault) : fault.kind = .conversion := by
  rcases numbered_refusals hconvert h with hkind | ⟨-, hrange⟩ | ⟨-, -, hlong⟩
  · exact hkind
  · exact absurd hrange (hconvert.not_outOfRange_str text)
  · cases hlong

/-- A variable cannot be looked up for an index in its name, or for a value that cannot be
written. -/
inductive Unreadable (w : World) (c : ConfigurationId) (name : String) : Fault → Prop
  | misnumbered {fault : Fault} (hkind : fault.kind = .badValue) :
    (∃ s, (w.markers c).Visits (some name) s ∧ (w.markers c).Misnumbered s) →
      Unreadable w c name fault
  | unwritable {v : Value} : w.resolveVariable c (some name) = .ok v → v.Overlong →
    Unreadable w c name .integerTooLong

theorem Unreadable.kind (h : w.Unreadable c name fault) : fault.kind = .badValue := by
  cases h with
  | misnumbered hkind => exact hkind
  | unwritable => rfl

theorem variableText_refusals (h : w.variableText c name = .error fault) :
    fault.kind = .configuration ∨ w.Unreadable c name fault := by
  unfold variableText at h
  split at h
  · cases h
  · rcases bind_eq_error.1 h with hresolve | ⟨v, hresolve, htext⟩
    · have hparse : (w.markers c).parse (some name) = .error fault :=
        Forest.select_eq_error_iff.1 (map_eq_error.1 (map_eq_error.1 hresolve))
      rcases Markers.parse_refusals hparse with rfl | ⟨hmisnumbered, hkind⟩
      · exact .inl rfl
      · exact .inr (.misnumbered hkind hmisnumbered)
    · split at htext
      · cases htext
      · obtain ⟨rfl, hlong⟩ := (text_refusedWhen v).eq_error_iff.1 (map_eq_error.1 htext)
        exact .inr (.unwritable hresolve hlong)

/-- A text is not expanded for a loop, or for a variable met that cannot be looked up. -/
theorem expandFrom_refusals (h : w.expandFrom c text = .error fault) :
    fault.kind = .configuration ∨ ∃ name, Reaches (w.variableText c) text name ∧
      w.variableText c name = .error fault ∧ w.Unreadable c name fault := by
  have hconcludes := expandFrom_concludes w c text
  rw [h] at hconcludes
  rcases hconcludes with (⟨_, hout, -⟩ | ⟨⟨within, name, hloop⟩, -⟩) |
    ⟨name, e, he, hreaches, hlookup⟩
  · cases hout
  · cases hloop
    exact .inl rfl
  · cases he
    rcases variableText_refusals hlookup with hkind | hunreadable
    · exact .inl hkind
    · exact .inr ⟨name, hreaches, hlookup, hunreadable⟩

/-- The faults for which no number is read from a value and that are no configuration faults. -/
inductive Strays (w : World) (c : ConfigurationId) (outOfRange : Value → Prop) :
    Value → Fault → Prop
  | range {v : Value} : outOfRange v → Strays w c outOfRange v .overflow
  | unquotable {v : Value} : v.number? = none → v.Overlong → Strays w c outOfRange v .integerTooLong
  /-- The expansion of a text meets a variable that cannot be looked up. -/
  | unexpanded {text name : String} {fault : Fault} : w.expandText c text = .error fault →
    Reaches (w.variableText (w.outermost c)) text name →
    w.variableText (w.outermost c) name = .error fault →
    w.Unreadable (w.outermost c) name fault → Strays w c outOfRange (.str text) fault

/-- How reading a number from a value is refused: as a conversion, for the expansion of a text,
or for a stray fault. -/
structure RefusesAs (w : World) (c : ConfigurationId) (outOfRange : Value → Prop) (v : Value)
    (result : Except Fault (Option α)) : Prop where
  regular : ∀ fault, fault.kind.isConfiguration = true → result = .error fault →
    fault.kind = .conversion ∨ fault.kind = .configuration ∧
      ∃ text, v = .str text ∧ w.expandText c text = .error fault
  stray : ∀ fault, fault.kind.isConfiguration = false →
    (result = .error fault ↔ w.Strays c outOfRange v fault)

theorem interpolate_of_not_str (h : ∀ text, v ≠ .str text) : w.interpolate c v = .ok v := by
  cases v with
  | str text => exact absurd rfl (h text)
  | _ => rfl

theorem interpolate_str_bind (k : Value → Except Fault α) :
    w.interpolate c (.str text) >>= k = w.expandText c text >>= fun s => k (.str s) := by
  rw [interpolate]
  cases w.expandText c text <;> rfl

section Refusals

variable (hconvert : Converts convert outOfRange)

include hconvert

/-- A text is expanded first. What comes out is in no range and can be quoted. -/
theorem refusesAs_str :
    w.RefusesAs c outOfRange (.str text)
      (w.interpolate c (.str text) >>= numbered convert key target) := by
  rw [interpolate_str_bind]
  constructor
  · intro fault hkind h
    rcases bind_eq_error.1 h with hexpand | ⟨s, -, hnumbered⟩
    · rcases expandFrom_refusals hexpand with hregular | ⟨_, -, -, hunreadable⟩
      · exact .inr ⟨hregular, text, rfl, hexpand⟩
      · rw [hunreadable.kind] at hkind
        cases hkind
    · exact .inl (kind_of_numbered_str hconvert hnumbered)
  · intro fault hkind
    constructor
    · intro h
      rcases bind_eq_error.1 h with hexpand | ⟨s, -, hnumbered⟩
      · rcases expandFrom_refusals hexpand with hregular | ⟨_, hreaches, hlookup, hunreadable⟩
        · rw [hregular] at hkind
          cases hkind
        · exact .unexpanded hexpand hreaches hlookup hunreadable
      · rw [kind_of_numbered_str hconvert hnumbered] at hkind
        cases hkind
    · rintro (hrange | ⟨-, hlong⟩ | ⟨hexpand, -⟩)
      · exact absurd hrange (hconvert.not_outOfRange_str text)
      · cases hlong
      · rw [hexpand]
        rfl

theorem refusesAs_of_not_str (hstr : ∀ text, v ≠ .str text) :
    w.RefusesAs c outOfRange v (w.interpolate c v >>= numbered convert key target) := by
  rw [interpolate_of_not_str hstr, ok_bind]
  constructor
  · intro fault hkind h
    rcases numbered_refusals hconvert h with hconversion | ⟨rfl, -⟩ | ⟨rfl, -⟩
    · exact .inl hconversion
    · cases hkind
    · cases hkind
  · intro fault hkind
    constructor
    · intro h
      rcases numbered_refusals hconvert h with hconversion | ⟨rfl, hrange⟩ | ⟨rfl, hnumber, hlong⟩
      · rw [hconversion] at hkind
        cases hkind
      · exact .range hrange
      · exact .unquotable hnumber hlong
    · rintro (hrange | ⟨hnumber, hlong⟩ | _)
      · exact numbered_of_outOfRange hconvert hrange
      · exact numbered_of_overlong hconvert hnumber hlong
      · exact absurd rfl (hstr _)

theorem refusesAs (v : Value) :
    w.RefusesAs c outOfRange v (w.interpolate c v >>= numbered convert key target) := by
  by_cases h : ∃ text, v = .str text
  · obtain ⟨text, rfl⟩ := h
    exact refusesAs_str hconvert
  · exact refusesAs_of_not_str hconvert fun text heq => h ⟨text, heq⟩

end Refusals

theorem getSingle_eq (hflag : (w.configuration c).throwsOnMissing = false)
    (hnodes : w.fetchNodes c key = .ok nodes) :
    w.getSingle c key .null = w.interpolate c (collect (w.valuesOf nodes)).first := by
  unfold getSingle getProperty
  rw [hnodes]
  simp only [ok_bind, pure, Except.pure]
  generalize (collect (w.valuesOf nodes)).first = v
  cases v with
  | null => simp [refusesMissing, hflag, interpolate]
  | _ => rfl

/-- Where nothing is demanded and the key is not malformed, reading an integer or a double is
refused as a conversion or for the expansion of a text, but also for an infinity or an integer
too large, for a collection that cannot be quoted, and for a variable that cannot be looked up. -/
theorem number_refusals (hflag : (w.configuration c).throwsOnMissing = false)
    (hnodes : w.fetchNodes c key = .ok nodes) :
    let v := (collect (w.valuesOf nodes)).first
    w.RefusesAs c Value.IsInfinite v (w.getInt c key .null) ∧
      w.RefusesAs c Value.IsLarge v (w.getFloat c key .null) := by
  intro v
  rw [getInt_eq, getFloat_eq, getSingle_eq hflag hnodes]
  exact ⟨refusesAs converts_toInt? v, refusesAs converts_toFloat? v⟩

/-- An infinity is no integer, and a large integer no double. -/
theorem number_refusals_outOfRange :
    let forest := (((Forest.empty.create none .null false).2.createLinked
      ⟨0⟩ "a" (.float infinity) false).2.createLinked
      ⟨0⟩ "b" (.list [.int (-10 ^ 309), .null]) false).2
    let w := { World.fresh [] with forest, configurations := #[.rootedAt ⟨0⟩ none] }
    ((w.configuration ⟨0⟩).throwsOnMissing = false ∧ w.fetchNodes ⟨0⟩ (some "a") = .ok [⟨1⟩] ∧
      w.fetchNodes ⟨0⟩ (some "b") = .ok [⟨2⟩]) ∧
      w.getInt ⟨0⟩ (some "a") .null = .error .overflow ∧
      w.getFloat ⟨0⟩ (some "b") .null = .error .overflow := by
  intro forest w
  have hflag : (w.configuration ⟨0⟩).throwsOnMissing = false := rfl
  have ha : w.fetchNodes ⟨0⟩ (some "a") = .ok [⟨1⟩] := by decide +kernel
  have hb : w.fetchNodes ⟨0⟩ (some "b") = .ok [⟨2⟩] := by decide +kernel
  have hinfinite : infinity.isNaN = false ∧ infinity.isFinite = false := by decide +kernel
  have hlarge : doubleLimit ≤ (-10 ^ 309 : ℤ).natAbs := by decide +kernel
  refine ⟨⟨hflag, ha, hb⟩, ?_, ?_⟩
  · exact ((number_refusals hflag ha).1.stray .overflow rfl).2 (.range ⟨infinity, rfl, hinfinite⟩)
  · exact ((number_refusals hflag hb).2.stray .overflow rfl).2 (.range ⟨-10 ^ 309, rfl, hlarge⟩)

/-- Reading an integer from an infinity is refused, but not as a fault of the configuration. -/
theorem getInt_infinite :
    let forest := ((Forest.empty.create none .null false).2.createLinked
      ⟨0⟩ "a" (.float infinity) false).2
    let w := { World.fresh [] with forest, configurations := #[.rootedAt ⟨0⟩ none] }
    ∃ fault, w.getInt ⟨0⟩ (some "a") .null = .error fault ∧ fault.kind.isConfiguration = false :=
  ⟨.overflow, by decide +kernel, rfl⟩

end World

end Settings
