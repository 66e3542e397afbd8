import Settings.Proofs.Outcomes
import Settings.Value.Text

/-! # Values without a text

Nothing but an integer with too many digits, wherever it stands in a value, keeps the value
from being written.
-/

namespace Settings

open Settings.Decimal

theorem integerText_refusedWhen (n : Int) :
    RefusedWhen (Nat.pow 10 digitLimit ≤ n.natAbs) .integerTooLong (integerText n) := by
  rw [integerText]
  split
  · rename_i hlong
    exact .error hlong
  · rename_i hshort
    exact .ok hshort _

namespace Value

variable {v : Value} {items : List Value} {entries : List (Value × Value)} {e : Fault}

/-- Somewhere in a value stands an integer with too many digits. -/
inductive Overlong : Value → Prop
  | int {n : Int} : Nat.pow 10 digitLimit ≤ n.natAbs → Overlong (.int n)
  | list {items : List Value} {v : Value} : v ∈ items → Overlong v → Overlong (.list items)
  | tuple {items : List Value} {v : Value} : v ∈ items → Overlong v → Overlong (.tuple items)
  | key {entries : List (Value × Value)} {entry : Value × Value} :
    entry ∈ entries → Overlong entry.1 → Overlong (.mapping entries)
  | value {entries : List (Value × Value)} {entry : Value × Value} :
    entry ∈ entries → Overlong entry.2 → Overlong (.mapping entries)

namespace Overlong

theorem int_iff {n : Int} : Overlong (.int n) ↔ Nat.pow 10 digitLimit ≤ n.natAbs :=
  ⟨fun | .int h => h, .int⟩

theorem list_iff : Overlong (.list items) ↔ ∃ v ∈ items, Overlong v :=
  ⟨fun | .list hv h => ⟨_, hv, h⟩, fun ⟨_, hv, h⟩ => .list hv h⟩

theorem tuple_iff : Overlong (.tuple items) ↔ ∃ v ∈ items, Overlong v :=
  ⟨fun | .tuple hv h => ⟨_, hv, h⟩, fun ⟨_, hv, h⟩ => .tuple hv h⟩

theorem mapping_iff :
    Overlong (.mapping entries) ↔ ∃ entry ∈ entries, Overlong entry.1 ∨ Overlong entry.2 := by
  constructor
  · rintro (_ | _ | _ | ⟨hentry, h⟩ | ⟨hentry, h⟩)
    · exact ⟨_, hentry, .inl h⟩
    · exact ⟨_, hentry, .inr h⟩
  · rintro ⟨entry, hentry, h | h⟩
    · exact .key hentry h
    · exact .value hentry h

end Overlong

mutual

theorem literal_refusedWhen : ∀ v : Value, RefusedWhen v.Overlong .integerTooLong v.literal
  | null | bool true | bool false | float _ | nan | str _ => .ok nofun _
  | int n => (integerText_refusedWhen n).congr Overlong.int_iff.symm
  | list items => ((itemLiterals_refusedWhen items).map _).congr Overlong.list_iff.symm
  | tuple [item] =>
    ((literal_refusedWhen item).map _).congr (by simp [Overlong.tuple_iff])
  | tuple [] => .ok (by simp [Overlong.tuple_iff]) _
  | tuple (_ :: _ :: _) => ((itemLiterals_refusedWhen _).map _).congr Overlong.tuple_iff.symm
  | mapping entries => ((entryLiterals_refusedWhen entries).map _).congr Overlong.mapping_iff.symm

theorem itemLiterals_refusedWhen :
    ∀ vs : List Value, RefusedWhen (∃ v ∈ vs, Overlong v) .integerTooLong (itemLiterals vs)
  | [] => .ok (by simp) _
  | v :: vs =>
    ((literal_refusedWhen v).bind fun _ => (itemLiterals_refusedWhen vs).map _).congr
      (by simp)

theorem entryLiterals_refusedWhen :
    ∀ es : List (Value × Value),
      RefusedWhen (∃ e ∈ es, Overlong e.1 ∨ Overlong e.2) .integerTooLong (entryLiterals es)
  | [] => .ok (by simp) _
  | (k, v) :: es =>
    ((literal_refusedWhen k).bind fun _ => (literal_refusedWhen v).bind fun _ =>
      (entryLiterals_refusedWhen es).map _).congr (by simp [or_assoc])

end

theorem literal_eq_error_iff : v.literal = .error e ↔ e = .integerTooLong ∧ v.Overlong :=
  (literal_refusedWhen v).eq_error_iff

theorem text_refusedWhen (v : Value) : RefusedWhen v.Overlong .integerTooLong v.text := by
  cases v with
  | str s => exact .ok nofun s
  | _ => exact literal_refusedWhen _

theorem text_refusals (v : Value) : RefusedOnlyFor .integerTooLong v.text :=
  (text_refusedWhen v).refusedOnlyFor

end Value

end Settings
