import Settings.Scalar
import Settings.Value.Text

/-! # Converting values

The number, truth value or items that a value can be read as. A conversion
that has no result for a value yields `none`; a number out of range is refused.
-/

namespace Settings.Value

open Settings.Decimal

def toInt? : Value → Except Fault (Option Int)
  | bool b => .ok (some (if b then 1 else 0))
  | int n => .ok (some n)
  | float x =>
    if x.isNaN then .ok none
    else if x.isFinite then .ok (some (truncate x))
    else .error .overflow
  | str s => .ok (readInteger s.toList).toOption
  | _ => .ok none

def toFloat? : Value → Except Fault (Option Float)
  | bool b => .ok (some (if b then 1.0 else 0.0))
  | int n =>
    let x := Float.ofInt n
    if x.isFinite then .ok (some x) else .error .overflow
  | float x => .ok (some x)
  | nan => .ok (some notANumber)
  | str s => .ok (readFloat? s.toList)
  | _ => .ok none

def toBool? : Value → Except Fault (Option Bool)
  | bool b => .ok (some b)
  | v => do return readBool? (← v.text)

/-- What a collection consists of: the items of a sequence, the characters of a
text, the keys of a mapping. -/
def elements : Value → Except Fault (List Value)
  | list items | tuple items => .ok items
  | str s => .ok (s.toList.map fun c => str (String.ofList [c]))
  | mapping entries => .ok (entries.map (·.1))
  | _ => .error .wrongType

end Settings.Value
