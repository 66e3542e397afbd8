import Settings.Decimal.Layout
import Settings.Decimal.Numeral
import Settings.Fault
import Settings.Value

/-! # The text of a value

A text stands for itself; every other value, and every text inside a
collection, is written as a literal. Only an integer beyond the digit limit
has no text.
-/

namespace Settings

open Settings.Decimal Settings.Text

/-- Doubles are written with the fewest digits that read back, positionally
from `1e-4` up to below `1e16` and otherwise with a signed exponent of at
least two digits. -/
def numberLayout : Layout where
  plainFrom := -4
  plainBelow := 16
  exponentWidth := 2
  notANumber := "nan"
  infinite := "inf"

/-- The decimal digits of an integer, refused beyond the digit limit. -/
def integerText (n : Int) : Except Fault String :=
  if Nat.pow 10 digitLimit ≤ n.natAbs then .error .integerTooLong else .ok (toString n)

def separated (items : List String) : String := ", ".intercalate items

namespace Value

mutual

def literal : Value → Except Fault String
  | null => .ok "None"
  | bool true => .ok "True"
  | bool false => .ok "False"
  | int n => integerText n
  | float x => .ok (numberLayout.render x)
  | nan => .ok numberLayout.notANumber
  | str s => .ok (quoted s)
  | list items => do return "[" ++ separated (← itemLiterals items) ++ "]"
  | tuple [item] => do return "(" ++ (← literal item) ++ ",)"
  | tuple items => do return "(" ++ separated (← itemLiterals items) ++ ")"
  | mapping entries => do return "\x7b" ++ separated (← entryLiterals entries) ++ "\x7d"

def itemLiterals : List Value → Except Fault (List String)
  | [] => .ok []
  | v :: vs => do return (← literal v) :: (← itemLiterals vs)

def entryLiterals : List (Value × Value) → Except Fault (List String)
  | [] => .ok []
  | (k, v) :: es => do
    return ((← literal k) ++ ": " ++ (← literal v)) :: (← entryLiterals es)

end

def text : Value → Except Fault String
  | str s => .ok s
  | v => v.literal

end Value

end Settings
