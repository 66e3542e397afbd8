import Settings.Decimal.Numeral
import Settings.Value

/-! # Scalars in plain text

What a bare text of an environment variable or an INI option stands for: a
truth word, else an integer, else a floating-point number, else itself.
-/

namespace Settings

open Settings.Decimal Settings.Text

def trueWords : List String := ["true", "yes", "on"]

def falseWords : List String := ["false", "no", "off"]

/-- The truth value of a word, surrounding blanks and letter case aside. The
words are Latin, so the letters of other scripts need no lower case here. -/
def readBool? (raw : String) : Option Bool :=
  let word := String.ofList ((trimBoth isBlank raw.toList).map Char.toLower)
  if trueWords.contains word then some true
  else if falseWords.contains word then some false
  else none

def readScalar (raw : String) : Value :=
  match readBool? raw with
  | some b => .bool b
  | none =>
    match readInteger raw.toList with
    | .ok n => .int n
    | .error _ =>
      match readFloat? raw.toList with
      | some x => .float x
      | none => .str raw

end Settings
