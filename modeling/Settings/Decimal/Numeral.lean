import Settings.Decimal.Binary
import Settings.Text.Blank
import Settings.Text.Digit

/-! # Numerals

Reading integers and floating-point numbers from text. Blanks may surround a
numeral, digits of any script count, and single underscores may stand between
digits. Integers have at most 4300 digits.
-/

namespace Settings.Decimal

open Settings.Text

inductive NumeralFault
  | malformed
  | tooLong (digits : Nat)
deriving DecidableEq

/-- The most digits an integer may have in text. -/
def digitLimit : Nat := 4300

/-- The values of digits, where single underscores may stand between two of them. -/
def digitGroup? : List Char → Option (List Nat)
  | [] => none
  | [c] => (decimalValue? c).map ([·])
  | c :: '_' :: rest => do return (← decimalValue? c) :: (← digitGroup? rest)
  | c :: rest => do return (← decimalValue? c) :: (← digitGroup? rest)

def ofDigits (digits : List Nat) : Nat := digits.foldl (fun n d => 10 * n + d) 0

/-- A sign in front, true for minus, and the rest. -/
def splitSign : List Char → Bool × List Char
  | '-' :: rest => (true, rest)
  | '+' :: rest => (false, rest)
  | cs => (false, cs)

def readInteger (cs : List Char) : Except NumeralFault Int :=
  let (negative, body) := splitSign (trimBoth isNumeralBlank cs)
  match digitGroup? body with
  | none => .error .malformed
  | some digits =>
    if digitLimit < digits.length then .error (.tooLong digits.length)
    else
      let n : Int := ofDigits digits
      .ok (if negative then -n else n)

/-- The value of a digit: a decimal digit of any script, or a Latin letter for
ten and more. -/
def digitValue? (c : Char) : Option Nat :=
  let lowered := c.toLower
  (decimalValue? c).or
    (if 'a' ≤ lowered && lowered ≤ 'z' then some (lowered.toNat - 87) else none)

def baseMark? : Nat → Option Char
  | 2 => some 'b'
  | 8 => some 'o'
  | 16 => some 'x'
  | _ => none

def afterBaseMark (base : Nat) : List Char → List Char
  | '0' :: mark :: digits =>
    if baseMark? base = some mark.toLower then digits else '0' :: mark :: digits
  | cs => cs

/-- An integer in digits of a base, perhaps with the mark of the base in front. -/
def readBased? (base : Nat) (cs : List Char) : Option Int := do
  let (negative, body) := splitSign (trimBoth isNumeralBlank cs)
  let digits ← (afterBaseMark base body).mapM fun c => (digitValue? c).filter (· < base)
  if digits.isEmpty then none
  let n : Int := (digits.foldl (fun n d => base * n + d) 0 : Nat)
  return if negative then -n else n

/-- The double nearest to `digits * 10 ^ exponent`. A power far outside the
range of doubles is settled by counting digits. -/
def nearest (digits : List Nat) (exponent : Int) : Float :=
  let significant := digits.dropWhile (· = 0)
  if significant.isEmpty then 0.0
  else if 310 < exponent + significant.length then infinity
  else if exponent + significant.length < -330 then 0.0
  else Float.ofScientific (ofDigits significant) (exponent < 0) exponent.natAbs

/-- The digits before and after a point; either side may be missing, not both. -/
def readMantissa? (cs : List Char) : Option (List Nat × Int) :=
  let whole := cs.takeWhile (· ≠ '.')
  match cs.dropWhile (· ≠ '.') with
  | [] => (digitGroup? whole).map (·, 0)
  | _ :: fraction =>
    if whole.isEmpty then (digitGroup? fraction).map fun ds => (ds, -(ds.length : Int))
    else if fraction.isEmpty then (digitGroup? whole).map (·, 0)
    else do
      let ds ← digitGroup? whole
      let fs ← digitGroup? fraction
      return (ds ++ fs, -(fs.length : Int))

def isPowerMark (c : Char) : Bool := c = 'e' || c = 'E'

def readDecimal? (cs : List Char) : Option Float := do
  let (digits, shift) ← readMantissa? (cs.takeWhile (!isPowerMark ·))
  match cs.dropWhile (!isPowerMark ·) with
  | [] => return nearest digits shift
  | _ :: power =>
    let (negative, body) := splitSign power
    let n : Int := ofDigits (← digitGroup? body)
    return nearest digits (shift + if negative then -n else n)

def readFloat? (cs : List Char) : Option Float :=
  let (negative, body) := splitSign (trimBoth isNumeralBlank cs)
  let word := body.map Char.toLower
  let magnitude :=
    if word = "inf".toList || word = "infinity".toList then some infinity
    else if word = "nan".toList then some notANumber
    else readDecimal? body
  magnitude.map fun x => if negative then -x else x

end Settings.Decimal
