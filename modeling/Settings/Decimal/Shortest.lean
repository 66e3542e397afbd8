import Settings.Decimal.Binary

/-! # The fewest digits that read back

A double is written with the shortest decimal among those that round to it,
and with the nearest of these when there are several. All comparisons are made
between natural numbers.
-/

namespace Settings.Decimal

/-- The number `digits * 10 ^ exponent`. -/
structure Scaled where
  digits : Nat
  exponent : Int
deriving DecidableEq

/-- Compares `a * 10 ^ i` with `n * 2 ^ j`. -/
def compareScaled (a : Nat) (i : Int) (n : Nat) (j : Int) : Ordering :=
  compare (a * Nat.pow 10 i.toNat * Nat.pow 2 (-j).toNat)
    (n * Nat.pow 2 j.toNat * Nat.pow 10 (-i).toNat)

/-- The decimal lies among the reals that round to the magnitude, ties going to even mantissas. -/
def Binary.readsBack (b : Binary) (d : Scaled) : Bool :=
  let low := if b.narrowBelow then 4 * b.mantissa - 1 else 4 * b.mantissa - 2
  let high := 4 * b.mantissa + 2
  let closed := b.mantissa % 2 = 0
  let atLow := compareScaled d.digits d.exponent low (b.exponent - 2)
  let atHigh := compareScaled d.digits d.exponent high (b.exponent - 2)
  (atLow = .gt || (closed && atLow = .eq)) && (atHigh = .lt || (closed && atHigh = .eq))

/-- How many tenfold steps bring `n` up to `d`, at most `fuel`. -/
def stepsUp (d : Nat) : Nat → Nat → Nat
  | 0, _ => 0
  | fuel + 1, n => if d ≤ n then 0 else stepsUp d fuel (n * 10) + 1

/-- The power of ten of the leading digit of a magnitude other than zero. -/
def Binary.leadingPower (b : Binary) : Int :=
  let n := b.mantissa * Nat.pow 2 b.exponent.toNat
  let d := Nat.pow 2 (-b.exponent).toNat
  if d ≤ n then ((Nat.toDigits 10 (n / d)).length : Int) - 1
  else -(stepsUp d 400 n : Int)

/-- The multiple of `10 ^ power` next to the magnitude that reads back, the nearer one of two. -/
def Binary.onGrid? (b : Binary) (power : Int) : Option Scaled :=
  let below := b.mantissa * Nat.pow 2 b.exponent.toNat * Nat.pow 10 (-power).toNat /
    (Nat.pow 2 (-b.exponent).toNat * Nat.pow 10 power.toNat)
  let down : Scaled := ⟨below, power⟩
  let up : Scaled := ⟨below + 1, power⟩
  match b.readsBack down, b.readsBack up with
  | true, true =>
    match compareScaled (2 * below + 1) power (2 * b.mantissa) b.exponent with
    | .gt => some down
    | .lt => some up
    | .eq => some (if below % 2 = 0 then down else up)
  | true, false => some down
  | false, true => some up
  | false, false => none

/-- Moves the zeros at the end of the digits into the exponent, at most `fuel` of them. -/
def Scaled.trim : Nat → Scaled → Scaled
  | 0, d => d
  | fuel + 1, d =>
    if d.digits ≠ 0 && d.digits % 10 = 0 then trim fuel ⟨d.digits / 10, d.exponent + 1⟩ else d

def Binary.exact (b : Binary) : Scaled :=
  ⟨b.mantissa * Nat.pow 2 b.exponent.toNat * Nat.pow 5 (-b.exponent).toNat, min b.exponent 0⟩

/-- The shortest decimal that reads back to a magnitude other than zero. -/
def Binary.shortest (b : Binary) : Scaled :=
  let power := b.leadingPower
  let found := (List.range 18).findSome? fun (i : Nat) => b.onGrid? (power - i)
  (found.getD b.exact).trim 800

end Settings.Decimal
