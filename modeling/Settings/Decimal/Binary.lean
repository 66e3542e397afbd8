/-! # Floating-point numbers as exact fractions

A finite double is a mantissa times a power of two. Both are read off its
bits, so that comparisons and conversions are exact.
-/

namespace Settings.Decimal

def infinity : Float := 1.0 / 0.0

def notANumber : Float := 0.0 / 0.0

/-- The magnitude `mantissa * 2 ^ exponent` of a finite double. -/
structure Binary where
  mantissa : Nat
  exponent : Int
  /-- The next double below is half as far away as the next one above. -/
  narrowBelow : Bool

def Binary.ofBits (bits : UInt64) : Binary :=
  let e := ((bits >>> 52) &&& 0x7FF).toNat
  let f := (bits &&& 0xFFFFFFFFFFFFF).toNat
  if e = 0 then ⟨f, -1074, false⟩ else ⟨Nat.pow 2 52 + f, (e : Int) - 1075, f = 0 && 1 < e⟩

def Binary.ofFloat (x : Float) : Binary := .ofBits x.toBits

/-- The sign bit, set also for a negative zero. -/
def isNegative (x : Float) : Bool := x.toBits >>> 63 = 1

def Binary.floor (b : Binary) : Nat :=
  b.mantissa * Nat.pow 2 b.exponent.toNat / Nat.pow 2 (-b.exponent).toNat

def truncate (x : Float) : Int :=
  let n : Int := (Binary.ofFloat x).floor
  if isNegative x then -n else n

def equalsInt (x : Float) (n : Int) : Bool :=
  let b := Binary.ofFloat x
  x.isFinite && truncate x = n &&
    b.mantissa * Nat.pow 2 b.exponent.toNat % Nat.pow 2 (-b.exponent).toNat = 0

/-- Whether an integer is below a double that is no NaN. -/
def intLessThan (n : Int) (x : Float) : Bool :=
  if x.isFinite then
    let b := Binary.ofFloat x
    let m : Int := b.mantissa * Nat.pow 2 b.exponent.toNat
    let signed := if isNegative x then -m else m
    n * Nat.pow 2 (-b.exponent).toNat < signed
  else !isNegative x && !x.isNaN

def lessThanInt (x : Float) (n : Int) : Bool :=
  !x.isNaN && !equalsInt x n && !intLessThan n x

end Settings.Decimal
