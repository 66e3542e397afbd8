import Settings.Decimal.Shortest

/-! # Layout of floating-point text

Which exponents are written positionally and how the others are marked are
decisions of the written format, held in one record.
-/

namespace Settings.Decimal

structure Layout where
  /-- The least power of the leading digit that is written positionally. -/
  plainFrom : Int
  /-- The least power above these that is not. -/
  plainBelow : Int
  /-- The least number of exponent digits. -/
  exponentWidth : Nat
  notANumber : String
  infinite : String

def padLeft (width : Nat) (cs : List Char) : List Char :=
  List.replicate (width - cs.length) '0' ++ cs

/-- Lays out a decimal other than zero: with a point inside, before or after
its digits, or with one digit before the point and an exponent. -/
def Layout.write (l : Layout) (d : Scaled) : List Char :=
  let digits := Nat.toDigits 10 d.digits
  let power : Int := d.exponent + digits.length - 1
  if l.plainFrom ≤ power && power < l.plainBelow then
    if power < 0 then
      '0' :: '.' :: List.replicate (-power - 1).toNat '0' ++ digits
    else
      let whole := power.toNat + 1
      let padded := digits ++ List.replicate (whole - digits.length) '0'
      let fraction := padded.drop whole
      padded.take whole ++ '.' :: (if fraction.isEmpty then ['0'] else fraction)
  else
    let fraction := digits.drop 1
    let point := if fraction.isEmpty then [] else '.' :: fraction
    let sign := if power < 0 then '-' else '+'
    digits.take 1 ++ point ++ 'e' :: sign ::
      padLeft l.exponentWidth (Nat.toDigits 10 power.natAbs)

def Layout.render (l : Layout) (x : Float) : String :=
  let sign := if isNegative x then "-" else ""
  if x.isNaN then l.notANumber
  else if !x.isFinite then sign ++ l.infinite
  else if x == 0 then sign ++ "0.0"
  else sign ++ String.ofList (l.write (Binary.ofFloat x).shortest)

end Settings.Decimal
