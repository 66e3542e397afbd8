/-! # Halves of characters

Codes of 16 bits stand for characters alone or in pairs: a high half followed
by a low half is one character beyond the first 65536. A half that stands alone
is no character.
-/

namespace Settings.Text

def isHighHalf (n : Nat) : Bool := 0xD800 ≤ n && n < 0xDC00

def isLowHalf (n : Nat) : Bool := 0xDC00 ≤ n && n < 0xE000

def joined (high low : Nat) : Char :=
  Char.ofNat (0x10000 + (high - 0xD800) * 0x400 + (low - 0xDC00))

/-- Stands for a half that lacks its other half. -/
def loneHalf : Char := Char.ofNat 0xFFFD

/-- The characters of codes, `lone` standing for each half without its other half. -/
def joinHalves (lone : Char) : List Nat → List Char
  | [] => []
  | [code] => [if isHighHalf code || isLowHalf code then lone else Char.ofNat code]
  | code :: next :: rest =>
    if isHighHalf code && isLowHalf next then joined code next :: joinHalves lone rest
    else
      (if isHighHalf code || isLowHalf code then lone else Char.ofNat code) ::
        joinHalves lone (next :: rest)

end Settings.Text
