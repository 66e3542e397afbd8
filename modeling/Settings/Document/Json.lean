import Settings.Document.Reading
import Settings.Text.Halves
import Settings.Value

/-! # JSON documents

Objects become mappings, where the last of equal names wins, and arrays become
lists. `NaN` and the infinities are numbers.
-/

namespace Settings.Document.Json

open Settings.Decimal Settings.Text

def isBlank (c : Char) : Bool := c = ' ' || c = '\t' || c = '\n' || c = '\r'

def skip (cs : List Char) : List Char := cs.dropWhile isBlank

def escaped? : Char → Option Char
  | '"' => some '"'
  | '\\' => some '\\'
  | '/' => some '/'
  | 'b' => some '\x08'
  | 'f' => some '\x0c'
  | 'n' => some '\n'
  | 'r' => some '\r'
  | 't' => some '\t'
  | _ => none

/-- The rest of a string, whose codes so far are given last first. -/
def stringBody (found : List Nat) : List Char → Option (List Char × List Char)
  | [] => none
  | '"' :: rest => some (joinHalves loneHalf found.reverse, rest)
  | '\\' :: 'u' :: a :: b :: c :: d :: rest =>
    match ofBase? 16 [a, b, c, d] with
    | none => none
    | some code => stringBody (code :: found) rest
  | '\\' :: c :: rest =>
    match escaped? c with
    | none => none
    | some e => stringBody (e.toNat :: found) rest
  | c :: rest => if c.toNat < 0x20 || c = '\\' then none else stringBody (c.toNat :: found) rest

/-- A number: an integer without leading zeros, perhaps with a fraction and a
power of ten. What cannot continue it is left over. -/
def number (cs : List Char) : Reading (Value × List Char) := do
  let (sign, body) := if cs.head? = some '-' then (['-'], cs.drop 1) else ([], cs)
  let digits := body.takeWhile Char.isDigit
  let whole := if digits.head? = some '0' then ['0'] else digits
  if whole.isEmpty then throw .malformed
  let rest := body.drop whole.length
  let fraction :=
    match rest with
    | '.' :: more =>
      let ds := more.takeWhile Char.isDigit
      if ds.isEmpty then [] else '.' :: ds
    | _ => []
  let rest := rest.drop fraction.length
  let power :=
    match rest with
    | e :: more =>
      if isPowerMark e then
        let signs := if more.head? = some '-' || more.head? = some '+' then more.take 1 else []
        let ds := (more.drop signs.length).takeWhile Char.isDigit
        if ds.isEmpty then [] else e :: signs ++ ds
      else []
    | [] => []
  let rest := rest.drop power.length
  if fraction.isEmpty && power.isEmpty then return (.int (← decimalInteger (sign ++ whole)), rest)
  else
    return (.float (← required (readFloat? (sign ++ whole ++ fraction ++ power))), rest)

mutual

/-- One value; every value inside it takes up at least one character. -/
def value : Nat → List Char → Reading (Value × List Char)
  | 0, _ => throw .malformed
  | size + 1, cs =>
    match cs with
    | '{' :: rest =>
      match skip rest with
      | '}' :: after => return (.mapping [], after)
      | body => members size [] body
    | '[' :: rest =>
      match skip rest with
      | ']' :: after => return (.list [], after)
      | body => items size [] body
    | '"' :: rest => do
      let (text, after) ← required (stringBody [] rest)
      return (.str (String.ofList text), after)
    | 'n' :: 'u' :: 'l' :: 'l' :: after => return (.null, after)
    | 't' :: 'r' :: 'u' :: 'e' :: after => return (.bool true, after)
    | 'f' :: 'a' :: 'l' :: 's' :: 'e' :: after => return (.bool false, after)
    | 'N' :: 'a' :: 'N' :: after => return (.float notANumber, after)
    | 'I' :: 'n' :: 'f' :: 'i' :: 'n' :: 'i' :: 't' :: 'y' :: after =>
      return (.float infinity, after)
    | '-' :: 'I' :: 'n' :: 'f' :: 'i' :: 'n' :: 'i' :: 't' :: 'y' :: after =>
      return (.float (-infinity), after)
    | _ => number cs

def items : Nat → List Value → List Char → Reading (Value × List Char)
  | 0, _, _ => throw .malformed
  | size + 1, found, cs => do
    let (v, rest) ← value size cs
    match skip rest with
    | ',' :: more => items size (v :: found) (skip more)
    | ']' :: after => return (.list (v :: found).reverse, after)
    | _ => throw .malformed

def members : Nat → Mapping → List Char → Reading (Value × List Char)
  | 0, _, _ => throw .malformed
  | size + 1, found, cs =>
    match cs with
    | '"' :: rest => do
      let (name, rest) ← required (stringBody [] rest)
      match skip rest with
      | ':' :: rest =>
        let (v, rest) ← value size (skip rest)
        let found := Mapping.insert found (.str (String.ofList name)) v
        match skip rest with
        | ',' :: more => members size found (skip more)
        | '}' :: after => return (.mapping found, after)
        | _ => throw .malformed
      | _ => throw .malformed
    | _ => throw .malformed

end

def read (cs : List Char) : Reading Value := do
  let (v, rest) ← value (cs.length + 1) (skip cs)
  if (skip rest).isEmpty then return v else throw .malformed

end Settings.Document.Json
