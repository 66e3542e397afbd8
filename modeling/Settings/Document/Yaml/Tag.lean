import Settings.Document.Reading
import Settings.Text.Lowercase
import Settings.Value

/-! # Tags

A tag tells what the text of a node stands for. A plain text without a tag gets
one by its form: the words for truth values and nothing, integers in four bases
or in groups of sixty, doubles, and the key that merges mappings.
-/

namespace Settings.Document.Yaml

open Settings.Decimal Settings.Text

inductive Tag
  | null
  | bool
  | int
  | float
  | str
  | list
  | mapping
  /-- Mappings of one entry each, in order. -/
  | pairs
  /-- The key whose mappings are merged into the one that holds it. -/
  | merge
  /-- The key of the value that a mapping stands for. -/
  | standard
  | unknown
deriving DecidableEq

namespace Tag

def commonStem : List Char := "tag:yaml.org,2002:".toList

def isCollection : Tag → Bool
  | list | mapping | pairs => true
  | _ => false

def ofName (name : List Char) : Tag :=
  match (after? commonStem name).map String.ofList with
  | some "null" => null
  | some "bool" => bool
  | some "int" => int
  | some "float" => float
  | some "str" => str
  | some "seq" => list
  | some "map" => mapping
  | some "omap" | some "pairs" => pairs
  | some "merge" => merge
  | some "value" => standard
  | _ => unknown

def truth? : String → Option Bool
  | "yes" | "Yes" | "YES" | "true" | "True" | "TRUE" | "on" | "On" | "ON" => some true
  | "no" | "No" | "NO" | "false" | "False" | "FALSE" | "off" | "Off" | "OFF" => some false
  | _ => none

def isNothing : String → Bool
  | "" | "~" | "null" | "Null" | "NULL" => true
  | _ => false

def isInfinity : String → Bool
  | ".inf" | ".Inf" | ".INF" => true
  | _ => false

def isNotANumber : String → Bool
  | ".nan" | ".NaN" | ".NAN" => true
  | _ => false

def unsigned : List Char → List Char
  | '+' :: rest | '-' :: rest => rest
  | cs => cs

def areAll (isMember : Char → Bool) (cs : List Char) : Bool :=
  cs.all fun c => isMember c || c = '_'

def isDigits : List Char → Bool
  | [] => false
  | c :: rest => c.isDigit && areAll Char.isDigit rest

/-- One or two digits of a number below sixty. -/
def isSixtieth : List Char → Bool
  | [c] => c.isDigit
  | [c, d] => '0' ≤ c && c ≤ '5' && d.isDigit
  | _ => false

def groups (cs : List Char) : List (List Char) := splitAtChar ':' cs

def isInteger (cs : List Char) : Bool :=
  match cs with
  | '0' :: 'b' :: rest => !rest.isEmpty && areAll (fun c => c = '0' || c = '1') rest
  | '0' :: 'x' :: rest => !rest.isEmpty && areAll (fun c => (hexValue? c).isSome) rest
  | '0' :: rest => areAll (fun c => '0' ≤ c && c ≤ '7') rest
  | _ =>
    match groups cs with
    | whole :: later => isDigits whole && later.all isSixtieth
    | [] => false

def isPower : List Char → Bool
  | e :: sign :: digits =>
    isPowerMark e && (sign = '+' || sign = '-') && !digits.isEmpty && digits.all Char.isDigit
  | _ => false

/-- What may follow the point of a double: digits, and a power of ten. -/
def isFraction (cs : List Char) : Bool :=
  let power := cs.dropWhile (!isPowerMark ·)
  areAll Char.isDigit (cs.takeWhile (!isPowerMark ·)) && (power.isEmpty || isPower power)

/-- A double in digits. Only one that starts with a digit may have a sign. -/
def isDouble (cs : List Char) : Bool :=
  match cs with
  | '.' :: c :: rest => c.isDigit && isFraction rest
  | _ =>
    match breakAt? ['.'] (unsigned cs) with
    | none => false
    | some (whole, fraction) =>
      match groups whole with
      | [digits] => isDigits digits && isFraction fraction
      | digits :: later =>
        isDigits digits && later.all isSixtieth && areAll Char.isDigit fraction
      | [] => false

/-- The tag that the form of a text asks for. -/
def ofForm (cs : List Char) : Tag :=
  let word := String.ofList cs
  if (truth? word).isSome then bool
  else if isDouble cs || isInfinity (String.ofList (unsigned cs)) || isNotANumber word then float
  else if isInteger (unsigned cs) then int
  else if word = "<<" then merge
  else if isNothing word then null
  else if word = "=" then standard
  else str

def ofPlain (cs : List Char) : Tag :=
  match cs.reverse with
  | '\n' :: c :: before => ofForm (c :: before).reverse
  | _ => ofForm cs

def decimal (cs : List Char) : Reading Int :=
  match readInteger cs with
  | .ok n => .ok n
  | .error .malformed => refuse (.notInteger 10 (String.ofList cs))
  | .error (.tooLong digits) => refuse (.numeralTooLong digits)

def based (base : Nat) (cs : List Char) : Reading Int :=
  match readBased? base cs with
  | some n => .ok n
  | none => refuse (.notInteger base (String.ofList cs))

/-- The parts of a number, each counting sixty times the next one. -/
def sixtieths (parts : List Int) : Int := parts.foldl (fun n part => 60 * n + part) 0

def integer (cs : List Char) : Reading Int :=
  match cs with
  | [] => refuse .outOfRange
  | ['0'] => .ok 0
  | '0' :: 'b' :: rest => based 2 rest
  | '0' :: 'x' :: rest => based 16 rest
  | '0' :: _ => based 8 cs
  | _ => do return sixtieths (← (groups cs).mapM decimal)

/-- The parts of a double, the last first, from a weight on. -/
def addSixtieths : Nat → Float → List Float → Reading Float
  | _, sum, [] => .ok sum
  | weight, sum, part :: parts =>
    let factor := Float.ofNat weight
    if factor.isFinite then addSixtieths (60 * weight) (sum + part * factor) parts
    else refuse .overflow

/-- A double in digits or in words of numerals. -/
def decimalFloat (cs : List Char) : Reading Float :=
  match readFloat? cs with
  | some x => .ok x
  | none => refuse (.notDouble (String.ofList cs))

/-- The parts of a double between colons. -/
def double (cs : List Char) : Reading Float := do
  match ← (groups cs).mapM decimalFloat with
  | [x] => return x
  | parts => addSixtieths 1 0.0 parts.reverse

/-- A double without underscores and without its sign, in lower case. -/
def floating (negative : Bool) (cs : List Char) : Reading Value := do
  match String.ofList cs with
  | ".nan" => return .nan
  | ".inf" => return .float (if negative then -infinity else infinity)
  | _ =>
    let x ← double cs
    return .float (if negative then -x else x)

def isNegative (cs : List Char) : Bool := cs.head? = some '-'

def scalar (tag : Tag) (cs : List Char) : Reading Value :=
  match tag with
  | null => .ok .null
  | bool =>
    let word := lowercase (String.ofList cs)
    match truth? word with
    | some b => .ok (.bool b)
    | none => refuse (.absentEntry (quoted word))
  | int => do
    let digits := cs.filter (· ≠ '_')
    let n ← integer (unsigned digits)
    return .int (if isNegative digits then -n else n)
  | float => do
    let digits := (lowercase (String.ofList (cs.filter (· ≠ '_')))).toList
    if digits.isEmpty then refuse .outOfRange
    else floating (isNegative digits) (unsigned digits)
  | str => .ok (.str (String.ofList cs))
  | list | mapping | pairs | merge | standard | unknown => .error .malformed

end Tag

end Settings.Document.Yaml
