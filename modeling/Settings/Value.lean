import Settings.Decimal.Binary

/-! # Values

A property holds a value: nothing, a truth value, a number, a text, or a
collection of values. Mappings keep the order in which their keys were first
written, and their keys are values themselves. Keys are compared by `Value.same`,
under which a number equals itself in every representation.
-/

namespace Settings

open Settings.Decimal

inductive Value
  | null
  | bool (b : Bool)
  | int (n : Int)
  | float (x : Float)
  /-- The not-a-number of documents: one value, which as a key equals itself. -/
  | nan
  | str (s : String)
  | list (items : List Value)
  | tuple (items : List Value)
  | mapping (entries : List (Value × Value))

instance : Inhabited Value := ⟨.null⟩

/-- Entries in the order in which their keys were first written. -/
abbrev Mapping := List (Value × Value)

/-- A number apart from its representation as a value. -/
inductive Number
  | int (n : Int)
  | float (x : Float)

namespace Number

/-- Equality of numbers; a NaN equals nothing. -/
def same : Number → Number → Bool
  | int m, int n => m == n
  | int n, float x | float x, int n => equalsInt x n
  | float x, float y => x == y

def less : Number → Number → Bool
  | int m, int n => m < n
  | int n, float x => intLessThan n x
  | float x, int n => lessThanInt x n
  | float x, float y => x < y

end Number

namespace Value

def isNull : Value → Bool
  | null => true
  | _ => false

/-- The number that a value stands for; truth values count as one and zero. -/
def number? : Value → Option Number
  | bool b => some (.int (if b then 1 else 0))
  | int n => some (.int n)
  | float x => some (.float x)
  | nan => some (.float notANumber)
  | _ => none

/-- The first item of a sequence; any other value is its own first. -/
def first : Value → Value
  | list items | tuple items => items.headD null
  | v => v

/-- The values that a value stands for when it is written: none for nothing,
the items of a sequence, else the value itself. -/
def spread : Value → List Value
  | null => []
  | list items | tuple items => items
  | v => [v]

mutual

/-- Equality of values. Numbers are compared by value, sequences item by item
and mappings regardless of order. -/
def same : Value → Value → Bool
  | null, null | nan, nan => true
  | str s, str t => s == t
  | list xs, list ys | tuple xs, tuple ys => sameItems xs ys
  | mapping es, mapping fs => es.length == fs.length && sameEntries es fs
  | v, w =>
    match v.number?, w.number? with
    | some m, some n => m.same n
    | _, _ => false

def sameItems : List Value → List Value → Bool
  | [], [] => true
  | v :: vs, w :: ws => same v w && sameItems vs ws
  | _, _ => false

/-- Every entry of the first mapping has its equal in the second. -/
def sameEntries : List (Value × Value) → List (Value × Value) → Bool
  | [], _ => true
  | (k, v) :: es, fs => fs.any (fun f => same k f.1 && same v f.2) && sameEntries es fs

end

end Value

namespace Mapping

def get? (m : Mapping) (key : Value) : Option Value :=
  (m.find? (·.1.same key)).map (·.2)

def contains (m : Mapping) (key : Value) : Bool := m.any (·.1.same key)

/-- Writes a value under a key: in the place of an equal key, which stays as it
was first written, or at the end. -/
def insert : Mapping → Value → Value → Mapping
  | [], key, value => [(key, value)]
  | (k, v) :: rest, key, value =>
    if k.same key then (k, value) :: rest else (k, v) :: insert rest key value

def ofEntries (entries : List (Value × Value)) : Mapping :=
  entries.foldl (fun m e => m.insert e.1 e.2) []

def keys (m : Mapping) : List Value := m.map (·.1)

end Mapping

end Settings
