import Settings.Forest.Nested
import Settings.Configuration.Keys

/-! # Snapshots

A read-only view of merged settings, by key or by attribute name. What is a
mapping under a key is again a snapshot; mappings inside a list stay as they are.
The names of a snapshot's own operations and parts are taken before its entries
are looked up.
-/

namespace Settings

structure Snapshot where
  entries : Mapping

inductive Entry
  | snapshot (s : Snapshot)
  | plain (v : Value)
  /-- Something that a snapshot does, which has no parts. -/
  | operation

def Entry.ofValue : Value → Entry
  | .mapping entries => .snapshot ⟨entries⟩
  | v => .plain v

mutual

/-- Values that can be keys: all but lists and mappings and what contains them. -/
def Value.isKey : Value → Bool
  | .list _ | .mapping _ => false
  | .tuple items => Value.areKeys items
  | _ => true

def Value.areKeys : List Value → Bool
  | [] => true
  | v :: vs => v.isKey && areKeys vs

end

/-- The value under a key of a mapping, refused when there is none. -/
def Mapping.item (m : Mapping) (key : Value) : Except Fault Value := do
  if !key.isKey then throw .wrongType
  match m.get? key with
  | some v => return v
  | none => throw (.absentEntry (← key.literal))

namespace Snapshot

variable (s : Snapshot)

def item (key : Value) : Except Fault Entry := do
  return .ofValue (← s.entries.item key)

def get (key : Value) (default_ : Value) : Except Fault Entry := do
  if !key.isKey then throw .wrongType
  return ((s.entries.get? key).map Entry.ofValue).getD (.plain default_)

def contains (key : Value) : Except Fault Bool :=
  if key.isKey then .ok (s.entries.contains key) else .error .wrongType

def operations : List String :=
  ["get", "items", "keys", "values", "to_dict", "to_hierarchical", "_abc_impl",
    "__abstractmethods__", "__class__", "__class_getitem__", "__contains__", "__delattr__",
    "__dir__", "__doc__", "__eq__", "__format__", "__ge__", "__getattr__", "__getattribute__",
    "__getitem__", "__getstate__", "__gt__", "__init__", "__init_subclass__", "__iter__", "__le__",
    "__len__", "__lt__", "__module__", "__ne__", "__new__", "__orig_bases__", "__reduce__",
    "__reduce_ex__", "__repr__", "__setattr__", "__sizeof__", "__str__", "__subclasshook__"]

def part? : String → Option Value
  | "_data" => some (.mapping s.entries)
  | "__dict__" => some (.mapping [(.str "_data", .mapping s.entries)])
  | "__slots__" => some (.tuple [])
  | "__hash__" | "__reversed__" | "__weakref__" => some .null
  | _ => none

def attr (name : String) : Except Fault Entry :=
  if operations.contains name then .ok .operation
  else
    match s.part? name, s.entries.get? (.str name) with
    | some v, _ => .ok (.plain v)
    | none, some v => .ok (.ofValue v)
    | none, none => .error (.absentAttribute name)

def toMapping : Mapping := s.entries

def shown : Except Fault String := do
  let names ← (s.entries.keys.take 5).mapM fun
    | .str name => .ok name
    | _ => .error .wrongType
  let more := if 5 < s.entries.length then "..." else ""
  return "<Config keys=[" ++ separated names ++ more ++ "]>"

end Snapshot

namespace Entry

/-- The item of a sequence at an index, counted from the end when negative. -/
def sequenceItem (items : List Value) (index : Int) : Except Fault Value :=
  let place := if index < 0 then index + items.length else index
  match if place < 0 then none else items[place.toNat]? with
  | some v => .ok v
  | none => .error .outOfRange

/-- The items of a sequence: those of a list or tuple, or the characters of a text. -/
def sequence? : Value → Option (List Value)
  | .list items | .tuple items => some items
  | .str s => some (s.toList.map fun c => .str (String.ofList [c]))
  | _ => none

/-- The index that a value stands for; truth values count as one and zero. -/
def index? : Value → Option Int
  | .int n => some n
  | .bool b => some (if b then 1 else 0)
  | _ => none

/-- What is under a key, or at an index of a sequence. -/
def item : Entry → Value → Except Fault Entry
  | .snapshot s, key => s.item key
  | .plain (.mapping entries), key => do return .plain (← Mapping.item entries key)
  | .plain v, key =>
    match sequence? v, index? key with
    | some items, some index => do return .plain (← sequenceItem items index)
    | _, _ => .error .wrongType
  | .operation, _ => .error .wrongType

/-- The parts of a number that have names. -/
def numberPart? : Value → String → Option Value
  | .bool b, "real" | .bool b, "numerator" => some (.int (if b then 1 else 0))
  | .int n, "real" | .int n, "numerator" => some (.int n)
  | .bool _, "imag" | .int _, "imag" => some (.int 0)
  | .bool _, "denominator" | .int _, "denominator" => some (.int 1)
  | .float x, "real" => some (.float x)
  | .nan, "real" => some .nan
  | .float _, "imag" | .nan, "imag" => some (.float 0.0)
  | _, _ => none

def attr : Entry → Value → Except Fault Entry
  | .snapshot s, .str name => s.attr name
  | .plain v, .str name =>
    match numberPart? v name with
    | some part => .ok (.plain part)
    | none => .error .unsupportedAttribute
  | .operation, .str _ => .error .unsupportedAttribute
  | _, _ => .error .wrongType

def get : Entry → Value → Value → Except Fault Entry
  | .snapshot s, key, default_ => s.get key default_
  | .plain (.mapping entries), key, default_ =>
    if key.isKey then .ok (.plain ((Mapping.get? entries key).getD default_)) else .error .wrongType
  | _, _, _ => .error .unsupportedAttribute

def contains : Entry → Value → Except Fault Bool
  | .snapshot s, key => s.contains key
  | .plain (.mapping entries), key =>
    if key.isKey then .ok (Mapping.contains entries key) else .error .wrongType
  | .plain (.list items), v | .plain (.tuple items), v => .ok (items.any v.same)
  | .plain (.str s), .str part => .ok (Text.breakAt? part.toList s.toList).isSome
  | _, _ => .error .wrongType

/-- What a path of keys leads to. -/
def follow (e : Entry) (path : List Value) : Except Fault Entry := path.foldlM item e

def followAttrs (e : Entry) (path : List Value) : Except Fault Entry := path.foldlM attr e

end Entry

end Settings
