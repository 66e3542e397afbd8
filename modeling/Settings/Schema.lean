import Settings.Value.Text

/-! # Schemas

A schema is itself a value: it admits values by their type, size, range,
membership, properties and items. A value is checked against all rules of a
schema, and each violation is known by the path that leads to it.
-/

namespace Settings.Schema

open Settings.Decimal

inductive TypeName
  | null
  | boolean
  | integer
  | number
  | string
  | array
  | object
deriving DecidableEq

def TypeName.ofText? : String → Option TypeName
  | "null" => some .null
  | "boolean" => some .boolean
  | "integer" => some .integer
  | "number" => some .number
  | "string" => some .string
  | "array" => some .array
  | "object" => some .object
  | _ => none

/-- A double without a fraction counts as an integer. -/
def isWhole (x : Float) : Bool := x.isFinite && equalsInt x (truncate x)

/-- Whether a value has a type. Truth values are no numbers, tuples no arrays. -/
def TypeName.admits : TypeName → Value → Bool
  | .null, .null | .boolean, .bool _ | .integer, .int _ | .number, .int _ | .number, .float _
  | .number, .nan | .string, .str _ | .array, .list _ | .object, .mapping _ => true
  | .integer, .float x => isWhole x
  | _, _ => false

mutual

/-- Equality that keeps truth values and numbers apart, and sequences of both
kinds together. -/
def equal : Value → Value → Bool
  | .list xs, .list ys | .list xs, .tuple ys | .tuple xs, .list ys | .tuple xs, .tuple ys =>
    equalItems xs ys
  | .mapping es, .mapping fs => es.length == fs.length && equalEntries es fs
  | .bool b, .bool c => b == c
  | .bool _, _ | _, .bool _ => false
  | v, w => v.same w

def equalItems : List Value → List Value → Bool
  | [], [] => true
  | v :: vs, w :: ws => equal v w && equalItems vs ws
  | _, _ => false

def equalEntries : List (Value × Value) → List (Value × Value) → Bool
  | [], _ => true
  | (k, v) :: es, fs => fs.any (fun f => k.same f.1 && equal v f.2) && equalEntries es fs

end

def allDistinct : List Value → Bool
  | [] => true
  | v :: vs => !vs.any (equal v) && allDistinct vs

def isString : Value → Bool
  | .str _ => true
  | _ => false

def namesType : Value → Bool
  | .str name => (TypeName.ofText? name).isSome
  | _ => false

/-- A type, or several different types. -/
def isTypeRule : Value → Bool
  | .list names => !names.isEmpty && names.all namesType && allDistinct names
  | v => namesType v

def isNumber : Value → Bool
  | .int _ | .float _ | .nan => true
  | _ => false

def isLength (v : Value) : Bool :=
  TypeName.integer.admits v &&
    match v.number? with
    | some n => !n.less (.int 0)
    | none => false

def isRule (keyword : String) (rule : Value) : Bool :=
  match keyword, rule with
  | "type", _ => isTypeRule rule
  | "required", .list names => names.all isString && allDistinct names
  | "required", _ => false
  | "enum", .list _ => true
  | "enum", _ => false
  | "minimum", _ | "maximum", _ => isNumber rule
  | "minLength", _ => isLength rule
  | _, _ => true

mutual

/-- A schema is a mapping of rules, or a truth value. -/
def isSchema : Value → Bool
  | .bool _ => true
  | .mapping rules => areRules rules
  | _ => false

def areRules : List (Value × Value) → Bool
  | [] => true
  | (.str "properties", .mapping properties) :: rest => areSchemas properties && areRules rest
  | (.str "properties", _) :: _ => false
  | (.str "items", rule) :: rest => isSchema rule && areRules rest
  | (.str "additionalProperties", rule) :: rest => isSchema rule && areRules rest
  | (.str keyword, rule) :: rest => isRule keyword rule && areRules rest
  | _ :: rest => areRules rest

def areSchemas : List (Value × Value) → Bool
  | [] => true
  | (_, schema) :: rest => isSchema schema && areSchemas rest

end

/-- The way to a value: keys and positions, the outermost first. -/
abbrev Place := List Value

/-- Places that are reached by one more step. -/
def under (step : Value) (places : List Place) : List Place := places.map (step :: ·)

/-- A single violation at the value itself, unless the rule is met. -/
def onlyIf (met : Bool) : List Place := if met then [] else [[]]

/-- The keys of a mapping that no property rule names. -/
def extras (rules : Mapping) (entries : Mapping) : Mapping :=
  match rules.get? (.str "properties") with
  | some (.mapping properties) => entries.filter fun e => !Mapping.contains properties e.1
  | _ => entries

/-- Violations of a rule without subschemas. -/
def violations (keyword : String) (rule v : Value) : List Place :=
  match keyword, rule, v with
  | "type", .list names, _ =>
    onlyIf (names.any fun n =>
      match n with
      | .str name => (TypeName.ofText? name).any (·.admits v)
      | _ => false)
  | "type", .str name, _ => onlyIf ((TypeName.ofText? name).any (·.admits v))
  | "required", .list names, .mapping entries =>
    names.flatMap fun name => onlyIf (Mapping.contains entries name)
  | "enum", .list members, _ => onlyIf (members.any (equal · v))
  | "minimum", _, .int _ | "minimum", _, .float _ =>
    match rule.number?, v.number? with
    | some least, some n => onlyIf (!n.less least)
    | _, _ => []
  | "maximum", _, .int _ | "maximum", _, .float _ =>
    match rule.number?, v.number? with
    | some most, some n => onlyIf (!most.less n)
    | _, _ => []
  | "minLength", _, .str s =>
    match rule.number? with
    | some least => onlyIf (!Number.less (.int s.length) least)
    | none => []
  | _, _, _ => []

mutual

def check (schema v : Value) : List Place :=
  match schema with
  | .bool admitted => onlyIf admitted
  | .mapping rules => checkRules rules v rules
  | _ => []

/-- The violations of rules, `all` being the rules beside them. -/
def checkRules (all : Mapping) (v : Value) : List (Value × Value) → List Place
  | [] => []
  | (.str "properties", .mapping properties) :: rest =>
    (match v with
      | .mapping entries => checkProperties entries properties
      | _ => []) ++ checkRules all v rest
  | (.str "items", .bool false) :: rest =>
    (match v with
      | .list (_ :: _) => onlyIf false
      | _ => []) ++ checkRules all v rest
  | (.str "items", rule) :: rest =>
    (match v with
      | .list items => (items.zipIdx.map fun (item, i) =>
          under (.int i) (check rule item)).flatten
      | _ => []) ++ checkRules all v rest
  | (.str "additionalProperties", .bool false) :: rest =>
    (match v with
      | .mapping entries => onlyIf (extras all entries).isEmpty
      | _ => []) ++ checkRules all v rest
  | (.str "additionalProperties", rule) :: rest =>
    (match v with
      | .mapping entries => ((extras all entries).map fun (key, item) =>
          under key (check rule item)).flatten
      | _ => []) ++ checkRules all v rest
  | (.str keyword, rule) :: rest => violations keyword rule v ++ checkRules all v rest
  | _ :: rest => checkRules all v rest

def checkProperties (entries : Mapping) : List (Value × Value) → List Place
  | [] => []
  | (key, schema) :: rest =>
    (match Mapping.get? entries key with
      | some item => under key (check schema item)
      | none => []) ++ checkProperties entries rest

end

/-- The first of the shortest places. -/
def shallowest : List Place → Option Place
  | [] => none
  | place :: rest =>
    match shallowest rest with
    | some other => if other.length < place.length then some other else some place
    | none => some place

def shownPlace (place : Place) : Except Fault String := do
  if place.isEmpty then return "<root>"
  return ".".intercalate (← place.mapM Value.text)

/-- Refuses data that violates a schema. No schema admits everything. -/
def validate (data schema : Value) : Except Fault Unit :=
  match schema with
  | .null => .ok ()
  | .int _ | .float _ | .nan => .error .wrongType
  | _ =>
    if !isSchema schema then .error .invalidSchema
    else
      match shallowest (check schema data) with
      | none => .ok ()
      | some place => do throw (.invalidData (← shownPlace place))

end Settings.Schema
