import Settings.Declaration
import Settings.Text.Search

/-! # Beans

A bean is created from a declaration: its class is looked up by a dotted path,
a factory makes an instance, and the declared properties are set on it. A
class decides which properties its instances take. A declared property that is
not taken is a fault of the configuration; one that a factory sets of its own
accord is a fault of the class.
-/

namespace Settings

open Settings.Text

mutual

inductive Bean
  | mk (className : String) (properties : List (String × BeanProperty))

inductive BeanProperty
  | value (v : Value)
  | bean (one : Bean)
  | beans (all : List Bean)

end

/-- How a class takes a property. -/
inductive PropertyRule
  | accepted
  | refused
  /-- Only integers and truth values are taken. -/
  | integersOnly
  /-- Every value is rejected, for a reason that the class gives. -/
  | rejected (reason : String)
  /-- The value is a mapping that replaces all properties. -/
  | replacesAll

structure BeanClass where
  name : String
  initial : List (String × BeanProperty)
  rules : List (String × PropertyRule)
  otherwise : PropertyRule
  /-- The order in which properties are listed, when the class fixes it. -/
  order : Option (List String)
  /-- Instances cannot be made without arguments. -/
  needsArguments : Bool

/-- The classes that can be named, by module and name. -/
abbrev Catalog := List (String × List (String × BeanClass))

namespace BeanProperty

def isInteger : BeanProperty → Bool
  | value (.int _) | value (.bool _) => true
  | _ => false

def named? : BeanProperty → Option (List (String × BeanProperty))
  | value (.mapping entries) => entries.mapM fun
    | (.str name, v) => some (name, value v)
    | _ => none
  | _ => none

def ofNested : Nested Bean → BeanProperty
  | .single one => bean one
  | .multiple all => beans all

end BeanProperty

namespace BeanClass

def instantiate (c : BeanClass) : Except Fault Bean :=
  if c.needsArguments then .error .argumentsRequired else .ok (.mk c.name c.initial)

/-- Properties in the order that the class fixes. -/
def arrange (c : BeanClass) (properties : List (String × BeanProperty)) :
    List (String × BeanProperty) :=
  match c.order with
  | none => properties
  | some names => names.flatMap fun name => properties.filter (·.1 = name)

/-- The rules of names that mean something else than a property on instances
that take any property. -/
def openRules : List (String × PropertyRule) :=
  [("__class__", .refused), ("__weakref__", .refused), ("__dict__", .replacesAll)]

def assign (c : BeanClass) (bean : Bean) (name : String) (property : BeanProperty) :
    Except Fault Bean :=
  match bean with
  | .mk className properties =>
    let set := .ok (.mk className (c.arrange (Roster.put properties name property)))
    match (c.rules.lookup name).getD c.otherwise with
    | .accepted => set
    | .refused => .error .unsupportedAttribute
    | .integersOnly => if property.isInteger then set else .error .wrongType
    | .rejected reason => .error (.propertyRejected reason)
    | .replacesAll =>
      match property.named? with
      | some all => .ok (.mk className all)
      | none => .error .wrongType

/-- Sets a declared property. One without a name is always refused. -/
def setProperty (c : BeanClass) (bean : Bean) (name : Option String)
    (property : BeanProperty) : Except Fault Bean :=
  match name.map fun name => c.assign bean name property with
  | none | some (.error .unsupportedAttribute) | some (.error .wrongType) =>
    .error (.propertyRefused name c.name)
  | some result => result

end BeanClass

/-- The class at a dotted path. What stands before the last dot names a module,
which cannot be relative. -/
def Catalog.load (catalog : Catalog) (path : String) : Except Fault (String × BeanClass) :=
  match breakAtLast? ['.'] path.toList with
  | none | some ([], _) => .error (.undottedClass path)
  | some ('.' :: _, _) => .error .relativeClass
  | some (module_, name) =>
    let name := String.ofList name
    match (catalog.lookup (String.ofList module_)).bind (·.lookup name) with
    | some found => .ok (name, found)
    | none => .error (.classNotFound path)

/-- How beans are made: whether the parameter is set as a property, whether
the declared properties are set, and the class for declarations without one. -/
structure Factory where
  name : String
  recordsParameter : Bool
  initializes : Bool
  defaultClass : Option BeanClass

def Factory.standard : Factory := ⟨"", false, true, none⟩

/-- Creates beans, with factories that declarations can name. -/
structure BeanHelper where
  catalog : Catalog
  factories : Roster String Factory
  defaultFactory : Factory

namespace BeanHelper

variable (h : BeanHelper)

def register (name : Option String) (factory : Option Factory) : Except Fault BeanHelper :=
  match name, factory with
  | none, _ | some "", _ => .error .unnamedFactory
  | some _, none => .error .noFactory
  | some name, some factory => .ok { h with factories := h.factories.put name factory }

/-- The factory entered under a name, and the helper without it. -/
def deregister (name : Option String) : Option Factory × BeanHelper :=
  match name with
  | none => (none, h)
  | some name => (h.factories.get? name, { h with factories := h.factories.drop name })

/-- The factory that a declaration names, or the default one. -/
def factoryFor (w : World) (d : Declaration) : Except Fault Factory := do
  match ← d.factoryName w with
  | none => return h.defaultFactory
  | some name =>
    match h.factories.get? name with
    | some factory => return factory
    | none => throw (.unknownFactory name)

/-- The class that a declaration names, else the caller's, else the factory's. -/
def classFor (w : World) (d : Declaration) (fallback : Option BeanClass)
    (factory : Factory) : Except Fault BeanClass := do
  match ← d.className w with
  | some path => return (← h.catalog.load path).2
  | none =>
    match fallback.or factory.defaultClass with
    | some found => return found
    | none => throw .classUnspecified

/-- Creates the bean of a declaration, with nested beans down to a depth. The
parameter of the declaration wins over the caller's. -/
def createTo : Nat → Declaration → Option BeanClass → Value → Action Bean
  | depth, d, fallback, parameter => do
    let factory ← Action.read fun w => h.factoryFor w d
    let beanClass ← Action.read fun w => h.classFor w d fallback factory
    let declared ← Action.read d.factoryParameter
    let parameter := if declared.isNull then parameter else declared
    let bean ← Action.ofExcept beanClass.instantiate
    let bean ←
      if factory.recordsParameter then
        Action.ofExcept (beanClass.assign bean "param" (.value parameter))
      else pure bean
    if !factory.initializes then return bean
    let bean ← (← Action.read d.properties).foldlM (fun bean (name, v) =>
      Action.ofExcept (beanClass.setProperty bean name (.value v))) bean
    (← d.nested).foldlM (fun bean (name, entry) => do
      match depth with
      | 0 => return bean
      | rest + 1 =>
        let made ← entry.mapAction fun d => createTo rest d none .null
        Action.ofExcept (beanClass.setProperty bean name (.ofNested made))) bean

def create (d : Option Declaration) (fallback : Option BeanClass) (parameter : Value) :
    Action Bean := do
  match d with
  | none => throw .noDeclaration
  | some d => h.createTo (← get).forest.size d fallback parameter

end BeanHelper

end Settings
