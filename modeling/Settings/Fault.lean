import Settings.Text.Quoted

/-! # Faults

The causes for which an operation is refused, the kind each belongs to, and
its wording. Configuration faults are those that concern the configuration
itself; the others are refusals of an argument or of a value.
-/

namespace Settings

open Settings.Text

inductive FaultKind
  /-- A configuration fault with no more specific kind. -/
  | configuration
  | source
  | validation
  | missingKey
  | conversion
  | ambiguousKey
  | runtimeState
  /-- An argument of the right type but with an unusable value. -/
  | badValue
  | missingEntry
  /-- A snapshot has no entry for the name of an attribute. -/
  | missingAttribute
  /-- A value has no such attribute, or does not let it be set. -/
  | unsupportedAttribute
  | outOfRange
  | unknownEncoding
  | veto
  | overflow
  | undecodable
  | wrongType
deriving DecidableEq, Repr

def FaultKind.isConfiguration : FaultKind → Bool
  | .configuration | .source | .validation | .missingKey | .conversion | .ambiguousKey
  | .runtimeState => true
  | _ => false

inductive Target
  | int
  | float
  | bool
deriving DecidableEq, Repr

def Target.described : Target → String
  | .int => "an int"
  | .float => "a float"
  | .bool => "a bool"

inductive Format
  | json
  | toml
  | ini
  | yaml
  | xml
deriving DecidableEq, Repr

inductive Fault
  /-- An attribute section of the key is not closed. -/
  | unterminatedAttribute (key : String)
  | notInteger (base : Nat) (text : String)
  | notDouble (text : String)
  | numeralTooLong (digits : Nat)
  | notCharacter
  | emptyKey
  /-- An attribute stands before the last part of a key to be added. -/
  | attributeNotLast (key : Option String)
  | emptyMarker
  | missingKey (key : Option String)
  | notConvertible (key : Option String) (target : Target) (shown : String)
  | notSingle (found : Nat) (key : Option String)
  | manyTargets (found : Nat) (key : Option String)
  | attributeTarget (key : Option String)
  | notSingleDeclaration (found : Nat) (key : Option String)
  /-- A variable is reached again while it is being expanded. -/
  | referenceLoop (text name : String)
  | noParent
  | noRoot
  | noListener
  | vetoed (listener : String)
  | noConfiguration
  | noNode
  | unmatchedNode (name : Option String)
  | unnamedFactory
  | noFactory
  | noDeclaration
  | unknownFactory (name : String)
  | classUnspecified
  | undottedClass (path : String)
  | classNotFound (path : String)
  /-- The module of a class is named relative to an unknown place. -/
  | relativeClass
  | argumentsRequired
  | propertyRefused (name : Option String) (className : String)
  /-- A bean rejects the value of a property in its own words. -/
  | propertyRejected (reason : String)
  | unsupportedAttribute
  | fileNotFound (path : String)
  | unsupportedFormat (path suffix : String)
  | malformedFile (format : Format) (path : String)
  | documentNotMapping (path : String)
  | undecodable
  | unknownEncoding
  /-- An encoding takes more than one byte for some characters. -/
  | multiByteEncoding
  | unnamedPrefix
  | noSources
  | sourceNotMapping (source : String)
  | invalidData (place : String)
  | invalidSchema
  | absentEntry (shown : String)
  | absentAttribute (name : String)
  | outOfRange
  | overflow
  /-- An integer has too many digits to be written. -/
  | integerTooLong
  | wrongType
deriving DecidableEq, Repr

namespace Fault

def kind : Fault → FaultKind
  | unterminatedAttribute _ | emptyKey | attributeNotLast _ | attributeTarget _
  | referenceLoop .. | sourceNotMapping _ => .configuration
  | fileNotFound _ | unsupportedFormat .. | malformedFile .. | documentNotMapping _ => .source
  | invalidData _ | invalidSchema => .validation
  | missingKey _ => .missingKey
  | notConvertible .. => .conversion
  | notSingle .. | manyTargets .. | notSingleDeclaration .. => .ambiguousKey
  | unmatchedNode _ | unknownFactory _ | classUnspecified | undottedClass _ | classNotFound _
  | propertyRefused .. => .runtimeState
  | notInteger .. | notDouble _ | numeralTooLong _ | notCharacter | emptyMarker | noParent
  | noRoot | noListener | noConfiguration | noNode | unnamedFactory | noFactory | noDeclaration
  | unnamedPrefix | noSources | propertyRejected _ | multiByteEncoding | integerTooLong =>
    .badValue
  | absentEntry _ => .missingEntry
  | absentAttribute _ => .missingAttribute
  | unsupportedAttribute => .unsupportedAttribute
  | outOfRange => .outOfRange
  | unknownEncoding => .unknownEncoding
  | vetoed _ => .veto
  | overflow => .overflow
  | undecodable => .undecodable
  | relativeClass | argumentsRequired | wrongType => .wrongType

def shownKey : Option String → String
  | none => "None"
  | some key => quoted key

/-- A name as messages show it, without quotes. -/
def shownName : Option String → String
  | none => "None"
  | some name => name

def Format.refusal : Format → String
  | .json => "Invalid JSON in "
  | .toml => "Invalid TOML in "
  | .ini => "Error reading INI file "
  | .yaml => "Invalid YAML in "
  | .xml => "Invalid XML in "

/-- The most characters of a numeral that a message quotes. -/
def quotedNumeralLimit : Nat := 200

def message : Fault → String
  | unterminatedAttribute key => "Unterminated attribute in key " ++ quoted key ++ "."
  | notInteger base text =>
    "invalid literal for int() with base " ++ toString base ++ ": " ++
      String.ofList ((quoted text).toList.take quotedNumeralLimit)
  | notDouble text => "could not convert string to float: " ++ quoted text
  | numeralTooLong digits =>
    "Exceeds the limit (4300 digits) for integer string conversion: value has " ++
      toString digits ++ " digits; use sys.set_int_max_str_digits() to increase the limit"
  | notCharacter => "chr() arg not in range(0x110000)"
  | emptyKey => "Cannot add a property with an empty key."
  | attributeNotLast key =>
    "Invalid key " ++ shownKey key ++ ": attributes cannot have child nodes."
  | emptyMarker => "Delimiters must not be empty."
  | missingKey key => "Key " ++ shownKey key ++ " does not map to an existing value."
  | notConvertible key target shown =>
    "Key " ++ shownKey key ++ " does not map to " ++ target.described ++ ": " ++ shown
  | notSingle found key =>
    "Passed in key must select exactly one node (found " ++ toString found ++ "): " ++
      shownKey key
  | manyTargets found key =>
    "Key for add_nodes() must select a single node (found " ++ toString found ++ "): " ++
      shownKey key
  | attributeTarget key => "Cannot add nodes to attribute key " ++ shownKey key ++ "."
  | notSingleDeclaration found key =>
    "Bean declaration key must select exactly one node (found " ++ toString found ++ "): " ++
      shownKey key
  | referenceLoop text name =>
    "Infinite loop in property interpolation of " ++ quoted text ++ ": variable " ++
      quoted name ++ " refers to itself."
  | noParent => "Parent configuration must not be None."
  | noRoot => "Root node must not be None."
  | noListener => "Listener must not be None."
  | vetoed listener => "vetoed by " ++ listener
  | noConfiguration => "Configuration must not be None."
  | noNode => "Node must not be None."
  | unmatchedNode name => "Unable to match node for " ++ shownName name
  | unnamedFactory => "Bean factory name must not be empty."
  | noFactory => "Bean factory must not be None."
  | noDeclaration => "Bean declaration must not be None."
  | unknownFactory name => "Unknown bean factory: " ++ name
  | classUnspecified => "Bean class is not specified!"
  | undottedClass path => "Bean class name must be a dotted path: " ++ quoted path
  | classNotFound path => "Unable to load bean class " ++ quoted path ++ ": "
  | propertyRefused name className =>
    "Cannot set property " ++ shownKey name ++ " on " ++ className ++ ": "
  | propertyRejected reason => reason
  | fileNotFound path => "Configuration file not found: " ++ path
  | unsupportedFormat path suffix =>
    "Unsupported configuration file format: " ++ path ++ " (extension '" ++ suffix ++ "')"
  | malformedFile format path => Format.refusal format ++ path ++ ": "
  | documentNotMapping path =>
    "Top-level YAML structure in " ++ path ++ " must be a mapping."
  | unnamedPrefix => "Environment prefix must not be empty."
  | multiByteEncoding => "multi-byte encodings are not supported"
  | noSources => "At least one configuration source must be provided."
  | sourceNotMapping source =>
    "Configuration source " ++ source ++ " returned a non-mapping value."
  | invalidData place => "Configuration validation error at '" ++ place ++ "': "
  | invalidSchema => "Invalid configuration schema: "
  | absentEntry shown => shown
  | absentAttribute name => name
  | integerTooLong =>
    "Exceeds the limit (4300 digits) for integer string conversion; " ++
      "use sys.set_int_max_str_digits() to increase the limit"
  | relativeClass | argumentsRequired | unsupportedAttribute | undecodable | unknownEncoding
  | outOfRange | overflow | wrongType => ""

end Fault

end Settings
