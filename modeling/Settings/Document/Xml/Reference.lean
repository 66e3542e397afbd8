import Settings.Document.Xml.Name

/-! # References in XML

A reference stands for a character by its code or for a declared text by its
name. Five names are declared in every document.
-/

namespace Settings.Document.Xml

open Settings.Text

def isSpace (c : Char) : Bool := c = ' ' || c = '\t' || c = '\n' || c = '\r'

def skipSpace (cs : List Char) : List Char := cs.dropWhile isSpace

def isAllowed (c : Char) : Bool :=
  (0x20 ≤ c.toNat || c = '\t' || c = '\n' || c = '\r') && c.toNat ≠ 0xFFFE && c.toNat ≠ 0xFFFF

inductive Referent
  | char (c : Char)
  | entity (name : List Char)

def referredChar? (code : Nat) : Option Char := (charOf? code).filter isAllowed

/-- The reference after an ampersand, and the rest after its semicolon. -/
def reference? (cs : List Char) : Option (Referent × List Char) :=
  match cs with
  | '#' :: 'x' :: digits => numbered 16 digits
  | '#' :: digits => numbered 10 digits
  | _ => do
    let (name, rest) ← plainName? cs
    match rest with
    | ';' :: rest => return (.entity name, rest)
    | _ => none
where
  numbered (base : Nat) (cs : List Char) : Option (Referent × List Char) := do
    let digits := cs.takeWhile fun c => (hexValue? c).any (· < base)
    if digits.isEmpty then none
    match cs.drop digits.length with
    | ';' :: rest => return (.char (← referredChar? (← ofBase? base digits)), rest)
    | _ => none

/-- The character that a name stands for in every document. -/
def predeclared? (name : List Char) : Option Char :=
  match String.ofList name with
  | "lt" => some '<'
  | "gt" => some '>'
  | "amp" => some '&'
  | "apos" => some '\''
  | "quot" => some '"'
  | _ => none

/-- The texts declared for names, the first declaration of a name counting. A
name that stands for something outside of the document has none. -/
abbrev Entities := List (List Char × Option (List Char))

structure AttributeRule where
  element : List Char
  name : QualifiedName
  /-- The value is any text. All other values are words between single spaces. -/
  isText : Bool
  usual : Option (List Char)

structure Declarations where
  entities : Entities
  /-- The first rule for an attribute of an element counts. -/
  attributes : List AttributeRule
  /-- Further declarations may be elsewhere, so names without a declaration are
  passed over in attributes. -/
  isPartial : Bool

namespace Declarations

def none : Declarations := ⟨[], [], false⟩

variable (d : Declarations)

def ruleFor (element : List Char) (name : QualifiedName) : Option AttributeRule :=
  d.attributes.find? fun r => r.element = element && r.name = name

end Declarations

/-- The text of an attribute, with blanks as spaces and references replaced. A
declared text is read in the same way through `expand`. -/
def attributeText (expand : List Char → Option (List Char)) : Nat → List Char →
    Option (List Char)
  | 0, _ => none
  | _ + 1, [] => some []
  | size + 1, c :: rest =>
    if c = '<' then none
    else if c = '&' then do
      let (found, rest) ← reference? rest
      let text ←
        match found with
        | .char c => some [c]
        | .entity name =>
          match predeclared? name with
          | some c => some [c]
          | none => expand name
      return text ++ (← attributeText expand size rest)
    else do return (if isSpace c then ' ' else c) :: (← attributeText expand size rest)

/-- The text that a declared name stands for in an attribute. Declarations
nested deeper than there are names refer back to themselves. -/
def entityText (d : Declarations) : Nat → List Char → Option (List Char)
  | 0, _ => none
  | depth + 1, name =>
    match d.entities.lookup name with
    | some found => do
      let text ← found
      attributeText (entityText d depth) (text.length + 1) text
    | none => if d.isPartial then some [] else none

def spacedWords (cs : List Char) : List Char :=
  let words := (splitAtChar ' ' cs).filter fun word => !word.isEmpty
  List.intercalate [' '] words

/-- The value of an attribute as it is written. -/
def attributeValue (d : Declarations) (isText : Bool) (cs : List Char) :
    Option (List Char) := do
  let text ← attributeText (entityText d (d.entities.length + 1)) (cs.length + 1) cs
  return if isText then text else spacedWords text

end Settings.Document.Xml
