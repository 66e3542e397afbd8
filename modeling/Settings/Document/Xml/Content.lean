import Settings.Document.Xml.Element
import Settings.Document.Xml.Prolog

/-! # Reading elements

Elements with their attributes and content. Names are resolved in the
namespaces that are in scope, which an element extends by its own attributes.
-/

namespace Settings.Document.Xml

open Settings.Text

inductive Item
  | text (cs : List Char)
  | element (e : Element)

/-- Namespaces in scope by their short names; the empty name stands for elements
without one. -/
abbrev Namespaces := List (List Char × List Char)

def xmlSpace : List Char := "http://www.w3.org/XML/1998/namespace".toList

def declarationSpace : List Char := "http://www.w3.org/2000/xmlns/".toList

def initialSpaces : Namespaces := [("xml".toList, xmlSpace)]

def inSpace (space base : List Char) : String :=
  if space.isEmpty then String.ofList base
  else String.ofList ('\x7b' :: space ++ '\x7d' :: base)

def elementName? (spaces : Namespaces) (n : QualifiedName) : Option String :=
  match n.space with
  | none => some (inSpace ((spaces.lookup []).getD []) n.base)
  | some short => (spaces.lookup short).map (inSpace · n.base)

/-- The full name of an attribute; without a short name it is in no namespace. -/
def attributeName? (spaces : Namespaces) (n : QualifiedName) : Option String :=
  match n.space with
  | none => some (String.ofList n.base)
  | some short => (spaces.lookup short).map (inSpace · n.base)

/-- What an attribute declares: a short name for a namespace, or nothing. -/
def declares? (n : QualifiedName) : Option (List Char) :=
  match n.space, n.base with
  | none, base => if base = "xmlns".toList then some [] else none
  | some short, base => if short = "xmlns".toList then some base else none

/-- Whether a short name may stand for a namespace. -/
def mayDeclare (short space : List Char) : Bool :=
  if short = "xml".toList then space = xmlSpace
  else
    short ≠ "xmlns".toList && space ≠ xmlSpace && space ≠ declarationSpace &&
      (short.isEmpty || !space.isEmpty) && !space.contains '\x7d'

def extend? (spaces : Namespaces) :
    List (QualifiedName × List Char) → Option Namespaces
  | [] => some spaces
  | (name, space) :: rest =>
    match declares? name with
    | none => extend? spaces rest
    | some short =>
      if mayDeclare short space then extend? ((short, space) :: spaces) rest else none

/-- The attributes that are no declarations, by their full names, none of which
may come twice. -/
def resolve? (spaces : Namespaces) (attributes : List (QualifiedName × List Char)) :
    Option (List (String × String)) := do
  let own := attributes.filter fun a => (declares? a.1).isNone
  let named ← own.mapM fun (name, text) => do
    return (← attributeName? spaces name, String.ofList text)
  if (named.map (·.1)).eraseDups.length = named.length then return named else none

def attributes? (d : Declarations) (element : List Char) : Nat →
    List (QualifiedName × List Char) → List Char →
    Option (List (QualifiedName × List Char) × List Char)
  | 0, _, _ => none
  | size + 1, found, cs =>
    match skipSpace cs with
    | '/' :: rest => some (found, '/' :: rest)
    | '>' :: rest => some (found, '>' :: rest)
    | rest => do
      if rest.length = cs.length then none
      let (name, rest) ← qualifiedName? rest
      if found.any (·.1 = name) then none
      let (raw, rest) ← quotedText? (← equals? rest)
      let isText := (d.ruleFor element name).all (·.isText)
      attributes? d element size (found ++ [(name, ← attributeValue d isText raw)]) rest

/-- The attributes of an element that are not given but have a usual value. -/
def usualAttributes (d : Declarations) (element : List Char)
    (given : List (QualifiedName × List Char)) : List (QualifiedName × List Char) :=
  (d.attributes.foldl enter given).drop given.length
where
  enter (found : List (QualifiedName × List Char)) (rule : AttributeRule) :=
    match if rule.element = element then
        ((d.ruleFor element rule.name).bind (·.usual)) else none with
    | some value => if found.any (·.1 = rule.name) then found else found ++ [(rule.name, value)]
    | none => found

def leadingText : List Item → List Char
  | .text cs :: rest => cs ++ leadingText rest
  | _ => []

def elementsOf (items : List Item) : List Element :=
  items.filterMap fun
    | .text _ => none
    | .element e => some e

/-- The declarations of a document, and how content refers to them. -/
structure Scope where
  declared : Declarations
  expand : Namespaces → List Char → Option (List Item)

mutual

/-- The content up to an end tag or the end of the text, and the rest. -/
def content? (scope : Scope) : Nat → Namespaces → List Char → Option (List Item × List Char)
  | 0, _, _ => none
  | size + 1, spaces, cs =>
    match cs with
    | [] | '<' :: '/' :: _ => some ([], cs)
    | '<' :: '!' :: '-' :: '-' :: rest => do content? scope size spaces (← comment? rest)
    | '<' :: '!' :: rest => do
      let (text, rest) ← breakAt? "]]>".toList (← after? "[CDATA[".toList rest)
      let (items, rest) ← content? scope size spaces rest
      return (.text text :: items, rest)
    | '<' :: '?' :: rest => do content? scope size spaces (← instruction? rest)
    | '<' :: rest => do
      let (e, rest) ← element? scope size spaces rest
      let (items, rest) ← content? scope size spaces rest
      return (.element e :: items, rest)
    | '&' :: rest => do
      let (found, rest) ← reference? rest
      let here ←
        match found with
        | .char c => some [.text [c]]
        | .entity name =>
          match predeclared? name with
          | some c => some [.text [c]]
          | none => scope.expand spaces name
      let (items, rest) ← content? scope size spaces rest
      return (here ++ items, rest)
    | ']' :: ']' :: '>' :: _ => none
    | c :: rest => do
      let isPlain := fun (c : Char) => c ≠ '<' && c ≠ '&' && c ≠ ']'
      let (items, after) ← content? scope size spaces (rest.dropWhile isPlain)
      return (.text (c :: rest.takeWhile isPlain) :: items, after)

/-- An element whose opening bracket has been read, and the rest after it. -/
def element? (scope : Scope) : Nat → Namespaces → List Char → Option (Element × List Char)
  | 0, _, _ => none
  | size + 1, spaces, cs => do
    let (name, rest) ← qualifiedName? cs
    let (given, rest) ← attributes? scope.declared name.written (rest.length + 1) [] rest
    let all := given ++ usualAttributes scope.declared name.written given
    let inner ← extend? spaces all
    let tag ← elementName? inner name
    let attributes ← resolve? inner all
    match rest with
    | '/' :: '>' :: rest => return (.mk tag attributes "" [], rest)
    | '>' :: rest =>
      let (items, rest) ← content? scope size inner rest
      let rest ← after? ('<' :: '/' :: name.written) rest
      let rest ← after? ['>'] (skipSpace rest)
      return (.mk tag attributes (String.ofList (leadingText items)) (elementsOf items), rest)
    | _ => none

end

/-- The content that a declared name stands for. Declarations nested deeper than
there are names refer back to themselves. -/
def entityContent (d : Declarations) : Nat → Namespaces → List Char → Option (List Item)
  | 0, _, _ => none
  | depth + 1, spaces, name => do
    let text ← (d.entities.lookup name).join
    let scope : Scope := ⟨d, entityContent d depth⟩
    match content? scope (text.length + 1) spaces text with
    | some (items, []) => return items
    | _ => none

end Settings.Document.Xml
