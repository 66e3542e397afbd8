import Settings.Document.Xml.Mark

/-! # Document types

A document type declares texts for names, usual values for attributes, what
elements hold, and notations. All must be well formed, and what is declared for
names and attributes is kept. Once declarations from elsewhere are put in, what
follows is kept only in a document that says it needs no others.
-/

namespace Settings.Document.Xml

open Settings.Text

/-- What is known while a document type is read. -/
structure Subset where
  declared : Declarations
  isStandalone : Bool
  keeps : Bool

namespace Subset

def withOutside (s : Subset) : Subset :=
  { s with declared := { s.declared with isPartial := !s.isStandalone } }

def declareEntity (s : Subset) (name : List Char) (text : Option (List Char)) : Subset :=
  if s.keeps && (predeclared? name).isNone then
    { s with declared := { s.declared with entities := s.declared.entities ++ [(name, text)] } }
  else s

def declareAttribute (s : Subset) (rule : AttributeRule) : Subset :=
  if s.keeps then
    { s with declared := { s.declared with attributes := s.declared.attributes ++ [rule] } }
  else s

end Subset

def isPublicChar (c : Char) : Bool :=
  c.isAlphanum || " \r\n-'()+,./:=?;!*#@$_%".toList.contains c

def publicId? (cs : List Char) : Option (List Char) := do
  let (text, rest) ← literal? cs
  if text.all isPublicChar then return rest else none

/-- The rest after the identifiers that a word announces. -/
def externalId? (word : List Char) (cs : List Char) : Option (List Char) := do
  let rest ←
    match String.ofList word with
    | "SYSTEM" => some cs
    | "PUBLIC" => publicId? cs
    | _ => none
  return (← literal? rest).2

/-- A declared text, in which characters given by their codes are replaced. -/
def declaredText : Nat → List Char → Option (List Char)
  | 0, _ => none
  | _ + 1, [] => some []
  | size + 1, c :: rest =>
    if c = '%' then none
    else if c = '&' then do
      let (found, after) ← reference? rest
      let text :=
        match found with
        | .char c => [c]
        | .entity name => '&' :: name ++ [';']
      return text ++ (← declaredText size after)
    else do return c :: (← declaredText size rest)

/-- The text that a literal declares. It is not looked into if it is not kept. -/
def Subset.textOf? (s : Subset) (cs : List Char) : Option (List Char) :=
  if s.keeps then declaredText (cs.length + 1) cs else some []

/-- The declaration of a name for declarations, which are not looked into. -/
def insertedEntity? (s : Subset) (cs : List Char) : Option (Subset × List Char) := do
  let (_, rest) ← baseName? cs
  match ← nextMark? rest with
  | (.literal text, rest) =>
    let _ ← s.textOf? text
    return (s, ← afterSign? '>' rest)
  | (.name ⟨none, word⟩, rest) => return (s, ← afterSign? '>' (← externalId? word rest))
  | _ => none

/-- The declaration of what a name stands for, after its opening. -/
def entity? (s : Subset) (cs : List Char) : Option (Subset × List Char) := do
  match ← nextMark? cs with
  | (.percent, rest) => insertedEntity? s rest
  | (.name ⟨none, name⟩, rest) =>
    match ← nextMark? rest with
    | (.literal text, rest) =>
      let text ← s.textOf? text
      return (s.declareEntity name (some text), ← afterSign? '>' rest)
    | (.name ⟨none, word⟩, rest) =>
      let rest ← externalId? word rest
      let after ←
        match ← nextMark? rest with
        | (.name ⟨none, word⟩, rest) =>
          if word = "NDATA".toList then do afterSign? '>' (← baseName? rest).2 else none
        | _ => afterSign? '>' rest
      return (s.declareEntity name none, after)
    | _ => none
  | _ => none

def choices? (isChoice : Mark → Bool) : Nat → List Char → Option (List Char)
  | 0, _ => none
  | size + 1, cs => do
    let (choice, rest) ← nextMark? cs
    if !isChoice choice then none
    match ← nextMark? rest with
    | (.groupEnd none, rest) => return rest
    | (.sign '|', rest) => choices? isChoice size rest
    | _ => none

def isChoice : Mark → Bool
  | .name _ | .word => true
  | _ => false

def isNotation : Mark → Bool
  | .name ⟨none, _⟩ => true
  | _ => false

/-- The types of attributes whose values are words. -/
def wordTypes : List String :=
  ["ID", "IDREF", "IDREFS", "ENTITY", "ENTITIES", "NMTOKEN", "NMTOKENS"]

/-- Whether the type of an attribute admits any text, and the rest after it. -/
def attributeType? (cs : List Char) : Option (Bool × List Char) := do
  match ← nextMark? cs with
  | (.sign '(', rest) => return (false, ← choices? isChoice (rest.length + 1) rest)
  | (.name ⟨none, word⟩, rest) =>
    let word := String.ofList word
    if word = "CDATA" then return (true, rest)
    else if wordTypes.contains word then return (false, rest)
    else if word = "NOTATION" then
      let rest ← afterSign? '(' rest
      return (false, ← choices? isNotation (rest.length + 1) rest)
    else none
  | _ => none

/-- The literal of the usual value of an attribute, if it has one, and the rest. -/
def usualLiteral? (cs : List Char) : Option (Option (List Char) × List Char) := do
  match ← nextMark? cs with
  | (.literal text, rest) => return (some text, rest)
  | (.keyword word, rest) =>
    match String.ofList word with
    | "IMPLIED" | "REQUIRED" => return (none, rest)
    | "FIXED" =>
      let (text, rest) ← literal? rest
      return (some text, rest)
    | _ => none
  | _ => none

/-- The usual value that a literal declares. It is not looked into if it is not kept. -/
def Subset.usual? (s : Subset) (isText : Bool) : Option (List Char) → Option (Option (List Char))
  | some cs => if s.keeps then (attributeValue s.declared isText cs).map some else some none
  | none => some none

/-- The declarations of attributes of an element, up to the closing bracket. -/
def attributeRules? (element : List Char) : Nat → Subset → List Char →
    Option (Subset × List Char)
  | 0, _, _ => none
  | size + 1, s, cs => do
    match ← nextMark? cs with
    | (.sign '>', rest) => return (s, rest)
    | (.name name, rest) =>
      let (isText, rest) ← attributeType? rest
      let (literal, rest) ← usualLiteral? rest
      let usual ← s.usual? isText literal
      attributeRules? element size (s.declareAttribute ⟨element, name, isText, usual⟩) rest
    | _ => none

def attributeList? (s : Subset) (cs : List Char) : Option (Subset × List Char) := do
  let (element, rest) ← someName? cs
  attributeRules? element.written (rest.length + 1) s rest

mutual

/-- The rest after a member of a group: a name or a group. -/
def member? : Nat → List Char → Option (List Char)
  | 0, _ => none
  | size + 1, cs =>
    match nextMark? cs with
    | some (.sign '(', rest) => members? size none rest
    | some (.name _, rest) | some (.counted, rest) => some rest
    | _ => none

def members? : Nat → Option Char → List Char → Option (List Char)
  | 0, _, _ => none
  | size + 1, separator, cs => do
    match ← nextMark? (← member? size cs) with
    | (.groupEnd _, rest) => return rest
    | (.sign c, rest) =>
      if (c = ',' || c = '|') && separator.all (· = c) then members? size (some c) rest else none
    | _ => none

end

/-- The rest after the elements that may stand between text. -/
def mixture? : Nat → List Char → Option (List Char)
  | 0, _ => none
  | size + 1, cs =>
    match nextMark? cs with
    | some (.groupEnd (some '*'), rest) => some rest
    | some (.sign '|', rest) => do mixture? size (← someName? rest).2
    | _ => none

def holding? (cs : List Char) : Option (List Char) := do
  match ← nextMark? cs with
  | (.name ⟨none, word⟩, rest) =>
    if word = "EMPTY".toList || word = "ANY".toList then return rest else none
  | (.sign '(', inner) =>
    match ← nextMark? inner with
    | (.keyword word, rest) =>
      if word ≠ "PCDATA".toList then none
      match ← nextMark? rest with
      | (.groupEnd none, rest) => return rest
      | _ => mixture? (rest.length + 1) rest
    | _ => members? (2 * inner.length + 2) none inner
  | _ => none

def elementType? (cs : List Char) : Option (List Char) := do
  afterSign? '>' (← holding? (← someName? cs).2)

def notation? (cs : List Char) : Option (List Char) := do
  let (word, rest) ← baseName? (← baseName? cs).2
  if word = "PUBLIC".toList then
    let rest ← publicId? rest
    match literal? rest with
    | some (_, rest) => afterSign? '>' rest
    | none => afterSign? '>' rest
  else afterSign? '>' (← externalId? word rest)

def afterWord? (word : String) (cs : List Char) : Option (List Char) := do
  spaced? (← after? word.toList cs)

def declared? (s : Subset) (cs : List Char) : Option (Subset × List Char) :=
  match afterWord? "ENTITY" cs, afterWord? "ATTLIST" cs, afterWord? "ELEMENT" cs,
    afterWord? "NOTATION" cs with
  | some rest, _, _, _ => entity? s rest
  | _, some rest, _, _ => attributeList? s rest
  | _, _, some rest, _ => (elementType? rest).map (s, ·)
  | _, _, _, some rest => (notation? rest).map (s, ·)
  | none, none, none, none => none

def subset? : Nat → Subset → List Char → Option (Subset × List Char)
  | 0, _, _ => none
  | size + 1, s, cs =>
    match skipSpace cs with
    | '<' :: '!' :: '-' :: '-' :: rest => do subset? size s (← comment? rest)
    | '<' :: '?' :: rest => do subset? size s (← instruction? rest)
    | '<' :: '!' :: rest => do
      let (s, rest) ← declared? s rest
      subset? size s rest
    | rest =>
      match mark? rest with
      | some (.insertion, rest) =>
        subset? size { s.withOutside with keeps := s.isStandalone } rest
      | some (.sign ']', rest) => some (s, rest)
      | _ => none

def documentType? (isStandalone : Bool) (cs : List Char) :
    Option (Declarations × List Char) := do
  let s : Subset := ⟨.none, isStandalone, true⟩
  let (_, rest) ← someName? (← spaced? cs)
  let (s, rest) ←
    match ← nextMark? rest with
    | (.name ⟨none, word⟩, rest) => do pure (s.withOutside, ← externalId? word rest)
    | _ => pure (s, rest)
  match ← nextMark? rest with
  | (.sign '[', rest) =>
    let (s, rest) ← subset? (rest.length + 1) s rest
    return (s.declared, ← afterSign? '>' rest)
  | (.sign '>', rest) => return (s.declared, rest)
  | _ => none

end Settings.Document.Xml
