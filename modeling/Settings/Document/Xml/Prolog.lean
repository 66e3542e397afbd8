import Settings.Document.Xml.Reference

/-! # What stands before the root element

A declaration of the document, which may name its encoding and say that no
other document is needed to read it, and comments and processing instructions.
-/

namespace Settings.Document.Xml

open Settings.Text

def comment? (cs : List Char) : Option (List Char) := do
  let (_, rest) ← breakAt? ['-', '-'] cs
  after? ['>'] rest

/-- The rest after a processing instruction whose opening has been read. -/
def instruction? (cs : List Char) : Option (List Char) := do
  let (target, rest) ← plainName? cs
  if target.map Char.toLower = ['x', 'm', 'l'] then none
  match rest with
  | c :: _ => if isSpace c || (after? ['?', '>'] rest).isSome then pure () else none
  | [] => none
  let (_, rest) ← breakAt? ['?', '>'] rest
  return rest

def quotedText? (cs : List Char) : Option (List Char × List Char) :=
  match cs with
  | '"' :: rest => breakAt? ['"'] rest
  | '\'' :: rest => breakAt? ['\''] rest
  | _ => none

def equals? (cs : List Char) : Option (List Char) := do
  return skipSpace (← after? ['='] (skipSpace cs))

def spaced? (cs : List Char) : Option (List Char) :=
  if (cs.head?.map isSpace).getD false then some (skipSpace cs) else none

def isDeclarationChar (c : Char) : Bool :=
  c.isAlphanum || c = '.' || c = '-' || c = '_'

/-- One setting in the declaration of a document, if it comes next. -/
def setting? (name : String) (cs : List Char) : Option (List Char × List Char) := do
  let rest ← after? name.toList (← spaced? cs)
  let (text, rest) ← quotedText? (← equals? rest)
  if text.all isDeclarationChar then return (text, rest) else none

structure Preamble where
  encoding : Option String
  /-- Everything that the document needs is in it. -/
  isStandalone : Bool

/-- What the declaration of a document says, its opening having been read, and
the rest after it. -/
def declaration? (cs : List Char) : Option (Preamble × List Char) := do
  let (_, rest) ← setting? "version" cs
  let (encoding, rest) ←
    match setting? "encoding" rest with
    | some (name, after) =>
      if (name.head?.map Char.isAlpha).getD false then some (some (String.ofList name), after)
      else none
    | none => some (none, rest)
  let (isStandalone, rest) ←
    match setting? "standalone" rest with
    | some (word, after) =>
      if word = "yes".toList then some (true, after)
      else if word = "no".toList then some (false, after)
      else none
    | none => some (false, rest)
  return (⟨encoding, isStandalone⟩, ← after? ['?', '>'] (skipSpace rest))

/-- The declaration at the start of a document; without one nothing is said. -/
def leadingDeclaration? (cs : List Char) : Option (Preamble × List Char) :=
  match after? "<?xml".toList cs with
  | some rest =>
    if (rest.head?.map isNameChar).getD false then some (⟨none, false⟩, cs)
    else declaration? rest
  | none => some (⟨none, false⟩, cs)

def skipMisc : Nat → List Char → Option (List Char)
  | 0, _ => none
  | size + 1, cs =>
    match skipSpace cs with
    | '<' :: '!' :: '-' :: '-' :: rest => do skipMisc size (← comment? rest)
    | '<' :: '?' :: rest => do skipMisc size (← instruction? rest)
    | rest => some rest

end Settings.Document.Xml
