import Settings.Document.Yaml.Scalar

/-! # Tokens in YAML

A document is a sequence of tokens: marks, texts, and the properties of nodes,
which are anchors, aliases and tags.
-/

namespace Settings.Document.Yaml

/-- A line before a document that says how to read it. -/
inductive Directive
  | version (major : Nat)
  | handle (name stem : List Char)
  | unknown
deriving DecidableEq

inductive Token
  | directive (d : Directive)
  | documentStart
  | documentEnd
  | sequence
  | mapping
  | blockEnd
  | openBracket
  | closeBracket
  | openBrace
  | closeBrace
  | comma
  | item
  | key
  | value
  | alias (name : List Char)
  | anchor (name : List Char)
  /-- A tag, whose suffix is the whole name if it has no handle. -/
  | tag (handle : Option (List Char)) (suffix : List Char)
  | text (plain : Bool) (cs : List Char)
deriving DecidableEq

def isNameChar (c : Char) : Bool := c.isAlphanum || c = '-' || c = '_'

def name (p : Cursor) : Reading (List Char × Cursor) :=
  let (found, p) := p.run isNameChar
  if found.isEmpty then .error .malformed else .ok (found, p)

/-- A character that may follow the name of an anchor. -/
def mayFollowName (next : Option Char) : Bool :=
  isGap next || next.any "?:,]\x7d%@`".toList.contains

def nodeName (p : Cursor) : Reading (List Char × Cursor) := do
  let (found, p) ← name p.next
  if mayFollowName p.head? then return (found, p) else throw .malformed

def isUriChar (c : Char) : Bool := c.isAlphanum || "-;/?:@&=+$,_.!~*'()[]%".toList.contains c

/-- The bytes that percent signs with two digits each stand for. -/
def percentBytes : List Char → Option (List UInt8 × List Char)
  | '%' :: a :: b :: rest => do
    let code ← ofBase? 16 [a, b]
    let (bytes, rest) ← percentBytes rest
    return (code.toUInt8 :: bytes, rest)
  | '%' :: _ => none
  | cs => some ([], cs)

/-- The characters of a part of a tag, where percent signs have been replaced. -/
def uriText : Nat → List Char → Option (List Char)
  | 0, _ => none
  | _, [] => some []
  | size + 1, '%' :: cs => do
    let (bytes, rest) ← percentBytes ('%' :: cs)
    let text ← String.fromUTF8? ⟨bytes.toArray⟩
    return text.toList ++ (← uriText size rest)
  | size + 1, c :: cs => return c :: (← uriText size cs)

def uri (p : Cursor) : Reading (List Char × Cursor) := do
  let (found, p) := p.run isUriChar
  if found.isEmpty then throw .malformed
  return (← required (uriText (found.length + 1) found), p)

def handle (p : Cursor) : Reading (List Char × Cursor) :=
  if p.head? ≠ some '!' then .error .malformed
  else if p.next.head? = some ' ' then .ok (['!'], p.next)
  else
    let (found, q) := p.next.run isNameChar
    if q.head? = some '!' then .ok ('!' :: found ++ ['!'], q.next) else .error .malformed

def tag (p : Cursor) : Reading (Token × Cursor) := do
  let found ←
    if p.next.head? = some '<' then do
      let (suffix, p) ← uri (p.skip 2)
      if p.head? ≠ some '>' then throw .malformed
      pure (Token.tag none suffix, p.next)
    else if isGap p.next.head? then pure (Token.tag none ['!'], p.next)
    else do
      let word := p.next.rest.takeWhile fun c => !endsWord (some c)
      let (handle, p) ← if word.contains '!' then handle p else pure (['!'], p.next)
      let (suffix, p) ← uri p
      pure (Token.tag (some handle) suffix, p)
  if endsWord found.2.head? then return found else throw .malformed

def number (p : Cursor) : Reading (Nat × Cursor) := do
  let (digits, p) := p.run Char.isDigit
  if digits.isEmpty then throw .malformed
  return (← required (ofBase? 10 digits), p)

def version (p : Cursor) : Reading (Directive × Cursor) := do
  let (major, p) ← number p.skipSpaces
  if p.head? ≠ some '.' then throw .malformed
  let (_, p) ← number p.next
  if endsWord p.head? then return (.version major, p) else throw .malformed

/-- A handle and what it stands for, after the name of the directive. -/
def handleStem (p : Cursor) : Reading (Directive × Cursor) := do
  let (name, p) ← handle p.skipSpaces
  if p.head? ≠ some ' ' then throw .malformed
  let (stem, p) ← uri p.skipSpaces
  if endsWord p.head? then return (.handle name stem, p) else throw .malformed

def directive (p : Cursor) : Reading (Directive × Cursor) := do
  let (found, p) ← name p.next
  if !endsWord p.head? then throw .malformed
  let (d, p) ←
    if found = "YAML".toList then version p
    else if found = "TAG".toList then handleStem p
    else pure (.unknown, p.skipLine)
  return (d, ← p.finishLine)

end Settings.Document.Yaml
