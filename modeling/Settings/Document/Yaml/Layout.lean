import Settings.Document.Yaml.Token

/-! # The layout of a YAML document

Indentation opens and closes block collections. That a text is a key shows only
when a colon follows it on its line; until then its place among the tokens is kept.
-/

namespace Settings.Document.Yaml

/-- A node that is a key if a colon follows it. -/
structure PossibleKey where
  position : Nat
  /-- Nothing but a key can stand there. -/
  required : Bool
  start : Cursor

structure Layout where
  cursor : Cursor
  /-- The tokens so far, the last one first. -/
  found : List Token
  /-- The columns of the open block collections, the innermost first. -/
  indents : List Nat
  /-- The possible keys around the open flow collections, the innermost first. -/
  around : List (Option PossibleKey)
  /-- The possible key of the innermost collection. -/
  possibleKey : Option PossibleKey
  keyAllowed : Bool

/-- The most characters that a key without a mark of its own takes up. -/
def keyLimit : Nat := 1024

namespace Layout

def start (cs : List Char) : Layout :=
  let p := Cursor.start cs
  let p := if p.head? = some byteOrderMark then p.next else p
  ⟨p, [], [], [], none, true⟩

def inFlow (s : Layout) : Bool := !s.around.isEmpty

def push (s : Layout) (t : Token) : Layout := { s with found := t :: s.found }

def allowKey (s : Layout) (allowed : Bool) : Layout := { s with keyAllowed := allowed }

def moveTo (s : Layout) (p : Cursor) : Layout := { s with cursor := p }

def skip (s : Layout) (n : Nat) : Layout := { s with cursor := s.cursor.skip n }

/-- Closes the block collections for which a condition on their column holds. -/
def closeBlocks (s : Layout) (isOver : Nat → Bool) : Layout :=
  if s.inFlow then s
  else
    let closed := s.indents.takeWhile isOver
    { s with
      indents := s.indents.drop closed.length,
      found := List.replicate closed.length .blockEnd ++ s.found }

def isDeeper (s : Layout) (column : Nat) : Bool := s.indents.head?.all (· < column)

/-- Opens a block collection at the cursor, unless one is open at that column. -/
def openBlock (s : Layout) (t : Token) : Layout :=
  if !s.inFlow && s.isDeeper s.cursor.column then
    { s.push t with indents := s.cursor.column :: s.indents }
  else s

/-- Gives up a possible key, which cannot be one that is required. -/
def giveUp : Option PossibleKey → Reading (Option PossibleKey)
  | some key => if key.required then .error .malformed else .ok none
  | none => .ok none

def dropKey (s : Layout) : Reading Layout := do
  return { s with possibleKey := ← giveUp s.possibleKey }

/-- Keeps a possible key as long as its line goes on and it is not too long. -/
def refresh (p : Cursor) : Option PossibleKey → Reading (Option PossibleKey)
  | some key =>
    if key.start.line ≠ p.line || keyLimit < p.index - key.start.index then giveUp (some key)
    else .ok (some key)
  | none => .ok none

def refreshKeys (s : Layout) : Reading Layout := do
  return { s with
    possibleKey := ← refresh s.cursor s.possibleKey,
    around := ← s.around.mapM (refresh s.cursor) }

/-- Notes that the node at the cursor may turn out to be a key. -/
def noteKey (s : Layout) : Reading Layout := do
  if !s.keyAllowed then return s
  let s ← s.dropKey
  return { s with
    possibleKey := some {
      position := s.found.length,
      required := !s.inFlow && s.indents.head? = some s.cursor.column,
      start := s.cursor } }

/-- The tokens with others put in after the first ones, so many of them. -/
def insertAt (s : Layout) (position : Nat) (tokens : List Token) : Layout :=
  let later := s.found.length - position
  { s with found := s.found.take later ++ tokens.reverse ++ s.found.drop later }

/-- The layout after spaces, comments and line ends. A new line may start with a key. -/
def skipToToken : Nat → Layout → Layout
  | 0, s => s
  | size + 1, s =>
    let p := s.cursor.skipSpaces.skipComment
    match p.lineBreak? with
    | none => s.moveTo p
    | some (_, p) => skipToToken size ((s.moveTo p).allowKey (s.keyAllowed || !s.inFlow))

def mark (s : Layout) (t : Token) : Layout := (s.push t).skip 1

/-- A start or an end of a document, or a directive: everything in blocks ends before it. -/
def divide (s : Layout) : Reading Layout := do
  return (← (s.closeBlocks fun _ => true).dropKey).allowKey false

def openFlow (s : Layout) (t : Token) : Reading Layout := do
  let s ← s.noteKey
  return { s with around := s.possibleKey :: s.around, possibleKey := none }
    |>.allowKey true |>.mark t

def closeFlow (s : Layout) (t : Token) : Reading Layout := do
  let s ← s.dropKey
  match s.around with
  | [] => throw .malformed
  | key :: around =>
    return { s with possibleKey := key, around := around } |>.allowKey false |>.mark t

def comma (s : Layout) : Reading Layout := do
  return (← s.dropKey).allowKey true |>.mark .comma

def item (s : Layout) : Reading Layout := do
  if !s.inFlow && !s.keyAllowed then throw .malformed
  return (← (s.openBlock .sequence).dropKey).allowKey true |>.mark .item

def key (s : Layout) : Reading Layout := do
  if !s.inFlow && !s.keyAllowed then throw .malformed
  return (← (s.openBlock .mapping).dropKey).allowKey (!s.inFlow) |>.mark .key

/-- A colon: the possible key before it is one, or it gives the value of a key
that is marked or empty. -/
def value (s : Layout) : Reading Layout := do
  match s.possibleKey with
  | some key =>
    let column := key.start.column
    let opens := !s.inFlow && s.isDeeper column
    let s := s.insertAt key.position (if opens then [.mapping, .key] else [.key])
    return { s with
      possibleKey := none,
      indents := if opens then column :: s.indents else s.indents }
      |>.allowKey false |>.mark .value
  | none =>
    if !s.inFlow && !s.keyAllowed then throw .malformed
    return (s.openBlock .mapping).allowKey (!s.inFlow) |>.mark .value

def part (s : Layout) (read : Cursor → Reading (Token × Cursor)) : Reading Layout := do
  let s ← s.noteKey
  let (t, p) ← read s.cursor
  return (s.push t).allowKey false |>.moveTo p

def plain (s : Layout) : Reading Layout := do
  let s ← s.noteKey
  let indent := s.indents.head?.elim 0 (· + 1)
  let (cs, breaksLine, p) := plainScalar s.inFlow indent s.cursor
  return (s.push (.text true cs)).allowKey breaksLine |>.moveTo p

def block (s : Layout) (folded : Bool) : Reading Layout := do
  let s ← s.dropKey
  let (cs, p) ← blockScalar folded s.indents.head? s.cursor
  return (s.push (.text false cs)).allowKey true |>.moveTo p

def quoted (s : Layout) (quote : Char) : Reading Layout :=
  s.part fun p => do
    let (cs, p) ← quotedScalar quote p
    return (.text false cs, p)

def startsPlain (s : Layout) (c : Char) : Bool :=
  if isGap (some c) then false
  else if "-?:,[]\x7b\x7d#&*!|>'\"%@`".toList.contains c then
    !isGap s.cursor.next.head? && (c = '-' || (!s.inFlow && (c = '?' || c = ':')))
  else true

/-- Reads the tokens that a character starts. -/
def step (s : Layout) (c : Char) : Reading Layout := do
  let p := s.cursor
  if c = '%' && p.column = 0 then
    let (d, p) ← directive p
    return ((← s.divide).push (.directive d)).moveTo p
  else if p.column = 0 && p.isAt Cursor.startMark then
    return ((← s.divide).push .documentStart).skip 3
  else if p.column = 0 && p.isAt Cursor.endMark then
    return ((← s.divide).push .documentEnd).skip 3
  else
    let endsMark := s.inFlow || isGap p.next.head?
    match c with
    | '[' => s.openFlow .openBracket
    | '{' => s.openFlow .openBrace
    | ']' => s.closeFlow .closeBracket
    | '}' => s.closeFlow .closeBrace
    | ',' => s.comma
    | '*' => s.part fun p => do
      let (name, p) ← nodeName p
      return (.alias name, p)
    | '&' => s.part fun p => do
      let (name, p) ← nodeName p
      return (.anchor name, p)
    | '!' => s.part tag
    | '\'' | '"' => s.quoted c
    | _ =>
      if c = '-' && isGap p.next.head? then s.item
      else if c = '?' && endsMark then s.key
      else if c = ':' && endsMark then s.value
      else if (c = '|' || c = '>') && !s.inFlow then s.block (c = '>')
      else if s.startsPlain c then s.plain
      else throw .malformed

def next (size : Nat) (s : Layout) : Reading Layout := do
  let s ← (skipToToken size s).refreshKeys
  return s.closeBlocks (s.cursor.column < ·)

end Layout

structure Tokens where
  read : List Token
  fault : Option ReadFault

namespace Layout

def failing (s : Layout) (fault : ReadFault) : Tokens := ⟨s.found.reverse, some fault⟩

/-- Reads tokens to the end; each takes up at least one character. -/
def finish : Nat → Layout → Tokens
  | 0, s => s.failing .malformed
  | size + 1, s =>
    match s.next (size + 1) with
    | .error fault => s.failing fault
    | .ok s =>
      match s.cursor.head? with
      | none =>
        match s.divide with
        | .ok s => ⟨s.found.reverse, none⟩
        | .error fault => s.failing fault
      | some c =>
        match s.step c with
        | .ok s => finish size s
        | .error fault => s.failing fault

end Layout

def tokens (cs : List Char) : Tokens := (Layout.start cs).finish (cs.length + 1)

end Settings.Document.Yaml
