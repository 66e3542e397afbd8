import Settings.Document.Reading

/-! # Places in a YAML document

In YAML the line and the column of a text matter. A cursor is a place in a
document: what is left to read, and where it stands.
-/

namespace Settings.Document.Yaml

/-- A line end. Carriage returns are no longer part of a text when it is read. -/
def isBreak (c : Char) : Bool :=
  c = '\n' || c = '\x85' || c = '\u2028' || c = '\u2029'

def isAllowed (c : Char) : Bool :=
  let n := c.toNat
  n = 9 || n = 10 || n = 13 || (0x20 ≤ n && n ≤ 0x7E) || n = 0x85 || (0xA0 ≤ n && n ≤ 0xD7FF) ||
  (0xE000 ≤ n && n ≤ 0xFFFD) || 0x10000 ≤ n

def byteOrderMark : Char := Char.ofNat 0xFEFF

/-- The next character ends a line, or there is none. -/
def endsLine : Option Char → Bool
  | none => true
  | some c => isBreak c

/-- The next character separates words on a line, or ends the line. -/
def endsWord : Option Char → Bool
  | some ' ' => true
  | next => endsLine next

/-- As `endsWord`, with tabs. -/
def isGap : Option Char → Bool
  | some '\t' => true
  | next => endsWord next

structure Cursor where
  rest : List Char
  line : Nat
  column : Nat
  index : Nat

namespace Cursor

def start (cs : List Char) : Cursor := ⟨cs, 0, 0, 0⟩

def head? (p : Cursor) : Option Char := p.rest.head?

def next (p : Cursor) : Cursor :=
  match p.rest with
  | [] => p
  | c :: rest =>
    if isBreak c then ⟨rest, p.line + 1, 0, p.index + 1⟩
    else ⟨rest, p.line, if c = byteOrderMark then p.column else p.column + 1, p.index + 1⟩

def skip : Nat → Cursor → Cursor
  | 0, p => p
  | n + 1, p => p.next.skip n

/-- The characters of a class that come next, and the place after them. -/
def run (isMember : Char → Bool) (p : Cursor) : List Char × Cursor :=
  let found := p.rest.takeWhile isMember
  (found, p.skip found.length)

def skipRun (isMember : Char → Bool) (p : Cursor) : Cursor := (p.run isMember).2

def skipSpaces (p : Cursor) : Cursor := p.skipRun (· = ' ')

def skipLine (p : Cursor) : Cursor := p.skipRun (!isBreak ·)

def skipComment (p : Cursor) : Cursor := if p.head? = some '#' then p.skipLine else p

/-- A line end as it counts inside a text, and the place after it. -/
def lineBreak? (p : Cursor) : Option (Char × Cursor) :=
  match p.rest with
  | [] => none
  | c :: _ =>
    if !isBreak c then none
    else if c = '\x85' then some ('\n', p.next)
    else some (c, p.next)

/-- The place after blanks and a comment, where the line must end, and after the line end. -/
def finishLine (p : Cursor) : Reading Cursor :=
  let p := p.skipSpaces.skipComment
  if endsLine p.head? then .ok p.next else .error .malformed

/-- A mark of a document comes next: three characters and a gap. -/
def isAt (mark : List Char) (p : Cursor) : Bool :=
  match Text.after? mark p.rest with
  | some rest => isGap rest.head?
  | none => false

def startMark : List Char := ['-', '-', '-']

def endMark : List Char := ['.', '.', '.']

/-- The start or the end of a document is marked here. -/
def isAtDivider (p : Cursor) : Bool := p.isAt startMark || p.isAt endMark

end Cursor

end Settings.Document.Yaml
