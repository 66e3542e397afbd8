import Settings.Document.Yaml.Cursor
import Settings.Text.Halves

/-! # Scalars in YAML

Texts are written plain, between quotes, or as blocks of lines. A single line
end inside a plain or quoted text folds into a space; of several, the first one
is dropped. In a block it depends on the style of the block.

Every reader here goes on for at most as many steps as there are characters left.
-/

namespace Settings.Document.Yaml

open Settings.Text

def fold (first : Char) (later : List Char) : List Char :=
  if first ≠ '\n' then first :: later
  else if later.isEmpty then [' ']
  else later

def isFlowMark (c : Char) : Bool :=
  c = ',' || c = '[' || c = ']' || c = '{' || c = '}'

/-- The longest piece of a plain text without blanks. -/
def plainRun (inFlow : Bool) : List Char → List Char
  | [] => []
  | c :: rest =>
    if isGap (some c) then []
    else if c = ':' && (isGap rest.head? || (inFlow && rest.head?.any isFlowMark)) then []
    else if inFlow && (c = '?' || isFlowMark c) then []
    else c :: plainRun inFlow rest

/-- Line ends and the spaces around them. `none` when a document mark stops the text. -/
def plainBreaks : Nat → List Char → Cursor → Option (List Char) × Cursor
  | 0, found, p => (some found.reverse, p)
  | size + 1, found, p =>
    let p := p.skipSpaces
    match p.lineBreak? with
    | none => (some found.reverse, p)
    | some (c, q) => if q.isAtDivider then (none, q) else plainBreaks size (c :: found) q

structure PlainGap where
  /-- What the gap stands for; nothing if the text ends here. -/
  text : List Char
  breaksLine : Bool
  after : Cursor

def plainGap (p : Cursor) : PlainGap :=
  let (blanks, p) := p.run (· = ' ')
  match p.lineBreak? with
  | none => ⟨blanks, false, p⟩
  | some (c, p) =>
    if p.isAtDivider then ⟨[], true, p⟩
    else
      match plainBreaks (p.rest.length + 1) [] p with
      | (some later, p) => ⟨fold c later, true, p⟩
      | (none, p) => ⟨[], true, p⟩

/-- The rest of a plain text, after what has been found so far and the gap
after it. The result also says whether the gap that ended the text goes over a line end. -/
def plainText (inFlow : Bool) (indent : Nat) :
    Nat → List Char → PlainGap → List Char × Bool × Cursor
  | 0, found, gap => (found, gap.breaksLine, gap.after)
  | size + 1, found, gap =>
    let p := gap.after
    let run := plainRun inFlow p.rest
    if run.isEmpty || p.head? = some '#' then (found, gap.breaksLine, p)
    else
      let found := found ++ gap.text ++ run
      let gap := plainGap (p.skip run.length)
      if gap.text.isEmpty || (!inFlow && gap.after.column < indent) then
        (found, gap.breaksLine, gap.after)
      else plainText inFlow indent size found gap

def plainScalar (inFlow : Bool) (indent : Nat) (p : Cursor) : List Char × Bool × Cursor :=
  plainText inFlow indent (p.rest.length + 1) [] ⟨[], false, p⟩

/-- The line ends that come next, and the blanks around them. -/
def quotedBreaks : Nat → List Char → Cursor → Reading (List Char × Cursor)
  | 0, _, _ => .error .malformed
  | size + 1, found, p =>
    if p.isAtDivider then .error .malformed
    else
      let p := p.skipRun fun c => c = ' ' || c = '\t'
      match p.lineBreak? with
      | none => .ok (found.reverse, p)
      | some (c, p) => quotedBreaks size (c :: found) p

def quotedGap (p : Cursor) : Reading (List Char × Cursor) := do
  let (blanks, p) := p.run fun c => c = ' ' || c = '\t'
  match p.lineBreak? with
  | none => return (blanks, p)
  | some (c, p) =>
    let (later, p) ← quotedBreaks (p.rest.length + 1) [] p
    return (fold c later, p)

def escaped? : Char → Option Char
  | '0' => some '\x00'
  | 'a' => some '\x07'
  | 'b' => some '\x08'
  | 't' | '\t' => some '\t'
  | 'n' => some '\n'
  | 'v' => some '\x0b'
  | 'f' => some '\x0c'
  | 'r' => some '\r'
  | 'e' => some '\x1b'
  | ' ' => some ' '
  | '"' => some '"'
  | '\\' => some '\\'
  | '/' => some '/'
  | 'N' => some '\x85'
  | '_' => some '\xa0'
  | 'L' => some '\u2028'
  | 'P' => some '\u2029'
  | _ => none

/-- How many hexadecimal digits follow a letter after a backslash. -/
def codeWidth? : Char → Option Nat
  | 'x' => some 2
  | 'u' => some 4
  | 'U' => some 8
  | _ => none

def coded (digits : List Char) : Reading Nat := do
  let code ← required (ofBase? 16 digits)
  if Nat.pow 2 31 ≤ code then refuse .overflow
  else if 0x110000 ≤ code then refuse .notCharacter
  else return code

/-- What a backslash and the characters after it stand for, as codes. -/
def escape (p : Cursor) : Reading (List Nat × Cursor) := do
  match p.lineBreak? with
  | some (_, p) =>
    let (later, p) ← quotedBreaks (p.rest.length + 1) [] p
    return (later.map Char.toNat, p)
  | none =>
    let c ← required p.head?
    match escaped? c, codeWidth? c with
    | some e, _ => return ([e.toNat], p.next)
    | none, some width =>
      let digits := p.next.rest.take width
      if digits.length < width then throw .malformed
      return ([← coded digits], p.next.skip width)
    | none, none => throw .malformed

/-- The rest of a text between quotes of a kind. The codes of its characters so
far are given last first. -/
def quotedText (quote : Char) : Nat → List Nat → Cursor → Reading (List Char × Cursor)
  | 0, _, _ => .error .malformed
  | size + 1, found, p => do
    let c ← required p.head?
    if isGap (some c) then
      let (gap, p) ← quotedGap p
      quotedText quote size ((gap.map Char.toNat).reverse ++ found) p
    else if c = quote then
      if quote = '\'' && p.next.head? = some '\'' then
        quotedText quote size (c.toNat :: found) (p.skip 2)
      else return (joinHalves loneHalf found.reverse, p.next)
    else if quote = '"' && c = '\\' then
      let (codes, p) ← escape p.next
      quotedText quote size (codes.reverse ++ found) p
    else quotedText quote size (c.toNat :: found) p.next

def quotedScalar (quote : Char) (p : Cursor) : Reading (List Char × Cursor) :=
  quotedText quote (p.rest.length + 1) [] p.next

/-- What happens to the line ends after the last line of a block. -/
inductive Chomping
  | strip
  | clip
  | keep
deriving DecidableEq

def chomping? : Option Char → Option Chomping
  | some '+' => some .keep
  | some '-' => some .strip
  | _ => none

def increment? (next : Option Char) : Option Nat :=
  (next.filter Char.isDigit).map fun c => c.toNat - 48

/-- The header of a block: its chomping and its indentation, in any order. -/
def blockHeader (p : Cursor) : Reading (Chomping × Option Nat × Cursor) := do
  let (chomping, increment, p) :=
    match chomping? p.head?, increment? p.head? with
    | some chomping, _ =>
      let p := p.next
      match increment? p.head? with
      | some n => (chomping, some n, p.next)
      | none => (chomping, none, p)
    | none, some n =>
      let p := p.next
      match chomping? p.head? with
      | some chomping => (chomping, some n, p.next)
      | none => (.clip, some n, p)
    | none, none => (.clip, none, p)
  if increment = some 0 || !endsWord p.head? then throw .malformed
  return (chomping, increment, ← p.finishLine)

/-- The empty lines at the start of a block, and the most columns that spaces take up there. -/
def blockStart : Nat → List Char → Nat → Cursor → List Char × Nat × Cursor
  | 0, found, widest, p => (found.reverse, widest, p)
  | size + 1, found, widest, p =>
    let p := p.skipSpaces
    let widest := max widest p.column
    match p.lineBreak? with
    | none => (found.reverse, widest, p)
    | some (c, p) => blockStart size (c :: found) widest p

def skipIndent (indent : Nat) (p : Cursor) : Cursor :=
  p.skip ((p.rest.take (indent - p.column)).takeWhile (· = ' ')).length

/-- The line ends that come next, with the indentation after each. -/
def blockBreaks (indent : Nat) : Nat → List Char → Cursor → List Char × Cursor
  | 0, found, p => (found.reverse, p)
  | size + 1, found, p =>
    let p := skipIndent indent p
    match p.lineBreak? with
    | none => (found.reverse, p)
    | some (c, p) => blockBreaks indent size (c :: found) p

def startsBlank (next : Option Char) : Bool := next = some ' ' || next = some '\t'

/-- The line ends between two lines of a block. A folded block joins lines that
do not start with a blank. -/
def blockJoint (folded startedBlank : Bool) (ending later : List Char) (p : Cursor) :
    List Char :=
  if folded && ending = ['\n'] && !startedBlank && !startsBlank p.head? then
    if later.isEmpty then [' '] else later
  else ending ++ later

/-- The line ends after a block that belong to it. -/
def Chomping.tail (ending later : List Char) : Chomping → List Char
  | .strip => []
  | .clip => ending
  | .keep => ending ++ later

/-- The lines of a block from one on, at its start after the line ends before it. -/
def blockLines (folded : Bool) (chomping : Chomping) (indent : Nat) :
    Nat → List Char → Cursor → List Char × Cursor
  | 0, found, p => (found, p)
  | size + 1, found, p =>
    let startedBlank := startsBlank p.head?
    let (text, p) := p.run (!isBreak ·)
    let (ending, p) :=
      match p.lineBreak? with
      | some (c, p) => ([c], p)
      | none => ([], p)
    let (later, p) := blockBreaks indent (p.rest.length + 1) [] p
    if p.column = indent && !p.rest.isEmpty then
      blockLines folded chomping indent size
        (found ++ text ++ blockJoint folded startedBlank ending later p) p
    else (found ++ text ++ chomping.tail ending later, p)

/-- A block below a collection at a column, its opening mark included. -/
def blockScalar (folded : Bool) (parent : Option Nat) (p : Cursor) :
    Reading (List Char × Cursor) := do
  let (chomping, increment, p) ← blockHeader p.next
  let least := parent.elim 1 (· + 1)
  let (later, indent, p) :=
    match increment with
    | none =>
      let (later, widest, p) := blockStart (p.rest.length + 1) [] 0 p
      (later, max least widest, p)
    | some n =>
      let indent := least + n - 1
      let (later, p) := blockBreaks indent (p.rest.length + 1) [] p
      (later, indent, p)
  if p.column = indent && !p.rest.isEmpty then
    return blockLines folded chomping indent (p.rest.length + 1) later p
  else return (chomping.tail [] later, p)

end Settings.Document.Yaml
