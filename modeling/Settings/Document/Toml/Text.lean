import Settings.Document.Reading

/-! # Texts and keys in TOML

Texts in quotes of either kind, on one line or on several, and dotted keys.
-/

namespace Settings.Document.Toml

open Settings.Text

def isSpace (c : Char) : Bool := c = ' ' || c = '\t'

def skipSpace (cs : List Char) : List Char := cs.dropWhile isSpace

def isIllegal (c : Char) : Bool := (c.toNat < 32 || c.toNat = 127) && c ≠ '\t'

def skipComment (cs : List Char) : Reading (List Char) :=
  match cs with
  | '#' :: rest =>
    if (rest.takeWhile (· ≠ '\n')).any isIllegal then .error .malformed
    else .ok (rest.dropWhile (· ≠ '\n'))
  | _ => .ok cs

def skipSpaceAndLines (cs : List Char) : List Char := cs.dropWhile fun c => isSpace c || c = '\n'

def escaped? : Char → Option Char
  | 'b' => some '\x08'
  | 't' => some '\t'
  | 'n' => some '\n'
  | 'f' => some '\x0c'
  | 'r' => some '\r'
  | '"' => some '"'
  | '\\' => some '\\'
  | _ => none

/-- The character with a code of so many hexadecimal digits, and the rest. -/
def coded? (width : Nat) (cs : List Char) : Option (Char × List Char) := do
  let digits := cs.take width
  if digits.length = width then return (← charOf? (← ofBase? 16 digits), cs.drop width) else none

/-- The rest after a backslash at the end of a line, which joins the lines. -/
def joined? (cs : List Char) : Option (List Char) :=
  match skipSpace cs with
  | '\n' :: rest => some (skipSpaceAndLines rest)
  | [] => some []
  | _ => none

/-- The rest of a text in double quotes, whose characters so far are given last
first. On several lines it ends at three quotes in a row. -/
def basicText (manyLines : Bool) : Nat → List Char → List Char →
    Option (List Char × List Char)
  | 0, _, _ => none
  | size + 1, found, cs =>
    match cs with
    | [] => none
    | '"' :: rest =>
      if !manyLines then some (found.reverse, rest)
      else
        match after? ['"', '"'] rest with
        | some rest => some (found.reverse, rest)
        | none => basicText manyLines size ('"' :: found) rest
    | '\\' :: 'u' :: rest => do
      let (c, rest) ← coded? 4 rest
      basicText manyLines size (c :: found) rest
    | '\\' :: 'U' :: rest => do
      let (c, rest) ← coded? 8 rest
      basicText manyLines size (c :: found) rest
    | '\\' :: c :: rest =>
      if manyLines && (isSpace c || c = '\n') then do
        basicText manyLines size found (← joined? (c :: rest))
      else do basicText manyLines size ((← escaped? c) :: found) rest
    | c :: rest =>
      if c = '\\' || (isIllegal c && !(manyLines && c = '\n')) then none
      else basicText manyLines size (c :: found) rest

def literalText (manyLines : Bool) (cs : List Char) : Option (List Char × List Char) := do
  let close := if manyLines then ['\'', '\'', '\''] else ['\'']
  let (text, rest) ← breakAt? close cs
  if text.any fun c => isIllegal c && !(manyLines && c = '\n') then none
  return (text, rest)

/-- Up to two more quotes at the end of a text on several lines belong to it. -/
def trailingQuotes (mark : Char) (text rest : List Char) : List Char × List Char :=
  let extra := (rest.takeWhile (· = mark)).take 2
  (text ++ extra, rest.drop extra.length)

/-- The text on several lines after its three opening quotes. A line end right
after these does not count. -/
def longText? (mark : Char) (cs : List Char) : Option (List Char × List Char) := do
  let body := (after? ['\n'] cs).getD cs
  let (text, rest) ←
    if mark = '"' then basicText true (body.length + 1) [] body else literalText true body
  return trailingQuotes mark text rest

def shortText? (cs : List Char) : Option (List Char × List Char) :=
  match cs with
  | '"' :: rest => basicText false (rest.length + 1) [] rest
  | '\'' :: rest => literalText false rest
  | _ => none

def text? (cs : List Char) : Option (List Char × List Char) :=
  match cs with
  | '"' :: '"' :: '"' :: rest => longText? '"' rest
  | '\'' :: '\'' :: '\'' :: rest => longText? '\'' rest
  | _ => shortText? cs

def isBareKeyChar (c : Char) : Bool := c.isAlphanum || c = '-' || c = '_'

def keyPart? (cs : List Char) : Option (String × List Char) :=
  match cs with
  | [] => none
  | c :: _ =>
    if isBareKeyChar c then
      some (String.ofList (cs.takeWhile isBareKeyChar), cs.dropWhile isBareKeyChar)
    else do
      let (text, rest) ← shortText? cs
      return (String.ofList text, rest)

/-- The parts of a dotted key, and the rest after it and its blanks. -/
def key? : Nat → List Char → Option (List String × List Char)
  | 0, _ => none
  | size + 1, cs => do
    let (part, rest) ← keyPart? cs
    match skipSpace rest with
    | '.' :: rest =>
      let (parts, rest) ← key? size (skipSpace rest)
      return (part :: parts, rest)
    | rest => return ([part], rest)

def readKey (cs : List Char) : Reading (List String × List Char) :=
  required (key? (cs.length + 1) cs)

end Settings.Document.Toml
