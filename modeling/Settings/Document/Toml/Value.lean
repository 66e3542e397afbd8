import Settings.Document.Toml.Text
import Settings.Value

/-! # Values in TOML

Texts, numbers, truth values, arrays and inline tables. What is below a table
is found and changed along a path of keys.
-/

namespace Settings.Document.Toml

open Settings.Decimal

/-- Digits of a class with single underscores between them, at the start of a text. -/
def digitRun (isDigit : Char → Bool) : List Char → List Char
  | [] => []
  | [c] => if isDigit c then [c] else []
  | c :: '_' :: d :: rest =>
    if isDigit c then
      if isDigit d then c :: '_' :: digitRun isDigit (d :: rest) else [c]
    else []
  | c :: rest => if isDigit c then c :: digitRun isDigit rest else []

def isBinary (c : Char) : Bool := c = '0' || c = '1'

def isOctal (c : Char) : Bool := '0' ≤ c && c ≤ '7'

def isHex (c : Char) : Bool := (hexValue? c).isSome

def basedInteger? (base : Nat) (isDigit : Char → Bool) (cs : List Char) :
    Option (Value × List Char) := do
  let run := digitRun isDigit cs
  if run.isEmpty then none
  return (.int (← ofBase? base (run.filter (· ≠ '_'))), cs.drop run.length)

/-- What follows a mark and at least one digit, the mark included. -/
def markedRun (mark : List Char) (cs : List Char) : List Char :=
  let run := digitRun Char.isDigit (cs.drop mark.length)
  if run.isEmpty then [] else mark ++ run

def fraction (cs : List Char) : List Char :=
  if cs.head? = some '.' then markedRun ['.'] cs else []

def power (cs : List Char) : List Char :=
  match cs with
  | e :: sign :: _ =>
    if isPowerMark e then
      markedRun (if sign = '+' || sign = '-' then [e, sign] else [e]) cs
    else []
  | _ => []

/-- An integer or a double in decimal notation, without leading zeros. -/
def decimalNumber (cs : List Char) : Reading (Value × List Char) := do
  let sign := if cs.head? = some '+' || cs.head? = some '-' then cs.take 1 else []
  let body := cs.drop sign.length
  let whole := if body.head? = some '0' then ['0'] else digitRun Char.isDigit body
  if whole.isEmpty then throw .malformed
  let rest := body.drop whole.length
  let part := fraction rest
  let part := part ++ power (rest.drop part.length)
  let rest := rest.drop part.length
  if part.isEmpty then return (.int (← decimalInteger (sign ++ whole)), rest)
  else return (.float (← required (readFloat? (sign ++ whole ++ part))), rest)

def number (cs : List Char) : Reading (Value × List Char) :=
  let based :=
    match cs with
    | '0' :: 'x' :: rest => basedInteger? 16 isHex rest
    | '0' :: 'b' :: rest => basedInteger? 2 isBinary rest
    | '0' :: 'o' :: rest => basedInteger? 8 isOctal rest
    | _ => none
  match based with
  | some found => .ok found
  | none => decimalNumber cs

def word? (cs : List Char) : Option (Value × List Char) :=
  match cs with
  | 't' :: 'r' :: 'u' :: 'e' :: rest => some (.bool true, rest)
  | 'f' :: 'a' :: 'l' :: 's' :: 'e' :: rest => some (.bool false, rest)
  | 'i' :: 'n' :: 'f' :: rest | '+' :: 'i' :: 'n' :: 'f' :: rest => some (.float infinity, rest)
  | '-' :: 'i' :: 'n' :: 'f' :: rest => some (.float (-infinity), rest)
  | 'n' :: 'a' :: 'n' :: rest | '+' :: 'n' :: 'a' :: 'n' :: rest
  | '-' :: 'n' :: 'a' :: 'n' :: rest => some (.float notANumber, rest)
  | _ => none

/-- Applies a change to the table at a path. Missing tables are created; where
`intoArrays` holds, an array stands for its last table. -/
def alterTable (intoArrays : Bool) (change : Mapping → Reading Mapping) :
    Mapping → List String → Reading Mapping
  | table, [] => change table
  | table, key :: keys => do
    match table.get? (.str key) with
    | none =>
      return table.insert (.str key) (.mapping (← alterTable intoArrays change [] keys))
    | some (.mapping inner) =>
      return table.insert (.str key) (.mapping (← alterTable intoArrays change inner keys))
    | some (.list items) =>
      match items.getLast?, intoArrays with
      | some (.mapping inner), true =>
        let last ← alterTable intoArrays change inner keys
        return table.insert (.str key) (.list (items.dropLast ++ [.mapping last]))
      | _, _ => throw .malformed
    | some _ => throw .malformed

/-- Enters a value under a key that the table does not hold yet. -/
def enterNew (key : String) (v : Value) (table : Mapping) : Reading Mapping :=
  if table.contains (.str key) then .error .malformed else .ok (table.insert (.str key) v)

def isCollection : Value → Bool
  | .list _ | .mapping _ => true
  | _ => false

/-- The rest after blanks, line ends and comments between the items of an array. -/
def skipBetween : Nat → List Char → Reading (List Char)
  | 0, cs => .ok cs
  | size + 1, cs =>
    match skipSpaceAndLines cs with
    | '#' :: rest => do skipBetween size (← skipComment ('#' :: rest))
    | rest => .ok rest

def skipItems (cs : List Char) : Reading (List Char) := skipBetween (cs.length + 1) cs

def isWithin (paths : List (List String)) (path : List String) : Bool :=
  paths.any (·.isPrefixOf path)

mutual

/-- One value; every value inside it takes up at least one character. -/
def value : Nat → List Char → Reading (Value × List Char)
  | 0, _ => throw .malformed
  | size + 1, cs =>
    match cs with
    | '"' :: _ | '\'' :: _ => do
      let (text, rest) ← required (text? cs)
      return (.str (String.ofList text), rest)
    | '[' :: rest => do
      match ← skipItems rest with
      | ']' :: rest => return (.list [], rest)
      | rest => items size [] rest
    | '{' :: rest =>
      match skipSpace rest with
      | '}' :: rest => return (.mapping [], rest)
      | rest => fields size [] [] rest
    | _ =>
      match word? cs with
      | some found => .ok found
      | none => number cs

def items : Nat → List Value → List Char → Reading (Value × List Char)
  | 0, _, _ => throw .malformed
  | size + 1, found, cs => do
    let (v, rest) ← value size cs
    match ← skipItems rest with
    | ']' :: rest => return (.list (v :: found).reverse, rest)
    | ',' :: rest =>
      match ← skipItems rest with
      | ']' :: rest => return (.list (v :: found).reverse, rest)
      | rest => items size (v :: found) rest
    | _ => throw .malformed

/-- The rest of an inline table with the fields so far. Collections that are
complete cannot be extended by later keys. -/
def fields : Nat → Mapping → List (List String) → List Char → Reading (Value × List Char)
  | 0, _, _, _ => throw .malformed
  | size + 1, table, closed, cs => do
    let (key, rest) ← readKey cs
    match rest with
    | '=' :: rest =>
      let (v, rest) ← value size (skipSpace rest)
      if isWithin closed key then throw .malformed
      let table ← alterTable false (enterNew (key.getLastD "") v) table key.dropLast
      match skipSpace rest with
      | '}' :: rest => return (.mapping table, rest)
      | ',' :: rest =>
        fields size table (if isCollection v then key :: closed else closed) (skipSpace rest)
      | _ => throw .malformed
    | _ => throw .malformed

end

end Settings.Document.Toml
