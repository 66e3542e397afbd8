import Settings.Document.Toml.Value

/-! # TOML documents

Lines that enter values, open tables, or add tables to arrays. A table can be
opened by a header once, inline collections are closed, and dotted keys open
tables of their own.
-/

namespace Settings.Document.Toml

structure State where
  table : Mapping
  header : List String
  /-- Paths of tables that no header and no dotted key may open. -/
  opened : List (List String)
  /-- Paths that join `opened` at the next header. -/
  pending : List (List String)
  closed : List (List String)

def State.start : State := ⟨[], [], [], [], []⟩

/-- The proper prefixes of a key below the table under way, the shortest first. -/
def containers (header key : List String) : List (List String) :=
  (List.range (key.length - 1)).map fun i => header ++ key.take (i + 1)

def State.enter (s : State) (key : List String) (v : Value) : Reading State := do
  let within := containers s.header key
  if within.any s.opened.contains then throw .malformed
  let above := s.header ++ key.dropLast
  if isWithin s.closed above then throw .malformed
  let table ← alterTable true (enterNew (key.getLastD "") v) s.table above
  return { s with
    table, pending := s.pending ++ within,
    closed := if isCollection v then (s.header ++ key) :: s.closed else s.closed }

/-- Lets the pending paths join the opened ones. -/
def State.settle (s : State) : State := { s with opened := s.pending ++ s.opened, pending := [] }

def State.openTable (s : State) (key : List String) : Reading State := do
  let s := s.settle
  if s.opened.contains key || isWithin s.closed key then throw .malformed
  let table ← alterTable true pure s.table key
  return { s with table, header := key, opened := key :: s.opened }

def State.addTable (s : State) (key : List String) : Reading State := do
  let s := s.settle
  if isWithin s.closed key then throw .malformed
  let last := Value.str (key.getLastD "")
  let add (table : Mapping) : Reading Mapping :=
    match table.get? last with
    | none => .ok (table.insert last (.list [.mapping []]))
    | some (.list tables) => .ok (table.insert last (.list (tables ++ [.mapping []])))
    | some _ => .error .malformed
  let table ← alterTable true add s.table key.dropLast
  return { s with
    table, header := key,
    opened := key :: s.opened.filter (!key.isPrefixOf ·),
    closed := s.closed.filter (!key.isPrefixOf ·) }

def State.statement (s : State) (cs : List Char) : Reading (State × List Char) := do
  match cs with
  | '[' :: '[' :: rest =>
    let (key, rest) ← readKey (skipSpace rest)
    return (← s.addTable key, ← required (Text.after? [']', ']'] rest))
  | '[' :: rest =>
    let (key, rest) ← readKey (skipSpace rest)
    return (← s.openTable key, ← required (Text.after? [']'] rest))
  | _ =>
    let (key, rest) ← readKey cs
    let rest ← required (Text.after? ['='] rest)
    let (v, rest) ← value (rest.length + 1) (skipSpace rest)
    return (← s.enter key v, rest)

def statements : Nat → State → List Char → Reading State
  | 0, _, _ => throw .malformed
  | size + 1, s, cs => do
    match skipSpace cs with
    | [] => return s
    | '\n' :: rest => statements size s rest
    | c :: rest =>
      let (s, rest) ← if c = '#' then pure (s, c :: rest) else s.statement (c :: rest)
      match ← skipComment (skipSpace rest) with
      | [] => return s
      | '\n' :: rest => statements size s rest
      | _ => throw .malformed

/-- Line ends of two characters as single ones; a lone carriage return is no line end. -/
def joinLineEnds : List Char → List Char
  | '\r' :: '\n' :: rest => '\n' :: joinLineEnds rest
  | c :: rest => c :: joinLineEnds rest
  | [] => []

def read (cs : List Char) : Reading Value := do
  let body := joinLineEnds cs
  return .mapping (← statements (body.length + 1) .start body).table

end Settings.Document.Toml
