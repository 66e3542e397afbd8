import Settings.Document.Reading
import Settings.Roster
import Settings.Scalar
import Settings.Text.Lowercase

/-! # INI documents

Sections of options. An option line that is followed by lines indented deeper
continues over them; blank lines count as part of the value unless they end
it. Options of the section `DEFAULT` belong to every section.
-/

namespace Settings.Document.Ini

open Settings.Text

/-- The lines of an option's value, the last one first. -/
abbrev Lines := List (List Char)

abbrev Options := Roster String Lines

structure State where
  /-- The sections read so far, apart from the default one. -/
  sections : Roster String Options
  defaults : Options
  current : Option String
  /-- The option that indented lines continue. -/
  option : Option String
  /-- Sections and options met so far, none of which may come twice. -/
  seen : List (String × Option String)
  indent : Nat

def State.start : State := ⟨[], [], none, none, [], 0⟩

def defaultSection : String := "DEFAULT"

def State.options (s : State) (name : String) : Options :=
  if name = defaultSection then s.defaults else (s.sections.get? name).getD []

def State.setOptions (s : State) (name : String) (options : Options) : State :=
  if name = defaultSection then { s with defaults := options }
  else { s with sections := s.sections.put name options }

/-- The name in a section header: what stands between the opening bracket at
the start and the last closing bracket. -/
def header? (line : List Char) : Option String :=
  match line with
  | '[' :: rest =>
    match breakAtLast? [']'] rest with
    | some (c :: name, _) => some (String.ofList (c :: name))
    | _ => none
  | _ => none

def isDelimiter (c : Char) : Bool := c = '=' || c = ':'

/-- The name and the value of an option line; the name is in lower case. -/
def option? (line : List Char) : Option (String × List Char) :=
  match line.dropWhile (!isDelimiter ·) with
  | [] => none
  | _ :: value =>
    let name := trimBoth isBlank (line.takeWhile (!isDelimiter ·))
    if name.isEmpty then none
    else some (lowercase (String.ofList name), trimBoth isBlank value)

def State.continue (s : State) (line : List Char) : State :=
  match s.current, s.option with
  | some name, some option =>
    let options := s.options name
    s.setOptions name (options.put option (line :: (options.get? option).getD []))
  | _, _ => s

/-- A header line starts or, for the default section, resumes a section. -/
def State.enter (s : State) (name : String) : Reading State :=
  if name = defaultSection then .ok { s with current := some name, option := none }
  else if s.seen.contains (name, none) then .error .malformed
  else
    .ok { s.setOptions name [] with
      current := some name, option := none, seen := (name, none) :: s.seen }

def State.start? (s : State) (line : List Char) : Reading State := do
  match s.current, option? line with
  | some name, some (option, value) =>
    if s.seen.contains (name, some option) then throw .malformed
    return { s.setOptions name ((s.options name).put option [value]) with
      option := some option, seen := (name, some option) :: s.seen }
  | _, _ => throw .malformed

def isComment (line : List Char) : Bool := line.head? = some '#' || line.head? = some ';'

def State.step (s : State) (line : List Char) : Reading State :=
  let text := trimBoth isBlank line
  if isComment text then .ok s
  else if text.isEmpty then .ok (s.continue [])
  else
    let depth := (line.takeWhile isBlank).length
    if s.option.isSome && s.indent < depth then .ok (s.continue text)
    else
      let s := { s with indent := depth }
      match header? text with
      | some name => s.enter name
      | none => s.start? text

def valueOf (lines : Lines) : Value :=
  let joined := List.intercalate ['\n'] lines.reverse
  readScalar (String.ofList ((joined.reverse.dropWhile isBlank).reverse))

/-- The options of a section over those of the default one. -/
def mappingOf (defaults options : Options) : Mapping :=
  (options.foldl (fun all o => Roster.put all o.1 o.2) defaults).map
    fun (name, lines) => (.str name, valueOf lines)

def read (cs : List Char) : Reading Value := do
  let s ← (Document.lines cs).foldlM State.step .start
  return .mapping (s.sections.map fun (name, options) =>
    (.str name, .mapping (mappingOf s.defaults options)))

end Settings.Document.Ini
