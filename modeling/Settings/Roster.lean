/-! # Rosters

Named things in the order in which their names were first entered. Entering a
name again replaces its thing and keeps its place.
-/

namespace Settings

abbrev Roster (κ α : Type) := List (κ × α)

namespace Roster

variable {κ α : Type} [BEq κ]

def get? (r : Roster κ α) (name : κ) : Option α := r.lookup name

def put : Roster κ α → κ → α → Roster κ α
  | [], name, a => [(name, a)]
  | (n, b) :: rest, name, a =>
    if n == name then (n, a) :: rest else (n, b) :: put rest name a

def drop (r : Roster κ α) (name : κ) : Roster κ α := r.filter fun e => !(e.1 == name)

def names (r : Roster κ α) : List κ := r.map (·.1)

end Roster

end Settings
