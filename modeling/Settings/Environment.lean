import Settings.Fault
import Settings.Merge
import Settings.Scalar
import Settings.Text.Lowercase
import Settings.Text.Search

/-! # Environment variables

Variables whose names start with a given stem are read as one nested mapping.
Double underscores in the rest of a name separate the keys of a path, which
are in lower case; empty keys are dropped.
-/

namespace Settings

open Settings.Text

/-- The variables with their values, in the order in which they are listed. -/
abbrev Environment := List (String × String)

namespace Environment

def get? (e : Environment) (name : String) : Option String := e.lookup name

/-- The path of keys written by the rest of a variable's name. -/
def path (rest : List Char) : List String :=
  ((splitAt ['_', '_'] (by simp) rest).filter (!·.isEmpty)).map
    fun cs => lowercase (String.ofList cs)

def nest (value : Value) : List String → Value
  | [] => value
  | key :: keys => .mapping [(.str key, nest value keys)]

/-- The mapping written by one variable, when its name has the stem and a path. -/
def ofBinding? (stem : List Char) (binding : String × String) : Option Mapping := do
  let rest ← after? stem binding.1.toList
  match nest (readScalar binding.2) (path rest) with
  | .mapping entries => if (path rest).isEmpty then none else some entries
  | _ => none

/-- The variables with a stem as one mapping, later variables laid over
earlier ones; none if there are no such variables. -/
def load (e : Environment) (stem : String) : Option Mapping :=
  match (e.filterMap (ofBinding? stem.toList)).foldl Mapping.merge [] with
  | [] => none
  | merged => some merged

end Environment

end Settings
