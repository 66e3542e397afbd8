import Settings.Text.Lowercase
import Settings.Text.Search

/-! # File paths

A path is a sequence of names, written with slashes. Doubled slashes and single
dots do not count; two dots do. The suffix of the last name, in lower case,
tells the format of a file.
-/

namespace Settings

open Settings.Text

/-- A path below the working directory, or below a root when it has one. -/
structure Path where
  root : String
  names : List String

namespace Path

/-- The slashes a path starts with: exactly two are kept, more count as one. -/
def rootOf (cs : List Char) : String :=
  match (cs.takeWhile (· = '/')).length with
  | 0 => ""
  | 2 => "//"
  | _ => "/"

def ofText (text : String) : Path :=
  let pieces := splitAtChar '/' text.toList
  ⟨rootOf text.toList, ((pieces.map String.ofList).filter fun p => p ≠ "" && p ≠ ".")⟩

def shown (p : Path) : String :=
  if p.root = "" && p.names.isEmpty then "." else p.root ++ "/".intercalate p.names

/-- From the last dot of the last name, unless the name starts or ends with it. -/
def suffix (p : Path) : String :=
  match breakAtLast? ['.'] (p.names.getLastD "").toList with
  | some (_ :: _, c :: after) => lowercase (String.ofList ('.' :: c :: after))
  | _ => ""

end Path

end Settings
