import Settings.File.Path

/-! # Directories

The files of the working directory by their paths. What lies above a file is a
directory, and so is everything above the working directory, where nothing else
is known.
-/

namespace Settings

inductive FileEntry
  | directory
  | file (bytes : ByteArray)

abbrev Directory := List (List String × FileEntry)

namespace Directory

def look? (d : Directory) (names : List String) : Option FileEntry :=
  match d.lookup names with
  | some e => some e
  | none =>
    if names.isEmpty || d.any (fun e => names.isPrefixOf e.1) then some .directory else none

/-- The entry at the end of names, starting from a directory whose own names
are given last first. Two dots lead back up, from directories only; above the
working directory nothing but further directories is found. -/
def walk? (d : Directory) (here : List String) : List String → Option FileEntry
  | [] => d.look? here.reverse
  | name :: names =>
    match d.look? here.reverse with
    | some .directory =>
      if name = ".." then
        match here with
        | [] => if names.all (· = "..") then some .directory else none
        | _ :: above => d.walk? above names
      else d.walk? (name :: here) names
    | _ => none

def find? (d : Directory) (p : Path) : Option FileEntry :=
  if p.root = "" then d.walk? [] p.names else none

end Directory

end Settings
