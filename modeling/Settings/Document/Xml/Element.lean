import Settings.Text.Blank
import Settings.Value

/-! # Element trees

An element as a nested mapping: its attributes under keys that start with `@`,
its text under `#text`, and its child elements under their tags, where several
of one tag make a list. An element without attributes and children is its text.
-/

namespace Settings.Document.Xml

open Settings.Text

/-- An element with its attributes, the text before its first child, and its children. -/
inductive Element
  | mk (tag : String) (attributes : List (String × String)) (text : String)
      (children : List Element)

namespace Element

def tag : Element → String
  | mk tag .. => tag

def attributes : Element → List (String × String)
  | mk _ attributes .. => attributes

def text : Element → String
  | mk _ _ text _ => text

def children : Element → List Element
  | mk _ _ _ children => children

def enter (m : Mapping) (tag : String) (v : Value) : Mapping :=
  match m.get? (.str tag) with
  | none => m.insert (.str tag) v
  | some (.list items) => m.insert (.str tag) (.list (items ++ [v]))
  | some other => m.insert (.str tag) (.list [other, v])

def head (attributes : List (String × String)) (text : String) : Mapping :=
  let own := attributes.foldl (fun m a => Mapping.insert m (.str ("@" ++ a.1)) (.str a.2)) []
  if strip text = "" then own else own.insert (.str "#text") (.str (strip text))

mutual

def toMapping : Element → Mapping
  | mk _ attributes text children => enterAll (head attributes text) children

def toValue : Element → Value
  | mk _ [] text [] => .str (strip text)
  | mk _ attributes text children => .mapping (enterAll (head attributes text) children)

def enterAll (m : Mapping) : List Element → Mapping
  | [] => m
  | e :: es => enterAll (enter m e.tag (toValue e)) es

end

end Element

end Settings.Document.Xml
