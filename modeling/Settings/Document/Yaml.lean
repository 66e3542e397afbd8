import Settings.Document.Yaml.Building

/-! # YAML documents

A text holds at most one document, whose root node has a value.
-/

namespace Settings.Document.Yaml

/-- The value of a document. One that holds nothing is the null value. -/
def read (cs : List Char) : Reading Value := do
  if !cs.all isAllowed then throw .malformed
  match ← document? (tokens cs) with
  | some (graph, root) => graph.toValue root
  | none => return .null

end Settings.Document.Yaml
