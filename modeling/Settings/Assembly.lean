import Settings.Schema
import Settings.Source

/-! # Assembling settings

Several sources are laid over one another in order and checked against a
schema.
-/

namespace Settings

/-- Sources in the order in which they are applied, at least one, and a schema,
which is null when there is none. -/
structure Assembly where
  sources : List Source
  schema : Value

namespace Assembly

def ofSources (sources : List Source) (schema : Value) : Except Fault Assembly :=
  if sources.isEmpty then .error .noSources else .ok ⟨sources, schema⟩

/-- Lays what a source yields over the settings merged so far. -/
def lay (out : Surroundings) (merged : Mapping) (source : Source) : Except Fault Mapping := do
  match ← source.load out with
  | .null => return merged
  | .mapping entries => return merged.merge entries
  | _ => throw (.sourceNotMapping source.shown)

def load (a : Assembly) (out : Surroundings) : Except Fault Mapping := do
  let merged ← a.sources.foldlM (lay out) []
  Schema.validate (.mapping merged) a.schema
  return merged

end Assembly

end Settings
