import Settings.Value

/-! # Merging mappings

An overriding mapping is laid over a base entry by entry. Where both hold a
mapping under a key the two are merged, everywhere else the override wins.
-/

namespace Settings

/-- The base with the entries of the second mapping laid over it. -/
def Mapping.merge (base : Mapping) : List (Value × Value) → Mapping
  | [] => base
  | (key, value) :: rest =>
    let laid :=
      match base.get? key, value with
      | some (.mapping old), .mapping new => .mapping (Mapping.merge old new)
      | _, _ => value
    Mapping.merge (base.insert key laid) rest

end Settings
