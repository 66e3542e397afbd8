import Settings.Document.Yaml.Node
import Settings.Roster

/-! # Values of nodes

Nodes become values by their tags. The collections of a document are filled one
after the other, in the order in which they are met, so the first fault in that
order is the one that counts. Mappings under a merge key come before the entries
of the mapping that holds it; of several, the earlier ones win. A collection
that holds itself has no value.
-/

namespace Settings.Document.Yaml

/-- What a node is at first: a value, or a collection that is filled later. -/
inductive Part
  | value (v : Value)
  | collection (r : Ref)

inductive Filling
  | items (parts : List Part)
  | entries (parts : List (Value × Part))
  | pairs (parts : List (Part × Part))

structure Building where
  graph : Graph
  /-- The collections that have been met. -/
  met : Array Bool
  /-- The same collections in the order in which they were met. -/
  order : Array Ref

abbrev Builder (α : Type) := StateT Building Reading α

def nodeAt (r : Ref) : Builder Node := do return (← get).graph.getD r.index .empty

def replaceNode (r : Ref) (n : Node) : Builder Unit :=
  modify fun s => { s with graph := s.graph.setIfInBounds r.index n }

def Node.tag : Node → Tag
  | text tag _ | sequence tag _ | mapping tag _ => tag

/-- The entries before the first merge key, what is under it, and the entries after it. -/
def breakAtMerge? : List (Ref × Ref) →
    Builder (Option (List (Ref × Ref) × Ref × List (Ref × Ref)))
  | [] => return none
  | (k, v) :: rest => do
    if (← nodeAt k).tag = .merge then return some ([], v, rest)
    return (← breakAtMerge? rest).map fun (before, found) => ((k, v) :: before, found)

/-- Takes the key of the value that a mapping stands for as a text. -/
def plainKey (k : Ref) : Builder Unit := do
  match ← nodeAt k with
  | .text .standard cs => replaceNode k (.text .str cs)
  | _ => return ()

mutual

/-- The entries of a mapping, after those of the mappings under its merge keys
have been put in front. Each key is taken out before what is under it is looked
at, so a mapping may merge itself. -/
def flatten (merged : List (Ref × Ref)) : Nat → Ref → Builder (List (Ref × Ref))
  | 0, _ => throw .malformed
  | size + 1, r => do
    match ← nodeAt r with
    | .mapping tag entries =>
      match ← breakAtMerge? entries with
      | some (before, v, after) =>
        replaceNode r (.mapping tag (before ++ after))
        flatten (merged ++ (← mergedUnder size v)) size r
      | none =>
        entries.forM fun e => plainKey e.1
        replaceNode r (.mapping tag (merged ++ entries))
        return merged ++ entries
    | _ => throw .malformed

/-- The entries that a node under a merge key stands for: those of a mapping,
or of several, the last ones first. -/
def mergedUnder : Nat → Ref → Builder (List (Ref × Ref))
  | 0, _ => throw .malformed
  | size + 1, r => do
    match ← nodeAt r with
    | .mapping .. => flatten [] size r
    | .sequence _ items => return (← items.mapM (flatten [] size)).reverse.flatten
    | .text .. => throw .malformed

end

/-- How often a merge key comes in the mappings of a graph. -/
def Graph.mergeKeys (g : Graph) : Nat :=
  let count : Node → Nat
    | .mapping _ entries => entries.countP fun e => (g.getD e.1.index .empty).tag = .merge
    | _ => 0
  g.foldl (fun total n => total + count n) 0

/-- The text that a mapping stands for: that of the value under its standard key. -/
def standardText : Nat → Ref → Builder (List Char)
  | 0, _ => throw .malformed
  | depth + 1, r => do
    match ← nodeAt r with
    | .text _ cs => return cs
    | .sequence .. => throw .malformed
    | .mapping _ entries =>
      match ← entries.filterM fun e => do return (← nodeAt e.1).tag = .standard with
      | (_, v) :: _ => standardText depth v
      | [] => throw .malformed

def part (r : Ref) : Builder Part := do
  let n ← nodeAt r
  if n.tag.isCollection then
    let s ← get
    if !s.met.getD r.index true then
      set { s with met := s.met.setIfInBounds r.index true, order := s.order.push r }
    return .collection r
  else
    let text ← standardText ((← get).graph.size + 1) r
    return .value (← n.tag.scalar text)

def keyOf (r : Ref) : Builder Value := do
  match ← part r with
  | .value v => return v
  | .collection _ => throw .malformed

/-- The one entry of a mapping that stands in a sequence of pairs. -/
def pairOf (r : Ref) : Builder (Part × Part) := do
  match ← nodeAt r with
  | .mapping _ [(k, v)] => return (← part k, ← part v)
  | _ => throw .malformed

/-- What a collection is filled with, in a graph with at most so many merge keys. -/
def filling (mergeKeys : Nat) (r : Ref) : Builder Filling := do
  match ← nodeAt r with
  | .sequence .list items => return .items (← items.mapM part)
  | .sequence .pairs items => return .pairs (← items.mapM pairOf)
  | .mapping .mapping _ =>
    let entries ← flatten [] (2 * mergeKeys + 2) r
    return .entries (← entries.mapM fun (k, v) => do return (← keyOf k, ← part v))
  | _ => throw .malformed

/-- The fillings of the collections from one on, in the order in which they were met. -/
def fillFrom (mergeKeys : Nat) : Nat → Nat → Builder (List (Ref × Filling))
  | 0, _ => return []
  | size + 1, i => do
    match (← get).order[i]? with
    | none => return []
    | some r =>
      let filled ← filling mergeKeys r
      return (r, filled) :: (← fillFrom mergeKeys size (i + 1))

/-- Entries without those that a later one of the same key replaces. -/
def latest (entries : List (Value × Part)) : List (Value × Part) :=
  entries.foldl (fun found e => @Roster.put Value Part ⟨Value.same⟩ found e.1 e.2) []

/-- The value of a part. Collections nested deeper than there are any hold themselves. -/
def Part.toValue (filled : Array Filling) : Nat → Part → Reading Value
  | _, value v => .ok v
  | 0, collection _ => .error .malformed
  | depth + 1, collection r =>
    match filled.getD r.index (.items []) with
    | .items parts => do return .list (← parts.mapM (toValue filled depth))
    | .entries parts => do
      return .mapping (← (latest parts).mapM fun (k, p) => do
        return (k, ← toValue filled depth p))
    | .pairs parts => do
      return .list (← parts.mapM fun (k, p) => do
        return .tuple [← toValue filled depth k, ← toValue filled depth p])

def Graph.toValue (g : Graph) (root : Ref) : Reading Value := do
  let fillAll : Builder (Part × List (Ref × Filling)) := do
    return (← part root, ← fillFrom g.mergeKeys g.size 0)
  let ((top, filled), s) ← fillAll.run ⟨g, Array.replicate g.size false, #[]⟩
  let table := filled.foldl (fun (a : Array Filling) (r, f) => a.setIfInBounds r.index f)
    (Array.replicate g.size (.items []))
  top.toValue table (s.order.size + 1)

end Settings.Document.Yaml
