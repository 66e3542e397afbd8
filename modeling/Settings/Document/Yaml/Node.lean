import Settings.Document.Yaml.Layout
import Settings.Document.Yaml.Tag

/-! # Nodes in YAML

Tokens form tagged texts, sequences and mappings. Every node has an identity,
since an alias stands for the very node that its anchor marks; the anchor must
come before it, but may mark a node around it.
-/

namespace Settings.Document.Yaml

structure Ref where
  index : Nat
deriving DecidableEq

inductive Node
  | text (tag : Tag) (cs : List Char)
  | sequence (tag : Tag) (items : List Ref)
  | mapping (tag : Tag) (entries : List (Ref × Ref))

abbrev Graph := Array Node

def Node.empty : Node := .text (Tag.ofPlain []) []

instance : Inhabited Node := ⟨.empty⟩

structure NodeState where
  tokens : Tokens
  anchors : List (List Char × Ref)
  handles : List (List Char × List Char)
  graph : Graph

abbrev NodeReader (α : Type) := StateT NodeState Reading α

def reject {α : Type} : NodeReader α := throw .malformed

def peek : NodeReader (Option Token) := do
  match (← get).tokens with
  | ⟨t :: _, _⟩ => return some t
  | ⟨[], some fault⟩ => throw fault
  | ⟨[], none⟩ => return none

def advance : NodeReader Unit := modify fun s =>
  { s with tokens := { s.tokens with read := s.tokens.read.tail } }

def accept (t : Token) : NodeReader Bool := do
  if (← peek) = some t then
    advance
    return true
  else return false

def expect (t : Token) : NodeReader Unit := do
  if !(← accept t) then reject

def isBefore (ts : List Token) : NodeReader Bool := do return (← peek).any ts.contains

def enter (anchor : Option (List Char)) (n : Node) : NodeReader Ref := do
  let s ← get
  if anchor.any fun name => (s.anchors.lookup name).isSome then reject
  let r : Ref := ⟨s.graph.size⟩
  set { s with
    graph := s.graph.push n, anchors := (anchor.map fun name => (name, r)).toList ++ s.anchors }
  return r

def complete (r : Ref) (n : Node) : NodeReader Ref := do
  modify fun s => { s with graph := s.graph.setIfInBounds r.index n }
  return r

def enterEmpty : NodeReader Ref := enter none .empty

/-- What comes before a node to name it and to tell what it is. -/
structure Properties where
  anchor : Option (List Char)
  tag : Option (List Char)

def fullName (handle : Option (List Char)) (suffix : List Char) : NodeReader (List Char) := do
  match handle with
  | none => return suffix
  | some handle =>
    match (← get).handles.lookup handle with
    | some stem => return stem ++ suffix
    | none => reject

def anchor? : NodeReader (Option (List Char)) := do
  match ← peek with
  | some (.anchor name) =>
    advance
    return some name
  | _ => return none

def tag? : NodeReader (Option (List Char)) := do
  match ← peek with
  | some (.tag handle suffix) =>
    advance
    return some (← fullName handle suffix)
  | _ => return none

/-- An anchor and a tag, in any order. -/
def properties : NodeReader Properties := do
  match ← anchor? with
  | some name => return ⟨some name, ← tag?⟩
  | none =>
    let tag ← tag?
    return ⟨← anchor?, tag⟩

def collectionTag (usual : Tag) : Option (List Char) → Tag
  | none | some ['!'] => usual
  | some name => Tag.ofName name

/-- The tag of a text. Its form decides for plain texts and for the tag `!`. -/
def textTag (plain : Bool) (cs : List Char) : Option (List Char) → Tag
  | none => if plain then Tag.ofPlain cs else .str
  | some ['!'] => Tag.ofPlain cs
  | some name => Tag.ofName name

def aliased (name : List Char) : NodeReader Ref := do
  match (← get).anchors.lookup name with
  | some r => return r
  | none => reject

def sequence (found : Properties) (items : NodeReader (List Ref)) : NodeReader Ref := do
  let tag := collectionTag .list found.tag
  let r ← enter found.anchor (.sequence tag [])
  complete r (.sequence tag (← items))

def mapping (found : Properties) (entries : NodeReader (List (Ref × Ref))) :
    NodeReader Ref := do
  let tag := collectionTag .mapping found.tag
  let r ← enter found.anchor (.mapping tag [])
  complete r (.mapping tag (← entries))

/-- The tokens after which a value of a block mapping is missing. -/
def afterBlockPart : List Token := [.key, .value, .blockEnd]

mutual

/-- One node. With `mayAlign`, a block sequence may start in the column of the
mapping around it. -/
def node (inFlow mayAlign : Bool) : Nat → NodeReader Ref
  | 0 => reject
  | size + 1 => do
    match ← peek with
    | some (.alias name) =>
      advance
      aliased name
    | _ => content inFlow mayAlign (← properties) size

/-- A node after its properties. With properties it may be empty. -/
def content (inFlow mayAlign : Bool) (found : Properties) : Nat → NodeReader Ref
  | 0 => reject
  | size + 1 => do
    match ← peek with
    | some (.text plain cs) =>
      advance
      enter found.anchor (.text (textTag plain cs found.tag) cs)
    | some .openBracket =>
      advance
      sequence found (flowItems true size)
    | some .openBrace =>
      advance
      mapping found (flowEntries true size)
    | some .item => if mayAlign then sequence found (alignedItems size) else missing found
    | some .sequence =>
      if inFlow then missing found
      else
        advance
        sequence found (blockItems size)
    | some .mapping =>
      if inFlow then missing found
      else
        advance
        mapping found (blockEntries size)
    | _ => missing found

def missing (found : Properties) : NodeReader Ref :=
  if found.anchor.isNone && found.tag.isNone then reject
  else enter found.anchor (.text (textTag true [] found.tag) [])

/-- A node, unless one of the given tokens shows that there is none. -/
def nodeOrEmpty (inFlow mayAlign : Bool) (without : List Token) : Nat → NodeReader Ref
  | 0 => reject
  | size + 1 => do
    if ← isBefore without then enterEmpty else node inFlow mayAlign size

def blockItems : Nat → NodeReader (List Ref)
  | 0 => reject
  | size + 1 => do
    if ← accept .item then
      let first ← nodeOrEmpty false false [.item, .blockEnd] size
      return first :: (← blockItems size)
    else
      expect .blockEnd
      return []

/-- The items of a block sequence in the column of the mapping around it. -/
def alignedItems : Nat → NodeReader (List Ref)
  | 0 => reject
  | size + 1 => do
    if ← accept .item then
      let first ← nodeOrEmpty false false (.item :: afterBlockPart) size
      return first :: (← alignedItems size)
    else return []

def blockEntries : Nat → NodeReader (List (Ref × Ref))
  | 0 => reject
  | size + 1 => do
    if ← accept .blockEnd then return []
    expect .key
    let key ← nodeOrEmpty false true afterBlockPart size
    let value ←
      if ← accept .value then nodeOrEmpty false true afterBlockPart size else enterEmpty
    return (key, value) :: (← blockEntries size)

/-- The items of a flow sequence up to its bracket. A comma comes before each but the first. -/
def flowItems (first : Bool) : Nat → NodeReader (List Ref)
  | 0 => reject
  | size + 1 => do
    if ← accept .closeBracket then return []
    if !first then expect .comma
    if ← accept .key then
      let key ← nodeOrEmpty true false [.value, .comma, .closeBracket] size
      let value ←
        if ← accept .value then nodeOrEmpty true false [.comma, .closeBracket] size
        else enterEmpty
      let pair ← enter none (.mapping .mapping [(key, value)])
      return pair :: (← flowItems false size)
    else if ← accept .closeBracket then return []
    else
      let item ← node true false size
      return item :: (← flowItems false size)

def flowEntries (first : Bool) : Nat → NodeReader (List (Ref × Ref))
  | 0 => reject
  | size + 1 => do
    if ← accept .closeBrace then return []
    if !first then expect .comma
    if ← accept .key then
      let key ← nodeOrEmpty true false [.value, .comma, .closeBrace] size
      let value ←
        if ← accept .value then nodeOrEmpty true false [.comma, .closeBrace] size
        else enterEmpty
      return (key, value) :: (← flowEntries false size)
    else if ← accept .closeBrace then return []
    else
      let key ← node true false size
      let value ← enterEmpty
      return (key, value) :: (← flowEntries false size)

end

/-- The handles that every document has. -/
def standardHandles : List (List Char × List Char) :=
  [(['!'], ['!']), (['!', '!'], Tag.commonStem)]

/-- The directives before a document: at most one version, which is a first
one, and no handle twice. -/
def directives (versioned : Bool) (handles : List (List Char × List Char)) :
    List Token → Reading (List (List Char × List Char) × List Token)
  | .directive .unknown :: rest => directives versioned handles rest
  | .directive (.version major) :: rest =>
    if versioned || major ≠ 1 then .error .malformed else directives true handles rest
  | .directive (.handle name stem) :: rest =>
    if (handles.lookup name).isSome then .error .malformed
    else directives versioned ((name, stem) :: handles) rest
  | rest => .ok (handles ++ standardHandles, rest)

def isDivider : Token → Bool
  | .directive _ | .documentStart | .documentEnd => true
  | _ => false

/-- How to read the root of a document, the handles it may use, and the tokens from there on. -/
def opening (ts : Tokens) :
    Reading ((Nat → NodeReader Ref) × List (List Char × List Char) × Tokens) := do
  match ts.read with
  | .directive _ :: _ | .documentStart :: _ =>
    let (handles, rest) ← directives false [] ts.read
    match rest, ts.fault with
    | .documentStart :: rest, fault =>
      let isEmpty :=
        match rest with
        | t :: _ => isDivider t
        | [] => fault.isNone
      return (if isEmpty then fun _ => enterEmpty else node false false, handles, ⟨rest, fault⟩)
    | [], some fault => throw fault
    | _, _ => throw .malformed
  | _ => return (node false false, standardHandles, ts)

/-- The nodes of the one document that tokens form, and its root, if there is one. -/
def document? (ts : Tokens) : Reading (Option (Graph × Ref)) := do
  if ts.read.isEmpty && ts.fault.isNone then return none
  let (read, handles, rest) ← opening ts
  let (root, s) ← (read (4 * ts.read.length + 4)).run ⟨rest, [], handles, #[]⟩
  if !s.tokens.read.all (· = .documentEnd) then throw .malformed
  match s.tokens.fault with
  | some fault => throw fault
  | none => return some (s.graph, root)

end Settings.Document.Yaml
