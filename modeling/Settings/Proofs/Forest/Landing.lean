import Settings.Proofs.Forest.Chains
import Settings.Proofs.Forest.Insertion

/-! # Where a new node lands

A node is created behind its namesakes, whatever index its part has. So a key leads to the node
that is inserted for it when the indices of the created branch are those at which its nodes come
to stand, and otherwise the insertion changes nothing about where the key leads.
-/

namespace Settings.Forest

variable {f : Forest} {c child i p r : NodeId} {value : Value} {part last : KeyPart}
  {path : List KeyPart}

def IsNext (f : Forest) (p : NodeId) (part : KeyPart) : Prop :=
  ∀ index ∈ part.index?, index = (f.childrenNamed p (some part.name)).length

/-- The indices of the parts for which nodes are created are those at which these come to stand:
the first of them behind its namesakes, the others alone. -/
def InTurn (f : Forest) (last : KeyPart) : NodeId → List KeyPart → Prop
  | p, [] => f.IsNext p last
  | p, part :: path =>
    match f.descend? p part with
    | some child => f.InTurn last child path
    | none => f.IsNext p part ∧ ∀ later ∈ path ++ [last], ∀ index ∈ later.index?, index = 0

instance : Decidable (f.IsNext p part) :=
  inferInstanceAs (Decidable (∀ index ∈ part.index?, index = _))

theorem inTurn_of_descend (h : f.descend? p part = some child) :
    f.InTurn last p (part :: path) ↔ f.InTurn last child path := by
  rw [InTurn, h]

theorem inTurn_of_no_descend (h : f.descend? p part = none) :
    f.InTurn last p (part :: path) ↔
      f.IsNext p part ∧ ∀ later ∈ path ++ [last], ∀ index ∈ later.index?, index = 0 := by
  rw [InTurn, h]

instance (last : KeyPart) : (p : NodeId) → (path : List KeyPart) → Decidable (f.InTurn last p path)
  | p, [] => inferInstanceAs (Decidable (f.IsNext p last))
  | p, part :: path =>
    match h : f.descend? p part with
    | some child =>
      have := instDecidableInTurn last child path
      decidable_of_iff _ (inTurn_of_descend h).symm
    | none => decidable_of_iff _ (inTurn_of_no_descend h).symm

theorem isNext_of_leaf (h : (f.node p).children = []) :
    f.IsNext p part ↔ ∀ index ∈ part.index?, index = 0 := by
  simp [IsNext, childrenNamed, h]

theorem inTurn_of_leaf (h : (f.node p).children = []) :
    f.InTurn last p path ↔
      ∀ later ∈ path ++ [last], ∀ index ∈ later.index?, index = 0 := by
  cases path with
  | nil => simp [InTurn, isNext_of_leaf h]
  | cons part path =>
    rw [inTurn_of_no_descend (descend?_of_leaf h part), isNext_of_leaf h, List.cons_append,
      List.forall_mem_cons]

theorem mem_step_of_descend (hkind : part.isAttribute = false)
    (h : f.descend? p part = some child) : child ∈ f.step p part := by
  match part with
  | .element name none => exact List.mem_of_getLast? h
  | .element name (some index) => exact Option.mem_toList.2 h
  | .attr name => cases hkind

theorem step_of_no_descend (hkind : part.isAttribute = false) (h : f.descend? p part = none) :
    f.step p part = [] := by
  match part with
  | .element name none => exact List.getLast?_eq_none_iff.1 h
  | .element name (some index) => exact congrArg Option.toList h
  | .attr name => cases hkind

theorem getElem?_concat_iff {α : Type} {l : List α} {a b : α} {index : Nat} :
    (l ++ [a])[index]? = some b ↔ l[index]? = some b ∨ b = a ∧ index = l.length := by
  rcases Nat.lt_trichotomy index l.length with hlt | rfl | hgt
  · simp [List.getElem?_append_left hlt, Nat.ne_of_lt hlt]
  · simp [eq_comm]
  · have hout : (l ++ [a])[index]? = none :=
      List.getElem?_eq_none (by simpa [Nat.succ_le_iff] using hgt)
    simp [hout, List.getElem?_eq_none (Nat.le_of_lt hgt), Nat.ne_of_gt hgt]

theorem mem_step_createLinked_iff (hf : f.WellFormed) (hp : f.Has p) :
    c ∈ (f.createLinked p part.name value part.isAttribute).2.step p part ↔
      c ∈ f.step p part ∨ c = ⟨f.size⟩ ∧ f.IsNext p part := by
  by_cases hindex : part.index? = none
  · simp [step_createLinked hf hp hindex value, IsNext, hindex]
  · match part with
    | .element name (some index) =>
      have hnamed : (f.createLinked p name value false).2.childrenNamed p (some name) =
          f.childrenNamed p (some name) ++ [⟨f.size⟩] := by
        have hplain : (KeyPart.element name none).index? = none := rfl
        exact step_createLinked hf hp hplain value
      simp only [KeyPart.name, KeyPart.isAttribute, step, hnamed, Option.mem_toList,
        getElem?_concat_iff, IsNext, KeyPart.index?, Option.mem_def,
        Option.some.injEq, forall_eq']
    | .element name none => exact absurd rfl hindex
    | .attr name => exact absurd rfl hindex

theorem reaches_insertNode_of_apart {place : Insertion} {parts : List KeyPart} (hf : f.WellFormed)
    (hp : f.Has place.parent) (hc : f.Has c) (h : ¬ f.Above c place.parent) :
    (f.insertNode place value).2.Reaches c parts i ↔ f.Reaches c parts i := by
  refine hf.reaches_congr fun q ha part => step_insertNode_of_ne hf hp ?_ ?_ value part
  · cases ha with
    | here => exact hc
    | up hq _ => exact has_of_parent hq
  · rintro rfl
    exact h ha

theorem reaches_insertNode_of_descend (hf : f.WellFormed) (hkind : part.isAttribute = false)
    (hdescend : f.descend? r part = some child)
    (h : (f.insertNode (f.place child path last) value).2.Reaches child (path ++ [last]) i ↔
      f.Reaches child (path ++ [last]) i ∨
        i = (f.insertNode (f.place child path last) value).1 ∧ f.InTurn last child path) :
    (f.insertNode (f.place r (part :: path) last) value).2.Reaches r (part :: (path ++ [last])) i ↔
      f.Reaches r (part :: (path ++ [last])) i ∨
        i = (f.insertNode (f.place r (part :: path) last) value).1 ∧
          f.InTurn last r (part :: path) := by
  have hmem := mem_step_of_descend hkind hdescend
  have hparent := hf.parent_of_mem_step hmem
  have hplace : f.Has (f.place child path last).parent := hf.has_deepest (has_of_parent hparent)
  have hstep := step_insertNode_of_ne hf hplace (hf.has_parent hparent)
    (ne_deepest_of_descend hf hdescend path) value part
  have hother : ∀ c ∈ f.step r part, c ≠ child →
      ((f.insertNode (f.place child path last) value).2.Reaches c (path ++ [last]) i ↔
        f.Reaches c (path ++ [last]) i) := by
    intro c hc hne
    have hcparent := hf.parent_of_mem_step hc
    refine reaches_insertNode_of_apart hf hplace (has_of_parent hcparent) fun ha => hne ?_
    exact hf.eq_of_above hcparent hparent ha (above_deepest hf.consistent child path)
  rw [place_of_descend hdescend, inTurn_of_descend hdescend, reaches_cons_iff, reaches_cons_iff,
    hstep]
  constructor
  · rintro ⟨c, hc, hreaches⟩
    by_cases hne : c = child
    · rw [hne, h] at hreaches
      exact hreaches.imp_left fun hold => ⟨child, hmem, hold⟩
    · exact .inl ⟨c, hc, (hother c hc hne).1 hreaches⟩
  · rintro (⟨c, hc, hreaches⟩ | hnew)
    · by_cases hne : c = child
      · exact ⟨child, hmem, h.2 (.inl (hne ▸ hreaches))⟩
      · exact ⟨c, hc, (hother c hc hne).2 hreaches⟩
    · exact ⟨child, hmem, h.2 (.inr hnew)⟩

/-- What lands below the node that is created for a part lands below its parent, if that node is
the next of its name. -/
theorem reaches_insertNode_of_missing (hf : f.WellFormed) (hr : f.Has r)
    (hkind : part.isAttribute = false) (hmissing : f.descend? r part = none)
    (h : let g := (f.createLinked r part.name .null false).2
      (g.insertNode (g.place ⟨f.size⟩ path last) value).2.Reaches ⟨f.size⟩ (path ++ [last]) i ↔
        g.Reaches ⟨f.size⟩ (path ++ [last]) i ∨
          i = (g.insertNode (g.place ⟨f.size⟩ path last) value).1 ∧
            g.InTurn last ⟨f.size⟩ path) :
    (f.insertNode (f.place r (part :: path) last) value).2.Reaches r (part :: (path ++ [last])) i ↔
      f.Reaches r (part :: (path ++ [last])) i ∨
        i = (f.insertNode (f.place r (part :: path) last) value).1 ∧
          f.InTurn last r (part :: path) := by
  have hnew : (f.createLinked r part.name .null false).2.Has ⟨f.size⟩ :=
    has_createLinked.2 (.inr rfl)
  have hwf : (f.createLinked r part.name .null false).2.WellFormed := hf.createLinked hr
  have hleaf (b : Bool) :
      ((f.createLinked r part.name .null false).2.node ⟨f.size⟩).linked b = [] := by
    rw [node_createLinked hf.consistent hr, if_pos rfl]
    cases b <;> rfl
  have hcreated (c : NodeId) : c ∈ (f.createLinked r part.name .null false).2.step r part ↔
      c = ⟨f.size⟩ ∧ f.IsNext r part := by
    have hmem : c ∈ (f.createLinked r part.name .null part.isAttribute).2.step r part ↔ _ :=
      mem_step_createLinked_iff hf hr
    rw [step_of_no_descend hkind hmissing, hkind] at hmem
    simpa using hmem
  have hold : r ≠ ((f.createLinked r part.name .null false).2.place ⟨f.size⟩ path last).parent := by
    rw [place, deepest_of_leaf (hleaf false)]
    exact hr.ne_new
  have hstep := step_insertNode_of_ne hwf (hwf.has_deepest hnew) (has_createLinked.2 (.inl hr)) hold
    value part
  have hnowhere : ¬ (f.createLinked r part.name .null false).2.Reaches ⟨f.size⟩
      (path ++ [last]) i := by
    rw [← mem_follow_root_iff, follow_of_leaf hleaf]
    exact List.not_mem_nil
  dsimp only at h
  rw [inTurn_of_leaf (hleaf false), or_iff_right hnowhere] at h
  rw [insertNode_of_missing hf hr hmissing, inTurn_of_no_descend hmissing, reaches_cons_iff,
    reaches_cons_iff, step_of_no_descend hkind hmissing, hstep]
  constructor
  · rintro ⟨c, hc, hreaches⟩
    obtain ⟨rfl, hnext⟩ := (hcreated c).1 hc
    obtain ⟨hi, hlater⟩ := h.1 hreaches
    exact .inr ⟨hi, hnext, hlater⟩
  · rintro (⟨c, hc, -⟩ | ⟨hi, hnext, hlater⟩)
    · exact absurd hc List.not_mem_nil
    · exact ⟨⟨f.size⟩, (hcreated _).2 ⟨rfl, hnext⟩, h.2 ⟨hi, hlater⟩⟩

/-- The key leads to where it led and, if the new nodes come to stand at its indices, to the
inserted one. -/
theorem reaches_insertNode_iff (hf : f.WellFormed) (hr : f.Has r)
    (hkinds : ∀ part ∈ path, part.isAttribute = false) :
    (f.insertNode (f.place r path last) value).2.Reaches r (path ++ [last]) i ↔
      f.Reaches r (path ++ [last]) i ∨
        i = (f.insertNode (f.place r path last) value).1 ∧ f.InTurn last r path := by
  induction path generalizing f r with
  | nil =>
    rw [insertNode_place_nil, createLinked_fst, List.nil_append]
    simp [reaches_cons_iff, mem_step_createLinked_iff hf hr, InTurn, and_comm]
  | cons part path ih =>
    have hkind := hkinds part List.mem_cons_self
    have ih {f : Forest} {child : NodeId} (hf : f.WellFormed) (hchild : f.Has child) :=
      ih hf hchild fun part' hpart => hkinds part' (.tail part hpart)
    cases hdescend : f.descend? r part with
    | some child =>
      have hchild : f.Has child := hf.has_of_mem (b := false) (mem_children_of_descend? hdescend)
      exact reaches_insertNode_of_descend hf hkind hdescend (ih hf hchild)
    | none =>
      exact reaches_insertNode_of_missing hf hr hkind hdescend
        (ih (hf.createLinked hr) (has_createLinked.2 (.inr rfl)))

end Settings.Forest
