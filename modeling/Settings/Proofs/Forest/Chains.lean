import Settings.Proofs.Forest.Paths

/-! # Chains of parts

What the parts of a key lead to are the ends of chains: each node of a chain is linked to the
one before and bears the name of its part, and where the part has an index, it stands at that
index among its namesakes.
-/

namespace Settings.Forest

variable {f g : Forest} {c i p root : NodeId} {part : KeyPart} {parts rest : List KeyPart}
  {nodes : List NodeId}

/-- A node is the end of a chain that starts at another, with one link for each part. -/
inductive Reaches (f : Forest) : NodeId → List KeyPart → NodeId → Prop
  | here {i : NodeId} : Reaches f i [] i
  | attr {p a i : NodeId} {name : String} {parts : List KeyPart} :
      a ∈ (f.node p).attributes → (f.node a).name = some name → Reaches f a parts i →
      Reaches f p (.attr name :: parts) i
  | child {p c i : NodeId} {name : String} {parts : List KeyPart} :
      c ∈ (f.node p).children → (f.node c).name = some name → Reaches f c parts i →
      Reaches f p (.element name none :: parts) i
  | nth {p c i : NodeId} {name : String} {index : Nat} {parts : List KeyPart} :
      ((f.node p).children.filter fun c => (f.node c).name = some name)[index]? = some c →
      Reaches f c parts i → Reaches f p (.element name (some index) :: parts) i

@[simp] theorem reaches_nil_iff : f.Reaches p [] i ↔ i = p := by
  constructor
  · intro h
    cases h
    rfl
  · rintro rfl
    exact .here

theorem reaches_cons_iff :
    f.Reaches p (part :: parts) i ↔ ∃ c ∈ f.step p part, f.Reaches c parts i := by
  constructor
  · intro h
    cases h with
    | attr hmem hname h =>
      exact ⟨_, List.mem_filter.2 ⟨hmem, by simpa using hname⟩, h⟩
    | child hmem hname h =>
      exact ⟨_, List.mem_filter.2 ⟨hmem, by simpa using hname⟩, h⟩
    | nth hat h => exact ⟨_, Option.mem_toList.2 hat, h⟩
  · rintro ⟨c, hc, h⟩
    match part with
    | .attr name =>
      obtain ⟨hmem, hname⟩ := List.mem_filter.1 hc
      exact .attr hmem (by simpa using hname) h
    | .element name none =>
      obtain ⟨hmem, hname⟩ := List.mem_filter.1 hc
      exact .child hmem (by simpa using hname) h
    | .element name (some index) => exact .nth (Option.mem_toList.1 hc) h

theorem mem_follow_iff : i ∈ f.follow nodes parts ↔ ∃ p ∈ nodes, f.Reaches p parts i := by
  induction parts generalizing nodes with
  | nil => simp [follow]
  | cons part parts ih =>
    simp only [follow, ih, reaches_cons_iff, List.mem_flatMap]
    constructor
    · rintro ⟨c, ⟨p, hp, hc⟩, h⟩
      exact ⟨p, hp, c, hc, h⟩
    · rintro ⟨p, hp, c, hc, h⟩
      exact ⟨c, ⟨p, hp, hc⟩, h⟩

theorem mem_follow_root_iff : i ∈ f.follow [root] parts ↔ f.Reaches root parts i := by
  simp [mem_follow_iff]

theorem WellFormed.reaches_congr (hf : f.WellFormed)
    (h : ∀ q, f.Above p q → ∀ part, g.step q part = f.step q part) :
    g.Reaches p parts i ↔ f.Reaches p parts i := by
  rw [← mem_follow_root_iff, ← mem_follow_root_iff, hf.follow_congr (by simpa using h)]

theorem Reaches.above (h : f.Reaches p parts i) (hf : f.WellFormed) : f.Above p i := by
  induction parts generalizing p with
  | nil => exact reaches_nil_iff.1 h ▸ .here
  | cons part parts ih =>
    obtain ⟨c, hc, h⟩ := reaches_cons_iff.1 h
    exact (Above.of_parent (hf.parent_of_mem_step hc)).trans (ih h)

end Settings.Forest
