import Settings.Proofs.Forest.Chains
import Settings.Proofs.Forest.DeadBranches

/-! # Moving up

An index counts the namesakes that are there. When the one at an index is taken away, the next
one moves up to it, and the key leads to what is below that one instead.
-/

namespace Settings.Forest

variable {f g : Forest} {c d i p root : NodeId} {name : String} {index : Nat} {part : KeyPart}
  {parts : List KeyPart} {gone is : List NodeId} {taken : NodeId → Prop}

/-- When nodes are taken away, a chain comes through one that stood behind one of them and gets
its index. -/
inductive MovesUp (f : Forest) (taken : NodeId → Prop) : NodeId → List KeyPart → NodeId → Prop
  | up {p d next i : NodeId} {name : String} {index : Nat} {parts : List KeyPart} :
      (f.childrenNamed p (some name))[index]? = some d → taken d →
      (f.childrenNamed p (some name))[index + 1]? = some next → f.Reaches next parts i →
      MovesUp f taken p (.element name (some index) :: parts) i
  | down {p c i : NodeId} {part : KeyPart} {parts : List KeyPart} :
      c ∈ f.step p part → ¬ taken c → MovesUp f taken c parts i →
      MovesUp f taken p (part :: parts) i

theorem WellFormed.parent_of_getElem? (hf : f.WellFormed)
    (h : (f.childrenNamed p (some name))[index]? = some c) : (f.node c).parent = some p :=
  ((hf.mem_children_iff p c).1 (List.mem_of_mem_filter (List.mem_of_getElem? h))).1

theorem WellFormed.nodup_childrenNamed (hf : f.WellFormed) (p : NodeId) (name : String) :
    (f.childrenNamed p (some name)).Nodup :=
  (hf.nodup_linked p false).filter _

theorem ne_of_getElem?_succ {l : List NodeId} (hnodup : l.Nodup) (hc : l[index]? = some c)
    (hd : l[index + 1]? = some d) : c ≠ d := by
  rintro rfl
  obtain ⟨hlt, -⟩ := List.getElem?_eq_some_iff.1 hc
  have heq := (List.getElem?_inj hlt hnodup).1 (hc.trans hd.symm)
  omega

namespace MovesUp

theorem above (h : f.MovesUp taken p parts i) (hf : f.WellFormed) : f.Above p i := by
  induction h with
  | up _ _ hnext hreaches =>
    exact (Above.of_parent (hf.parent_of_getElem? hnext)).trans (hreaches.above hf)
  | down hc _ _ ih => exact (Above.of_parent (hf.parent_of_mem_step hc)).trans ih

theorem not_reaches (h : f.MovesUp taken p parts i) (hf : f.WellFormed) :
    ¬ f.Reaches p parts i := by
  induction h with
  | @up p d next i name index parts hd _ hnext hreaches =>
    intro h
    obtain ⟨c, hc, h⟩ := reaches_cons_iff.1 h
    obtain rfl := Option.some.inj (hd.symm.trans (Option.mem_toList.1 hc))
    refine ne_of_getElem?_succ (hf.nodup_childrenNamed p name) hd hnext ?_
    exact hf.eq_of_above (hf.parent_of_getElem? hd) (hf.parent_of_getElem? hnext) (h.above hf)
      (hreaches.above hf)
  | down hc _ hmoves ih =>
    intro h
    obtain ⟨c, hc', h⟩ := reaches_cons_iff.1 h
    obtain rfl := hf.eq_of_above (hf.parent_of_mem_step hc) (hf.parent_of_mem_step hc')
      (hmoves.above hf) (h.above hf)
    exact ih h

end MovesUp

theorem filter_getElem?_of_taken {l : List NodeId} (hnodup : l.Nodup) (hd : l[index]? = some d)
    (hgone : d ∈ gone) (honly : ∀ x ∈ l, x ∈ gone → x = d) :
    (l.filter (· ∉ gone))[index]? = l[index + 1]? := by
  obtain ⟨hlt, rfl⟩ := List.getElem?_eq_some_iff.1 hd
  have herase : l.filter (· ∉ gone) = l.eraseIdx index := by
    rw [← hnodup.erase_getElem index hlt, hnodup.erase_eq_filter]
    refine List.filter_congr fun x hx => ?_
    by_cases hxd : x = l[index]
    · simp [hxd, hgone]
    · have hkept : x ∉ gone := fun hmem => hxd (honly x hx hmem)
      simp [hxd, hkept]
  rw [herase, List.getElem?_eraseIdx, if_neg (Nat.lt_irrefl _)]

section Stripped

variable (hlinked : ∀ p b, (g.node p).linked b = ((f.node p).linked b).filter (· ∉ gone))
  (hname : ∀ i, (g.node i).name = (f.node i).name)

include hlinked hname

theorem childrenNamed_of_stripped (p : NodeId) (name : String) :
    g.childrenNamed p (some name) = (f.childrenNamed p (some name)).filter (· ∉ gone) := by
  have hchildren := hlinked p false
  simp only [Node.linked] at hchildren
  simp only [childrenNamed, hchildren, hname, List.filter_filter, Bool.and_comm]

theorem step_of_kept (hkept : part.index? = none ∨
      ∀ x ∈ f.childrenNamed p (some part.name), x ∉ gone) :
    g.step p part = (f.step p part).filter (· ∉ gone) := by
  have hchildren := childrenNamed_of_stripped hlinked hname p
  match part with
  | .attr name =>
    have hattributes := hlinked p true
    simp only [Node.linked] at hattributes
    simp only [step, attributesNamed, hattributes, hname, List.filter_filter, Bool.and_comm]
  | .element name none => exact hchildren name
  | .element name (some index) =>
    have hkept := hkept.resolve_left (by simp [KeyPart.index?])
    simp only [KeyPart.name] at hkept
    rw [step, step, hchildren, List.filter_eq_self.2 (by simpa using hkept)]
    refine (List.filter_eq_self.2 fun x hx => ?_).symm
    simpa using hkept x (List.mem_of_getElem? (Option.mem_toList.1 hx))

theorem step_of_taken (hf : f.WellFormed) (hd : (f.childrenNamed p (some name))[index]? = some d)
    (hgone : d ∈ gone) (honly : ∀ x ∈ f.childrenNamed p (some name), x ∈ gone → x = d) :
    g.step p (.element name (some index)) =
      (f.childrenNamed p (some name))[index + 1]?.toList := by
  rw [step, childrenNamed_of_stripped hlinked hname,
    filter_getElem?_of_taken (hf.nodup_childrenNamed p name) hd hgone honly]

theorem reaches_of_kept (hf : f.WellFormed) (hkept : ∀ q, f.Above p q → q ∉ gone) :
    g.Reaches p parts i ↔ f.Reaches p parts i := by
  refine hf.reaches_congr fun q hq part => step_congr (fun b => ?_) (fun _ j _ => hname j) part
  rw [hlinked, List.filter_eq_self]
  intro j hj
  simpa using hkept j (hq.trans (.of_parent (hf.mem_linked_iff.1 hj).1))

end Stripped

/-- What is dead among the namesakes of an indexed part stands at the index, if the part is on the
way to all that is cleared. -/
theorem getElem?_of_dead (hf : f.WellFormed)
    (his : ∀ s ∈ is, f.Above p s → f.Reaches p (.element name (some index) :: parts) s)
    (hc : c ∈ f.childrenNamed p (some name)) (hdead : f.Dead root is c) :
    (f.childrenNamed p (some name))[index]? = some c := by
  obtain ⟨s, hs, ha⟩ := hdead.exists_mem
  have hparent := ((hf.mem_children_iff p c).1 (List.mem_of_mem_filter hc)).1
  obtain ⟨d, hd, hreaches⟩ := reaches_cons_iff.1 (his s hs ((Above.of_parent hparent).trans ha))
  obtain rfl := hf.eq_of_above hparent (hf.parent_of_mem_step hd) ha (hreaches.above hf)
  exact Option.mem_toList.1 hd

theorem reaches_of_mem_step (hf : f.WellFormed) (hc : c ∈ f.step p part)
    (his : ∀ s ∈ is, f.Above p s → f.Reaches p (part :: parts) s) :
    ∀ s ∈ is, f.Above c s → f.Reaches c parts s := by
  intro s hs ha
  have hparent := hf.parent_of_mem_step hc
  obtain ⟨d, hd, hreaches⟩ := reaches_cons_iff.1 (his s hs ((Above.of_parent hparent).trans ha))
  obtain rfl := hf.eq_of_above hparent (hf.parent_of_mem_step hd) ha (hreaches.above hf)
  exact hreaches

section Stripped

variable (hf : f.WellFormed)
  (hlinked : ∀ p b, (g.node p).linked b = ((f.node p).linked b).filter (· ∉ gone))
  (hname : ∀ i, (g.node i).name = (f.node i).name) (hgone : ∀ i, i ∈ gone ↔ f.Dead root is i)

include hf hlinked hname hgone

/-- A part whose index is vacant leads to the next node of its name, below which nothing is dead. -/
theorem reaches_stripped_of_vacant
    (hd : (f.childrenNamed p (some name))[index]? = some d) (hdead : f.Dead root is d)
    (his : ∀ s ∈ is, f.Above p s → f.Reaches p (.element name (some index) :: parts) s) :
    g.Reaches p (.element name (some index) :: parts) i ↔
      f.Reaches p (.element name (some index) :: parts) i ∧ ¬ f.Dead root is i ∨
        f.MovesUp (f.Dead root is) p (.element name (some index) :: parts) i := by
  have honly : ∀ x ∈ f.childrenNamed p (some name), x ∈ gone → x = d := fun x hx hmem =>
    Option.some.inj ((getElem?_of_dead hf his hx ((hgone x).1 hmem)).symm.trans hd)
  have hstep := step_of_taken hlinked hname hf hd ((hgone d).2 hdead) honly
  have hbelow (next : NodeId) (hnext : (f.childrenNamed p (some name))[index + 1]? = some next) :
      g.Reaches next parts i ↔ f.Reaches next parts i := by
    refine reaches_of_kept hlinked hname hf fun q hq hmem => ?_
    obtain ⟨s, hs, ha⟩ := ((hgone q).1 hmem).exists_mem
    have hparent := hf.parent_of_getElem? hnext
    obtain ⟨c, hc, hreaches⟩ :=
      reaches_cons_iff.1 (his s hs (((Above.of_parent hparent).trans hq).trans ha))
    obtain rfl := Option.some.inj (hd.symm.trans (Option.mem_toList.1 hc))
    refine ne_of_getElem?_succ (hf.nodup_childrenNamed p name) hd hnext ?_
    exact hf.eq_of_above (hf.parent_of_getElem? hd) hparent (hreaches.above hf) (hq.trans ha)
  rw [reaches_cons_iff, hstep]
  constructor
  · rintro ⟨next, hnext, hreaches⟩
    have hnext := Option.mem_toList.1 hnext
    exact .inr (.up hd hdead hnext ((hbelow next hnext).1 hreaches))
  · rintro (⟨hreaches, hkept⟩ | hmoves)
    · obtain ⟨c, hc, hreaches⟩ := reaches_cons_iff.1 hreaches
      obtain rfl := Option.some.inj (hd.symm.trans (Option.mem_toList.1 hc))
      exact absurd (hdead.of_above hf (hreaches.above hf)) hkept
    · cases hmoves with
      | up _ _ hnext hreaches =>
        exact ⟨_, Option.mem_toList.2 hnext, (hbelow _ hnext).2 hreaches⟩
      | down hc hkept _ =>
        obtain rfl := Option.some.inj (hd.symm.trans (Option.mem_toList.1 hc))
        exact absurd hdead hkept

/-- What is left by taking dead branches away is reached as before, unless a branch that a part
with an index went through was taken: then the part goes through the next one. -/
theorem reaches_stripped_iff (hp : ¬ f.Dead root is p)
    (his : ∀ s ∈ is, f.Above p s → f.Reaches p parts s) :
    g.Reaches p parts i ↔
      f.Reaches p parts i ∧ ¬ f.Dead root is i ∨ f.MovesUp (f.Dead root is) p parts i := by
  induction parts generalizing p with
  | nil =>
    rw [reaches_nil_iff, reaches_nil_iff]
    constructor
    · rintro rfl
      exact .inl ⟨rfl, hp⟩
    · rintro (⟨h, -⟩ | h)
      · exact h
      · cases h
  | cons part parts ih =>
    by_cases hvacant : ∃ name index d, part = .element name (some index) ∧
        (f.childrenNamed p (some name))[index]? = some d ∧ f.Dead root is d
    · obtain ⟨name, index, d, rfl, hd, hdead⟩ := hvacant
      exact reaches_stripped_of_vacant hf hlinked hname hgone hd hdead his
    have hstep : g.step p part = (f.step p part).filter (· ∉ gone) := by
      refine step_of_kept hlinked hname ?_
      match part with
      | .attr _ | .element _ none => exact .inl rfl
      | .element name (some index) =>
        refine .inr fun x hx hmem => hvacant ⟨name, index, x, rfl, ?_, (hgone x).1 hmem⟩
        exact getElem?_of_dead hf his hx ((hgone x).1 hmem)
    have hmem (c : NodeId) : c ∈ g.step p part ↔ c ∈ f.step p part ∧ ¬ f.Dead root is c := by
      rw [hstep, List.mem_filter, decide_eq_true_iff, hgone]
    rw [reaches_cons_iff, reaches_cons_iff]
    constructor
    · rintro ⟨c, hc, hreaches⟩
      obtain ⟨hc, hkept⟩ := (hmem c).1 hc
      rcases (ih hkept (reaches_of_mem_step hf hc his)).1 hreaches with ⟨hold, hi⟩ | hmoves
      · exact .inl ⟨⟨c, hc, hold⟩, hi⟩
      · exact .inr (.down hc hkept hmoves)
    · rintro (⟨⟨c, hc, hold⟩, hi⟩ | hmoves)
      · have hkept : ¬ f.Dead root is c := fun hdead => hi (hdead.of_above hf (hold.above hf))
        exact ⟨c, (hmem c).2 ⟨hc, hkept⟩,
          (ih hkept (reaches_of_mem_step hf hc his)).2 (.inl ⟨hold, hi⟩)⟩
      · cases hmoves with
        | up hd hdead _ _ => exact absurd ⟨_, _, _, rfl, hd, hdead⟩ hvacant
        | down hc hkept hmoves =>
          exact ⟨_, (hmem _).2 ⟨hc, hkept⟩,
            (ih hkept (reaches_of_mem_step hf hc his)).2 (.inr hmoves)⟩

end Stripped

end Settings.Forest
