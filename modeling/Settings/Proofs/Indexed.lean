import Settings.Proofs.Attachment
import Settings.Proofs.Bracketing
import Settings.Proofs.Forest.Landing
import Settings.Proofs.Forest.Vacancies

/-! # Setting a property under an index

What an index counts may change with the writing itself. A new node stands behind its namesakes
and not at the index it was created for, and a surplus node that is cleared away leaves its index
to the next one.
-/

namespace Settings

open Settings.Action

variable {w w' : World} {c : ConfigurationId} {key : Option String} {value : Value}
  {nodes surplus : List NodeId} {first i : NodeId} {path parts : List KeyPart} {last : KeyPart}

theorem isNull_of_spread (hsingle : value.spread = [value]) : value.isNull = false := by
  cases value with
  | null => cases hsingle
  | _ => rfl

theorem World.collect_eq_iff {values : List Value} (hsingle : value.spread = [value]) :
    World.collect values = value ↔ values = [value] := by
  match values with
  | [] =>
    constructor
    · rintro rfl
      cases hsingle
    · intro h
      cases h
  | [v] => simp [World.collect]
  | v :: v' :: rest =>
    constructor
    · rintro rfl
      simp [World.collect, Value.spread] at hsingle
    · intro h
      simp at h

theorem filter_eq_singleton_iff {p : NodeId → Bool} (hnodup : nodes.Nodup) :
    nodes.filter p = [i] ↔ i ∈ nodes ∧ p i = true ∧ ∀ j ∈ nodes, j ≠ i → p j = false := by
  rw [← List.perm_singleton, List.perm_ext_iff_of_nodup (hnodup.filter p) (List.nodup_singleton i)]
  simp only [List.mem_filter, List.mem_singleton]
  constructor
  · intro h
    obtain ⟨hi, hpi⟩ := (h i).2 rfl
    exact ⟨hi, hpi, fun j hj hne => Bool.eq_false_iff.2 fun hpj => hne ((h j).1 ⟨hj, hpj⟩)⟩
  · rintro ⟨hi, hpi, hother⟩ j
    constructor
    · rintro ⟨hj, hpj⟩
      by_contra hne
      simp [hother j hj hne] at hpj
    · rintro rfl
      exact ⟨hi, hpi⟩

theorem World.getProperty_eq_ok_iff (hfetch : w.fetchNodes c key = .ok nodes)
    (hnodup : nodes.Nodup) (hsingle : value.spread = [value]) :
    w.getProperty c key = .ok value ↔ ∃ i ∈ nodes, (w.forest.node i).value = value ∧
      ∀ j ∈ nodes, j ≠ i → (w.forest.node j).value.isNull = true := by
  have hsome := isNull_of_spread hsingle
  have hget : w.getProperty c key = .ok (World.collect (w.valuesOf nodes)) := by
    rw [getProperty, hfetch]
    rfl
  rw [hget, Except.ok.injEq, collect_eq_iff hsingle, valuesOf_eq, List.map_eq_singleton_iff]
  simp only [Forest.bearing, filter_eq_singleton_iff hnodup, Bool.not_eq_true',
    Bool.not_eq_false']
  constructor
  · rintro ⟨i, ⟨hi, -, hother⟩, hvalue⟩
    exact ⟨i, hi, hvalue, hother⟩
  · rintro ⟨i, hi, hvalue, hother⟩
    exact ⟨i, ⟨hi, by rw [hvalue, hsome], hother⟩, hvalue⟩

namespace Forest

variable {f : Forest} {root : NodeId}

theorem Dead.of_same_values {g : Forest} {is : List NodeId} (h : f.Dead root is i)
    (hparent : ∀ j, (g.node j).parent = (f.node j).parent)
    (hlinked : ∀ j b, (g.node j).linked b = (f.node j).linked b)
    (hvalue : ∀ s ∈ is, ∀ j, f.Above j s → (g.node j).value = (f.node j).value) :
    g.Dead root is i := by
  induction h with
  | intro hne hroot hs ha hnull _ ih =>
    rw [← hvalue _ hs _ ha] at hnull
    refine .intro hne (hroot.of_parent_eq hparent) hs (ha.of_parent_eq hparent) hnull ?_
    intro b j hj
    rw [hlinked] at hj
    exact ih b j hj

theorem Layer.not_above (hl : f.Layer (first :: surplus)) : ∀ s ∈ surplus, ¬ f.Above first s := by
  intro s hs ha
  obtain rfl := hl.apart first (by simp) s (.tail first hs) ha
  exact (List.nodup_cons.1 hl.nodup).1 hs

theorem Layer.setValue (hl : f.Layer nodes) (i : NodeId) (value : Value) :
    (f.setValue i value).Layer nodes where
  has j hj := by simpa [Has] using hl.has j hj
  nodup := hl.nodup
  apart p hp q hq ha := hl.apart p hp q hq ((above_congr (parent_setValue f i · value)).1 ha)

theorem dead_setValue_iff (hl : f.Layer (first :: surplus)) (value : Value) :
    (f.setValue first value).Dead root surplus i ↔ f.Dead root surplus i := by
  have hparent (j : NodeId) : ((f.setValue first value).node j).parent = (f.node j).parent :=
    parent_setValue f first j value
  have hvalue : ∀ s ∈ surplus, ∀ j, f.Above j s →
      ((f.setValue first value).node j).value = (f.node j).value := by
    intro s hs j ha
    rw [value_setValue (hl.has first (by simp)), if_neg]
    rintro rfl
    exact hl.not_above s hs ha
  constructor
  · intro h
    refine h.of_same_values (fun j => (hparent j).symm) (by simp) fun s hs j ha => ?_
    exact (hvalue s hs j ((above_congr hparent).1 ha)).symm
  · intro h
    exact h.of_same_values hparent (by simp) hvalue

/-- Of the nodes of a key, the first is rewritten and the others are cleared: the key leads to the
first, to the others that stay, and to what moves up. -/
theorem rewritten_first (hf : f.WellFormed) (hroot : f.Has root)
    (hfollow : f.follow [root] parts = first :: surplus) (value : Value) :
    let g := (f.setValue first value).clearAll root surplus
    g.WellFormed ∧ g.size = f.size ∧
      (∀ j, (g.node j).value =
        if j = first then value else if j ∈ surplus then .null else (f.node j).value) ∧
      ∀ i, g.Reaches root parts i ↔ i = first ∨ i ∈ surplus ∧ ¬ f.Dead root surplus i ∨
        f.MovesUp (f.Dead root surplus) root parts i := by
  have hl : f.Layer (first :: surplus) := hfollow ▸ (Layer.singleton hroot).follow hf parts
  have hreaches (i : NodeId) : f.Reaches root parts i ↔ i = first ∨ i ∈ surplus := by
    rw [← mem_follow_root_iff, hfollow, List.mem_cons]
  have hlayer : (f.setValue first value).Layer surplus :=
    (hl.setValue first value).of_sublist (List.sublist_cons_self first surplus)
  have hbelow : ∀ i ∈ surplus, (f.setValue first value).Above root i := fun i hi =>
    (((hreaches i).2 (.inr hi)).above hf).of_parent_eq (parent_setValue f first · value)
  obtain ⟨gone, hgone, hstripped⟩ :=
    stripped_clearAll (hf.setValue first value) (by simpa [Has] using hroot) hlayer hbelow
  simp only [dead_setValue_iff hl] at hgone
  refine ⟨hstripped.wellFormed, hstripped.size_eq.trans (size_setValue f first value), ?_, ?_⟩
  · intro j
    rw [hstripped.value_eq, value_setValue (hl.has first (by simp))]
    by_cases hj : j = first
    · simp [hj, (List.nodup_cons.1 hl.nodup).1]
    · simp [hj]
  · intro i
    have hkept : ¬ f.Dead root surplus first := by
      intro hdead
      obtain ⟨s, hs, ha⟩ := hdead.exists_mem
      exact hl.not_above s hs ha
    rw [reaches_stripped_iff hf (fun p b => (hstripped.linked_eq p b).trans (by simp))
      (fun j => (hstripped.name_eq j).trans (name_setValue ..)) hgone
      (fun hdead => hdead.ne_root rfl) (fun s hs _ => (hreaches s).2 (.inr hs)), hreaches,
      or_and_right, or_assoc]
    refine or_congr_left ⟨And.left, ?_⟩
    rintro rfl
    exact ⟨rfl, hkept⟩

/-- A node that is inserted for a key without nodes is all that the key leads to, if the new
nodes come to stand at its indices; no other node has another value than before. -/
theorem inserted_first (hf : f.WellFormed) (hroot : f.Has root)
    (hkinds : ∀ part ∈ path, part.isAttribute = false)
    (hfollow : f.follow [root] (path ++ [last]) = []) (value : Value) :
    let i := (f.insertNode (f.place root path last) value).1
    let g := (f.insertNode (f.place root path last) value).2
    g.WellFormed ∧ f.size ≤ g.size ∧ ¬ f.Has i ∧
      (∀ j, (g.node j).value = if j = i then value else (f.node j).value) ∧
      ∀ j, g.Reaches root (path ++ [last]) j ↔ j = i ∧ f.InTurn last root path := by
  have hplace : f.Has (f.place root path last).parent := hf.has_deepest hroot
  obtain ⟨steps, hgains, -, hsteps⟩ := exists_gains_insertNode hf.consistent hplace value
  refine ⟨hf.insertNode hplace value, hgains.extend.size_le, not_has_insertNode hf hplace, ?_, ?_⟩
  · intro j
    split
    · rename_i hj
      rw [hj, value_insertNode hf hplace]
    · rename_i hj
      by_cases hold : f.Has j
      · exact hgains.extend.value_eq hold
      · rw [node_of_not_has hold]
        by_cases hnew : (f.insertNode (f.place root path last) value).2.Has j
        · have hmem := (hgains.mem_iff j).2 ⟨hnew, hold⟩
          rw [List.mem_append, List.mem_singleton] at hmem
          exact (hsteps j (hmem.resolve_right hj)).1
        · rw [node_of_not_has hnew]
  · intro j
    have hnowhere : ¬ f.Reaches root (path ++ [last]) j := by
      rw [← mem_follow_root_iff, hfollow]
      exact List.not_mem_nil
    rw [reaches_insertNode_iff hf hroot hkinds, or_iff_right hnowhere]

end Forest

theorem accepts_of_run_setProperty (hrun : (c.setProperty key value).run w = .ok () w') :
    (Change.setProperty key value).Accepts c w := by
  have hperform : ((Change.setProperty key value).perform c).run w = .ok () w' := hrun
  rw [Change.run_perform _ (by simp)] at hperform
  split at hperform
  · rename_i carryOut hprepare
    exact Change.accepts_of_prepare rfl (by simp) hprepare
  · cases hperform

/-- After the nodes of a key have been rewritten, what moved up decides whether it reads as the
value: of the others only the first bears anything. -/
theorem World.getProperty_eq_ok_iff_of_rewritten {f : Forest} {root : NodeId}
    {nodes' : List NodeId} {taken : NodeId → Prop} (hfetch : w'.fetchNodes c key = .ok nodes')
    (hnodup : nodes'.Nodup) (hsingle : value.spread = [value]) (hf : f.WellFormed)
    (hfollow : f.follow [root] parts = first :: surplus)
    (hvalue : ∀ j, (w'.forest.node j).value =
      if j = first then value else if j ∈ surplus then .null else (f.node j).value)
    (hmem : ∀ i, i ∈ nodes' ↔ i = first ∨ i ∈ surplus ∧ ¬ taken i ∨ f.MovesUp taken root parts i) :
    w'.getProperty c key = .ok value ↔
      ∀ i, f.MovesUp taken root parts i → (f.node i).value.isNull = true := by
  have hfirst : (w'.forest.node first).value = value := by rw [hvalue, if_pos rfl]
  have hmoved (i : NodeId) (hi : f.MovesUp taken root parts i) :
      i ≠ first ∧ (w'.forest.node i).value = (f.node i).value := by
    have hnot := hi.not_reaches hf
    rw [← Forest.mem_follow_root_iff, hfollow, List.mem_cons, not_or] at hnot
    exact ⟨hnot.1, by rw [hvalue, if_neg hnot.1, if_neg hnot.2]⟩
  rw [getProperty_eq_ok_iff hfetch hnodup hsingle]
  constructor
  · rintro ⟨j, hj, hjvalue, hother⟩ i hi
    have hjfirst : j = first := by
      by_contra hne
      have hnull := hother first ((hmem first).2 (.inl rfl)) (Ne.symm hne)
      simp [hfirst, isNull_of_spread hsingle] at hnull
    subst hjfirst
    rw [← (hmoved i hi).2]
    exact hother i ((hmem i).2 (.inr (.inr hi))) (hmoved i hi).1
  · intro hnull
    refine ⟨first, (hmem first).2 (.inl rfl), hfirst, fun j hj hne => ?_⟩
    rcases (hmem j).1 hj with heq | ⟨hsurplus, -⟩ | hi
    · exact absurd heq hne
    · rw [hvalue, if_neg hne, if_pos hsurplus]
      rfl
    · rw [(hmoved j hi).2]
      exact hnull j hi

/-- A single value that is set under a key is written into the first node of the key, and the
others are cleared; the key reads as the value afterwards if nothing that moves up to the index
of a cleared branch has a value. Under a key without nodes it is borne by a new node, which the
key leads to, and it alone, if the new nodes come to stand at the indices of the key. -/
theorem World.landed_setProperty (hf : w.forest.WellFormed) (hroot : w.forest.Has (w.root c))
    (hsilent : (w.configuration c).listeners = []) (hsingle : value.spread = [value])
    (hrun : (c.setProperty key value).run w = .ok () w') :
    ∃ parts nodes nodes', (w.markers c).parse key = .ok parts ∧ w.fetchNodes c key = .ok nodes ∧
      w'.fetchNodes c key = .ok nodes' ∧
      match nodes with
      | first :: surplus =>
        let dead := w.forest.Dead (w.root c) surplus
        (∀ j, (w'.forest.node j).value = if j = first then value
          else if j ∈ surplus then .null else (w.forest.node j).value) ∧
        (∀ i, i ∈ nodes' ↔ i = first ∨ i ∈ surplus ∧ ¬ dead i ∨
          w.forest.MovesUp dead (w.root c) parts i) ∧
        (w'.getProperty c key = .ok value ↔
          ∀ i, w.forest.MovesUp dead (w.root c) parts i → (w.forest.node i).value.isNull = true)
      | [] =>
        ∃ path last i, parts = path ++ [last] ∧ ¬ w.forest.Has i ∧
          (∀ j, (w'.forest.node j).value = if j = i then value else (w.forest.node j).value) ∧
          (∀ j, j ∈ nodes' ↔ j = i ∧ w.forest.InTurn last (w.root c) path) ∧
          (w'.getProperty c key = .ok value ↔ w.forest.InTurn last (w.root c) path) := by
  obtain ⟨nodes, hfetch, hmissing⟩ := accepts_of_run_setProperty hrun
  obtain ⟨parts, hparse, hfollow⟩ := Forest.select_eq_ok.1 hfetch
  obtain ⟨path, last, hlast, hkinds, hrun'⟩ := exists_run_setProperty hsilent hfetch hmissing
  rw [hsingle] at hlast hrun'
  cases nodes with
  | cons first surplus =>
    have hrewritten : (w.rewritten c (first :: surplus) [value]).forest =
        (w.forest.setValue first value).clearAll (w.root c) surplus := by
      simp [World.rewritten, Forest.setValues]
    rw [List.drop_eq_nil_of_le (by simp), hrewritten] at hrun'
    obtain rfl : w' = { w with
        forest := (w.forest.setValue first value).clearAll (w.root c) surplus } :=
      (EStateM.Result.ok.inj (hrun.symm.trans hrun')).2
    obtain ⟨hwf, hsize, hvalue, hreaches⟩ := Forest.rewritten_first hf hroot hfollow value
    generalize (w.forest.setValue first value).clearAll (w.root c) surplus = g at *
    have hfetch' : World.fetchNodes { w with forest := g } c key =
        .ok (g.follow [w.root c] parts) := Forest.select_eq_ok.2 ⟨parts, hparse, rfl⟩
    have hmem (i : NodeId) := Forest.mem_follow_root_iff.trans (hreaches i)
    have hlayer : g.Layer (g.follow [w.root c] parts) :=
      (Forest.Layer.singleton (by rwa [Forest.Has, hsize])).follow hwf parts
    exact ⟨parts, _, _, hparse, hfetch, hfetch', hvalue, hmem,
      getProperty_eq_ok_iff_of_rewritten hfetch' hlayer.nodup hsingle hf hfollow hvalue hmem⟩
  | nil =>
    obtain rfl : w' = { w with
        forest := (w.forest.insertNode (w.forest.place (w.root c) path last) value).2 } :=
      (EStateM.Result.ok.inj (hrun.symm.trans hrun')).2
    obtain rfl := Except.ok.inj (hparse.symm.trans (hlast (by simp)))
    obtain ⟨hwf, hsize, hnew, hvalue, hreaches⟩ :=
      Forest.inserted_first hf hroot hkinds hfollow value
    generalize (w.forest.insertNode (w.forest.place (w.root c) path last) value).1 = i at *
    generalize (w.forest.insertNode (w.forest.place (w.root c) path last) value).2 = g at *
    have hfetch' : World.fetchNodes { w with forest := g } c key =
        .ok (g.follow [w.root c] (path ++ [last])) := Forest.select_eq_ok.2 ⟨_, hparse, rfl⟩
    have hmem (j : NodeId) := Forest.mem_follow_root_iff.trans (hreaches j)
    have hlayer : g.Layer (g.follow [w.root c] (path ++ [last])) :=
      (Forest.Layer.singleton (Nat.lt_of_lt_of_le hroot hsize)).follow hwf _
    refine ⟨_, _, _, hparse, hfetch, hfetch', path, last, i, rfl, hnew, hvalue, hmem, ?_⟩
    rw [getProperty_eq_ok_iff hfetch' hlayer.nodup hsingle]
    dsimp only
    simp only [hmem]
    constructor
    · rintro ⟨j, ⟨-, hturn⟩, -⟩
      exact hturn
    · intro hturn
      refine ⟨i, ⟨rfl, hturn⟩, by rw [hvalue, if_pos rfl], ?_⟩
      rintro j ⟨rfl, -⟩ hne
      exact absurd rfl hne

/-- A second `a` is created with its first `b`, as the indices say. -/
theorem World.landed_setProperty_created :
    let forest := ((Forest.empty.create none .null false).2.createLinked ⟨0⟩ "a" (.int 7) false).2
    let w := { World.fresh [] with forest, configurations := #[.rootedAt ⟨0⟩ none] }
    let key := some "a(1).b(0)"
    ∃ w' i nodes, (ConfigurationId.setProperty ⟨0⟩ key (.int 9)).run w = .ok () w' ∧
      ¬ forest.Has i ∧ w'.fetchNodes ⟨0⟩ key = .ok nodes ∧ (∀ j, j ∈ nodes ↔ j = i) ∧
      (w'.forest.node i).value = .int 9 ∧ w'.getProperty ⟨0⟩ key = .ok (.int 9) := by
  intro forest w key
  have hforest : forest.WellFormed :=
    (Forest.WellFormed.empty.create none .null false).createLinked (by decide)
  have hok : (ConfigurationId.setProperty ⟨0⟩ key (.int 9)).succeeds w = true := by decide +kernel
  obtain ⟨_, w', hrun⟩ := run_of_succeeds hok
  obtain ⟨parts, nodes, nodes', hparse, hfetch, hfetch', h⟩ :=
    landed_setProperty (w := w) hforest (by decide) rfl rfl hrun
  have hnone : w.fetchNodes ⟨0⟩ key = .ok [] := by decide +kernel
  have hparts : (w.markers ⟨0⟩).parse key = .ok [.element "a" (some 1), .element "b" (some 0)] := by
    decide +kernel
  obtain rfl := Except.ok.inj (hfetch.symm.trans hnone)
  obtain rfl := Except.ok.inj (hparse.symm.trans hparts)
  obtain ⟨path, last, i, hpath, hnew, hvalue, hmem, hget⟩ := h
  obtain ⟨rfl, rfl⟩ : path = [.element "a" (some 1)] ∧ last = .element "b" (some 0) := by
    have hsplit : [KeyPart.element "a" (some 1)] ++ [.element "b" (some 0)] = path ++ [last] :=
      hpath
    simpa [eq_comm] using List.append_inj' hsplit rfl
  have hturn : w.forest.InTurn (.element "b" (some 0)) (w.root ⟨0⟩) [.element "a" (some 1)] := by
    decide +kernel
  refine ⟨w', i, nodes', hrun, hnew, hfetch', fun j => ?_, ?_, hget.2 hturn⟩
  · rw [hmem, and_iff_left hturn]
  · rw [hvalue, if_pos rfl]

/-- A node that is created for an index beyond the next one is not found under it. Nor is the value
alone when the second of two namesakes is cleared away and a third one moves up. -/
theorem World.missed_setProperty :
    let empty := (Forest.empty.create none .null false).2
    let w := { World.fresh [] with forest := empty, configurations := #[.rootedAt ⟨0⟩ none] }
    let first := ((empty.createLinked ⟨0⟩ "a" .null false).2.createLinked ⟨1⟩ "b" (.int 1) false).2
    let second := (first.createLinked ⟨0⟩ "a" .null false).2
    let branches := ((second.createLinked ⟨3⟩ "b" (.int 2) false).2.createLinked
      ⟨3⟩ "b" (.int 3) false).2
    let w₂ := { w with forest := branches }
    (empty.WellFormed ∧ ∃ w', (ConfigurationId.setProperty ⟨0⟩ (some "a(1)") (.int 9)).run w =
        .ok () w' ∧ w'.fetchNodes ⟨0⟩ (some "a(1)") = .ok [] ∧
      w'.getProperty ⟨0⟩ (some "a(1)") ≠ .ok (.int 9)) ∧
    branches.WellFormed ∧
      ∃ w', (ConfigurationId.setProperty ⟨0⟩ (some "a.b(0)") (.int 9)).run w₂ = .ok () w' ∧
        w'.fetchNodes ⟨0⟩ (some "a.b(0)") = .ok [⟨2⟩, ⟨5⟩] ∧
        w'.getProperty ⟨0⟩ (some "a.b(0)") ≠ .ok (.int 9) := by
  intro empty w first second branches w₂
  have hempty : empty.WellFormed := Forest.WellFormed.empty.create none .null false
  have hfirst : first.WellFormed :=
    (hempty.createLinked (by decide)).createLinked (by decide)
  have hbranches : branches.WellFormed :=
    ((hfirst.createLinked (by decide)).createLinked (by decide)).createLinked (by decide)
  have hbeyond : (ConfigurationId.setProperty ⟨0⟩ (some "a(1)") (.int 9)).succeeds w = true := by
    decide +kernel
  have hsurplus :
      (ConfigurationId.setProperty ⟨0⟩ (some "a.b(0)") (.int 9)).succeeds w₂ = true := by
    decide +kernel
  obtain ⟨_, w', hrun⟩ := run_of_succeeds hbeyond
  obtain ⟨_, w'', hrun'⟩ := run_of_succeeds hsurplus
  have hnone : w'.fetchNodes ⟨0⟩ (some "a(1)") = .ok [] := by
    rw [← after_of_run hrun]
    decide +kernel
  have htwo : w''.fetchNodes ⟨0⟩ (some "a.b(0)") = .ok [⟨2⟩, ⟨5⟩] := by
    rw [← after_of_run hrun']
    decide +kernel
  have hvalues : ∀ i ∈ [(⟨2⟩ : NodeId), ⟨5⟩], (w''.forest.node i).value.isNull = false := by
    rw [← after_of_run hrun']
    decide +kernel
  refine ⟨⟨hempty, w', hrun, hnone, ?_⟩, hbranches, w'', hrun', htwo, ?_⟩
  · rw [Ne, getProperty_eq_ok_iff hnone List.nodup_nil rfl]
    rintro ⟨i, hi, -⟩
    exact List.not_mem_nil hi
  · rw [Ne, getProperty_eq_ok_iff htwo (by decide) rfl]
    rintro ⟨i, -, -, hother⟩
    obtain ⟨j, hj, hne⟩ : ∃ j ∈ [(⟨2⟩ : NodeId), ⟨5⟩], j ≠ i := by
      by_cases hi : i = ⟨2⟩
      · exact ⟨⟨5⟩, by simp, by simp [hi]⟩
      · exact ⟨⟨2⟩, by simp, Ne.symm hi⟩
    have hnull := hother j hj hne
    rw [hvalues j hj] at hnull
    cases hnull

end Settings
