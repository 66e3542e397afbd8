import Settings.Proofs.Clearing
import Settings.Proofs.Forest.Order
import Settings.Proofs.Forest.Vacancies
import Settings.Proofs.Withering

/-! # Felling trees

Clearing a tree takes the nodes of a key out of their trees one by one, each of them with all
that is below it. None of them is below another, so the order does not matter and no subtree is
torn apart. The root of a configuration is never taken out of the tree around it: selected
itself, it loses its content.
-/

namespace Settings

open Settings.Action

namespace Forest

variable {f g : Forest} {i j root : NodeId} {b : Bool} {parts : List KeyPart}
  {emptied gone nodes : List NodeId}

/-- A node is by itself, and below it everything is as it was. -/
structure CutOff (f g : Forest) (i : NodeId) : Prop where
  unlisted : ∀ p b, i ∉ (g.node p).linked b
  top : g.node i = { f.node i with parent := none }
  below : ∀ j, f.Above i j → j ≠ i → g.node j = f.node j

/-- What felling nodes leaves of a forest. All of them but the root are cut off. The root has
lost its content if it is one of them, and then the nodes linked to it are cut off. Every other
node has lost no more than its links to the nodes. -/
structure Felled (root : NodeId) (nodes : List NodeId) (f g : Forest) : Prop where
  wellFormed : g.WellFormed
  size_eq : g.size = f.size
  cut : ∀ i ∈ nodes, i ≠ root → CutOff f g i
  emptied : root ∈ nodes → nodes = [root] ∧
    g.node root = { f.node root with value := .null, children := [], attributes := [] } ∧
    ∀ b, ∀ i ∈ (f.node root).linked b, CutOff f g i
  kept : ∀ i ∉ nodes, (root ∈ nodes → ∀ b, i ∉ (f.node root).linked b) →
    g.node i =
      { f.node i with
        children := (f.node i).children.filter fun j => j = root ∨ j ∉ nodes
        attributes := (f.node i).attributes.filter fun j => j = root ∨ j ∉ nodes }

theorem WellFormed.ne_of_mem_linked (hf : f.WellFormed) (hj : j ∈ (f.node i).linked b) :
    j ≠ i := by
  rintro rfl
  exact (hf.rooted j).not_above_parent (hf.mem_linked_iff.1 hj).1 .here

theorem WellFormed.unlisted (hg : g.WellFormed) (hi : (g.node i).parent = none) (p : NodeId)
    (b : Bool) : i ∉ (g.node p).linked b := by
  intro hmem
  cases hi.symm.trans (hg.mem_linked_iff.1 hmem).1

theorem Stripped.node_eq (h : Stripped [] gone f g) (i : NodeId) :
    g.node i =
      { f.node i with
        parent := if i ∈ gone then none else (f.node i).parent
        children := (f.node i).children.filter (· ∉ gone)
        attributes := (f.node i).attributes.filter (· ∉ gone) } := by
  refine Node.eq_of_bare ?_ fun b => ?_
  · simp only [Node.bare, h.name_eq, h.isAttribute_eq, h.value_eq, h.parent_eq,
      List.not_mem_nil, if_false]
  · rw [h.linked_eq]
    cases b <;> rfl

theorem Stripped.dropAll (h : Stripped emptied gone f g) (hroot : root ∉ nodes) :
    Stripped emptied (nodes.reverse ++ gone) f (g.dropAll root nodes) := by
  induction nodes generalizing g gone with
  | nil => exact h
  | cons i rest ih =>
    rw [List.mem_cons, not_or] at hroot
    rw [Forest.dropAll, List.foldl_cons, if_neg (Ne.symm hroot.1), List.reverse_cons,
      List.append_assoc]
    exact ih (h.detach i) hroot.2

theorem Stripped.reaches (h : Stripped emptied gone f g)
    (hplain : ∀ part ∈ parts, part.index? = none) (hreaches : g.Reaches i parts j) :
    f.Reaches i parts j ∧ (j = i ∨ j ∉ gone) := by
  induction parts generalizing i with
  | nil =>
    obtain rfl := reaches_nil_iff.1 hreaches
    exact ⟨reaches_nil_iff.2 rfl, .inl rfl⟩
  | cons part parts ih =>
    rw [List.forall_mem_cons] at hplain
    obtain ⟨c, hc, hreaches⟩ := reaches_cons_iff.1 hreaches
    rw [step_of_kept h.linked_eq h.name_eq (.inl hplain.1), List.mem_filter,
      decide_eq_true_iff] at hc
    obtain ⟨hold, hj⟩ := ih hplain.2 hreaches
    exact ⟨reaches_cons_iff.2 ⟨c, hc.1, hold⟩, .inr (hj.elim (fun heq => heq ▸ hc.2) id)⟩

/-- Where an index cannot make another node move up, what a key led to is gone from it. -/
theorem Stripped.follow_eq_nil (h : Stripped emptied gone f g)
    (hplain : ∀ part ∈ parts, part.index? = none) (hroot : root ∉ gone)
    (hgone : ∀ i ∈ f.follow [root] parts, i ∈ gone) : g.follow [root] parts = [] := by
  refine List.eq_nil_iff_forall_not_mem.2 fun i hi => ?_
  obtain ⟨hold, hkept⟩ := h.reaches hplain (mem_follow_root_iff.1 hi)
  have hmem := hgone i (mem_follow_root_iff.2 hold)
  rcases hkept with rfl | hkept
  · exact hroot hmem
  · exact hkept hmem

theorem Layer.filter_linked (hl : f.Layer nodes) (hf : f.WellFormed) (hi : i ∈ nodes)
    (ha : f.Above i j) (b : Bool) :
    ((f.node j).linked b).filter (· ∉ nodes) = (f.node j).linked b := by
  refine List.filter_eq_self.2 fun k hk => decide_eq_true fun hmem => ?_
  have hparent := (hf.mem_linked_iff.1 hk).1
  obtain rfl := hl.apart i hi k hmem (ha.trans (.of_parent hparent))
  exact (hf.rooted i).not_above_parent hparent ha

/-- Nodes of which none is below another keep what is below them. -/
theorem felled_of_stripped (hf : f.WellFormed) (hl : f.Layer nodes) (hroot : root ∉ nodes)
    (hgone : ∀ i, i ∈ gone ↔ i ∈ nodes) (h : Stripped [] gone f g) : Felled root nodes f g := by
  have hnode (i : NodeId) := h.node_eq i
  simp only [hgone] at hnode
  have hlists {i j : NodeId} (hi : i ∈ nodes) (ha : f.Above i j) :
      (f.node j).children.filter (· ∉ nodes) = (f.node j).children ∧
        (f.node j).attributes.filter (· ∉ nodes) = (f.node j).attributes :=
    ⟨hl.filter_linked hf hi ha false, hl.filter_linked hf hi ha true⟩
  refine ⟨h.wellFormed, h.size_eq, fun i hi _ => ⟨?_, ?_, fun j ha hne => ?_⟩,
    fun hmem => absurd hmem hroot, fun i hi _ => ?_⟩
  · refine h.wellFormed.unlisted ?_
    rw [hnode, if_pos hi]
  · rw [hnode, if_pos hi, (hlists hi .here).1, (hlists hi .here).2]
  · rw [hnode, if_neg fun hj => hne (hl.apart i hi j hj ha).symm, (hlists hi ha).1,
      (hlists hi ha).2]
  · have hfilter (l : List NodeId) :
        l.filter (fun j => j = root ∨ j ∉ nodes) = l.filter (· ∉ nodes) := by
      refine List.filter_congr fun j _ => ?_
      by_cases hj : j = root <;> simp [hj, hroot]
    rw [hnode, if_neg hi, hfilter, hfilter]

theorem node_reset (hf : f.WellFormed) (hi : f.Has i) (j : NodeId) :
    (f.reset i).node j =
      if j = i then { f.node i with value := .null, children := [], attributes := [] }
      else if (f.node j).parent = some i then { f.node j with parent := none }
      else f.node j := by
  have hsecond : ((f.emptyLinked i false).node i).linked true = (f.node i).linked true := by
    rw [linked_emptyLinked, if_neg (by simp)]
  have hlinks : ((f.emptyLinked i false).emptyLinked i true).node j =
      { f.node j with
        parent := if (f.node j).parent = some i then none else (f.node j).parent
        children := if j = i then [] else (f.node j).children
        attributes := if j = i then [] else (f.node j).attributes } := by
    rw [node_emptyLinked, hsecond, node_emptyLinked]
    simp only [hf.mem_linked_iff]
    by_cases hparent : (f.node j).parent = some i <;> cases (f.node j).isAttribute <;>
      simp [hparent]
  have hhas : ((f.emptyLinked i false).emptyLinked i true).Has i := by simpa [Has] using hi
  rw [reset_eq, Forest.setValue, node_modify, hlinks]
  by_cases hji : j = i
  · subst hji
    have hparent : (f.node j).parent ≠ some j := fun h =>
      (hf.rooted j).not_above_parent h .here
    simp [hhas, hparent]
  · by_cases hparent : (f.node j).parent = some i <;> simp [hji, hparent]

theorem felled_reset (hf : f.WellFormed) (hroot : f.Has root) :
    Felled root [root] f (f.reset root) := by
  have hmember (i : NodeId) (b : Bool) (hi : i ∈ (f.node root).linked b) :
      (f.reset root).node i = { f.node i with parent := none } := by
    rw [node_reset hf hroot, if_neg (hf.ne_of_mem_linked hi),
      if_pos (hf.mem_linked_iff.1 hi).1]
  refine ⟨hf.reset root, size_reset f root, fun i hi hne => ?_, fun _ => ⟨rfl, ?_, ?_⟩,
    fun i hi hout => ?_⟩
  · exact absurd (List.mem_singleton.1 hi) hne
  · rw [node_reset hf hroot, if_pos rfl]
  · refine fun b i hi => ⟨(hf.reset root).unlisted (by rw [hmember i b hi]), hmember i b hi,
      fun j ha hne => ?_⟩
    have hparent := (hf.mem_linked_iff.1 hi).1
    rw [node_reset hf hroot, if_neg, if_neg]
    · intro hj
      exact hne (hf.eq_of_above hj hparent .here ha)
    · rintro rfl
      exact (hf.rooted i).not_above_parent hparent ha
  · have hne : i ≠ root := fun h => hi (List.mem_singleton.2 h)
    have hfilter (l : List NodeId) : l.filter (fun j => j = root ∨ j ∉ [root]) = l :=
      List.filter_eq_self.2 fun j _ => by simp [em]
    rw [node_reset hf hroot, if_neg hne, if_neg, hfilter, hfilter]
    intro hparent
    exact hout (List.mem_singleton_self root) _ (hf.mem_linked_iff.2 ⟨hparent, rfl⟩)

theorem Layer.eq_singleton (hl : f.Layer nodes) (hi : i ∈ nodes)
    (hbelow : ∀ j ∈ nodes, f.Above i j) : nodes = [i] := by
  refine List.perm_singleton.1 ((List.perm_ext_iff_of_nodup hl.nodup
    (List.nodup_singleton i)).2 fun j => ?_)
  rw [List.mem_singleton]
  exact ⟨fun hj => (hl.apart i hi j hj (hbelow j hj)).symm, fun h => h ▸ hi⟩

theorem felled_dropAll (hf : f.WellFormed) (hroot : f.Has root) (hl : f.Layer nodes)
    (hbelow : ∀ i ∈ nodes, f.Above root i) : Felled root nodes f (f.dropAll root nodes) := by
  by_cases hmem : root ∈ nodes
  · obtain rfl : nodes = [root] :=
      hl.eq_singleton hmem hbelow
    rw [dropAll, List.foldl_cons, List.foldl_nil, if_pos rfl]
    exact felled_reset hf hroot
  · refine felled_of_stripped hf hl hmem (fun i => ?_) ((Stripped.refl hf).dropAll hmem)
    simp

namespace Felled

theorem parent_of_above (h : Felled root nodes f g) (hf : f.WellFormed) (hl : f.Layer nodes)
    (hj : j ∈ nodes) (ha : f.Above i j) (hne : i ≠ j) :
    (g.node i).parent = (f.node i).parent := by
  have hi : i ∉ nodes := fun hi => hne (hl.apart i hi j hj ha)
  rw [h.kept i hi]
  intro hroot b hmem
  obtain ⟨rfl, -, -⟩ := h.emptied hroot
  obtain rfl := List.mem_singleton.1 hj
  exact (hf.rooted i).not_above_parent (hf.mem_linked_iff.1 hmem).1 ha

end Felled

end Forest

variable {w : World} {c : ConfigurationId} {key : Option String} {nodes : List NodeId}

theorem run_clearTree
    (hrecord : ∀ l ∈ (w.configuration c).listeners, (w.listener l).reaction = .record)
    (hfetch : w.fetchNodes c key = .ok nodes) :
    ∃ called, (c.clearTree key).run w = .ok ()
      { w with
        forest := w.forest.dropAll (w.root c) nodes
        listeners := called
        notices := w.notices ++
          noticesOf ⟨c, Event.clearTree, key, .value .null, true⟩ w.forest
            (w.configuration c).listeners ++
          noticesOf ⟨c, Event.clearTree, key, .nodes nodes, false⟩
            (w.forest.dropAll (w.root c) nodes) (w.configuration c).listeners } := by
  let before : Event := ⟨c, Event.clearTree, key, .value .null, true⟩
  let after : Event := ⟨c, Event.clearTree, key, .nodes nodes, false⟩
  have hpassive : ∀ l ∈ (w.configuration c).listeners, (w.listener l).isPassive = true :=
    fun l hl => Listener.isPassive_of_record (hrecord l hl)
  have haccept (event : Event) : ∀ l ∈ (w.configuration c).listeners,
      (w.listener l).refuses event = false :=
    fun l hl => Listener.refuses_of_record (hrecord l hl) event
  let u : World := { w.notedBy before (w.configuration c).listeners with
    forest := w.forest.dropAll (w.root c) nodes }
  have hsame : SameListeners c w u := (SameListeners.notedBy c w before _).withForest _
  have hagain : (announce after).run u =
      .ok () (u.notedBy after (w.configuration c).listeners) := by
    rw [← hsame.configuration]
    exact run_announce_ok (hsame.all_passive hpassive) (hsame.none_refuses (haccept after))
  obtain ⟨_, hbefore⟩ := w.notedBy_eq before (w.configuration c).listeners
  obtain ⟨called, hafter⟩ := u.notedBy_eq after (w.configuration c).listeners
  refine ⟨called, ?_⟩
  rw [ConfigurationId.clearTree, EStateM.run_bind, run_announce_ok hpassive (haccept before)]
  dsimp only
  rw [run_read_bind, (SameTree.notedBy c w before _).fetchNodes, hfetch]
  dsimp only
  rw [EStateM.run_bind, run_dropNodes, World.forest_notedBy, (SameTree.notedBy c w before _).root]
  refine hagain.trans ?_
  rw [hafter]
  simp only [u, hbefore, before, after]

/-- Clearing a tree fells exactly the nodes of its key, in document order, before listeners that
only record. Ancestors stay, be they empty or not. A key without an index leads nowhere
afterwards, unless it led to the root. -/
theorem World.felled_clearTree (hf : w.forest.WellFormed) (hroot : w.forest.Has (w.root c))
    (hrecord : ∀ l ∈ (w.configuration c).listeners, (w.listener l).reaction = .record)
    (hfetch : w.fetchNodes c key = .ok nodes) :
    let listeners := (w.configuration c).listeners
    ∃ w', (c.clearTree key).run w = .ok () w' ∧
      Forest.Felled (w.root c) nodes w.forest w'.forest ∧
      (∀ i ∈ nodes, ∀ a, w.forest.Above a i → a ≠ i →
        (w'.forest.node a).parent = (w.forest.node a).parent) ∧
      w'.notices = w.notices ++
        noticesOf ⟨c, Event.clearTree, key, .value .null, true⟩ w.forest listeners ++
        noticesOf ⟨c, Event.clearTree, key, .nodes nodes, false⟩ w'.forest listeners ∧
      nodes.Sublist (w.forest.preorder (w.root c)) ∧ (w.forest.preorder (w.root c)).Nodup ∧
      ∀ parts, (w.markers c).parse key = .ok parts → (∀ part ∈ parts, part.index? = none) →
        w.root c ∉ nodes → w'.fetchNodes c key = .ok [] := by
  intro listeners
  obtain ⟨hlayer, hbelow⟩ := layer_of_fetchNodes hf hroot hfetch
  obtain ⟨called, hrun⟩ := run_clearTree hrecord hfetch
  have hfelled := Forest.felled_dropAll hf hroot hlayer hbelow
  obtain ⟨parts, hparse, rfl⟩ := Forest.select_eq_ok.1 hfetch
  have hempty (hplain : ∀ part ∈ parts, part.index? = none)
      (hmem : w.root c ∉ w.forest.follow [w.root c] parts) :
      (w.forest.dropAll (w.root c) (w.forest.follow [w.root c] parts)).follow [w.root c] parts =
        [] :=
    ((Forest.Stripped.refl hf).dropAll hmem).follow_eq_nil hplain (by simpa using hmem)
      fun i hi => by simpa using hi
  refine ⟨_, hrun, hfelled, fun i hi a ha hne => hfelled.parent_of_above hf hlayer hi ha hne, rfl,
    hf.follow_sublist_preorder (w.root c) parts, hf.nodup_preorder (w.root c),
    fun parts' hparse' hplain hmem => ?_⟩
  obtain rfl : parts' = parts := Except.ok.inj (hparse'.symm.trans hparse)
  exact Forest.select_eq_ok.2 ⟨parts', hparse, hempty hplain hmem⟩

/-- Through a view, two namesakes are cleared, one of which has an attribute. Their parent is
the root of the view, and stays where it is though nothing is left in it. -/
theorem World.felled_clearTree_view :
    let branch := ((Forest.empty.create none .null false).2.createLinked ⟨0⟩ "v" .null false).2
    let forest := (((branch.createLinked ⟨1⟩ "a" (.int 7) false).2.createLinked
      ⟨2⟩ "x" (.int 8) true).2.createLinked ⟨1⟩ "a" .null false).2
    let w := { World.fresh [] with
      forest
      configurations := #[⟨⟨0⟩, none, false, none, []⟩, ⟨⟨1⟩, none, false, some ⟨0⟩, [⟨0⟩]⟩]
      listeners := #[⟨"first", .record, false⟩] }
    ∃ w', (ConfigurationId.clearTree ⟨1⟩ (some "a")).run w = .ok () w' ∧
      Forest.Felled ⟨1⟩ [⟨2⟩, ⟨4⟩] forest w'.forest ∧
      (w'.forest.node ⟨1⟩).parent = some ⟨0⟩ ∧
      w'.notices =
        [⟨⟨0⟩, ⟨⟨1⟩, Event.clearTree, some "a", .value .null, true⟩, forest, none⟩,
          ⟨⟨0⟩, ⟨⟨1⟩, Event.clearTree, some "a", .nodes [⟨2⟩, ⟨4⟩], false⟩, w'.forest, none⟩] ∧
      w'.fetchNodes ⟨1⟩ (some "a") = .ok [] := by
  intro branch forest w
  have hbranch : branch.WellFormed :=
    (Forest.WellFormed.empty.create none .null false).createLinked (by decide)
  have hforest : forest.WellFormed :=
    ((hbranch.createLinked (by decide)).createLinked (by decide)).createLinked (by decide)
  have hrecord : ∀ l ∈ (w.configuration ⟨1⟩).listeners, (w.listener l).reaction = .record := by
    intro l hl
    obtain rfl := List.mem_singleton.1 hl
    rfl
  have hfetch : w.fetchNodes ⟨1⟩ (some "a") = .ok [⟨2⟩, ⟨4⟩] := by decide +kernel
  have hparse : (w.markers ⟨1⟩).parse (some "a") = .ok [.element "a" none] := by decide +kernel
  obtain ⟨w', hrun, hfelled, hstays, hnotices, -, -, hempty⟩ :=
    felled_clearTree (w := w) (c := ⟨1⟩) hforest (by decide) hrecord hfetch
  refine ⟨w', hrun, hfelled, ?_, hnotices, hempty _ hparse (by simp [KeyPart.index?]) (by decide)⟩
  have habove : forest.Above ⟨1⟩ ⟨2⟩ := .of_parent (by decide +kernel)
  exact (hstays ⟨2⟩ (by simp) ⟨1⟩ habove (by decide)).trans (by decide +kernel)

end Settings
