import Settings.Configuration.Lookup
import Settings.Proofs.Expansion
import Settings.Proofs.Forest.Growth

/-! # Variables of a configuration

What a variable stands for is the text of a stored value or of an environment
variable. So an expansion meets no more names than these texts and the text it
began with refer to, and the bound on open variables never cuts one short.
-/

namespace Settings.World

open Reference Relation

variable {w : World} {c : ConfigurationId} {text name found : String}

def variableTexts (w : World) : List String :=
  w.forest.nodes.toList.flatMap (textsOf ·.value) ++ w.environment.map (·.2)

theorem exists_node_of_mem_valuesOf {nodes : List NodeId} {v : Value} (h : v ∈ w.valuesOf nodes) :
    ∃ n ∈ w.forest.nodes.toList, n.value = v := by
  obtain ⟨hv, hnull⟩ := List.mem_filter.1 h
  obtain ⟨i, -, rfl⟩ := List.mem_map.1 hv
  have hhas : i.index < w.forest.nodes.size := by
    by_contra hn
    rw [Forest.node_of_not_has hn] at hnull
    simp [default, Node.lone, Value.isNull] at hnull
  refine ⟨_, ?_, rfl⟩
  have hget : w.forest.node i = w.forest.nodes[i.index] := by
    simp [Forest.node, Array.getD_eq_getD_getElem?, Array.getElem?_eq_getElem hhas]
  rw [hget]
  exact Array.getElem_mem_toList hhas

/-- The first of several values collected is one of them, or the first of the only one. -/
theorem first_collect (vs : List Value) :
    (collect vs).first = .null ∨
      ∃ v ∈ vs, (collect vs).first = v ∨ (collect vs).first = v.first := by
  match vs with
  | [] => exact .inl rfl
  | [v] => exact .inr ⟨v, by simp, .inr rfl⟩
  | v :: v' :: rest => exact .inr ⟨v, by simp, .inl rfl⟩

theorem mem_variableTexts (h : w.variableText c name = .ok (some found)) :
    found ∈ w.variableTexts := by
  unfold variableText at h
  split at h
  · rename_i rest _
    obtain ⟨before, after, heq, -⟩ := List.lookup_eq_some_iff.1 (Except.ok.inj h)
    exact List.mem_append_right _ (List.mem_map.2 ⟨_, heq ▸ List.mem_append_cons_self, rfl⟩)
  · obtain ⟨v, hv, h⟩ := bind_eq_ok.1 h
    obtain ⟨stored, hstored, heq⟩ := bind_eq_ok.1 hv
    obtain ⟨nodes, -, hcollect⟩ := bind_eq_ok.1 hstored
    cases heq
    cases hcollect
    have htext : (collect (w.valuesOf nodes)).first.text = .ok found := by
      split at h
      · cases h
      · obtain ⟨t, ht, heq⟩ := bind_eq_ok.1 h
        cases heq
        exact ht
    refine List.mem_append_left _ (List.mem_flatMap.2 ?_)
    rcases first_collect (w.valuesOf nodes) with hnull | ⟨v, hv, hfirst⟩
    · rw [hnull] at h
      cases h
    · obtain ⟨n, hn, rfl⟩ := exists_node_of_mem_valuesOf hv
      refine ⟨n, hn, List.mem_filterMap.2 ⟨_, ?_, by rw [htext]; rfl⟩⟩
      rcases hfirst with hfirst | hfirst <;> simp [hfirst]

def namesMet (w : World) (text : String) : List String :=
  (text :: w.variableTexts).flatMap Reference.names

theorem mem_namesMet (h : Reaches (w.variableText c) text name) : name ∈ w.namesMet text := by
  cases h with
  | direct hname => exact List.mem_flatMap.2 ⟨text, List.mem_cons_self, hname⟩
  | onward _ hrefers =>
    obtain ⟨found, hfound, hother⟩ := hrefers
    exact List.mem_flatMap.2 ⟨found, List.mem_cons_of_mem _ (mem_variableTexts hfound), hother⟩

theorem expandFrom_concludes (w : World) (c : ConfigurationId) (text : String) :
    Concludes (w.variableText c) text (pieces text.toList)
      (String.toList <$> w.expandFrom c text) :=
  expand_concludes (.start _ text) (fun _ => mem_namesMet) (Nat.le_refl _)

theorem expandFrom_cases
    (hlookup : ∀ name, Reaches (w.variableText c) text name →
      ∃ found, w.variableText c name = .ok found) :
    (∃ out, w.expandFrom c text = .ok out ∧
      Expands (w.variableText c) (pieces text.toList) out.toList) ∨
    (∃ within name, w.expandFrom c text = .error (.referenceLoop within name)) ∧
      Loops (w.variableText c) text := by
  have hsettles := (expandFrom_concludes w c text).settles hlookup
  cases hresult : w.expandFrom c text with
  | ok out =>
    rw [hresult] at hsettles
    rcases hsettles with ⟨_, heq, hexpands⟩ | ⟨⟨_, _, heq⟩, -⟩
    · cases heq
      exact .inl ⟨out, rfl, hexpands⟩
    · cases heq
  | error fault =>
    rw [hresult] at hsettles
    rcases hsettles with ⟨_, heq, -⟩ | ⟨⟨within, name, heq⟩, hloops⟩
    · cases heq
    · cases heq
      exact .inr ⟨⟨within, name, rfl⟩, hloops⟩

/-- Expanding a text through variables that can all be looked up is refused
exactly when a name met on the way leads back to itself, and otherwise gives
the one text in which all references are followed to their end. The bound on
open variables could be any larger one. -/
theorem expandFrom_outcome
    (hlookup : ∀ name, Reaches (w.variableText c) text name →
      ∃ found, w.variableText c name = .ok found) :
    (∀ depth, w.referenceCount text ≤ depth →
      expand (w.variableText c) depth [] text = w.expandFrom c text) ∧
    ((∃ fault, w.expandFrom c text = .error fault ∧ fault.kind = .configuration) ↔
      Loops (w.variableText c) text) ∧
    (¬ Loops (w.variableText c) text → ∃ out, w.expandFrom c text = .ok out ∧
      ∀ cs, Expands (w.variableText c) (pieces text.toList) cs ↔ cs = out.toList) ∧
    ∀ d, w.outermost d = c → w.interpolate d (.str text) = .str <$> w.expandFrom c text := by
  refine ⟨fun depth hdepth => ?_, ?_, fun hnone => ?_, ?_⟩
  · exact expand_congr_depth (.start _ text) (fun _ => mem_namesMet) hdepth (Nat.le_refl _)
  · rcases expandFrom_cases hlookup with ⟨out, hout, hexpands⟩ | ⟨⟨within, name, hfault⟩, hloops⟩
    · simp [hout, hexpands.not_loops]
    · exact iff_of_true ⟨_, hfault, rfl⟩ hloops
  · rcases expandFrom_cases hlookup with ⟨out, hout, hexpands⟩ | ⟨-, hloops⟩
    · refine ⟨out, hout, fun cs => ⟨fun h => h.unique hexpands, ?_⟩⟩
      rintro rfl
      exact hexpands
    · exact absurd hloops hnone
  · rintro d rfl
    rfl

/-- A variable used twice and on two routes is no loop; one that comes back to itself is. -/
theorem expandFrom_diamond :
    let forest := ((((((Forest.empty.create none .null false).2.createLinked
      ⟨0⟩ "a" (.str "$\x7bb\x7d-$\x7bb\x7d") false).2.createLinked
      ⟨0⟩ "b" (.str "$\x7benv:HOME\x7d") false).2.createLinked
      ⟨0⟩ "c" (.str "$\x7bd\x7d") false).2.createLinked
      ⟨0⟩ "d" (.str "$\x7bc(0)\x7d") false).2)
    let w := { World.fresh [("HOME", "h")] with forest, configurations := #[.rootedAt ⟨0⟩ none] }
    let lookup := w.variableText ⟨0⟩
    let diamond := "$\x7ba\x7d $\x7bb\x7d $\x7be\x7d"
    let circle := "$\x7bc\x7d"
    (∀ text ∈ [diamond, circle], ∀ name, Reaches lookup text name →
        ∃ found, lookup name = .ok found) ∧
      (w.expandFrom ⟨0⟩ diamond = .ok "h-h h $\x7be\x7d" ∧ ¬ Loops lookup diamond) ∧
      Loops lookup circle := by
  intro forest w lookup diamond circle
  have hlookup : ∀ text ∈ [diamond, circle], ∀ name, Reaches lookup text name →
      ∃ found, lookup name = .ok found := by
    have hmet : ∀ text ∈ [diamond, circle], ∀ name ∈ w.namesMet text,
        (lookup name).toOption.isSome = true := by
      decide +kernel
    intro text htext name hreaches
    have hsome := hmet text htext name (mem_namesMet hreaches)
    cases hfound : lookup name with
    | ok found => exact ⟨found, rfl⟩
    | error _ =>
      rw [hfound] at hsome
      cases hsome
  have hdiamond : w.expandFrom ⟨0⟩ diamond = .ok "h-h h $\x7be\x7d" := by
    have hout : (w.expandFrom ⟨0⟩ diamond).toOption = some "h-h h $\x7be\x7d" := by decide +kernel
    cases hresult : w.expandFrom ⟨0⟩ diamond <;> rw [hresult] at hout <;> cases hout
    rfl
  have hcircle : (w.expandFrom ⟨0⟩ circle).toOption = none := by decide +kernel
  refine ⟨hlookup, ⟨hdiamond, fun hloops => ?_⟩, ?_⟩
  · obtain ⟨_, hfault, -⟩ := (expandFrom_outcome (hlookup diamond (by simp))).2.1.2 hloops
    rw [hdiamond] at hfault
    cases hfault
  · by_contra hnone
    obtain ⟨_, hout, -⟩ := (expandFrom_outcome (hlookup circle (by simp))).2.2.1 hnone
    change w.expandFrom ⟨0⟩ circle = _ at hout
    rw [hout] at hcircle
    cases hcircle

end Settings.World
