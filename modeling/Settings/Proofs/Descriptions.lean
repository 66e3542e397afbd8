import Settings.Proofs.Bean.Telling

/-! # Declarations apart from settings

A declaration says what the tree below its node does. It makes no difference through which
configuration it was obtained, what key language that has and whether it refuses missing keys;
and none of this notices that a declaration was obtained, described or made into a bean.
-/

namespace Settings

open Settings.Action

variable {w u v : World} {c : ConfigurationId} {key : Option String} {optional : Bool}
  {d e : Declaration} {n : NodeId}

namespace Declaration

/-- A declaration that comes out of another one, in a world in which it is there: the other one
itself, or one of those nested in a declaration that comes out of it. -/
inductive Within (d : Declaration) (u : World) : Declaration → World → Prop
  | self : Within d u d u
  | nested {e e' : Declaration} {v v' : World} {entry : Option String × Nested Declaration}
      {roster : Roster (Option String) (Nested Declaration)} : Within d u e v →
      e.nested.run v = .ok roster v' → entry ∈ roster → e' ∈ entry.2.toList → Within d u e' v'
  | later {e : Declaration} {v v' : World} : Within d u e v → v.Widens v' → Within d u e v'

theorem Seated.of_within (h : d.Seated w c u) (hf : w.forest.WellFormed)
    (hwithin : d.Within u e v) : e.Seated w c v ∧ w.forest.Nests d.node e.node := by
  induction hwithin with
  | self => exact ⟨h, .refl⟩
  | @nested e e' v v' entry roster _ hrun hentry he' ih =>
    obtain ⟨hseat, hnests⟩ := ih
    obtain ⟨roster', v'', hrun', hwidens, hgroups, hprecedes⟩ := (hseat.stands hf).run_nested
    obtain ⟨rfl, rfl⟩ := EStateM.Result.ok.inj (hrun'.symm.trans hrun)
    rw [hseat.widens.forest] at hgroups
    exact ⟨hseat.of_nested hwidens hgroups hprecedes hentry he',
      hnests.tail (hgroups.mem_nodes hentry he')⟩
  | later _ hwidens ih => exact ⟨ih.1.widen hwidens, ih.2⟩

/-- A declaration is obtained from a key and described, as often as one likes and as deep as one
likes, always with the same outcome. Whether it is obtained, described or made into a bean, no
node changes and no configuration that was there does. -/
structure Says (w : World) (c : ConfigurationId) (key : Option String) (optional : Bool)
    (d : Declaration) (u : World) (said : Except Fault Description) : Prop where
  run_atKey : (atKey c key optional).run w = .ok d u
  outcome_describe : ∀ v, u.Widens v → d.describe.outcome v = said
  outcome_describeTo : ∀ v, u.Widens v → ∀ depth, w.forest.size ≤ depth →
    (d.describeTo depth).outcome v = said
  reads : ∀ e v, d.Within u e v → e.ReadsOwnNode v
  obtaining : w.Widens u
  describing : ∀ v, u.Widens v → v.Widens (d.describe.after v)
  creating : ∀ v, u.Widens v → ∀ (h : BeanHelper) (fallback : Option BeanClass) (parameter : Value),
    v.Widens ((h.create (some d) fallback parameter).after v)

theorem exists_says (hf : w.forest.WellFormed) (hn : w.forest.Has n)
    (hcommon : w.common = .standard) (hc : c.index < w.configurations.size)
    (hinert : ∀ i, w.forest.Nests n i → w.forest.InertAt i)
    (hfetch : w.fetchNodes c key = .ok [n]) (optional : Bool) :
    ∃ d u, Says w c key optional d u (w.forest.told w.forest.size n) := by
  have hseat := Seated.declare w hc n
  refine ⟨_, _, run_atKey hfetch optional, fun v hv => ?_, fun v hv depth hdepth => ?_,
    fun e v he => ?_, hseat.widens, fun v _ => keeps_describe _ v,
    fun v _ h fallback parameter => h.keeps_create _ fallback parameter v⟩
  · have hforest : v.forest = w.forest := (hseat.widen hv).widens.forest
    change (describeTo v.forest.size _).outcome v = _
    rw [hforest]
    exact (hseat.widen hv).outcome_describeTo hf hcommon hinert _
  · rw [(hseat.widen hv).outcome_describeTo hf hcommon hinert]
    exact hf.told_eq (Forest.room_of_le hn hdepth) (Forest.room_of_le hn (Nat.le_refl _))
  · obtain ⟨hseat, hnests⟩ := hseat.of_within hf he
    exact hseat.readsOwnNode hf hcommon (hseat.widens.forest ▸ hinert _ hnests)

/-- Whatever their key languages, settings and keys, two configurations yield declarations at a
node that say the same, namely what the tree says of itself there, provided that no attribute
below the node refers to a variable. The worlds around the tree may differ, too. No declaration
is refused for a missing key. -/
theorem says_alike {w₁ w₂ : World} {c₁ c₂ : ConfigurationId} {k₁ k₂ : Option String}
    (hforest : w₂.forest = w₁.forest) (hf : w₁.forest.WellFormed) (hn : w₁.forest.Has n)
    (hcommon₁ : w₁.common = .standard) (hcommon₂ : w₂.common = .standard)
    (hc₁ : c₁.index < w₁.configurations.size) (hc₂ : c₂.index < w₂.configurations.size)
    (hinert : ∀ i, w₁.forest.Nests n i → w₁.forest.InertAt i)
    (hfetch₁ : w₁.fetchNodes c₁ k₁ = .ok [n]) (hfetch₂ : w₂.fetchNodes c₂ k₂ = .ok [n])
    (optional₁ optional₂ : Bool) :
    ∃ d₁ u₁ d₂ u₂, Says w₁ c₁ k₁ optional₁ d₁ u₁ (w₁.forest.told w₁.forest.size n) ∧
      Says w₂ c₂ k₂ optional₂ d₂ u₂ (w₁.forest.told w₁.forest.size n) ∧
      ∀ e, w₁.forest.told w₁.forest.size n = .error e → e.kind ≠ .missingKey := by
  obtain ⟨d₁, u₁, hsays₁⟩ := exists_says hf hn hcommon₁ hc₁ hinert hfetch₁ optional₁
  rw [← hforest] at hf hn hinert hsays₁ ⊢
  obtain ⟨d₂, u₂, hsays₂⟩ := exists_says hf hn hcommon₂ hc₂ hinert hfetch₂ optional₂
  refine ⟨d₁, u₁, d₂, u₂, hsays₁, hsays₂, fun e he => ?_⟩
  rw [Forest.told_refusals _ _ _ e he]
  decide

/-- One configuration has a key language of its own and refuses missing keys; the other one is
over the node itself. The declaration has a nested one. -/
theorem says_alike_slashed :
    let branch := ((Forest.empty.create none .null false).2.createLinked ⟨0⟩ "bean" .null false).2
    let declared := ((branch.createLinked ⟨1⟩ "config-class" (.str "m.A") true).2.createLinked
      ⟨1⟩ "x" (.str "$") true).2
    let forest := ((declared.createLinked ⟨1⟩ "part" .null false).2.createLinked
      ⟨4⟩ "y" (.int 1) true).2
    let slashed : Markers := { Markers.standard with delimiter := ['/'], delimiter_ne := by decide }
    let w := { World.fresh [] with
      forest, configurations := #[⟨⟨0⟩, some slashed, true, none, [⟨0⟩]⟩, .rootedAt ⟨1⟩ none] }
    (forest.told forest.size ⟨1⟩).toBool ∧
      ∃ d₁ u₁ d₂ u₂, Says w ⟨0⟩ (some "/bean") false d₁ u₁ (forest.told forest.size ⟨1⟩) ∧
      Says w ⟨1⟩ none true d₂ u₂ (forest.told forest.size ⟨1⟩) ∧
      ∀ e, forest.told forest.size ⟨1⟩ = .error e → e.kind ≠ .missingKey := by
  intro branch declared forest slashed w
  have hbranch : branch.WellFormed :=
    (Forest.WellFormed.empty.create none .null false).createLinked (by decide)
  have hdeclared : declared.WellFormed :=
    (hbranch.createLinked (by decide)).createLinked (by decide)
  have hforest : forest.WellFormed :=
    (hdeclared.createLinked (by decide)).createLinked (by decide)
  have hclosed : ∀ p ∈ [⟨1⟩, ⟨4⟩], ∀ j ∈ (forest.node p).children, j ∈ [⟨1⟩, ⟨4⟩] := by
    decide +kernel
  have hinert : ∀ i ∈ [⟨1⟩, ⟨4⟩], forest.InertAt i := by decide +kernel
  have hfetch₁ : w.fetchNodes ⟨0⟩ (some "/bean") = .ok [⟨1⟩] := by decide +kernel
  have hfetch₂ : w.fetchNodes ⟨1⟩ none = .ok [⟨1⟩] := by decide +kernel
  have hbelow : ∀ i, w.forest.Nests ⟨1⟩ i → w.forest.InertAt i :=
    fun i hi => hinert i (hi.mem hclosed (by decide))
  have hn : w.forest.Has ⟨1⟩ := by decide
  have hcommon : w.common = .standard := rfl
  have htold : (forest.told forest.size ⟨1⟩).toBool := by decide +kernel
  exact ⟨htold, says_alike (Eq.refl w.forest) hforest hn hcommon hcommon (by decide) (by decide)
    hbelow hfetch₁ hfetch₂ false true⟩

end Declaration

end Settings
