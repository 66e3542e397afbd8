import Settings.Proofs.Listing

/-! # Attribute keys

Listed keys double the delimiters in the names of attributes, as in those of children. A key is
read differently: the name of an attribute is taken as it stands, doubled delimiters and all. So
an attribute with a delimiter in its name is listed under a key that leads past it.
-/

namespace Settings

open Markers

/-- The place that a listed key names: an attribute bears its name with the delimiters doubled. -/
def Place.escaped (place : Place) : Place :=
  { place with attr := place.attr.map standard.escape }

variable {w : World} {c : ConfigurationId} {f : Forest} {i : NodeId} {front : List String}
  {key name : String} {place : Place}

theorem mem_doubled {d c : Char} {cs : List Char} : c ∈ doubled d cs ↔ c ∈ cs := by
  simp only [doubled, List.mem_flatMap]
  constructor
  · rintro ⟨c', hc', hc⟩
    split at hc
    · rename_i heq
      simp_all
    · rwa [List.mem_singleton.1 hc]
  · intro hc
    refine ⟨c, hc, ?_⟩
    split <;> simp_all

theorem length_doubled (d : Char) (cs : List Char) :
    (doubled d cs).length = cs.length + cs.count d := by
  induction cs with
  | nil => rfl
  | cons c cs ih =>
    rw [doubled, List.flatMap_cons, List.length_append, ← doubled, ih, List.length_cons,
      List.count_cons]
    split
    · rename_i hc
      simp only [hc, beq_self_eq_true, if_true, List.length_cons, List.length_nil]
      omega
    · rename_i hc
      simp only [beq_eq_false_iff_ne.2 hc, Bool.false_eq_true, if_false, List.length_singleton]
      omega

theorem escape_eq_self_iff : standard.escape name = name ↔ '.' ∉ name.toList := by
  constructor
  · intro h hdot
    have hlength := length_doubled '.' name.toList
    rw [← toList_escape_standard, h] at hlength
    have hcount := List.count_pos_iff.2 hdot
    omega
  · exact escape_of_not_mem

theorem not_mem_escape (h : ']' ∉ name.toList) : ']' ∉ (standard.escape name).toList := by
  rwa [toList_escape_standard, mem_doubled]

theorem select_attributeKey (f : Forest) (i : NodeId) (h : ']' ∉ name.toList) :
    f.select standard i (some (standard.attributeKey name)) =
      .ok (f.attributesNamed i (some name)) := by
  have hkey : (⟨[], some name⟩ : Place).key = standard.attributeKey name := by
    rw [← key_attributeKey]
    exact String.empty_append
  have hparse : standard.parse (some (⟨[], some name⟩ : Place).key) = _ :=
    parse_key (by simpa [Place.parts, KeyPart.Expressible] using h)
  rw [hkey] at hparse
  refine Forest.select_eq_ok.2 ⟨_, hparse, ?_⟩
  simp [Place.parts, Forest.follow, Forest.step]

theorem Forest.attributesNamed_eq_iff {name' : String} (hne : name' ≠ name) :
    f.attributesNamed i (some name') = f.attributesNamed i (some name) ↔
      f.attributesNamed i (some name') = [] ∧ f.attributesNamed i (some name) = [] := by
  constructor
  · intro h
    have hnone : f.attributesNamed i (some name') = [] := by
      refine List.eq_nil_iff_forall_not_mem.2 fun a ha => hne ?_
      have ha' := h ▸ ha
      have hname := (List.mem_filter.1 ha).2
      have hname' := (List.mem_filter.1 ha').2
      simp only [decide_eq_true_eq] at hname hname'
      exact Option.some.inj (hname.symm.trans hname')
    exact ⟨hnone, h ▸ hnone⟩
  · rintro ⟨h, h'⟩
    rw [h, h']

def Forest.ListedAs (f : Forest) (front : List String) (key : String) (v : Visit) : Prop :=
  f.lists (v.behind front) = true ∧ (v.behind front).place.escaped.key = key

namespace Forest

theorem listedAs_self_iff (hfront : ∀ name ∈ front, FitsKey name) :
    f.ListedAs front key ⟨⟨[], none⟩, i⟩ ↔
      key ∈ if (f.node i).value.isNull || Place.key ⟨front, none⟩ = "" then []
        else [Place.key ⟨front, none⟩] := by
  have hempty := key_eq_empty_iff hfront
  by_cases hnull : (f.node i).value.isNull
  · simp [ListedAs, lists, Visit.behind, Place.behind, hnull]
  · by_cases hnil : front = []
    · rw [hempty.2 hnil]
      simp [ListedAs, lists, Visit.behind, Place.behind, hnil]
    · simp [ListedAs, lists, Visit.behind, Place.behind, Place.escaped, hempty, hnil, hnull,
        eq_comm (a := key)]

theorem listedAs_attribute_iff {a : NodeId} :
    f.ListedAs front key ⟨⟨[], some name⟩, a⟩ ↔
      Place.key ⟨front, none⟩ ++ standard.attributeKey (standard.escape name) = key := by
  rw [key_attributeKey]
  simp [ListedAs, lists, Visit.behind, Place.behind, Place.escaped]

theorem listedAs_under_iff {v : Visit} :
    f.ListedAs front key (v.under name) ↔ f.ListedAs (front ++ [name]) key v := by
  simp [ListedAs, Visit.behind, Visit.under, Place.behind, Place.under]

end Forest

theorem mem_keysTo_iff (hf : w.forest.WellFormed) (he : w.forest.Expressible i)
    (hfront : ∀ name ∈ front, FitsKey name) (depth : Nat) :
    key ∈ w.keysTo standard depth i (Place.key ⟨front, none⟩) ↔
      ∃ v ∈ w.forest.visitsTo depth i, w.forest.ListedAs front key v := by
  induction depth generalizing i front with
  | zero => simp [World.keysTo, Forest.visitsTo]
  | succ depth ih =>
    have hbelow : ∀ child ∈ (w.forest.node i).children,
        (key ∈ w.keysTo standard depth child (standard.below (Place.key ⟨front, none⟩)
            (standard.escape (w.forest.label child))) ↔
          ∃ v ∈ w.forest.visitsTo depth child,
            w.forest.ListedAs front key (v.under (w.forest.label child))) := by
      intro child hchild
      simp only [Forest.listedAs_under_iff]
      rw [below_key hfront]
      refine ih (he.below (hf.above_child hchild)) ?_
      simpa [or_imp, forall_and] using ⟨hfront, he.fits_label hchild⟩
    rw [World.keysTo, Forest.visitsTo]
    simp only [List.mem_append, List.mem_map, List.mem_flatMap, List.cons_append, List.mem_cons,
      ← Forest.listedAs_self_iff hfront]
    constructor
    · rintro ((hself | ⟨a, ha, hkey⟩) | ⟨child, hchild, hkey⟩)
      · exact ⟨_, .inl rfl, hself⟩
      · exact ⟨_, .inr (.inl ⟨a, ha, rfl⟩), Forest.listedAs_attribute_iff.2 hkey⟩
      · obtain ⟨v, hv, hlisted⟩ := (hbelow child hchild).1 hkey
        exact ⟨_, .inr (.inr ⟨child, hchild, v, hv, rfl⟩), hlisted⟩
    · rintro ⟨_, rfl | ⟨a, ha, rfl⟩ | ⟨child, hchild, v, hv, rfl⟩, hlisted⟩
      · exact .inl (.inl hlisted)
      · exact .inl (.inr ⟨a, ha, Forest.listedAs_attribute_iff.1 hlisted⟩)
      · exact .inr ⟨child, hchild, (hbelow child hchild).2 ⟨v, hv, hlisted⟩⟩

theorem expressible_escaped (h : ∀ part ∈ place.parts, part.Expressible '.') :
    ∀ part ∈ place.escaped.parts, part.Expressible '.' := by
  obtain ⟨names, attr⟩ := place
  cases attr with
  | none => exact h
  | some name =>
    simp only [Place.parts, Place.escaped, Option.map_some, Option.toList_some,
      List.map_singleton, List.forall_mem_append, List.forall_mem_singleton] at h ⊢
    exact ⟨h.1, not_mem_escape h.2⟩

/-- The key that an attribute is listed under selects it if there is no delimiter in its name. -/
theorem mem_occupants_iff {names : List String} {a : NodeId}
    (ha : f.Occupies i ⟨names, some name⟩ a) :
    f.Occupies i ⟨names, some (standard.escape name)⟩ a ↔ '.' ∉ name.toList := by
  rw [← escape_eq_self_iff]
  constructor
  · rintro ⟨-, -, -, hname⟩
    obtain ⟨-, -, -, hname'⟩ := ha
    exact Option.some.inj (hname.symm.trans hname')
  · intro h
    rwa [h]

/-- The key of an escaped name selects the attributes that bear the escaped name itself. These
are the attributes of the name if it has no delimiter in it, and otherwise only if there are none
of either. What is listed are keys of this kind: an attribute is selected by its listed key if it
has no delimiter in its name. -/
theorem World.selected_attributeKeys (hf : w.forest.WellFormed) (hm : w.markers c = standard)
    (he : w.forest.Expressible (w.root c)) :
    (∀ (f : Forest) (i : NodeId) (name : String), ']' ∉ name.toList →
      f.select standard i (some (standard.attributeKey (standard.escape name))) =
          .ok (f.attributesNamed i (some (standard.escape name))) ∧
        (f.select standard i (some (standard.attributeKey (standard.escape name))) =
            .ok (f.attributesNamed i (some name)) ↔
          '.' ∉ name.toList ∨ f.attributesNamed i (some (standard.escape name)) = [] ∧
            f.attributesNamed i (some name) = [])) ∧
    ∃ keys, w.getKeys c none = .ok keys ∧
      (∀ key, key ∈ keys ↔ ∃ place i, w.forest.Occupies (w.root c) place i ∧
        (place.attr = none → place.names ≠ [] ∧ (w.forest.node i).value.isNull = false) ∧
        place.escaped.key = key) ∧
      ∀ names name a, w.forest.Occupies (w.root c) ⟨names, some name⟩ a →
        ∃ nodes, w.fetchNodes c (some (Place.escaped ⟨names, some name⟩).key) = .ok nodes ∧
          (∀ i, i ∈ nodes ↔ w.forest.Occupies (w.root c) ⟨names, some (standard.escape name)⟩ i) ∧
          (a ∈ nodes ↔ '.' ∉ name.toList) := by
  refine ⟨fun f i name hend => ?_, ?_⟩
  · have hselect := select_attributeKey f i (not_mem_escape hend)
    refine ⟨hselect, ?_⟩
    rw [hselect, Except.ok.injEq, ← escape_eq_self_iff]
    by_cases heq : standard.escape name = name
    · simp [heq]
    · rw [Forest.attributesNamed_eq_iff heq, or_iff_right heq]
  · refine ⟨_, by rw [getKeys, hm]; rfl, fun key => ?_, fun names name a ha => ?_⟩
    · have hkeys : key ∈ w.keysTo standard _ (w.root c) (Place.key ⟨[], none⟩) ↔ _ :=
        mem_keysTo_iff hf he (by simp) (w.forest.size + 1)
      refine List.mem_eraseDups.trans (hkeys.trans ?_)
      constructor
      · rintro ⟨v, hv, hlists, hkey⟩
        exact ⟨v.place, v.node, (hf.mem_visits_iff he.labelled).1 hv, Forest.lists_iff.1 hlists,
          hkey⟩
      · rintro ⟨place, i, hi, hlists, hkey⟩
        exact ⟨⟨place, i⟩, (hf.mem_visits_iff he.labelled).2 hi, Forest.lists_iff.2 hlists, hkey⟩
    · have hparse := parse_key (expressible_escaped (he.parts hf ha))
      have hfollow := hf.follow_parts he.labelled (Place.escaped ⟨names, some name⟩)
      refine ⟨_, Forest.select_eq_ok.2 ⟨_, hm ▸ hparse, hfollow⟩, fun i => ?_, ?_⟩
      · exact hf.mem_nodesAt_iff he.labelled
      · exact (hf.mem_nodesAt_iff he.labelled).trans (mem_occupants_iff ha)

/-- Of two attributes of a child with a delimiter in its name, the listed key of the one without a
delimiter selects it, and that of the other does not. -/
theorem World.selected_attributeKeys_dotted :
    let child := ((Forest.empty.create none .null false).2.createLinked ⟨0⟩ "c.d" .null false).2
    let forest := ((child.createLinked ⟨1⟩ "x" (.int 1) true).2.createLinked ⟨1⟩ "a.b" (.int 2)
      true).2
    let w := { World.fresh [] with forest, configurations := #[.rootedAt ⟨0⟩ none] }
    let c : ConfigurationId := ⟨0⟩
    (forest.WellFormed ∧ w.markers c = standard ∧ forest.Expressible (w.root c)) ∧
    w.getKeys c none = .ok ["c..d[@x]", "c..d[@a..b]"] ∧
    (∃ nodes, w.fetchNodes c (some "c..d[@x]") = .ok nodes ∧ ⟨2⟩ ∈ nodes) ∧
    ∃ nodes, w.fetchNodes c (some "c..d[@a..b]") = .ok nodes ∧ ⟨3⟩ ∉ nodes := by
  intro child forest w c
  have hchild : child.WellFormed :=
    (Forest.WellFormed.empty.create none .null false).createLinked (by decide)
  have hf : forest.WellFormed := (hchild.createLinked (by decide)).createLinked (by decide)
  have hnames : ∀ p ∈ List.range forest.size,
      (∀ i ∈ (forest.node ⟨p⟩).children, (forest.node i).name = some "c.d") ∧
      ∀ i ∈ (forest.node ⟨p⟩).attributes, (forest.node i).name = some "x" ∨
        (forest.node i).name = some "a.b" := by decide +kernel
  have hrange {p i : NodeId} {b : Bool} (hi : i ∈ (forest.node p).linked b) :
      p.index ∈ List.range forest.size := List.mem_range.2 (Forest.has_of_mem_linked hi)
  have he : forest.Expressible (w.root c) := by
    refine ⟨fun p _ i hi => ?_, fun p _ i hi => ?_⟩
    · have hname := (hnames p.index (hrange (b := false) hi)).1 i hi
      exact ⟨_, hname, FitsKey.of_last ⟨by decide, by decide, by decide⟩ (by decide)⟩
    · rcases (hnames p.index (hrange (b := true) hi)).2 i hi with hname | hname
      · exact ⟨_, hname, by decide⟩
      · exact ⟨_, hname, by decide⟩
  have hleads : forest.Leads (w.root c) ["c.d"] ⟨1⟩ :=
    .child (by decide +kernel) (by decide +kernel) .here
  obtain ⟨-, keys, -, -, hselect⟩ := selected_attributeKeys (w := w) (c := c) hf rfl he
  obtain ⟨nodes, hnodes, -, hmem⟩ :=
    hselect ["c.d"] "x" ⟨2⟩ ⟨⟨1⟩, hleads, by decide +kernel, by decide +kernel⟩
  obtain ⟨nodes', hnodes', -, hmem'⟩ :=
    hselect ["c.d"] "a.b" ⟨3⟩ ⟨⟨1⟩, hleads, by decide +kernel, by decide +kernel⟩
  have hkey : (Place.escaped ⟨["c.d"], some "x"⟩).key = "c..d[@x]" := by decide +kernel
  have hkey' : (Place.escaped ⟨["c.d"], some "a.b"⟩).key = "c..d[@a..b]" := by decide +kernel
  rw [hkey] at hnodes
  rw [hkey'] at hnodes'
  exact ⟨⟨hf, rfl, he⟩, by decide +kernel, ⟨nodes, hnodes, hmem.2 (by decide)⟩, nodes', hnodes',
    fun h => hmem'.1 h (by decide)⟩

/-- The only attribute has a delimiter in its name, and the key it is listed under selects
nothing. -/
theorem World.missed_attributeKey :
    let forest := ((Forest.empty.create none .null false).2.createLinked ⟨0⟩ "a.b" (.int 1) true).2
    let w := { World.fresh [] with forest, configurations := #[.rootedAt ⟨0⟩ none] }
    forest.WellFormed ∧ ']' ∉ "a.b".toList ∧ w.getKeys ⟨0⟩ none = .ok ["[@a..b]"] ∧
      forest.attributesNamed ⟨0⟩ (some "a.b") = [⟨1⟩] ∧
      forest.select standard ⟨0⟩ (some (standard.attributeKey (standard.escape "a.b"))) =
        .ok [] := by
  intro forest w
  have hf : forest.WellFormed :=
    (Forest.WellFormed.empty.create none .null false).createLinked (by decide)
  exact ⟨hf, by decide, by decide +kernel, by decide +kernel, by decide +kernel⟩

end Settings
