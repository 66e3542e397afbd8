import Settings.Configuration.View
import Settings.Proofs.Actions
import Settings.Proofs.Forest.Filling
import Settings.Proofs.Layers
import Settings.Proofs.Listing

/-! # Settings as a snapshot and as a tree

Merged settings are read through a snapshot, key by key, or from a tree, by a key
that names a whole path. Both find the same value at a path, a list in the snapshot
being repeated children in the tree.
-/

namespace Settings

open Markers

/-- A key of a mapping that names a child in the tree of the mapping. -/
structure NamesChild (name : String) : Prop where
  fits : FitsKey name
  not_text : name ≠ "#text"
  not_marked : name.toList.head? ≠ some '@'

namespace Value

variable {v u : Value} {entries : Mapping} {name : String} {names : List String}
  {path : List Value}

/-- A value whose mappings, one inside the other, have names of children as keys; in a
list there may be mappings with other keys. -/
inductive Named : Value → Prop
  | plain {v : Value} (h : v.isMapping = false) (writable : v.Writable) : Named v
  | mapping {entries : Mapping} (keys : ∀ e ∈ entries, ∃ name, e.1 = .str name ∧ NamesChild name)
      (values : ∀ e ∈ entries, Named e.2) : Named (.mapping entries)

def Simple (v : Value) : Prop := ∀ item ∈ v.occurrences, item.isMapping = false

theorem Named.keys (h : Named (.mapping entries)) :
    ∀ e ∈ entries, ∃ name, e.1 = .str name ∧ NamesChild name := by
  cases h with
  | plain h => cases h
  | mapping keys _ => exact keys

theorem Named.values (h : Named (.mapping entries)) : ∀ e ∈ entries, Named e.2 := by
  cases h with
  | plain h => cases h
  | mapping _ values => exact values

theorem Named.get? {key : Value} (h : Named (.mapping entries))
    (hget : Mapping.get? entries key = some v) : Named v := by
  obtain ⟨e, he, -, rfl⟩ := Mapping.mem_of_get? hget
  exact h.values e he

theorem Named.writable (h : v.Named) : v.Writable := by
  induction h with
  | plain _ writable => exact writable
  | mapping keys _ ih =>
    refine .mapping (fun e he => ?_) fun e he _ _ => ih e he
    obtain ⟨name, hname, -⟩ := keys e he
    exact ⟨name, by rw [hname]; rfl⟩

theorem role?_str (h : NamesChild name) : (Value.str name).role? = some (.child name) := by
  change some (EntryRole.ofKey name) = _
  rw [EntryRole.ofKey, if_neg h.not_text]
  split
  · rename_i rest heq
    exact absurd (by rw [heq]; rfl) h.not_marked
  · rfl

theorem Named.of_at? (h : v.Named) (hat : v.at? path = some u) :
    u.Named ∧ ∀ key ∈ path, ∃ name, key = .str name ∧ NamesChild name := by
  induction path generalizing v with
  | nil =>
    obtain rfl := Option.some.inj (at?_nil.symm.trans hat)
    exact ⟨h, by simp⟩
  | cons key path ih =>
    obtain ⟨entries, below, rfl, hbelow, hrest⟩ := at?_cons_eq_some.1 hat
    obtain ⟨e, he, hsame, -⟩ := Mapping.mem_of_get? hbelow
    obtain ⟨name, hname, hchild⟩ := h.keys e he
    have hkey : key = .str name := by
      rw [hname] at hsame
      cases key <;> simp_all [same, number?]
    obtain ⟨hnamed, hpath⟩ := ih (h.get? hbelow) hrest
    exact ⟨hnamed, List.forall_mem_cons.2 ⟨⟨name, hkey, hchild⟩, hpath⟩⟩

theorem Keyed.of_at? (h : v.Keyed) (hat : v.at? path = some u) : u.Keyed := by
  induction path generalizing v with
  | nil =>
    obtain rfl := Option.some.inj (at?_nil.symm.trans hat)
    exact h
  | cons key path ih =>
    obtain ⟨entries, below, rfl, hbelow, hrest⟩ := at?_cons_eq_some.1 hat
    exact ih (h.get? hbelow) hrest

theorem itemsNamed_mapping (hproper : entries.Proper)
    (hnames : ∀ e ∈ entries, ∃ name, e.1 = .str name ∧ NamesChild name) (name : String) :
    (Value.mapping entries).itemsNamed name =
      (Mapping.get? entries (.str name)).elim [] Value.occurrences := by
  induction entries with
  | nil => rfl
  | cons e rest ih =>
    obtain ⟨key, value⟩ := e
    obtain ⟨⟨child, rfl, hchild⟩, hrest⟩ := List.forall_mem_cons.1 hnames
    have hitems : (Value.mapping ((.str child, value) :: rest)).itemsNamed name =
        (if name = child then value.occurrences else []) ++
          (Value.mapping rest).itemsNamed name := by
      simp [itemsNamed, itemsOf, role?_str hchild]
    have hsame : (Value.str child).same (.str name) = (child == name) := by simp [same]
    rw [hitems, ih hproper.of_cons.2 hrest, Mapping.get?_cons, hsame]
    by_cases h : name = child
    · subst h
      rw [hproper.get?_rest rfl (by simp [same])]
      simp
    · simp [h, Ne.symm h]

theorem own_of_not_mapping (h : v.isMapping = false) : v.own = v := by
  cases v <;> first | rfl | cases h

theorem held_of_at? (hkeyed : v.Keyed) (hnamed : v.Named) (hne : names ≠ [])
    (hat : v.at? (names.map .str) = some u) (hu : u.Simple) : v.held names = u.occurrences := by
  induction names generalizing v with
  | nil => exact absurd rfl hne
  | cons name names ih =>
    obtain ⟨entries, below, rfl, hbelow, hrest⟩ := at?_cons_eq_some.1 hat
    rw [held, itemsNamed_mapping hkeyed.proper hnamed.keys, hbelow]
    change below.occurrences.flatMap (·.held names) = u.occurrences
    cases names with
    | nil =>
      obtain rfl := Option.some.inj (at?_nil.symm.trans hrest)
      have hself : ∀ item ∈ below.occurrences, item.held [] = [item] := fun item hitem => by
        rw [held, own_of_not_mapping (hu item hitem)]
      rw [List.flatMap_congr hself, List.flatMap_singleton']
    | cons next names =>
      obtain ⟨inner, -, rfl, -⟩ := at?_cons_eq_some.1 hrest
      change [Value.mapping inner].flatMap (·.held (next :: names)) = u.occurrences
      rw [List.flatMap_singleton]
      exact ih (hkeyed.get? hbelow) (hnamed.get? hbelow) (by simp) hrest

theorem follow_of_at? (hpath : ∀ key ∈ path, key.isKey = true) (hat : v.at? path = some u) :
    (Entry.ofValue v).follow path = .ok (.ofValue u) := by
  induction path generalizing v with
  | nil =>
    obtain rfl := Option.some.inj (at?_nil.symm.trans hat)
    rfl
  | cons key path ih =>
    rw [List.forall_mem_cons] at hpath
    obtain ⟨entries, below, rfl, hbelow, hrest⟩ := at?_cons_eq_some.1 hat
    have hitem : (Entry.ofValue (.mapping entries)).item key = .ok (.ofValue below) := by
      simp [Entry.ofValue, Entry.item, Snapshot.item, Mapping.item, hpath.1, hbelow, pure,
        Except.pure, bind, Except.bind]
    rw [Entry.follow, List.foldlM_cons, hitem]
    exact ih hpath.2 hrest

end Value

section Tree

variable {w : World} {entries : Mapping} {names : List String} {v : Value}

theorem key_eq_intercalate (names : List String) :
    Place.key ⟨names, none⟩ = ".".intercalate (names.map standard.escape) := by
  induction names with
  | nil => rfl
  | cons name names ih =>
    cases names with
    | nil => simp [Place.key, Place.parts, render, KeyPart.written]
    | cons next names =>
      rw [List.map_cons, List.map_cons, String.intercalate_cons_cons, ← List.map_cons, ← ih]
      simp [Place.key, Place.parts, render, KeyPart.written, KeyPart.joined, KeyPart.isAttribute,
        ← String.toList_inj, standard]

/-- A mapping whose keys have texts becomes a tree with a configuration over it, which
holds along every path of names what the mapping holds there. -/
theorem exists_createFromMapping (hf : w.forest.WellFormed)
    (hwritable : (Value.mapping entries).Writable) :
    ∃ c w', (createFromMapping entries).run w = .ok c w' ∧ w'.markers c = w.common ∧
      ∀ names, names ≠ [] → w'.forest.valuesAlong (w'.root c) names =
        (Value.mapping entries).held names := by
  have hcreated := hf.create none .null false
  obtain ⟨g, hg, hfilled⟩ := Forest.exists_fill_of_writable hwritable hcreated
    (Forest.has_create.2 (.inr rfl))
  have hleaf (name : String) (names : List String) :
      (w.forest.create none .null false).2.valuesAlong ⟨w.forest.size⟩ (name :: names) = [] := by
    have hroot : (w.forest.create none .null false).2.node ⟨w.forest.size⟩ = _ :=
      (Forest.node_create ..).trans (if_pos rfl)
    rw [Forest.valuesAlong_cons, Forest.childrenNamed, hroot]
    rfl
  obtain ⟨c, w', hrun, hforest, hc, hcommon⟩ := run_createFromMapping hg
  refine ⟨c, w', hrun, ?_, fun names hne => ?_⟩
  · rw [World.markers, hc, hcommon]
    rfl
  · obtain ⟨name, names, rfl⟩ := List.exists_cons_of_ne_nil hne
    rw [World.root, hc, hforest]
    refine (hfilled.valuesAlong_eq name names).trans ?_
    change (w.forest.create none .null false).2.valuesAlong ⟨w.forest.size⟩ (name :: names) ++ _ = _
    rw [hleaf]
    rfl

/-- At every path of names to a simple value, a snapshot leads to this value, and the key
of the path selects nodes with this value, or with the items of the list that it is. -/
def World.Mirrors (w : World) (c : ConfigurationId) (s : Snapshot) : Prop :=
  ∀ names v, names ≠ [] → (Value.mapping s.entries).at? (names.map .str) = some v → v.Simple →
    (Entry.snapshot s).follow (names.map .str) = .ok (.plain v) ∧
      ∃ nodes, w.fetchNodes c (some (".".intercalate (names.map standard.escape))) = .ok nodes ∧
        nodes.map (fun i => (w.forest.node i).value) = v.occurrences

/-- The tree of a mapping mirrors the snapshot of it. -/
theorem exists_mirror (hf : w.forest.WellFormed) (hcommon : w.common = standard)
    (hkeyed : (Value.mapping entries).Keyed) (hnamed : (Value.mapping entries).Named) :
    ∃ c w', (createFromMapping entries).run w = .ok c w' ∧ w'.Mirrors c ⟨entries⟩ := by
  obtain ⟨c, w', hrun, hmarkers, hvalues⟩ := exists_createFromMapping hf hnamed.writable
  refine ⟨c, w', hrun, fun names v hne hat hv => ?_⟩
  have hsimple : Entry.ofValue v = .plain v := by
    cases v with
    | mapping inner => cases hv (.mapping inner) List.mem_cons_self
    | _ => rfl
  have hpath : ∀ name ∈ names, NamesChild name := by simpa using (hnamed.of_at? hat).2
  refine ⟨?_, w'.forest.follow [w'.root c] (names.map (.element · none)), ?_, ?_⟩
  · rw [← hsimple]
    exact Value.follow_of_at? (by simp [Value.isKey]) hat
  · have hparts : (⟨names, none⟩ : Place).parts = names.map (.element · none) :=
      List.append_nil _
    have hexpressible : ∀ part ∈ (⟨names, none⟩ : Place).parts, part.Expressible '.' := by
      rw [hparts, List.forall_mem_map]
      exact fun name hname => (hpath name hname).fits
    have hparse := parse_key hexpressible
    rw [hparts, key_eq_intercalate] at hparse
    exact Forest.select_eq_ok.2 ⟨_, by rw [hmarkers, hcommon, hparse], rfl⟩
  · rw [← Value.held_of_at? hkeyed hnamed hne hat hv, ← hvalues names hne]
    rfl

end Tree

namespace Assembly

variable {out : Surroundings} {assembly : Assembly} {merged merged' : Mapping} {w : World}

theorem keyed_of_lay {s : Source} (hmerged : (Value.mapping merged).Keyed)
    (hkeyed : ∀ v, s.load out = .ok v → v.Keyed) (h : lay out merged s = .ok merged') :
    (Value.mapping merged').Keyed := by
  obtain ⟨v, hload, h⟩ := bind_eq_ok.1 h
  cases v with
  | null =>
    cases h
    exact hmerged
  | mapping entries =>
    cases h
    exact hmerged.overlaid (hkeyed _ hload)
  | _ => cases h

theorem keyed_of_foldlM_lay {sources : List Source} (hmerged : (Value.mapping merged).Keyed)
    (hkeyed : ∀ s ∈ sources, ∀ v, s.load out = .ok v → v.Keyed)
    (h : sources.foldlM (lay out) merged = .ok merged') : (Value.mapping merged').Keyed := by
  induction sources generalizing merged with
  | nil =>
    cases h
    exact hmerged
  | cons s rest ih =>
    rw [List.foldlM_cons] at h
    obtain ⟨next, hnext, hrest⟩ := bind_eq_ok.1 h
    rw [List.forall_mem_cons] at hkeyed
    exact ih (keyed_of_lay hmerged hkeyed.1 hnext) hkeyed.2 hrest

theorem keyed_of_load (hkeyed : ∀ s ∈ assembly.sources, ∀ v, s.load out = .ok v → v.Keyed)
    (hload : assembly.load out = .ok merged) : (Value.mapping merged).Keyed := by
  obtain ⟨laid, hrun, hvalid⟩ := bind_eq_ok.1 hload
  obtain ⟨_, -, hreturn⟩ := bind_eq_ok.1 hvalid
  cases hreturn
  exact keyed_of_foldlM_lay (.flat ⟨by decide, by decide⟩ (by decide)) hkeyed hrun

/-- What several sources load is mirrored by the tree made of it, and so is every snapshot
inside it by the tree made of the snapshot. -/
theorem load_mirrored (hkeyed : ∀ s ∈ assembly.sources, ∀ v, s.load out = .ok v → v.Keyed)
    (hload : assembly.load out = .ok merged) (hnamed : (Value.mapping merged).Named)
    (hf : w.forest.WellFormed) (hcommon : w.common = standard) :
    (∃ c w', (createFromMapping merged).run w = .ok c w' ∧ w'.Mirrors c ⟨merged⟩) ∧
      ∀ path entries, (Value.mapping merged).at? path = some (.mapping entries) →
        ∃ s : Snapshot, (Entry.snapshot ⟨merged⟩).follow path = .ok (.snapshot s) ∧
          s.entries = entries ∧
          ∃ c w', (createFromMapping s.toMapping).run w = .ok c w' ∧ w'.Mirrors c s := by
  have hmerged := keyed_of_load hkeyed hload
  refine ⟨exists_mirror hf hcommon hmerged hnamed, fun path entries hat => ?_⟩
  obtain ⟨hinner, hpath⟩ := hnamed.of_at? hat
  refine ⟨⟨entries⟩, Value.follow_of_at? (fun key hkey => ?_) hat, rfl,
    exists_mirror hf hcommon (hmerged.of_at? hat) hinner⟩
  obtain ⟨name, rfl, -⟩ := hpath key hkey
  rfl

/-- A key with the delimiter in it, a list below it, and a mapping in a list. -/
theorem load_mirrored_dotted :
    let out : Surroundings := ⟨[], []⟩
    let lower : Mapping := [(.str "a.b", .mapping [(.str "x", .int 1), (.str "y", .null)])]
    let upper : Mapping := [(.str "a.b", .mapping [(.str "x", .list [.int 2, .int 3])]),
      (.str "c", .list [.mapping [(.bool true, .str "z")]])]
    let merged : Mapping :=
      [(.str "a.b", .mapping [(.str "x", .list [.int 2, .int 3]), (.str "y", .null)]),
        (.str "c", .list [.mapping [(.bool true, .str "z")]])]
    let assembly : Assembly := ⟨[.mapping lower, .mapping upper], .null⟩
    let w := World.fresh []
    ((∀ s ∈ assembly.sources, ∀ v, s.load out = .ok v → v.Keyed) ∧
      assembly.load out = .ok merged ∧ (Value.mapping merged).Named ∧ w.forest.WellFormed ∧
      w.common = standard) ∧
    ∃ c w' nodes, (createFromMapping merged).run w = .ok c w' ∧
      (Entry.snapshot ⟨merged⟩).follow [.str "a.b", .str "x"] =
        .ok (.plain (.list [.int 2, .int 3])) ∧
      w'.fetchNodes c (some "a..b.x") = .ok nodes ∧
      nodes.map (fun i => (w'.forest.node i).value) = [.int 2, .int 3] := by
  intro out lower upper merged assembly w
  have hkeyed : ∀ s ∈ assembly.sources, ∀ v, s.load out = .ok v → v.Keyed := by
    simp only [assembly, List.forall_mem_cons]
    refine ⟨?_, ?_, by simp⟩ <;> rintro v ⟨⟩ <;> refine .mapping ⟨by decide, by decide⟩ ?_
    · simpa [lower] using .flat ⟨by decide, by decide⟩ (by decide)
    · simpa [upper] using ⟨.flat ⟨by decide, by decide⟩ (by decide), .plain rfl⟩
  have hload : assembly.load out = .ok merged := by
    have hlower : Source.load out (.mapping lower) = .ok (.mapping lower) := rfl
    have hupper : Source.load out (.mapping upper) = .ok (.mapping upper) := rfl
    rw [load_without_schema, List.foldlM_cons, lay_of_mapping hlower, ok_bind,
      List.foldlM_cons, lay_of_mapping hupper, ok_bind]
    simp [lower, upper, Mapping.merge_cons, Mapping.insert, Mapping.get?_cons, Value.same,
      Value.overlaid]
    rfl
  have hname {name : String} (h : name ∈ ["a.b", "c", "x", "y"]) : NamesChild name := by
    simp only [List.mem_cons, List.not_mem_nil, or_false] at h
    obtain rfl | rfl | rfl | rfl := h <;>
      exact ⟨.of_last ⟨by decide, by decide, by decide⟩ (by decide), by decide, by decide⟩
  have hnamed : (Value.mapping merged).Named := by
    refine .mapping ?_ ?_ <;> simp only [merged, List.forall_mem_cons]
    · exact ⟨⟨"a.b", rfl, hname (by simp)⟩, ⟨"c", rfl, hname (by simp)⟩, by simp⟩
    · refine ⟨.mapping ?_ ?_, .plain rfl (.list ?_), by simp⟩
      · simpa using ⟨hname (by simp), hname (by simp)⟩
      · simpa using ⟨.plain rfl (.list (by simp)), .plain rfl (.plain (by simp) (by simp))⟩
      · intro entries hentries
        obtain rfl : entries = [(.bool true, .str "z")] := by simpa using hentries
        refine .mapping ?_ ?_ <;> simp only [List.forall_mem_singleton]
        · exact ⟨"True", rfl⟩
        · exact fun _ _ => .plain (by simp) (by simp)
  have hkey : ".".intercalate (["a.b", "x"].map standard.escape) = "a..b.x" := by decide +kernel
  obtain ⟨⟨c, w', hrun, hmirrors⟩, -⟩ := load_mirrored hkeyed hload hnamed (w := w)
    Forest.WellFormed.empty rfl
  obtain ⟨hfollow, nodes, hnodes, hvalues⟩ := hmirrors ["a.b", "x"] (.list [.int 2, .int 3])
    (by simp) (by simp [merged, Value.at?, Mapping.get?_cons, Value.same])
    (by simp [Value.Simple, Value.occurrences, Value.isMapping])
  exact ⟨⟨hkeyed, hload, hnamed, Forest.WellFormed.empty, rfl⟩, c, w', nodes, hrun, hfollow,
    by rwa [hkey] at hnodes, hvalues⟩

end Assembly

end Settings
