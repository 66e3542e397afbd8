import Settings.Proofs.Merging

/-! # Sources in layers

Every source is a layer over the ones before it. What the merged settings hold at a
path was put there by some source, and no later source decided the path otherwise.
-/

namespace Settings

open Value

namespace Source

/-- A source yields nothing or a mapping. -/
def Yields (out : Surroundings) (s : Source) : Prop :=
  ∃ v, s.load out = .ok v ∧ (v = .null ∨ v.isMapping = true)

def Idle (out : Surroundings) (s : Source) : Prop :=
  s.load out = .ok .null ∨ s.load out = .ok (.mapping [])

def Has (out : Surroundings) (s : Source) (path : List Value) (v : Value) : Prop :=
  ∃ entries, s.load out = .ok (.mapping entries) ∧ (Value.mapping entries).at? path = some v

/-- A source decides a path: it has something there, or something else than a
mapping at a part of the path before. -/
def Decides (out : Surroundings) (s : Source) (path : List Value) : Prop :=
  (∃ u, s.Has out path u) ∨
    ∃ before u, before <+: path ∧ before ≠ path ∧ before ≠ [] ∧ s.Has out before u ∧
      u.isMapping = false

/-- The last of the sources to decide a path has a value there. -/
def LastHas (out : Surroundings) (sources : List Source) (path : List Value) (v : Value) : Prop :=
  ∃ earlier s later, sources = earlier ++ s :: later ∧ s.Has out path v ∧
    ∀ t ∈ later, ¬ t.Decides out path

variable {out : Surroundings} {s : Source} {rest : List Source} {path : List Value} {v : Value}
  {entries : Mapping}

theorem has_iff (hload : s.load out = .ok (.mapping entries)) :
    s.Has out path v ↔ (Value.mapping entries).at? path = some v := by
  constructor
  · rintro ⟨entries', hload', hat⟩
    cases hload.symm.trans hload'
    exact hat
  · exact fun hat => ⟨entries, hload, hat⟩

theorem decides_iff (hload : s.load out = .ok (.mapping entries)) :
    s.Decides out path ↔ (Value.mapping entries).decides path = true := by
  rw [Value.decides_iff]
  simp only [Decides, has_iff hload]
  refine or_congr_right (exists_congr fun before => exists_congr fun u => ?_)
  refine and_congr_right fun _ => and_congr_right fun _ => ⟨fun h => h.2, fun h => ⟨?_, h⟩⟩
  rintro rfl
  cases at?_nil.symm.trans h.1
  cases h.2

theorem not_has_of_null (hload : s.load out = .ok .null) : ¬ s.Has out path v := by
  rintro ⟨entries, hload', -⟩
  cases hload.symm.trans hload'

theorem not_decides_of_null (hload : s.load out = .ok .null) : ¬ s.Decides out path := by
  rintro (⟨u, hhas⟩ | ⟨before, u, -, -, -, hhas, -⟩) <;> exact not_has_of_null hload hhas

theorem not_lastHas_nil : ¬ LastHas out [] path v := by
  rintro ⟨earlier, s, later, heq, -⟩
  simp at heq

theorem lastHas_cons : LastHas out (s :: rest) path v ↔
    LastHas out rest path v ∨ s.Has out path v ∧ ∀ t ∈ rest, ¬ t.Decides out path := by
  constructor
  · rintro ⟨earlier, s', later, heq, hhas, hlater⟩
    cases earlier with
    | nil =>
      obtain ⟨rfl, rfl⟩ := List.cons.inj heq
      exact .inr ⟨hhas, hlater⟩
    | cons t earlier =>
      obtain ⟨rfl, rfl⟩ := List.cons.inj heq
      exact .inl ⟨earlier, s', later, rfl, hhas, hlater⟩
  · rintro (⟨earlier, s', later, rfl, hhas, hlater⟩ | ⟨hhas, hrest⟩)
    · exact ⟨s :: earlier, s', later, rfl, hhas, hlater⟩
    · exact ⟨[], s, rest, rfl, hhas, hrest⟩

end Source

namespace Assembly

variable {out : Surroundings} {s : Source} {sources : List Source} {merged entries : Mapping}
  {path : List Value} {v : Value}

theorem lay_of_null (hload : s.load out = .ok .null) : lay out merged s = .ok merged := by
  rw [lay, hload]
  rfl

theorem lay_of_mapping (hload : s.load out = .ok (.mapping entries)) :
    lay out merged s = .ok (merged.merge entries) := by
  rw [lay, hload]
  rfl

theorem lay_of_other (hload : s.load out = .ok v) (hnull : v ≠ .null)
    (hv : v.isMapping = false) : lay out merged s = .error (.sourceNotMapping s.shown) := by
  rw [lay, hload]
  cases v <;> first | rfl | exact absurd rfl hnull | cases hv

theorem lay_of_idle (h : s.Idle out) : lay out merged s = .ok merged := by
  rcases h with hload | hload
  · exact lay_of_null hload
  · rw [lay_of_mapping hload, Mapping.merge_nil]

theorem lay_of_yields (hmerged : Keyed (.mapping merged)) (hs : s.Yields out)
    (hkeyed : ∀ v, s.load out = .ok v → v.Keyed) :
    ∃ merged', lay out merged s = .ok merged' ∧ Keyed (.mapping merged') ∧
      ∀ path v, (∀ k ∈ path, k.isKey = true) → v.isMapping = false →
        ((Value.mapping merged').at? path = some v ↔
          s.Has out path v ∨ ¬ s.Decides out path ∧ (Value.mapping merged).at? path = some v) := by
  obtain ⟨u, hload, rfl | hu⟩ := hs
  · refine ⟨merged, lay_of_null hload, hmerged, fun path v _ _ => ?_⟩
    simp [Source.not_has_of_null hload, Source.not_decides_of_null hload]
  · obtain ⟨entries, rfl⟩ := isMapping_iff.1 hu
    have hentries := hkeyed _ hload
    refine ⟨merged.merge entries, lay_of_mapping hload, hmerged.overlaid hentries, ?_⟩
    intro path v hp hv
    rw [Source.has_iff hload, Source.decides_iff hload, Bool.not_eq_true]
    exact at?_overlaid hmerged hentries hp hv

/-- A whole list of sources is laid over what is merged so far. -/
theorem foldlM_lay (hmerged : Keyed (.mapping merged)) (hs : ∀ s ∈ sources, s.Yields out)
    (hkeyed : ∀ s ∈ sources, ∀ v, s.load out = .ok v → v.Keyed) :
    ∃ merged', sources.foldlM (lay out) merged = .ok merged' ∧
      ∀ path v, (∀ k ∈ path, k.isKey = true) → v.isMapping = false →
        ((Value.mapping merged').at? path = some v ↔
          Source.LastHas out sources path v ∨
            (∀ s ∈ sources, ¬ s.Decides out path) ∧ (Value.mapping merged).at? path = some v) := by
  induction sources generalizing merged with
  | nil =>
    refine ⟨merged, rfl, fun path v _ _ => ?_⟩
    simp [Source.not_lastHas_nil]
  | cons s rest ih =>
    rw [List.forall_mem_cons] at hs hkeyed
    obtain ⟨laid, hlaid, hlaidKeyed, hstep⟩ := lay_of_yields hmerged hs.1 hkeyed.1
    obtain ⟨merged', hrun, hrest⟩ := ih hlaidKeyed hs.2 hkeyed.2
    refine ⟨merged', by rw [List.foldlM_cons, hlaid]; exact hrun, fun path v hp hv => ?_⟩
    rw [hrest path v hp hv, hstep path v hp hv, Source.lastHas_cons, List.forall_mem_cons]
    tauto

theorem load_without_schema :
    (Assembly.mk sources .null).load out = sources.foldlM (lay out) [] := by
  change (sources.foldlM (lay out) [] >>= pure) = _
  exact bind_pure _

/-- Without a schema several sources load as one mapping as long as each yields nothing
or a mapping. A value is at a path of it exactly when the last source to decide the path
has it there, so a source with nothing to say could be left out. The first source to yield
something else is refused instead. -/
theorem load_ofSources (hne : sources ≠ [])
    (hkeyed : ∀ s ∈ sources, ∀ v, s.load out = .ok v → v.Keyed) :
    ∃ assembly : Assembly, ofSources sources .null = .ok assembly ∧
      ((∀ s ∈ sources, s.Yields out) → ∃ merged, assembly.load out = .ok merged ∧
        ∀ path v, path ≠ [] → (∀ k ∈ path, k.isKey = true) → v.isMapping = false →
          ((Value.mapping merged).at? path = some v ↔ Source.LastHas out sources path v)) ∧
      (∀ earlier (s : Source) later, sources = earlier ++ s :: later → s.Idle out →
        (Assembly.mk (earlier ++ later) .null).load out = assembly.load out) ∧
      ∀ earlier (s : Source) later v, sources = earlier ++ s :: later →
        (∀ t ∈ earlier, t.Yields out) →
        s.load out = .ok v → v ≠ .null → v.isMapping = false →
        ∃ fault : Fault, assembly.load out = .error fault ∧ fault = .sourceNotMapping s.shown ∧
          fault.kind = .configuration := by
  have hempty : Keyed (.mapping []) := .flat ⟨by decide, by decide⟩ (by decide)
  refine ⟨⟨sources, .null⟩, by simp [ofSources, hne], fun hs => ?_, ?_, ?_⟩
  · obtain ⟨merged, hrun, hat⟩ := foldlM_lay hempty hs hkeyed
    refine ⟨merged, load_without_schema.trans hrun, fun path v hpath hp hv => ?_⟩
    rw [hat path v hp hv]
    refine or_iff_left ?_
    rintro ⟨-, hnothing⟩
    cases path with
    | nil => exact hpath rfl
    | cons key path => cases hnothing
  · rintro earlier s later rfl hidle
    rw [load_without_schema, load_without_schema, List.foldlM_append, List.foldlM_append]
    refine bind_congr fun merged => ?_
    rw [List.foldlM_cons, lay_of_idle hidle]
    rfl
  · rintro earlier s later v rfl hearlier hload hnull hv
    obtain ⟨merged, hrun, -⟩ := foldlM_lay hempty hearlier fun t ht =>
      hkeyed t (List.mem_append_left _ ht)
    refine ⟨_, ?_, rfl, rfl⟩
    rw [load_without_schema, List.foldlM_append, hrun]
    change List.foldlM (lay out) merged (s :: later) = _
    rw [List.foldlM_cons, lay_of_other hload hnull hv]
    rfl

/-- A nested mapping is merged through a source that yields nothing, an equal key replaced,
and a text before a path ends it. -/
theorem load_ofSources_three :
    let out : Surroundings := ⟨[], []⟩
    let lower : Mapping := [(.str "a", .mapping [(.str "x", .int 1), (.str "y", .int 2)]),
      (.int 1, .str "one"), (.str "b", .mapping [(.str "z", .null)])]
    let upper : Mapping := [(.str "a", .mapping [(.str "x", .int 3)]), (.bool true, .str "uno"),
      (.str "b", .str "text")]
    let sources := [Source.mapping lower, .raw .null, .mapping upper]
    (sources ≠ [] ∧ ∀ s ∈ sources, ∀ v, s.load out = .ok v → v.Keyed) ∧
      ∃ assembly merged, ofSources sources .null = .ok assembly ∧ assembly.load out = .ok merged ∧
        (Value.mapping merged).at? [.str "a", .str "x"] = some (.int 3) ∧
        (Value.mapping merged).at? [.str "a", .str "y"] = some (.int 2) ∧
        (Value.mapping merged).at? [.int 1] = some (.str "uno") ∧
        (Value.mapping merged).at? [.str "b", .str "z"] ≠ some .null := by
  intro out lower upper sources
  have hlower : Keyed (.mapping lower) := by
    refine .mapping ⟨by decide, by decide⟩ ?_
    simp only [lower, List.forall_mem_cons]
    exact ⟨.flat ⟨by decide, by decide⟩ (by decide), .plain rfl,
      .flat ⟨by decide, by decide⟩ (by decide), by simp⟩
  have hupper : Keyed (.mapping upper) := by
    refine .mapping ⟨by decide, by decide⟩ ?_
    simp only [upper, List.forall_mem_cons]
    exact ⟨.flat ⟨by decide, by decide⟩ (by decide), .plain rfl, .plain rfl, by simp⟩
  have hkeyed : ∀ s ∈ sources, ∀ v, s.load out = .ok v → v.Keyed := by
    simp only [sources, List.forall_mem_cons]
    refine ⟨?_, ?_, ?_, by simp⟩ <;> rintro v ⟨⟩
    · exact hlower
    · exact .plain rfl
    · exact hupper
  have hyields : ∀ s ∈ sources, s.Yields out := by
    simp only [sources, List.forall_mem_cons]
    exact ⟨⟨_, rfl, .inr rfl⟩, ⟨_, rfl, .inl rfl⟩, ⟨_, rfl, .inr rfl⟩, by simp⟩
  obtain ⟨assembly, hassembly, hmerged, -⟩ := load_ofSources (by simp [sources]) hkeyed
  obtain ⟨merged, hload, hat⟩ := hmerged hyields
  have hlast : ∀ path v, Source.LastHas out sources path v ↔
      (Value.mapping upper).at? path = some v ∨
        (Value.mapping lower).at? path = some v ∧ (Value.mapping upper).decides path = false := by
    intro path v
    have hbase : (Source.mapping lower).load out = .ok (.mapping lower) := rfl
    have hnull : (Source.raw .null).load out = .ok .null := rfl
    have htop : (Source.mapping upper).load out = .ok (.mapping upper) := rfl
    simp [sources, Source.lastHas_cons, Source.not_lastHas_nil, Source.has_iff hbase,
      Source.not_has_of_null hnull, Source.not_decides_of_null hnull, Source.has_iff htop,
      Source.decides_iff htop]
  refine ⟨⟨by simp [sources], hkeyed⟩, assembly, merged, hassembly, hload, ?_, ?_, ?_, ?_⟩
  · rw [hat _ _ (by simp) (by simp [isKey]) rfl, hlast]
    exact .inl rfl
  · rw [hat _ _ (by simp) (by simp [isKey]) rfl, hlast]
    exact .inr ⟨rfl, rfl⟩
  · rw [hat _ _ (by simp) (by simp [isKey]) rfl, hlast]
    exact .inl rfl
  · rw [ne_eq, hat _ _ (by simp) (by simp [isKey]) rfl, hlast]
    rintro (h | ⟨-, h⟩) <;> cases h

end Assembly

end Settings
