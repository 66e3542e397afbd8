import Settings.Proofs.Leaves
import Settings.Source

/-! # Environment variables as settings

Every variable whose name is a stem followed by a path is a leaf of the mapping that is loaded,
and there are no other leaves. As long as no path leads through the end of another one, each
variable keeps its leaf, so their order only decides the order of the keys.
-/

namespace Settings

open Text Value

theorem isMapping_readScalar (raw : String) : (readScalar raw).isMapping = false := by
  unfold readScalar
  repeat' split
  all_goals rfl

namespace Environment

variable {stem name : String} {p p' q : List String} {b b' : String × String} {e : Environment}
  {value x : Value} {path : List Value}

/-- A variable's name is a stem followed by a text that writes a path of at least one key. -/
def Names (stem name : String) (p : List String) : Prop :=
  ∃ rest, name.toList = stem.toList ++ rest ∧ Environment.path rest = p ∧ p ≠ []

def path? (stem name : String) : Option (List String) :=
  (after? stem.toList name.toList).bind fun rest =>
    if Environment.path rest = [] then none else some (Environment.path rest)

theorem names_iff : Names stem name p ↔ path? stem name = some p := by
  simp only [Names, path?, Option.bind_eq_some_iff, after?_eq_some_iff]
  refine exists_congr fun rest => and_congr_right fun _ => ?_
  split
  · simp_all
  · simp only [Option.some.injEq, and_iff_left_iff_imp]
    rintro rfl
    assumption

instance : Decidable (Names stem name p) := decidable_of_iff _ names_iff.symm

theorem Names.unique (h : Names stem name p) (h' : Names stem name p') : p = p' :=
  Option.some.inj ((names_iff.1 h).symm.trans (names_iff.1 h'))

/-- Neither of the paths of two variables leads to the other one or through its end. -/
def Apart (stem : String) (b b' : String × String) : Prop :=
  ∀ p p', Names stem b.1 p → Names stem b'.1 p' → ¬ p <+: p' ∧ ¬ p' <+: p

theorem Apart.symm (h : Apart stem b b') : Apart stem b' b := fun p p' hp hp' =>
  (h p' p hp' hp).symm

instance : Decidable (Apart stem b b') :=
  decidable_of_iff (∀ p ∈ path? stem b.1, ∀ p' ∈ path? stem b'.1, ¬ p <+: p' ∧ ¬ p' <+: p) <| by
    simp only [Apart, names_iff, Option.mem_def]
    exact ⟨fun h p p' hp hp' => h p hp p' hp', fun h p hp p' hp' => h p p' hp hp'⟩

theorem leafy_nest (h : value.isMapping = false) : Leafy (nest value p) := by
  induction p with
  | nil => exact .leaf h
  | cons key p ih =>
    refine .branch (by simp) ?_ (by simp [Mapping.keys]) ?_
    · simp [Mapping.keys]
    · simpa using ih

theorem at?_nest_iff (h : value.isMapping = false) (hx : x.isMapping = false) :
    (nest value p).at? path = some x ↔ path = p.map .str ∧ x = value := by
  induction p generalizing path with
  | nil =>
    cases path with
    | nil => simp [nest, eq_comm]
    | cons k path => simp [nest, at?_cons_of_not_mapping h]
  | cons key p ih =>
    have hleafy : Leafy (nest value (key :: p)) := leafy_nest h
    rw [nest] at hleafy ⊢
    cases path with
    | nil =>
      rw [at?_nil]
      refine iff_of_false ?_ (by simp)
      rintro ⟨⟩
      cases hx
    | cons k path =>
      rw [hleafy.at?_cons_iff]
      simp [ih, and_assoc]

theorem decides_nest_iff (h : value.isMapping = false) :
    (nest value p).decides (q.map .str) = true ↔ q <+: p ∨ p <+: q := by
  induction p generalizing q with
  | nil => simp [nest, decides_of_not_mapping h]
  | cons key p ih =>
    cases q with
    | nil => simp [decides]
    | cons k q =>
      rw [nest, List.map_cons, decides, Mapping.get?_cons, Mapping.same_str]
      by_cases heq : key = k
      · simp [heq, ih, List.cons_prefix_cons]
      · simp [heq, Ne.symm heq, List.cons_prefix_cons]

theorem ofBinding?_of_names (h : Names stem b.1 p) : ∃ entries,
    ofBinding? stem.toList b = some entries ∧ nest (readScalar b.2) p = .mapping entries := by
  obtain ⟨rest, hname, rfl, hne⟩ := h
  obtain ⟨key, keys, hpath⟩ := List.exists_cons_of_ne_nil hne
  refine ⟨_, ?_, by rw [hpath, nest]⟩
  simp [ofBinding?, hname, after?_eq_some_iff.2, hpath, nest]

theorem ofBinding?_of_unnamed (h : ∀ p, ¬ Names stem b.1 p) : ofBinding? stem.toList b = none := by
  unfold ofBinding?
  cases hafter : after? stem.toList b.1.toList with
  | none => rfl
  | some rest =>
    have hempty : Environment.path rest = [] := by
      by_contra hne
      exact h _ ⟨rest, after?_eq_some_iff.1 hafter, rfl, hne⟩
    have hscalar := isMapping_readScalar b.2
    simp only [Option.bind_eq_bind, Option.bind_some, hempty, nest]
    split <;> simp

def merged (stem : String) (e : Environment) : Mapping :=
  (e.filterMap (ofBinding? stem.toList)).foldl Mapping.merge []

theorem load_eq (e : Environment) (stem : String) :
    e.load stem = if merged stem e = [] then none else some (merged stem e) := by
  rw [load, merged]
  split
  · rename_i hempty
    rw [if_pos hempty]
  · rename_i hne
    rw [if_neg hne]

theorem merged_concat_of_names (h : Names stem b.1 p) (e : Environment) :
    Value.mapping (merged stem (e ++ [b])) =
      (Value.mapping (merged stem e)).overlaid (nest (readScalar b.2) p) := by
  obtain ⟨entries, hbinding, hnest⟩ := ofBinding?_of_names h
  rw [merged, List.filterMap_append, List.foldl_append, hnest]
  simp [hbinding, overlaid, merged]

theorem merged_concat_of_unnamed (h : ∀ p, ¬ Names stem b.1 p) (e : Environment) :
    merged stem (e ++ [b]) = merged stem e := by
  rw [merged, List.filterMap_append, List.foldl_append]
  simp [ofBinding?_of_unnamed h, merged]

theorem merged_cases (stem : String) (e : Environment) :
    merged stem e = [] ∧ (∀ b ∈ e, ∀ p, ¬ Names stem b.1 p) ∨
      Leafy (.mapping (merged stem e)) ∧ ∃ b ∈ e, ∃ p, Names stem b.1 p := by
  induction e using List.reverseRecOn with
  | nil => exact .inl ⟨rfl, by simp⟩
  | append_singleton e b ih =>
    by_cases hb : ∃ p, Names stem b.1 p
    · obtain ⟨p, hp⟩ := hb
      have hnest : Leafy (nest (readScalar b.2) p) := leafy_nest (isMapping_readScalar b.2)
      refine .inr ⟨?_, b, by simp, p, hp⟩
      rw [merged_concat_of_names hp]
      rcases ih with ⟨hempty, -⟩ | ⟨hleafy, -⟩
      · obtain ⟨entries, -, heq⟩ := ofBinding?_of_names hp
        rw [heq] at hnest ⊢
        rw [hempty, overlaid, Mapping.merge_eq ⟨by simp [Mapping.keys], .nil⟩ hnest.proper]
        simpa [Mapping.contains] using hnest
      · exact hleafy.overlaid hnest
    · have hb : ∀ p, ¬ Names stem b.1 p := not_exists.1 hb
      rw [merged_concat_of_unnamed hb]
      rcases ih with ⟨hempty, hnone⟩ | ⟨hleafy, b', hb', hp⟩
      · refine .inl ⟨hempty, fun b' hb' => ?_⟩
        rcases List.mem_append.1 hb' with hb' | hb'
        · exact hnone b' hb'
        · exact List.mem_singleton.1 hb' ▸ hb
      · exact .inr ⟨hleafy, b', List.mem_append_left _ hb', hp⟩

theorem merged_eq_nil_iff : merged stem e = [] ↔ ∀ b ∈ e, ∀ p, ¬ Names stem b.1 p := by
  rcases merged_cases stem e with ⟨hempty, hnone⟩ | ⟨hleafy, b, hb, p, hp⟩
  · exact iff_of_true hempty hnone
  · exact iff_of_false hleafy.ne_nil fun hnone => hnone b hb p hp

theorem leafy_merged (hb : b ∈ e) (hp : Names stem b.1 p) : Leafy (.mapping (merged stem e)) := by
  rcases merged_cases stem e with ⟨-, hnone⟩ | ⟨hleafy, -⟩
  · exact absurd hp (hnone b hb p)
  · exact hleafy

theorem keyed_merged (stem : String) (e : Environment) : Keyed (.mapping (merged stem e)) := by
  rcases merged_cases stem e with ⟨hempty, -⟩ | ⟨hleafy, -⟩
  · rw [hempty]
    exact .flat ⟨by simp [Mapping.keys], .nil⟩ (by simp)
  · exact hleafy.keyed

/-- The value at the end of a path is the one of the variable that has this path. -/
theorem at?_merged_iff (hapart : e.Pairwise (Apart stem)) (hx : x.isMapping = false) :
    (Value.mapping (merged stem e)).at? (q.map .str) = some x ↔
      ∃ b ∈ e, Names stem b.1 q ∧ x = readScalar b.2 := by
  induction e using List.reverseRecOn with
  | nil =>
    refine iff_of_false ?_ (by simp)
    cases q with
    | nil =>
      rw [List.map_nil, at?_nil]
      rintro ⟨⟩
      cases hx
    | cons key q => simp [merged, at?]
  | append_singleton e b ih =>
    rw [List.pairwise_append] at hapart
    obtain ⟨he, -, hlast⟩ := hapart
    simp only [List.mem_singleton, forall_eq] at hlast
    have hexists : (∃ b' ∈ e ++ [b], Names stem b'.1 q ∧ x = readScalar b'.2) ↔
        (∃ b' ∈ e, Names stem b'.1 q ∧ x = readScalar b'.2) ∨
          Names stem b.1 q ∧ x = readScalar b.2 := by
      simp only [List.mem_append, List.mem_singleton, or_and_right, exists_or, exists_eq_left]
    rw [hexists, ← ih he]
    by_cases hb : ∃ p, Names stem b.1 p
    · obtain ⟨p, hp⟩ := hb
      have hscalar := isMapping_readScalar b.2
      rw [merged_concat_of_names hp, at?_overlaid (keyed_merged stem e) (leafy_nest hscalar).keyed
        (by simp [isKey]) hx, at?_nest_iff hscalar hx, or_comm]
      refine or_congr ?_ ?_
      · -- the path of the last variable leads through no earlier leaf and ends before none
        refine and_iff_right_of_imp fun hat => ?_
        obtain ⟨b', hb', hq, -⟩ := (ih he).1 hat
        obtain ⟨hqp, hpq⟩ := hlast b' hb' q p hq hp
        rw [← Bool.not_eq_true, decides_nest_iff hscalar, not_or]
        exact ⟨hqp, hpq⟩
      · rw [(List.map_injective_iff.2 fun s t h => Value.str.inj h).eq_iff]
        refine and_congr_left fun _ => ⟨?_, fun hq => hq.unique hp⟩
        rintro rfl
        exact hp
    · rw [merged_concat_of_unnamed (not_exists.1 hb), or_iff_left]
      exact fun h => hb ⟨q, h.1⟩

end Environment

namespace Source

open Environment

variable {stem : String}

theorem load_environment (out : Surroundings) (stem : String) :
    (Source.environment stem).load out =
      if merged stem out.environment = [] then .ok .null
      else .ok (.mapping (merged stem out.environment)) := by
  rw [load, load_eq]
  split <;> rename_i h <;> split at h <;> simp_all

/-- The variables with a stem are loaded as a mapping unless there are none. When no path of one
variable equals that of another one or leads to it, the mapping has at each path the scalar that
the variable's text stands for, nothing else but mappings with something in them, and is the
same for every order of the variables, but for the order of its keys. -/
theorem load_ofStem (hstem : stem ≠ "") :
    ∃ source, ofStem stem = .ok source ∧ ∀ out : Surroundings,
      (source.load out = .ok .null ↔ ∀ b ∈ out.environment, ∀ p, ¬ Names stem b.1 p) ∧
      ((∃ b ∈ out.environment, ∃ p, Names stem b.1 p) →
        out.environment.Pairwise (Apart stem) →
        ∃ m, source.load out = .ok (.mapping m) ∧
          (∀ b ∈ out.environment, ∀ p, Names stem b.1 p →
            (Value.mapping m).at? (p.map .str) = some (readScalar b.2)) ∧
          (∀ path x, (Value.mapping m).at? path = some x → x.isMapping = false →
            ∃ b ∈ out.environment, ∃ p, Names stem b.1 p ∧ path = p.map .str) ∧
          (∀ path, (Value.mapping m).at? path ≠ some (.mapping [])) ∧
          ∀ permuted, permuted.Perm out.environment →
            ∃ m', source.load { out with environment := permuted } = .ok (.mapping m') ∧
              Reordered (.mapping m) (.mapping m')) := by
  refine ⟨.environment stem, by rw [ofStem, if_neg hstem], fun out => ⟨?_, ?_⟩⟩
  · rw [load_environment, ← merged_eq_nil_iff]
    split <;> simp_all
  · rintro ⟨b, hb, p, hp⟩ hapart
    have hleafy := leafy_merged hb hp
    refine ⟨merged stem out.environment, ?_, ?_, ?_, ?_, ?_⟩
    · rw [load_environment, if_neg hleafy.ne_nil]
    · intro b hb p hp
      exact (at?_merged_iff hapart (isMapping_readScalar b.2)).2 ⟨b, hb, hp, rfl⟩
    · intro path x hat hx
      obtain ⟨-, p, rfl⟩ := hleafy.of_at? hat
      obtain ⟨b, hb, hp, -⟩ := (at?_merged_iff hapart hx).1 hat
      exact ⟨b, hb, p, hp, rfl⟩
    · exact fun path hat => (hleafy.of_at? hat).1.ne_nil rfl
    · intro permuted hperm
      have hapart' : permuted.Pairwise (Apart stem) :=
        (hperm.pairwise_iff fun h => h.symm).2 hapart
      have hleafy' := leafy_merged (hperm.mem_iff.2 hb) hp
      refine ⟨merged stem permuted, ?_, hleafy.reordered hleafy' fun path x hx => ?_⟩
      · rw [load_environment, if_neg hleafy'.ne_nil]
      · have hsame (q : List String) : (Value.mapping (merged stem out.environment)).at?
            (q.map .str) = some x ↔
              (Value.mapping (merged stem permuted)).at? (q.map .str) = some x := by
          rw [at?_merged_iff hapart hx, at?_merged_iff hapart' hx]
          simp only [hperm.mem_iff]
        constructor
        · intro hat
          obtain ⟨-, q, rfl⟩ := hleafy.of_at? hat
          exact (hsame q).1 hat
        · intro hat
          obtain ⟨-, q, rfl⟩ := hleafy'.of_at? hat
          exact (hsame q).2 hat

/-- Two variables share the first key of their paths, one begins with an empty key, and two have
no path. -/
theorem load_ofStem_nested :
    let environment : Environment := [("APP_DB__HOST", "localhost"), ("PATH", "/bin"),
      ("APP___Debug", "yes"), ("APP___", "1"), ("APP_DB__PORT", "5432")]
    ("APP_" ≠ "" ∧ (∃ b ∈ environment, ∃ p, Names "APP_" b.1 p) ∧
      environment.Pairwise (Apart "APP_")) ∧
    ∃ source m m', ofStem "APP_" = .ok source ∧
      source.load ⟨[], environment⟩ = .ok (.mapping m) ∧
      (Value.mapping m).at? [.str "db", .str "host"] = some (.str "localhost") ∧
      (Value.mapping m).at? [.str "db", .str "port"] = some (.int 5432) ∧
      (Value.mapping m).at? [.str "debug"] = some (.bool true) ∧
      source.load ⟨[], environment.reverse⟩ = .ok (.mapping m') ∧
      Reordered (.mapping m) (.mapping m') := by
  intro environment
  have hhost : Names "APP_" "APP_DB__HOST" ["db", "host"] := by decide +kernel
  have hport : Names "APP_" "APP_DB__PORT" ["db", "port"] := by decide +kernel
  have hdebug : Names "APP_" "APP___Debug" ["debug"] := by decide +kernel
  have hexists : ∃ b ∈ environment, ∃ p, Names "APP_" b.1 p :=
    ⟨("APP_DB__PORT", "5432"), by decide, _, hport⟩
  have hapart : environment.Pairwise (Apart "APP_") := by decide +kernel
  obtain ⟨source, hsource, hload⟩ := load_ofStem (by decide : "APP_" ≠ "")
  obtain ⟨m, hm, hat, -, -, horder⟩ := (hload ⟨[], environment⟩).2 hexists hapart
  obtain ⟨m', hm', hsame⟩ := horder environment.reverse (List.reverse_perm environment)
  have hlocal : readScalar "localhost" = .str "localhost" := rfl
  have hinteger : readScalar "5432" = .int 5432 := rfl
  have htrue : readScalar "yes" = .bool true := rfl
  refine ⟨⟨by decide, hexists, hapart⟩, source, m, m', hsource, hm, ?_, ?_, ?_, hm', hsame⟩
  · rw [← hlocal]
    exact hat ("APP_DB__HOST", "localhost") (by decide) _ hhost
  · rw [← hinteger]
    exact hat ("APP_DB__PORT", "5432") (by decide) _ hport
  · rw [← htrue]
    exact hat ("APP___Debug", "yes") (by decide) _ hdebug

end Source

end Settings
