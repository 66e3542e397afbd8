import Settings.Proofs.Merging

/-! # Grouping of merges

A merged mapping has the entries of the base in their order, with what is laid over them,
and then the entries that are new. Several values that have their mappings at the same paths
can therefore be laid over one another in any grouping: the outcome is the same entry by
entry, and so is the order of the entries at every level.
-/

namespace Settings

namespace Mapping

open Value

variable {base entries rest : Mapping} {e : Value × Value} {key k v x : Value}

def layOver (entries : Mapping) (e : Value × Value) : Value × Value :=
  (e.1, (entries.get? e.1).elim e.2 e.2.overlaid)

@[simp] theorem layOver_nil (e : Value × Value) : layOver [] e = e := rfl

theorem layOver_cons_of_other (h : k.same e.1 = false) :
    layOver ((k, v) :: rest) e = layOver rest e := by
  simp [layOver, get?_cons, h]

theorem Proper.same_first (h : Proper ((k, v) :: rest)) (he : e ∈ rest) :
    k.same e.1 = false ∧ e.1.same k = false := by
  have hmem : e.1 ∈ rest.keys := List.mem_map_of_mem he
  have hother : k.same e.1 = false := (List.pairwise_cons.1 h.distinct).1 e.1 hmem
  exact ⟨hother, by rwa [same_comm (h.of_cons.2.isKey e.1 hmem) h.of_cons.1]⟩

theorem Proper.layOver_first (h : Proper ((k, v) :: rest)) (x : Value) :
    layOver rest (k, x) = (k, x) := by
  have hnone : Mapping.get? rest k = none := by
    rw [Option.eq_none_iff_forall_ne_some]
    intro u hu
    obtain ⟨e, he, hsame, -⟩ := mem_of_get? hu
    simp [(h.same_first he).2] at hsame
  simp [layOver, hnone]

theorem contains_eq_any (m : Mapping) (key : Value) : m.contains key = m.keys.any (·.same key) := by
  rw [contains, keys, List.any_map]
  rfl

theorem contains_insert (h : base.contains k = true) :
    (base.insert k x).contains key = base.contains key := by
  rw [contains_eq_any, contains_eq_any, keys_insert, if_pos h]

/-- Writing what is laid over one entry and then the rest lays all of it over the base. -/
theorem map_layOver_insert (hbase : base.Proper) (h : Proper ((k, v) :: rest))
    (hcontains : base.contains k = true) :
    (base.insert k ((base.get? k).elim v (·.overlaid v))).map (layOver rest) =
      base.map (layOver ((k, v) :: rest)) := by
  have hk : k.isKey = true := h.of_cons.1
  rw [hbase.insert_of_contains hk hcontains, List.map_map]
  refine List.map_congr_left fun e he => ?_
  have heKey : e.1.isKey = true := hbase.isKey e.1 (List.mem_map_of_mem he)
  dsimp only [Function.comp]
  cases hsame : e.1.same k with
  | true =>
    have hsame' : k.same e.1 = true := by rwa [same_comm hk heKey]
    have hfound : base.get? k = some e.2 := hbase.get?_of_mem he hk hsame
    simp [layOver, get?_cons, hsame', hfound, h.get?_rest heKey hsame']
  | false =>
    have hsame' : k.same e.1 = false := by rwa [same_comm hk heKey]
    rw [if_neg (by simp), layOver_cons_of_other hsame']

theorem merge_eq (hbase : base.Proper) (hentries : entries.Proper) :
    base.merge entries =
      base.map (layOver entries) ++ entries.filter fun e => !base.contains e.1 := by
  induction entries generalizing base with
  | nil =>
    have hid : layOver [] = id := funext layOver_nil
    simp [hid]
  | cons e rest ih =>
    obtain ⟨k, v⟩ := e
    obtain ⟨hk, hrest⟩ := hentries.of_cons
    rw [merge_cons, ih (hbase.insert hk) hrest]
    cases hcontains : base.contains k with
    | true =>
      rw [map_layOver_insert hbase hentries hcontains,
        List.filter_cons_of_neg (by simp [hcontains])]
      simp only [contains_insert hcontains]
    | false =>
      have hother : ∀ e ∈ base, k.same e.1 = false := by
        intro e he
        rw [contains, List.any_eq_false] at hcontains
        rw [same_comm hk (hbase.isKey e.1 (List.mem_map_of_mem he))]
        simpa using hcontains e he
      have hnew : base.get? k = none := by simpa [contains_eq] using hcontains
      have hbefore : base.map (layOver ((k, v) :: rest)) = base.map (layOver rest) :=
        List.map_congr_left fun e he => layOver_cons_of_other (hother e he)
      have hbehind : rest.filter (fun e => !contains (base ++ [(k, v)]) e.1) =
          rest.filter fun e => !base.contains e.1 :=
        List.filter_congr fun e he => by simp [contains, (hentries.same_first he).1]
      rw [hnew, Option.elim, insert_of_not_contains hcontains, hbefore, hbehind,
        List.filter_cons_of_pos (by simp [hcontains]), List.map_append, List.map_singleton,
        hentries.layOver_first, List.append_assoc, List.singleton_append]

theorem keys_merge (hbase : base.Proper) (hentries : entries.Proper) :
    (base.merge entries).keys = base.keys ++ entries.keys.filter fun k => !base.contains k := by
  rw [merge_eq hbase hentries]
  simp only [keys, List.map_append, List.map_map, List.filter_map]
  rfl

theorem contains_merge (hbase : base.Proper) (hentries : entries.Proper)
    (hkey : key.isKey = true) :
    (base.merge entries).contains key = (base.contains key || entries.contains key) := by
  rw [contains_eq, contains_eq, contains_eq, get?_merge hbase.isKey hentries hkey]
  cases entries.get? key <;> simp

end Mapping

namespace Value

open Mapping

variable {u v w x y : Value} {a b c : Mapping} {key : Value} {path : List Value}

/-- Where two values both have something at a path of keys, it is a mapping in both or in
neither. -/
def Agrees (v w : Value) : Prop :=
  ∀ path x y, (∀ k ∈ path, k.isKey = true) → v.at? path = some x → w.at? path = some y →
    x.isMapping = y.isMapping

theorem Agrees.isMapping_eq (h : v.Agrees w) : v.isMapping = w.isMapping :=
  h [] v w (by simp) at?_nil at?_nil

theorem Agrees.get? (h : (mapping a).Agrees (mapping b)) (hkey : key.isKey = true)
    (hx : Mapping.get? a key = some x) (hy : Mapping.get? b key = some y) : x.Agrees y := by
  intro path x' y' hpath hx' hy'
  refine h (key :: path) x' y' (List.forall_mem_cons.2 ⟨hkey, hpath⟩) ?_ ?_
  · rw [at?, hx]
    exact hx'
  · rw [at?, hy]
    exact hy'

theorem Agrees.plain (hv : v.isMapping = false) (hw : w.isMapping = false) : v.Agrees w := by
  rintro (_ | ⟨key, path⟩) x y - hx hy
  · cases at?_nil.symm.trans hx
    cases at?_nil.symm.trans hy
    rw [hv, hw]
  · rw [at?_cons_of_not_mapping hv] at hx
    cases hx

theorem Agrees.of_entries (ha : ∀ k ∈ Mapping.keys a, k.isKey = true)
    (hb : ∀ k ∈ Mapping.keys b, k.isKey = true)
    (h : ∀ e ∈ a, ∀ e' ∈ b, e.1.same e'.1 = true → e.2.Agrees e'.2) :
    (mapping a).Agrees (mapping b) := by
  rintro (_ | ⟨key, path⟩) x y hpath hx hy
  · cases at?_nil.symm.trans hx
    cases at?_nil.symm.trans hy
    rfl
  · rw [List.forall_mem_cons] at hpath
    obtain ⟨v, hv, hx⟩ := Option.bind_eq_some_iff.1 hx
    obtain ⟨w, hw, hy⟩ := Option.bind_eq_some_iff.1 hy
    obtain ⟨e, he, hsame, rfl⟩ := mem_of_get? hv
    obtain ⟨e', he', hsame', rfl⟩ := mem_of_get? hw
    have heKey : e.1.isKey = true := ha e.1 (List.mem_map_of_mem he)
    have heKey' : e'.1.isKey = true := hb e'.1 (List.mem_map_of_mem he')
    refine h e he e' he' ?_ path x y hpath.2 hx hy
    rwa [same_congr heKey hpath.1 heKey' hsame, same_comm hpath.1 heKey']

theorem Agrees.flat (ha : ∀ e ∈ a, e.1.isKey = true ∧ e.2.isMapping = false)
    (hb : ∀ e ∈ b, e.1.isKey = true ∧ e.2.isMapping = false) :
    (mapping a).Agrees (mapping b) :=
  .of_entries (List.forall_mem_map.2 fun e he => (ha e he).1)
    (List.forall_mem_map.2 fun e he => (hb e he).1)
    fun e he e' he' _ => .plain (ha e he).2 (hb e' he').2

theorem layOver_layOver {e : Value × Value} (ha : a.Proper) (hb : Keyed (.mapping b))
    (hc : Keyed (.mapping c)) (he : e ∈ a)
    (hassoc : ∀ y z, Mapping.get? a e.1 = some e.2 → Mapping.get? b e.1 = some y →
      Mapping.get? c e.1 = some z → (e.2.overlaid y).overlaid z = e.2.overlaid (y.overlaid z)) :
    layOver c (layOver b e) = layOver (Mapping.merge b c) e := by
  obtain ⟨k, x⟩ := e
  have hk : k.isKey = true := ha.isKey k (List.mem_map_of_mem he)
  simp only [layOver, get?_merge hb.proper.isKey hc.proper hk]
  cases hy : Mapping.get? b k with
  | none => cases Mapping.get? c k <;> rfl
  | some y =>
    cases hz : Mapping.get? c k with
    | none => rfl
    | some z =>
      -- a key that equals another one also equals itself, which a NaN does not
      obtain ⟨e, hmem, hsame, -⟩ := mem_of_get? hy
      have heKey : e.1.isKey = true := hb.proper.isKey e.1 (List.mem_map_of_mem hmem)
      have hself : k.same k = true := by rwa [← same_congr heKey hk hk hsame]
      exact congrArg (Prod.mk k) (hassoc y z (ha.get?_of_mem he hk hself) hy hz)

/-- Values that agree may be laid over one another in any grouping. -/
theorem overlaid_assoc (hu : Keyed u) (hv : Keyed v) (hw : Keyed w) (huv : u.Agrees v)
    (huw : u.Agrees w) (hvw : v.Agrees w) :
    (u.overlaid v).overlaid w = u.overlaid (v.overlaid w) := by
  induction hu generalizing v w with
  | plain h =>
    rw [overlaid_of_not_mapping (.inl h), overlaid_of_not_mapping (.inl h)]
  | @mapping a ha hvalues ih =>
    obtain ⟨b, rfl⟩ := isMapping_iff.1 huv.isMapping_eq.symm
    obtain ⟨c, rfl⟩ := isMapping_iff.1 huw.isMapping_eq.symm
    have hab : (Mapping.merge a b).Proper := ((Keyed.mapping ha hvalues).overlaid hv).proper
    have hbc : (Mapping.merge b c).Proper := (hv.overlaid hw).proper
    have hbase : (Mapping.merge a b).map (layOver c) =
        a.map (layOver (Mapping.merge b c)) ++
          (b.filter fun e => !Mapping.contains a e.1).map (layOver c) := by
      rw [merge_eq ha hv.proper, List.map_append, List.map_map]
      refine congrArg (· ++ _) (List.map_congr_left fun e he => ?_)
      have hkey : e.1.isKey = true := ha.isKey e.1 (List.mem_map_of_mem he)
      exact layOver_layOver ha hv hw he fun y z hx hy hz => ih e he (hv.get? hy) (hw.get? hz)
        (huv.get? hkey hx hy) (huw.get? hkey hx hz) (hvw.get? hkey hy hz)
    have hnew : (Mapping.merge b c).filter (fun e => !Mapping.contains a e.1) =
        (b.filter fun e => !Mapping.contains a e.1).map (layOver c) ++
          c.filter fun e => !(Mapping.merge a b).contains e.1 := by
      rw [merge_eq hv.proper hw.proper, List.filter_append, List.filter_map, List.filter_filter]
      refine congrArg (List.map _ _ ++ ·) (List.filter_congr fun e he => ?_)
      rw [contains_merge ha hv.proper (hw.proper.isKey e.1 (List.mem_map_of_mem he)), Bool.not_or]
    refine congrArg mapping ?_
    calc (Mapping.merge a b).merge c
        = (Mapping.merge a b).map (layOver c) ++
            c.filter fun e => !(Mapping.merge a b).contains e.1 := merge_eq hab hw.proper
      _ = a.map (layOver (Mapping.merge b c)) ++
            (Mapping.merge b c).filter fun e => !Mapping.contains a e.1 := by
          rw [hbase, hnew, List.append_assoc]
      _ = Mapping.merge a (Mapping.merge b c) := (merge_eq ha hbc).symm

/-- The keys of the mapping at a path, if there is one. -/
def keysAt (v : Value) (path : List Value) : List Value :=
  match v.at? path with
  | some (mapping entries) => Mapping.keys entries
  | _ => []

theorem keysAt_of_at? (h : v.at? path = some (mapping c)) : v.keysAt path = Mapping.keys c := by
  rw [keysAt, h]

theorem keysAt_of_not_mapping (h : v.isMapping = false) : v.keysAt path = [] := by
  unfold keysAt
  cases path with
  | nil => cases v <;> first | rfl | cases h
  | cons key path => rw [at?_cons_of_not_mapping h]

theorem keysAt_cons : (mapping a).keysAt (key :: path) =
    (Mapping.get? a key).elim [] (·.keysAt path) := by
  unfold keysAt
  rw [at?]
  cases Mapping.get? a key <;> rfl

theorem not_at?_of_not_mapping (h : v.isMapping = false) : v.at? path ≠ some (mapping c) := by
  cases path with
  | nil =>
    rw [at?_nil]
    rintro ⟨⟩
    cases h
  | cons key path => simp [at?_cons_of_not_mapping h]

theorem keysAt_overlaid_of_not_mapping (h : u.isMapping = false ∨ v.isMapping = false)
    (hat : (u.overlaid v).at? path = some (mapping c)) :
    (u.overlaid v).keysAt path = u.keysAt path ++
      (v.keysAt path).filter fun k => !(u.keysAt path).any (·.same k) := by
  rw [overlaid_of_not_mapping h] at hat ⊢
  rcases h with hlower | hupper
  · simp [keysAt_of_not_mapping hlower]
  · exact absurd hat (not_at?_of_not_mapping hupper)

/-- At every level the keys of the lower value come first, in their order, and then those that
only the upper one has. -/
theorem keysAt_overlaid (hu : Keyed u) (hv : Keyed v) (hpath : ∀ k ∈ path, k.isKey = true)
    (hat : (u.overlaid v).at? path = some (mapping c)) :
    (u.overlaid v).keysAt path = u.keysAt path ++
      (v.keysAt path).filter fun k => !(u.keysAt path).any (·.same k) := by
  induction path generalizing u v with
  | nil =>
    cases hu with
    | plain h => exact keysAt_overlaid_of_not_mapping (.inl h) hat
    | @mapping a ha _ =>
      cases hv with
      | plain h => exact keysAt_overlaid_of_not_mapping (.inr h) hat
      | @mapping b hb _ =>
        rw [keysAt_of_at? (c := a) at?_nil, keysAt_of_at? (c := b) at?_nil]
        simp only [← contains_eq_any]
        exact keys_merge ha hb
  | cons key path ih =>
    rw [List.forall_mem_cons] at hpath
    cases hu with
    | plain h => exact keysAt_overlaid_of_not_mapping (.inl h) hat
    | @mapping a ha hlower =>
      cases hv with
      | plain h => exact keysAt_overlaid_of_not_mapping (.inr h) hat
      | @mapping b hb hupper =>
        change ((Mapping.merge a b).get? key).bind (·.at? path) = _ at hat
        change (mapping (Mapping.merge a b)).keysAt (key :: path) = _
        rw [keysAt_cons, keysAt_cons, keysAt_cons]
        rw [get?_merge ha.isKey hb hpath.1] at hat ⊢
        cases hy : Mapping.get? b key with
        | none => simp
        | some y =>
          rw [hy] at hat
          cases hx : Mapping.get? a key with
          | none => simp
          | some x =>
            rw [hx] at hat
            exact ih ((Keyed.mapping ha hlower).get? hx) ((Keyed.mapping hb hupper).get? hy)
              hpath.2 hat

end Value

namespace Mapping

open Value

variable {a b c : Mapping}

/-- Mappings that agree may be merged in any grouping, with the same entries in the same order.
At every level of a merged mapping the keys of the base come first, in their order, and then
those that only the other mapping has, in theirs. -/
theorem merge_grouped (ha : Keyed (.mapping a)) (hb : Keyed (.mapping b))
    (hc : Keyed (.mapping c)) :
    ([.mapping a, .mapping b, .mapping c].Pairwise Agrees →
      (a.merge b).merge c = a.merge (b.merge c)) ∧
    ∀ path level, (∀ k ∈ path, k.isKey = true) →
      (Value.mapping (a.merge b)).at? path = some (.mapping level) →
      keys level = (Value.mapping a).keysAt path ++
        ((Value.mapping b).keysAt path).filter fun k =>
          !((Value.mapping a).keysAt path).any (·.same k) := by
  refine ⟨fun hagree => ?_, fun path level hpath hat => ?_⟩
  · simp only [List.pairwise_cons, List.forall_mem_cons] at hagree
    obtain ⟨⟨hab, hac, -⟩, ⟨hbc, -⟩, -⟩ := hagree
    exact mapping.inj (overlaid_assoc ha hb hc hab hac hbc)
  · rw [← keysAt_of_at? hat]
    exact keysAt_overlaid ha hb hpath hat

/-- One is the truth value of a key in the last mapping, and every mapping says something of `x`. -/
theorem merge_grouped_nested :
    let a : Mapping := [(.str "x", .mapping [(.str "p", .int 1)]), (.int 1, .str "one")]
    let b : Mapping := [(.str "x", .mapping [(.str "q", .int 2)])]
    let c : Mapping := [(.bool true, .str "uno"),
      (.str "x", .mapping [(.str "q", .int 3), (.str "p", .int 4)])]
    (Keyed (.mapping a) ∧ Keyed (.mapping b) ∧ Keyed (.mapping c) ∧
      [.mapping a, .mapping b, .mapping c].Pairwise Agrees) ∧
    (a.merge b).merge c = a.merge (b.merge c) ∧
    ∃ level, (Value.mapping (a.merge b)).at? [.str "x"] = some (.mapping level) ∧
      keys level = [.str "p", .str "q"] := by
  intro a b c
  have ha : Keyed (.mapping a) := by
    refine .mapping ⟨by decide, by decide⟩ ?_
    simp only [a, List.forall_mem_cons]
    exact ⟨.flat ⟨by decide, by decide⟩ (by decide), .plain rfl, by simp⟩
  have hb : Keyed (.mapping b) := by
    refine .mapping ⟨by decide, by decide⟩ ?_
    simp only [b, List.forall_mem_cons]
    exact ⟨.flat ⟨by decide, by decide⟩ (by decide), by simp⟩
  have hc : Keyed (.mapping c) := by
    refine .mapping ⟨by decide, by decide⟩ ?_
    simp only [c, List.forall_mem_cons]
    exact ⟨.plain rfl, .flat ⟨by decide, by decide⟩ (by decide), by simp⟩
  have hab : Agrees (.mapping a) (.mapping b) := by
    refine .of_entries (by decide) (by decide) ?_
    simp only [a, b, List.forall_mem_cons]
    refine ⟨⟨fun _ => .flat (by decide) (by decide), by simp⟩, ⟨?_, by simp⟩, by simp⟩
    exact fun h => absurd h (by decide)
  have hac : Agrees (.mapping a) (.mapping c) := by
    refine .of_entries (by decide) (by decide) ?_
    simp only [a, c, List.forall_mem_cons]
    refine ⟨⟨?_, fun _ => .flat (by decide) (by decide), by simp⟩,
      ⟨fun _ => .plain rfl rfl, ?_, by simp⟩, by simp⟩ <;> exact fun h => absurd h (by decide)
  have hbc : Agrees (.mapping b) (.mapping c) := by
    refine .of_entries (by decide) (by decide) ?_
    simp only [b, c, List.forall_mem_cons]
    refine ⟨⟨?_, fun _ => .flat (by decide) (by decide), by simp⟩, by simp⟩
    exact fun h => absurd h (by decide)
  have hagree : [.mapping a, .mapping b, .mapping c].Pairwise Agrees := by
    simp [hab, hac, hbc]
  obtain ⟨hgrouped, hlevels⟩ := merge_grouped ha hb hc
  have hat : (Value.mapping (a.merge b)).at? [.str "x"] =
      some (.mapping [(.str "p", .int 1), (.str "q", .int 2)]) := by
    simp [a, b, merge_cons, Mapping.insert, Mapping.get?, overlaid, at?, same]
  refine ⟨⟨ha, hb, hc, hagree⟩, hgrouped hagree, _, hat, ?_⟩
  rw [hlevels [.str "x"] _ (by simp [isKey]) hat]
  rfl

end Mapping

end Settings
