import Settings.Proofs.Grouping

/-! # Leaves of nested mappings

A value is leafy when its mappings have different texts as keys and none of them is empty, so
that every branch ends in a leaf. Laying one such value over another keeps it so, and its
leaves determine it up to the order of the keys.
-/

namespace Settings.Value

open Mapping

variable {u v w x : Value} {a b : Mapping} {k l : Value} {path : List Value}

/-- A value with nothing but leaves at the ends of its mappings. -/
inductive Leafy : Value → Prop
  | leaf {v : Value} (h : v.isMapping = false) : Leafy v
  | branch {entries : Mapping} (ne : entries ≠ []) (texts : ∀ k ∈ entries.keys, ∃ s, k = .str s)
      (nodup : entries.keys.Nodup) (values : ∀ e ∈ entries, Leafy e.2) : Leafy (.mapping entries)

theorem same_str_iff {s : String} : (str s).same l = true ↔ str s = l := by
  cases l <;> simp [same, number?]

namespace Leafy

theorem ne_nil (h : Leafy (.mapping a)) : a ≠ [] := by
  cases h with
  | leaf h => cases h
  | branch ne => exact ne

theorem texts (h : Leafy (.mapping a)) : ∀ k ∈ Mapping.keys a, ∃ s, k = .str s := by
  cases h with
  | leaf h => cases h
  | branch _ texts => exact texts

theorem nodup (h : Leafy (.mapping a)) : (Mapping.keys a).Nodup := by
  cases h with
  | leaf h => cases h
  | branch _ _ nodup => exact nodup

theorem values (h : Leafy (.mapping a)) : ∀ e ∈ a, Leafy e.2 := by
  cases h with
  | leaf h => cases h
  | branch _ _ _ values => exact values

theorem same_iff_eq (h : Leafy (.mapping a)) (hk : k ∈ Mapping.keys a) :
    k.same l = true ↔ k = l := by
  obtain ⟨s, rfl⟩ := h.texts k hk
  exact same_str_iff

theorem contains_iff (h : Leafy (.mapping a)) :
    Mapping.contains a k = true ↔ k ∈ Mapping.keys a := by
  rw [contains_eq_any, List.any_eq_true]
  constructor
  · rintro ⟨l, hl, hsame⟩
    exact (h.same_iff_eq hl).1 hsame ▸ hl
  · exact fun hk => ⟨k, hk, (h.same_iff_eq hk).2 rfl⟩

theorem proper (h : Leafy (.mapping a)) : Mapping.Proper a where
  isKey k hk := by
    obtain ⟨s, rfl⟩ := h.texts k hk
    rfl
  distinct := h.nodup.imp_of_mem fun {k l} hk _ hne => by
    rw [← Bool.not_eq_true, h.same_iff_eq hk]
    exact hne

theorem keyed (h : Leafy v) : Keyed v := by
  induction h with
  | leaf h => exact .plain h
  | branch ne texts nodup values ih => exact .mapping (Leafy.branch ne texts nodup values).proper ih

theorem get?_eq_some_iff (h : Leafy (.mapping a)) : Mapping.get? a k = some x ↔ (k, x) ∈ a := by
  constructor
  · intro hget
    obtain ⟨e, he, hsame, rfl⟩ := mem_of_get? hget
    have hkey := (h.same_iff_eq (List.mem_map_of_mem he)).1 hsame
    exact hkey ▸ he
  · intro hmem
    have hk : k ∈ Mapping.keys a := List.mem_map_of_mem hmem
    exact h.proper.get?_of_mem hmem (h.proper.isKey k hk) ((h.same_iff_eq hk).2 rfl)

theorem at?_cons_iff (h : Leafy (.mapping a)) :
    (Value.mapping a).at? (k :: path) = some x ↔ ∃ w, (k, w) ∈ a ∧ w.at? path = some x := by
  simp [at?, Option.bind_eq_some_iff, h.get?_eq_some_iff]

theorem of_at? (h : Leafy v) (hat : v.at? path = some x) :
    Leafy x ∧ ∃ p : List String, path = p.map .str := by
  induction path generalizing v with
  | nil =>
    obtain rfl := Option.some.inj (at?_nil.symm.trans hat)
    exact ⟨h, [], rfl⟩
  | cons k path ih =>
    obtain ⟨a, w, rfl, -, -⟩ := at?_cons_eq_some.1 hat
    obtain ⟨w, hmem, hrest⟩ := h.at?_cons_iff.1 hat
    obtain ⟨hx, p, rfl⟩ := ih (h.values _ hmem) hrest
    obtain ⟨s, rfl⟩ := h.texts k (List.mem_map_of_mem hmem)
    exact ⟨hx, s :: p, rfl⟩

theorem exists_leaf (h : Leafy v) : ∃ path x, v.at? path = some x ∧ x.isMapping = false := by
  induction h with
  | leaf h => exact ⟨[], _, at?_nil, h⟩
  | @branch entries ne texts nodup values ih =>
    obtain ⟨⟨k, w⟩, rest, rfl⟩ := List.exists_cons_of_ne_nil ne
    obtain ⟨path, x, hat, hx⟩ := ih (k, w) List.mem_cons_self
    refine ⟨k :: path, x, ?_, hx⟩
    exact (Leafy.branch ne texts nodup values).at?_cons_iff.2 ⟨w, List.mem_cons_self, hat⟩

theorem overlaid (hu : Leafy u) (hv : Leafy v) : Leafy (u.overlaid v) := by
  induction hu generalizing v with
  | leaf h => rwa [overlaid_of_not_mapping (.inl h)]
  | @branch a ne texts nodup values ih =>
    have ha : Leafy (.mapping a) := .branch ne texts nodup values
    cases hv with
    | leaf h =>
      rw [overlaid_of_not_mapping (.inr h)]
      exact .leaf h
    | @branch b ne' texts' nodup' values' =>
      have hb : Leafy (.mapping b) := .branch ne' texts' nodup' values'
      change Leafy (.mapping (Mapping.merge a b))
      have hkeys := keys_merge ha.proper hb.proper
      refine .branch ?_ ?_ ?_ ?_
      · intro hempty
        rw [hempty] at hkeys
        exact ne (List.map_eq_nil_iff.1 (List.append_eq_nil_iff.1 hkeys.symm).1)
      · intro k hk
        rw [hkeys, List.mem_append, List.mem_filter] at hk
        rcases hk with hk | ⟨hk, -⟩
        · exact texts k hk
        · exact texts' k hk
      · rw [hkeys, List.nodup_append]
        refine ⟨nodup, nodup'.filter _, ?_⟩
        rintro k hk l hl rfl
        have hnew := (List.mem_filter.1 hl).2
        rw [ha.contains_iff.2 hk] at hnew
        cases hnew
      · intro e he
        rw [merge_eq ha.proper hb.proper, List.mem_append] at he
        rcases he with he | he
        · obtain ⟨lower, hlower, rfl⟩ := List.mem_map.1 he
          cases hx : Mapping.get? b lower.1 with
          | none => simpa [layOver, hx] using values lower hlower
          | some x =>
            have hover := ih lower hlower (hb.values _ (hb.get?_eq_some_iff.1 hx))
            simpa [layOver, hx] using hover
        · exact values' e (List.mem_filter.1 he).1

end Leafy

/-- Values that differ at most in the order of their keys, at every level. -/
inductive Reordered : Value → Value → Prop
  | plain {v : Value} (h : v.isMapping = false) : Reordered v v
  | mapping {a b : Mapping} (keys : (Mapping.keys a).Perm (Mapping.keys b))
      (values : ∀ k x y, (k, x) ∈ a → (k, y) ∈ b → Reordered x y) :
      Reordered (.mapping a) (.mapping b)

def SameLeaves (u v : Value) : Prop :=
  ∀ path x, x.isMapping = false → (u.at? path = some x ↔ v.at? path = some x)

namespace SameLeaves

theorem symm (h : SameLeaves u v) : SameLeaves v u := fun path x hx => (h path x hx).symm

theorem eq_of_leaf (h : SameLeaves u v) (hu : u.isMapping = false) : v = u :=
  Option.some.inj (at?_nil.symm.trans ((h [] u hu).1 at?_nil))

theorem mem_keys (h : SameLeaves (.mapping a) (.mapping b)) (ha : Leafy (.mapping a))
    (hb : Leafy (.mapping b)) (hk : k ∈ Mapping.keys a) : k ∈ Mapping.keys b := by
  obtain ⟨e, he, rfl⟩ := List.mem_map.1 hk
  obtain ⟨path, x, hat, hx⟩ := (ha.values e he).exists_leaf
  obtain ⟨w, hw, -⟩ :=
    hb.at?_cons_iff.1 ((h (e.1 :: path) x hx).1 (ha.at?_cons_iff.2 ⟨e.2, he, hat⟩))
  exact List.mem_map.2 ⟨(e.1, w), hw, rfl⟩

theorem value (h : SameLeaves (.mapping a) (.mapping b)) (ha : Leafy (.mapping a))
    (hb : Leafy (.mapping b)) (hx : (k, x) ∈ a) (hw : (k, w) ∈ b) : SameLeaves x w := by
  intro path y hy
  have hcons := h (k :: path) y hy
  simp only [at?, ha.get?_eq_some_iff.2 hx, hb.get?_eq_some_iff.2 hw] at hcons
  exact hcons

end SameLeaves

/-- The leaves of a leafy value determine it up to the order of its keys. -/
theorem Leafy.reordered (hu : Leafy u) (hv : Leafy v) (h : SameLeaves u v) : Reordered u v := by
  induction hu generalizing v with
  | leaf hleaf =>
    obtain rfl := h.eq_of_leaf hleaf
    exact .plain hleaf
  | @branch a ne texts nodup values ih =>
    have ha : Leafy (.mapping a) := .branch ne texts nodup values
    cases hv with
    | leaf hleaf =>
      cases h.symm.eq_of_leaf hleaf
      cases hleaf
    | @branch b ne' texts' nodup' values' =>
      have hb : Leafy (.mapping b) := .branch ne' texts' nodup' values'
      refine .mapping ?_ fun k x y hx hy => ?_
      · exact (List.perm_ext_iff_of_nodup nodup nodup').2 fun k =>
          ⟨h.mem_keys ha hb, h.symm.mem_keys hb ha⟩
      · exact ih (k, x) hx (values' (k, y) hy) (h.value ha hb hx hy)

end Settings.Value
