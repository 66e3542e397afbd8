import Mathlib.Data.List.Induction
import Mathlib.Data.List.Nodup

/-! # First occurrences

The members of a list, each once and in the order in which they first occur. A
list is gone through from its front, so what comes last can only add one member.
-/

namespace Settings

variable {α β : Type} [DecidableEq α] [DecidableEq β] {l keys : List α} {a : α}

/-- Each member of a list once, ordered by its first occurrence there. -/
structure FirstOccurrences (l keys : List α) : Prop where
  mem_iff : ∀ a, a ∈ keys ↔ a ∈ l
  ordered : keys.Pairwise fun a b => l.idxOf a < l.idxOf b

theorem eraseDups_concat (l : List α) (a : α) :
    (l ++ [a]).eraseDups = if a ∈ l then l.eraseDups else l.eraseDups ++ [a] := by
  have hone : [a].eraseDups = [a] := by simp [List.eraseDups_cons]
  rw [List.eraseDups_append]
  by_cases ha : a ∈ l <;> simp [List.removeAll, ha, hone]

theorem eraseDups_map {f : α → β} (hf : ∀ a ∈ l, ∀ b ∈ l, f a = f b → a = b) :
    (l.map f).eraseDups = l.eraseDups.map f := by
  induction l using List.reverseRecOn with
  | nil => simp
  | append_singleton l a ih =>
    have hmem : f a ∈ l.map f ↔ a ∈ l := by
      refine ⟨fun h => ?_, List.mem_map_of_mem⟩
      obtain ⟨b, hb, heq⟩ := List.mem_map.1 h
      exact hf b (by simp [hb]) a (by simp) heq ▸ hb
    have ih := ih fun b hb b' hb' => hf b (by simp [hb]) b' (by simp [hb'])
    rw [List.map_append, List.map_singleton, eraseDups_concat, eraseDups_concat, ih,
      if_congr hmem rfl rfl]
    split
    · rfl
    · rw [List.map_append, List.map_singleton]

omit [DecidableEq β] in
/-- The fibers over different keys, one after the other, are a list in another order. -/
theorem flatMap_fibers_perm {f : β → α} {l : List β} (hkeys : keys.Nodup)
    (hmem : ∀ b ∈ l, f b ∈ keys) : (keys.flatMap fun a => l.filter (f · = a)).Perm l := by
  induction keys generalizing l with
  | nil =>
    obtain rfl := List.eq_nil_iff_forall_not_mem.2 fun b hb => List.not_mem_nil (hmem b hb)
    exact .nil
  | cons a keys ih =>
    obtain ⟨ha, hkeys⟩ := List.nodup_cons.1 hkeys
    have hrest : keys.flatMap (fun a' => l.filter (f · = a')) =
        keys.flatMap fun a' => (l.filter fun b => !decide (f b = a)).filter (f · = a') := by
      refine List.flatMap_congr fun a' ha' => ?_
      rw [List.filter_filter]
      refine List.filter_congr fun b _ => ?_
      have hne : a' ≠ a := by
        rintro rfl
        exact ha ha'
      grind
    have hother : ∀ b ∈ l.filter fun b => !decide (f b = a), f b ∈ keys := by
      intro b hb
      obtain ⟨hb, hne⟩ := List.mem_filter.1 hb
      exact (List.mem_cons.1 (hmem b hb)).resolve_left (by simpa using hne)
    rw [List.flatMap_cons, hrest]
    exact ((ih hkeys hother).append_left _).trans (List.filter_append_perm ..)

omit [DecidableEq β] in
theorem filter_fibers {f : β → α} {l : List β} (hkeys : keys.Nodup) (k : α) :
    (keys.flatMap fun a => l.filter (f · = a)).filter (f · = k) =
      if k ∈ keys then l.filter (f · = k) else [] := by
  induction keys with
  | nil => rfl
  | cons a keys ih =>
    obtain ⟨ha, hkeys⟩ := List.nodup_cons.1 hkeys
    rw [List.flatMap_cons, List.filter_append, ih hkeys, List.filter_filter]
    by_cases hk : k = a
    · subst hk
      simp [ha]
    · have hnone : l.filter (fun b => decide (f b = k) && decide (f b = a)) = [] := by
        simp only [List.filter_eq_nil_iff, Bool.and_eq_true, decide_eq_true_eq, not_and]
        rintro b - rfl
        exact hk
      simp [hnone, hk]

omit [DecidableEq β] in
theorem eq_flatMap_filter {label : β → α} {l : List β} {labels : α → List α}
    (hkeys : keys.Nodup) (hlabels : ∀ a ∈ keys, ∀ b ∈ labels a, b = a)
    (h : l.map label = keys.flatMap labels) :
    l = keys.flatMap fun a => l.filter (label · = a) := by
  induction keys generalizing l with
  | nil => exact List.map_eq_nil_iff.1 h
  | cons a keys ih =>
    obtain ⟨ha, hkeys⟩ := List.nodup_cons.1 hkeys
    rw [List.forall_mem_cons] at hlabels
    obtain ⟨front, rest, rfl, hfront, hrest⟩ := List.map_eq_append_iff.1 h
    have hin : ∀ b ∈ front, label b = a := fun b hb =>
      hlabels.1 _ (hfront ▸ List.mem_map_of_mem hb)
    have hout : ∀ b ∈ rest, label b ∈ keys := by
      intro b hb
      have hmem := List.mem_map_of_mem (f := label) hb
      rw [hrest, ← List.flatMap_def] at hmem
      obtain ⟨a', ha', hb'⟩ := List.mem_flatMap.1 hmem
      rwa [hlabels.2 a' ha' _ hb']
    have hfirst : (front ++ rest).filter (label · = a) = front := by
      have hnone : rest.filter (label · = a) = [] := by
        simp only [List.filter_eq_nil_iff, decide_eq_true_eq]
        rintro b hb rfl
        exact ha (hout b hb)
      rw [List.filter_append, List.filter_eq_self.2 (by simpa using hin), hnone, List.append_nil]
    have hothers : keys.flatMap (fun a' => (front ++ rest).filter (label · = a')) = rest := by
      refine Eq.trans ?_ (ih hkeys hlabels.2 hrest).symm
      refine List.flatMap_congr fun a' ha' => ?_
      have hnone : front.filter (label · = a') = [] := by
        simp only [List.filter_eq_nil_iff, decide_eq_true_eq]
        rintro b hb rfl
        exact ha (hin b hb ▸ ha')
      rw [List.filter_append, hnone, List.nil_append]
    rw [List.flatMap_cons, hfirst, hothers]

namespace FirstOccurrences

theorem nil : FirstOccurrences ([] : List α) [] := ⟨fun _ => Iff.rfl, .nil⟩

theorem nodup (h : FirstOccurrences l keys) : keys.Nodup := by
  refine h.ordered.imp ?_
  rintro a b hlt rfl
  exact Nat.lt_irrefl _ hlt

/-- Members and order determine the list. -/
theorem unique {keys' : List α} (h : FirstOccurrences l keys) (h' : FirstOccurrences l keys') :
    keys = keys' := by
  have hperm : keys.Perm keys' := (List.perm_ext_iff_of_nodup h.nodup h'.nodup).2 fun a =>
    (h.mem_iff a).trans (h'.mem_iff a).symm
  exact hperm.eq_of_pairwise (fun a b _ _ hlt hgt => absurd hlt (Nat.lt_asymm hgt)) h.ordered
    h'.ordered

theorem concat (h : FirstOccurrences l keys) (a : α) :
    FirstOccurrences (l ++ [a]) (if a ∈ keys then keys else keys ++ [a]) := by
  have hidx {b : α} (hb : b ∈ keys) : (l ++ [a]).idxOf b = l.idxOf b :=
    List.idxOf_append_of_mem ((h.mem_iff b).1 hb)
  have hold : keys.Pairwise fun b b' => (l ++ [a]).idxOf b < (l ++ [a]).idxOf b' := by
    refine h.ordered.imp_of_mem fun hb hb' hlt => ?_
    rwa [hidx hb, hidx hb']
  split
  · rename_i ha
    refine ⟨fun b => ?_, hold⟩
    rw [List.mem_append, List.mem_singleton, h.mem_iff]
    exact ⟨.inl, fun hb => hb.elim id fun heq => heq ▸ (h.mem_iff a).1 ha⟩
  · rename_i ha
    refine ⟨fun b => ?_, List.pairwise_append.2 ⟨hold, List.pairwise_singleton .., ?_⟩⟩
    · rw [List.mem_append, List.mem_append, h.mem_iff]
    · intro b hb b' hb'
      obtain rfl := List.mem_singleton.1 hb'
      rw [hidx hb, List.idxOf_append_of_notMem fun hmem => ha ((h.mem_iff b').2 hmem)]
      exact Nat.lt_add_right _ (List.idxOf_lt_length_iff.2 ((h.mem_iff b).1 hb))

theorem eraseDups (l : List α) : FirstOccurrences l l.eraseDups := by
  induction l using List.reverseRecOn with
  | nil => exact nil
  | append_singleton l a ih =>
    have hconcat := ih.concat a
    rwa [if_congr List.mem_eraseDups rfl rfl, ← eraseDups_concat] at hconcat

theorem eq_eraseDups (h : FirstOccurrences l keys) : keys = l.eraseDups :=
  h.unique (eraseDups l)

theorem append_right {l' all : List α} (h : FirstOccurrences l keys)
    (hall : FirstOccurrences (l' ++ keys) all) : FirstOccurrences (l' ++ l) all := by
  have hsame : (l' ++ l.eraseDups).eraseDups = (l' ++ l).eraseDups := by
    induction l using List.reverseRecOn generalizing keys all with
    | nil => simp
    | append_singleton l a ih =>
      have ih := ih (eraseDups l) (eraseDups _)
      rw [eraseDups_concat, ← List.append_assoc, eraseDups_concat, ← ih]
      by_cases ha : a ∈ l
      · simp [ha]
      · rw [if_neg ha, ← List.append_assoc, eraseDups_concat]
        simp [ha]
  rw [hall.eq_eraseDups, h.eq_eraseDups, hsame]
  exact eraseDups _

theorem of_map_some (h : FirstOccurrences (l.map some) (keys.map some)) :
    FirstOccurrences l keys := by
  have hsame := h.eq_eraseDups
  rw [eraseDups_map fun a _ b _ heq => Option.some.inj heq] at hsame
  obtain rfl := List.map_injective_iff.2 (fun _ _ => Option.some.inj) hsame
  exact eraseDups l

end FirstOccurrences

end Settings
