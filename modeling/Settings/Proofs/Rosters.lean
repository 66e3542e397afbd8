import Settings.Proofs.Occurrences
import Settings.Roster

/-! # What rosters hold

Entering a name keeps the names that were there and their order. As long as each name
stands once, it replaces just the thing of that name.
-/

namespace Settings.Roster

variable {κ α : Type} [BEq κ] [LawfulBEq κ] {r : Roster κ α} {name name' : κ} {a : α}
  {e : κ × α}

theorem get?_eq_none_iff : r.get? name = none ↔ name ∉ r.names := by
  simp only [get?, names, List.lookup_eq_none_iff, List.mem_map, bne_iff_ne, ne_eq, not_exists,
    not_and]
  exact forall₂_congr fun _ _ => not_congr eq_comm

theorem mem_of_get? (h : r.get? name = some a) : (name, a) ∈ r := by
  obtain ⟨before, rest, rfl, -⟩ := List.lookup_eq_some_iff.1 h
  exact List.mem_append_right before (.head rest)

theorem names_put_of_mem (h : name ∈ r.names) (a : α) : (r.put name a).names = r.names := by
  induction r with
  | nil => cases h
  | cons first rest ih =>
    rw [put]
    split
    · rfl
    · rename_i hne
      have hrest := (List.mem_cons.1 h).resolve_left fun heq => hne (beq_iff_eq.2 heq.symm)
      exact congrArg (first.1 :: ·) (ih hrest)

theorem names_put_of_not_mem (h : name ∉ r.names) (a : α) :
    (r.put name a).names = r.names ++ [name] := by
  induction r with
  | nil => rfl
  | cons first rest ih =>
    obtain ⟨hne, hrest⟩ := not_or.1 (mt List.mem_cons.2 h)
    rw [put, if_neg fun heq => hne (beq_iff_eq.1 heq).symm]
    exact congrArg (first.1 :: ·) (ih hrest)

theorem mem_put (h : r.names.Nodup) (he : e ∈ r.put name a) :
    e = (name, a) ∨ e ∈ r ∧ e.1 ≠ name := by
  induction r with
  | nil => exact .inl (List.mem_singleton.1 he)
  | cons first rest ih =>
    obtain ⟨hfirst, hrest⟩ := List.nodup_cons.1 h
    rw [put] at he
    split at he
    · rename_i heq
      obtain rfl : first.1 = name := beq_iff_eq.1 heq
      obtain rfl | hmem := List.mem_cons.1 he
      · exact .inl rfl
      · exact .inr ⟨.tail _ hmem, fun hsame => hfirst (List.mem_map.2 ⟨e, hmem, hsame⟩)⟩
    · rename_i hne
      obtain rfl | hmem := List.mem_cons.1 he
      · exact .inr ⟨.head _, fun heq => hne (beq_iff_eq.2 heq)⟩
      · exact (ih hrest hmem).imp_right fun ⟨hmem, hother⟩ => ⟨.tail _ hmem, hother⟩

section Order

variable [DecidableEq κ] {l : List κ}

theorem names_put (h : FirstOccurrences l r.names) (name : κ) (a : α) :
    FirstOccurrences (l ++ [name]) (r.put name a).names := by
  have hconcat := h.concat name
  split at hconcat
  · rename_i hmem
    rwa [names_put_of_mem hmem]
  · rename_i hmem
    rwa [names_put_of_not_mem hmem]

def putAll (r : Roster κ α) (later : List (κ × α)) : Roster κ α :=
  later.foldl (fun r e => r.put e.1 e.2) r

theorem names_putAll (h : FirstOccurrences l r.names) (later : List (κ × α)) :
    FirstOccurrences (l ++ later.map (·.1)) (r.putAll later).names := by
  induction later generalizing l r with
  | nil => simpa [putAll] using h
  | cons e later ih =>
    have hput := ih (names_put h e.1 e.2)
    rw [List.append_assoc] at hput
    exact hput

theorem mem_putAll {later : List (κ × α)} (h : FirstOccurrences l r.names)
    (he : e ∈ r.putAll later) : e ∈ later ∨ e ∈ r ∧ e.1 ∉ later.map (·.1) := by
  induction later using List.reverseRecOn with
  | nil => exact .inr ⟨he, List.not_mem_nil⟩
  | append_singleton later s ih =>
    rw [putAll, List.foldl_concat] at he
    rcases mem_put (names_putAll h later).nodup he with rfl | ⟨he, hne⟩
    · exact .inl (by simp)
    · rcases ih he with hmem | ⟨hmem, hn⟩
      · exact .inl (List.mem_append_left _ hmem)
      · refine .inr ⟨hmem, ?_⟩
        simpa [hne] using hn

end Order

theorem nodup_put (h : r.names.Nodup) (name : κ) (a : α) : (r.put name a).names.Nodup := by
  by_cases hmem : name ∈ r.names
  · rwa [names_put_of_mem hmem]
  · rw [names_put_of_not_mem hmem, ← List.concat_eq_append]
    exact h.concat hmem

theorem mem_names_put : name' ∈ (r.put name a).names ↔ name' = name ∨ name' ∈ r.names := by
  by_cases hmem : name ∈ r.names
  · rw [names_put_of_mem hmem]
    refine ⟨.inr, fun h => h.elim (fun heq => heq ▸ hmem) id⟩
  · rw [names_put_of_not_mem hmem, List.mem_append, List.mem_singleton, or_comm]

theorem filter_put [DecidableEq κ] (r : Roster κ α) (name : κ) (a : α) (name' : κ) :
    (r.put name a).filter (·.1 = name') =
      if name' = name then put (r.filter (·.1 = name)) name a else r.filter (·.1 = name') := by
  induction r with
  | nil =>
    by_cases h : name' = name
    · simp [put, h]
    · simp [put, h, Ne.symm h]
  | cons first rest ih =>
    rw [put]
    by_cases hfirst : first.1 = name
    · by_cases h : name' = name
      · subst h
        simp [hfirst, put]
      · simp [hfirst, h, Ne.symm h]
    · rw [if_neg (by simpa using hfirst), List.filter_cons, List.filter_cons, List.filter_cons, ih]
      by_cases h : name' = name
      · subst h
        simp [hfirst]
      · simp [h]

theorem put_put (r : Roster κ α) (name : κ) (a b : α) :
    (r.put name a).put name b = r.put name b := by
  induction r with
  | nil => simp [put]
  | cons first rest ih =>
    by_cases hfirst : first.1 = name
    · simp [put, hfirst]
    · simp [put, hfirst, ih]

theorem put_comm (hne : name' ≠ name) (hmem : name ∈ r.names) (a b : α) :
    (r.put name' b).put name a = (r.put name a).put name' b := by
  induction r with
  | nil => cases hmem
  | cons first rest ih =>
    by_cases hfirst : first.1 = name
    · have hother : first.1 ≠ name' := fun h => hne (h.symm.trans hfirst)
      simp [put, hfirst, Ne.symm hne]
    · have hrest : name ∈ names rest := (List.mem_cons.1 hmem).resolve_left (Ne.symm hfirst)
      by_cases hother : first.1 = name'
      · simp [put, hother, hne]
      · simp [put, hfirst, hother, ih hrest]

end Settings.Roster
