import Mathlib.Data.List.Infix
import Settings.Text.Search

/-! # What searches find

First and last occurrences of a mark, in a text alone and with more text
behind it, and what replacing every occurrence gives.
-/

namespace Settings.Text

variable {mark cs rest before after : List Char} {c : Char}

@[simp] theorem after?_append (mark rest : List Char) :
    after? mark (mark ++ rest) = some rest :=
  after?_eq_some_iff.2 rfl

theorem after?_eq_none_iff : after? mark cs = none ↔ ¬ mark <+: cs := by
  rw [Option.eq_none_iff_forall_ne_some]
  constructor
  · rintro h ⟨rest, rfl⟩
    exact h rest (after?_append mark rest)
  · intro h rest hrest
    exact h ⟨rest, (after?_eq_some_iff.1 hrest).symm⟩

theorem breakAt?_append (h : breakAt? mark cs = some (before, after)) (rest : List Char) :
    breakAt? mark (cs ++ rest) = some (before, after ++ rest) := by
  induction cs generalizing before with
  | nil =>
    cases mark with
    | nil =>
      obtain ⟨rfl, rfl⟩ := by simpa [breakAt?] using h
      cases rest <;> simp [breakAt?, after?]
    | cons => simp [breakAt?] at h
  | cons c cs ih =>
    rw [breakAt?] at h
    rw [List.cons_append, breakAt?]
    cases hstart : after? mark (c :: cs) with
    | some found =>
      rw [hstart] at h
      obtain ⟨rfl, rfl⟩ := by simpa using h
      rw [after?_eq_some_iff] at hstart
      rw [after?_eq_some_iff.2 (by rw [← List.cons_append, hstart, List.append_assoc])]
    | none =>
      rw [hstart] at h
      obtain ⟨⟨b, a⟩, hb, he⟩ := Option.map_eq_some_iff.1 h
      obtain ⟨rfl, rfl⟩ := by simpa using he
      -- The mark fits into the text behind the first character, so it cannot reach beyond it.
      have hfits : mark.length ≤ (c :: cs).length := by
        rw [eq_of_breakAt? hb]
        simp only [List.length_cons, List.length_append]
        omega
      rw [after?_eq_none_iff] at hstart
      rw [← List.cons_append, after?_eq_none_iff.2, ih hb]
      · rfl
      · exact fun hprefix =>
          hstart (List.prefix_of_prefix_length_le hprefix (List.prefix_append _ rest) hfits)

theorem breakAt?_eq_none_iff (hmark : mark ≠ []) : breakAt? mark cs = none ↔ ¬ mark <:+: cs := by
  induction cs with
  | nil => simp [breakAt?, hmark]
  | cons c cs ih =>
    rw [breakAt?, List.infix_cons_iff, not_or, ← after?_eq_none_iff, ← ih]
    cases after? mark (c :: cs) <;> simp

theorem breakAt?_of_not_mem (h : c ∉ cs) (rest : List Char) :
    breakAt? [c] (cs ++ c :: rest) = some (cs, rest) := by
  induction cs with
  | nil => simp [breakAt?, after?]
  | cons c' cs ih =>
    rw [List.mem_cons, not_or] at h
    rw [List.cons_append, breakAt?, ih h.2]
    simp [after?, h.1]

theorem eq_of_breakAtLast? {before after : List Char}
    (h : breakAtLast? mark cs = some (before, after)) : cs = before ++ (mark ++ after) := by
  induction cs generalizing before with
  | nil =>
    simp only [breakAtLast?] at h
    split at h <;> simp_all
  | cons c cs ih =>
    rw [breakAtLast?] at h
    split at h
    · rename_i b a hlater
      obtain ⟨rfl, rfl⟩ := by simpa using h
      rw [ih hlater, List.cons_append]
    · obtain ⟨a, ha, he⟩ := Option.map_eq_some_iff.1 h
      obtain ⟨rfl, rfl⟩ := by simpa using he
      rw [List.nil_append]
      exact after?_eq_some_iff.1 ha

theorem breakAtLast?_eq_none (h : c ∉ cs) : breakAtLast? [c] cs = none := by
  induction cs with
  | nil => rfl
  | cons c' cs ih =>
    rw [List.mem_cons, not_or] at h
    rw [breakAtLast?, ih h.2]
    simp [after?, h.1]

theorem breakAtLast?_of_not_mem (before : List Char) (h : c ∉ cs) :
    breakAtLast? [c] (before ++ c :: cs) = some (before, cs) := by
  induction before with
  | nil => simp [breakAtLast?, breakAtLast?_eq_none h, after?]
  | cons c' before ih => rw [List.cons_append, breakAtLast?, ih]

theorem singleton_ne_nil (d : Char) : [d] ≠ [] := List.cons_ne_nil d []

theorem replaceAll_eq (hm : mark ≠ []) (new cs : List Char) :
    replaceAll mark hm new cs =
      match breakAt? mark cs with
      | none => cs
      | some (before, after) => before ++ new ++ replaceAll mark hm new after := by
  unfold replaceAll
  rw [splitAt]
  split
  · rename_i h
    simp [h, List.intercalate]
  · rename_i before after h
    have hne : splitAt mark hm after ≠ [] := by
      rw [splitAt]
      split <;> simp
    obtain ⟨piece, pieces, hpieces⟩ := List.exists_cons_of_ne_nil hne
    simp [h, hpieces, List.intercalate]

theorem replaceAll_char (d : Char) (new cs : List Char) :
    replaceAll [d] (singleton_ne_nil d) new cs =
      cs.flatMap fun c => if c = d then new else [c] := by
  induction cs with
  | nil => rw [replaceAll_eq]; rfl
  | cons c cs ih =>
    rw [List.flatMap_cons, ← ih]
    by_cases hc : c = d
    · rw [replaceAll_eq]
      simp [breakAt?, after?, hc]
    · rw [replaceAll_eq _ _ (c :: cs), replaceAll_eq _ _ cs, breakAt?]
      simp only [after?, Ne.symm hc, if_false, hc]
      cases breakAt? [d] cs <;> simp

end Settings.Text
