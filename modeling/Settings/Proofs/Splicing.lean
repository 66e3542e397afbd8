import Settings.Proofs.Variables

/-! # Splicing expanded texts

The expansions of variables are put into a text without being read again. When all texts
met are clean, having marks in their references only, no reference forms where one text
meets another: the result is clean, the references left in it have no text, and expanding
it once more changes nothing.
-/

namespace Settings

namespace Reference

variable {lookup : String → Except Fault (Option String)} {first text : String}
  {ps : List Piece} {cs out rest : List Char} {c : Char}

theorem pieces_of_leading? (h : leading? out = some (cs, rest)) :
    pieces out = .variable cs :: pieces rest := by
  cases out with
  | nil => cases h
  | cons c out =>
    rw [pieces]
    split
    · rename_i heq
      cases heq.symm.trans h
      rfl
    · rename_i heq
      cases heq.symm.trans h

theorem pieces_cons_of_not_mark (h : isMark c = false) :
    pieces (c :: rest) = .char c :: pieces rest := by
  rw [pieces]
  split
  · rename_i heq
    have htext := (leading?_eq_some_iff.1 heq).2
    obtain ⟨rfl, -⟩ := List.cons.inj htext
    cases h
  · rfl

def Piece.IsClean : Piece → Prop
  | .char c => isMark c = false
  | .variable cs => IsName cs

theorem pieces_flatMap_written (h : ∀ piece ∈ ps, piece.IsClean) :
    pieces (ps.flatMap Piece.written) = ps := by
  induction ps with
  | nil => rw [List.flatMap_nil, pieces]
  | cons piece rest ih =>
    rw [List.forall_mem_cons] at h
    rw [List.flatMap_cons]
    rcases piece with c | cs
    · exact (pieces_cons_of_not_mark h.1).trans (congrArg _ (ih h.2))
    · rw [pieces_of_leading? (leading?_eq_some_iff.2 ⟨h.1, rfl⟩), ih h.2]

theorem isName_of_mem_pieces (h : .variable cs ∈ pieces out) : IsName cs := by
  fun_induction pieces out with
  | case1 => cases h
  | case2 c tail name after hfound ih =>
    rcases List.mem_cons.1 h with heq | h
    · cases heq
      exact (leading?_eq_some_iff.1 hfound).1
    · exact ih h
  | case3 c tail hnone ih =>
    rcases List.mem_cons.1 h with heq | h
    · cases heq
    · exact ih h

/-- The characters of a text that do not belong to a reference. -/
def loose (text : String) : List Char :=
  (pieces text.toList).filterMap fun
    | .char c => some c
    | .variable _ => none

theorem mem_loose_iff : c ∈ loose text ↔ .char c ∈ pieces text.toList := by
  simp only [loose, List.mem_filterMap]
  constructor
  · rintro ⟨d | cs, hpiece, h⟩
    · cases h
      exact hpiece
    · cases h
  · exact fun h => ⟨_, h, rfl⟩

def Clean (text : String) : Prop := ∀ c ∈ loose text, isMark c = false

instance : Decidable (Clean text) := List.decidableBAll _ (loose text)

theorem Clean.isClean (h : Clean text) : ∀ piece ∈ pieces text.toList, piece.IsClean := by
  rintro (c | cs) hpiece
  · exact h c (mem_loose_iff.2 hpiece)
  · exact isName_of_mem_pieces hpiece

theorem clean_iff : Clean text ↔
    ∃ ps : List Piece, (∀ piece ∈ ps, piece.IsClean) ∧ text.toList = ps.flatMap Piece.written := by
  constructor
  · exact fun h => ⟨_, h.isClean, (flatMap_written_pieces _).symm⟩
  · rintro ⟨ps, hps, htext⟩ c hc
    rw [mem_loose_iff, htext, pieces_flatMap_written hps] at hc
    exact hps _ hc

/-- What clean pieces expand to is written with clean pieces again, and the references among
these have no text. -/
theorem Expands.exists_pieces (h : Expands lookup ps out) (hps : ∀ piece ∈ ps, piece.IsClean)
    (hreaches : ∀ cs, .variable cs ∈ ps → Reaches lookup first (String.ofList cs))
    (hclean : ∀ name found, Reaches lookup first name → lookup name = .ok (some found) →
      Clean found) :
    ∃ kept : List Piece, (∀ piece ∈ kept, piece.IsClean) ∧ out = kept.flatMap Piece.written ∧
      ∀ cs, .variable cs ∈ kept → lookup (String.ofList cs) = .ok none := by
  induction h with
  | nil => exact ⟨[], by simp, rfl, by simp⟩
  | @char c rest out _ ih =>
    rw [List.forall_mem_cons] at hps
    obtain ⟨kept, hkept, rfl, hnone⟩ := ih hps.2 fun cs hcs => hreaches cs (.tail _ hcs)
    refine ⟨.char c :: kept, List.forall_mem_cons.2 ⟨hps.1, hkept⟩, rfl, fun cs hcs => ?_⟩
    exact hnone cs (by simpa using hcs)
  | @kept cs rest out hlookup _ ih =>
    rw [List.forall_mem_cons] at hps
    obtain ⟨kept, hkept, rfl, hnone⟩ := ih hps.2 fun cs hcs => hreaches cs (.tail _ hcs)
    refine ⟨.variable cs :: kept, List.forall_mem_cons.2 ⟨hps.1, hkept⟩, rfl, fun cs' hcs' => ?_⟩
    rcases List.mem_cons.1 hcs' with heq | hcs'
    · cases heq
      exact hlookup
    · exact hnone cs' hcs'
  | @replaced cs found rest inner out hlookup _ _ ihinner ih =>
    rw [List.forall_mem_cons] at hps
    have hname : Reaches lookup first (String.ofList cs) := hreaches cs List.mem_cons_self
    obtain ⟨kept, hkept, rfl, hnone⟩ := ih hps.2 fun cs hcs => hreaches cs (.tail _ hcs)
    obtain ⟨spliced, hspliced, rfl, hnone'⟩ := ihinner (hclean _ found hname hlookup).isClean
      fun cs' hcs' => hname.onward ⟨found, hlookup, ofList_mem_names hcs'⟩
    refine ⟨spliced ++ kept, List.forall_mem_append.2 ⟨hspliced, hkept⟩, by simp,
      fun cs' hcs' => ?_⟩
    rcases List.mem_append.1 hcs' with hcs' | hcs'
    · exact hnone' cs' hcs'
    · exact hnone cs' hcs'

theorem Expands.clean {result : String} (h : Expands lookup (pieces text.toList) result.toList)
    (htext : Clean text)
    (hclean : ∀ name found, Reaches lookup text name → lookup name = .ok (some found) →
      Clean found) :
    Clean result ∧ ∀ name ∈ names result, lookup name = .ok none := by
  obtain ⟨kept, hkept, hresult, hnone⟩ := h.exists_pieces htext.isClean
    (fun cs hcs => .direct (ofList_mem_names hcs)) hclean
  refine ⟨clean_iff.2 ⟨kept, hkept, hresult⟩, fun name hname => ?_⟩
  rw [mem_names_iff, hresult, pieces_flatMap_written hkept] at hname
  simpa using hnone _ hname

end Reference

namespace World

open Reference

variable {w : World} {c : ConfigurationId} {text result : String}

/-- When a clean text was expanded through clean texts, the result is clean, the references left
in it have no text, and it expands to itself. -/
theorem expandFrom_clean (htext : Clean text)
    (hclean : ∀ name found, Reaches (w.variableText c) text name →
      w.variableText c name = .ok (some found) → Clean found)
    (hresult : w.expandFrom c text = .ok result) :
    Clean result ∧ (∀ name ∈ names result, w.variableText c name = .ok none) ∧
      w.expandFrom c result = .ok result ∧
      ∀ d, w.outermost d = c → w.interpolate d (.str text) = .ok (.str result) ∧
        w.interpolate d (.str result) = .ok (.str result) := by
  have hconcludes := expandFrom_concludes w c text
  rw [hresult] at hconcludes
  rcases hconcludes with (⟨out, heq, hexpands⟩ | ⟨⟨_, _, heq⟩, -⟩) | ⟨_, _, heq, -⟩
  · cases heq
    obtain ⟨hclean, hnone⟩ := hexpands.clean htext hclean
    have hagain : w.expandFrom c result = .ok result := expand_of_unresolved _ hnone
    refine ⟨hclean, hnone, hagain, ?_⟩
    rintro d rfl
    simp only [interpolate, expandText, hresult, hagain]
    exact ⟨rfl, rfl⟩
  · cases heq
  · cases heq

/-- One variable stands for a text with another one and a reference to nothing. -/
theorem expandFrom_clean_spliced :
    let forest := (((Forest.empty.create none .null false).2.createLinked
      ⟨0⟩ "a" (.str "<$\x7bb\x7d>$\x7bx\x7d") false).2.createLinked
      ⟨0⟩ "b" (.str "$\x7benv:HOME\x7d") false).2
    let w := { World.fresh [("HOME", "h")] with forest, configurations := #[.rootedAt ⟨0⟩ none] }
    let c : ConfigurationId := ⟨0⟩
    let text := "$\x7ba\x7d$\x7by\x7d$\x7ba\x7d"
    let result := "<h>$\x7bx\x7d$\x7by\x7d<h>$\x7bx\x7d"
    (Clean text ∧ (∀ name found, Reaches (w.variableText c) text name →
        w.variableText c name = .ok (some found) → Clean found) ∧
      w.expandFrom c text = .ok result) ∧
    Clean result ∧ names result = ["x", "y", "x"] ∧ w.expandFrom c result = .ok result := by
  intro forest w c text result
  have htext : Clean text := by decide +kernel
  have hclean : ∀ name found, Reaches (w.variableText c) text name →
      w.variableText c name = .ok (some found) → Clean found := by
    have hall : ∀ found ∈ w.variableTexts, Clean found := by decide +kernel
    exact fun name found _ hfound => hall found (mem_variableTexts hfound)
  have hresult : w.expandFrom c text = .ok result := by decide +kernel
  obtain ⟨hspliced, -, hagain, -⟩ := expandFrom_clean htext hclean hresult
  exact ⟨⟨htext, hclean, hresult⟩, hspliced, by decide +kernel, hagain⟩

end World

end Settings
