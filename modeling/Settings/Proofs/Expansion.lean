import Mathlib.Data.List.Nodup
import Mathlib.Data.List.TakeWhile
import Mathlib.Logic.Relation
import Settings.Proofs.Outcomes
import Settings.Reference

/-! # Expanding references

A variable refers to the names in the text it stands for. An expansion follows
references from the names of a text on. If all names met can be looked up, it is
refused exactly when one of them leads back to itself, and otherwise every
reference is replaced by what its variable expands to. The bound on open variables
plays no part as soon as there are no more names than it allows.
-/

namespace Settings.Reference

open Relation

variable {lookup : String → Except Fault (Option String)} {first text name other found : String}
  {opened met : List String} {depth depth' : ℕ} {ps rest : List Piece}
  {cs out out' inner : List Char}

structure IsName (cs : List Char) : Prop where
  ne_nil : cs ≠ []
  unmarked : ∀ c ∈ cs, isMark c = false

theorem leading?_eq_some_iff {rest : List Char} :
    leading? out = some (cs, rest) ↔ IsName cs ∧ out = (Piece.variable cs).written ++ rest := by
  constructor
  · intro h
    unfold leading? at h
    split at h
    · rename_i inner
      split at h
      · rename_i c body rest htake hdrop
        cases h
        have hsplit := List.takeWhile_append_dropWhile (p := fun c => !isMark c) (l := inner)
        rw [htake, hdrop] at hsplit
        refine ⟨⟨List.cons_ne_nil _ _, fun d hd => ?_⟩, by simp [Piece.written, ← hsplit]⟩
        rw [← htake] at hd
        simpa using List.mem_takeWhile_imp hd
      · cases h
    · cases h
  · rintro ⟨⟨hne, hunmarked⟩, rfl⟩
    have hall : ∀ c ∈ cs, (!isMark c) = true := fun c hc => by simp [hunmarked c hc]
    have htake : (cs ++ '\x7d' :: rest).takeWhile (!isMark ·) = cs := by
      rw [List.takeWhile_append_of_pos hall, List.takeWhile_cons_of_neg (by decide),
        List.append_nil]
    have hdrop : (cs ++ '\x7d' :: rest).dropWhile (!isMark ·) = '\x7d' :: rest := by
      rw [List.dropWhile_append_of_pos hall, List.dropWhile_cons_of_neg (by decide)]
    have htext : (Piece.variable cs).written ++ rest = '$' :: '\x7b' :: (cs ++ '\x7d' :: rest) := by
      simp [Piece.written]
    rw [htext, leading?, htake, hdrop]
    cases cs with
    | nil => exact absurd rfl hne
    | cons c body => rfl

theorem flatMap_written_pieces (cs : List Char) : (pieces cs).flatMap Piece.written = cs := by
  fun_induction pieces cs with
  | case1 => rfl
  | case2 c tail name after hfound ih =>
    rw [List.flatMap_cons, ih]
    exact (leading?_eq_some_iff.1 hfound).2.symm
  | case3 c tail hfound ih => rw [List.flatMap_cons, ih]; rfl

theorem mem_names_iff : name ∈ names text ↔ Piece.variable name.toList ∈ pieces text.toList := by
  simp only [names, List.mem_filterMap]
  constructor
  · rintro ⟨piece, hpiece, h⟩
    rcases piece with c | cs
    · cases h
    · cases h
      simpa using hpiece
  · exact fun h => ⟨_, h, by simp⟩

theorem ofList_mem_names (h : Piece.variable cs ∈ pieces text.toList) :
    String.ofList cs ∈ names text :=
  mem_names_iff.2 (by simpa using h)

def Refers (lookup : String → Except Fault (Option String)) (name other : String) : Prop :=
  ∃ found, lookup name = .ok (some found) ∧ other ∈ names found

inductive Reaches (lookup : String → Except Fault (Option String)) (first : String) :
    String → Prop
  | direct {name : String} : name ∈ names first → Reaches lookup first name
  | onward {name other : String} :
    Reaches lookup first name → Refers lookup name other → Reaches lookup first other

/-- Some name met from a text leads back to itself. -/
def Loops (lookup : String → Except Fault (Option String)) (first : String) : Prop :=
  ∃ name, Reaches lookup first name ∧ TransGen (Refers lookup) name name

/-- What the pieces of a text come to when every variable with a text is
replaced by the expansion of that text, and every other one is kept. -/
inductive Expands (lookup : String → Except Fault (Option String)) :
    List Piece → List Char → Prop
  | nil : Expands lookup [] []
  | char {c : Char} {rest : List Piece} {out : List Char} :
    Expands lookup rest out → Expands lookup (.char c :: rest) (c :: out)
  | kept {cs : List Char} {rest : List Piece} {out : List Char} :
    lookup (String.ofList cs) = .ok none → Expands lookup rest out →
      Expands lookup (.variable cs :: rest) ((Piece.variable cs).written ++ out)
  | replaced {cs : List Char} {found : String} {rest : List Piece} {inner out : List Char} :
    lookup (String.ofList cs) = .ok (some found) → Expands lookup (pieces found.toList) inner →
      Expands lookup rest out → Expands lookup (.variable cs :: rest) (inner ++ out)

theorem Expands.unique (h : Expands lookup ps out) (h' : Expands lookup ps out') : out = out' := by
  induction h generalizing out' with
  | nil =>
    cases h'
    rfl
  | char _ ih =>
    cases h' with
    | char h' => rw [ih h']
  | kept hnone _ ih =>
    cases h' with
    | kept _ h' => rw [ih h']
    | replaced hsome => cases hnone.symm.trans hsome
  | replaced hsome _ _ ihinner ih =>
    cases h' with
    | kept hnone => cases hnone.symm.trans hsome
    | replaced hsome' hinner h' =>
      cases hsome.symm.trans hsome'
      rw [ihinner hinner, ih h']

theorem Expands.append (h : Expands lookup ps out) (h' : Expands lookup rest out') :
    Expands lookup (ps ++ rest) (out ++ out') := by
  induction h with
  | nil => exact h'
  | char _ ih => exact .char ih
  | kept hnone _ ih => simpa using Expands.kept hnone ih
  | replaced hsome hinner _ _ ih => simpa using Expands.replaced hsome hinner ih

/-- References followed to their end lead back nowhere. -/
theorem Expands.acc (h : Expands lookup ps out) :
    ∀ cs, Piece.variable cs ∈ ps → Acc (flip (Refers lookup)) (String.ofList cs) := by
  induction h with
  | nil => exact fun _ h => absurd h List.not_mem_nil
  | char _ ih =>
    intro cs hcs
    exact ih cs (by simpa using hcs)
  | kept hnone _ ih =>
    rintro cs (_ | ⟨_, hcs⟩)
    · refine .intro _ fun other ⟨found, hsome, _⟩ => ?_
      cases hnone.symm.trans hsome
    · exact ih cs hcs
  | replaced hsome _ _ ihinner ih =>
    rintro cs (_ | ⟨_, hcs⟩)
    · refine .intro _ fun other ⟨found, hsome', hother⟩ => ?_
      cases hsome.symm.trans hsome'
      simpa using ihinner other.toList (mem_names_iff.1 hother)
    · exact ih cs hcs

theorem not_transGen_of_acc (h : Acc (flip (Refers lookup)) name) :
    ¬ TransGen (Refers lookup) name name := by
  intro hloop
  have hself : TransGen (flip (Refers lookup)) name name := transGen_swap.2 hloop
  have hacc := h.transGen
  induction hacc with
  | intro name _ ih => exact ih name hself h hloop hself

theorem Expands.not_loops (h : Expands lookup (pieces first.toList) out) :
    ¬ Loops lookup first := by
  rintro ⟨name, hname, hloop⟩
  suffices hacc : Acc (flip (Refers lookup)) name from not_transGen_of_acc hacc hloop
  clear hloop
  induction hname with
  | @direct name hname => simpa using h.acc name.toList (mem_names_iff.1 hname)
  | onward _ hrefers ih => exact ih.inv hrefers

/-- An expansion that began with `first` has come to a text through the
variables in `opened`: all of them lead on to the names of the text. -/
structure Chain (lookup : String → Except Fault (Option String)) (first : String)
    (opened : List String) (text : String) : Prop where
  nodup : opened.Nodup
  reaches_opened : ∀ name ∈ opened, Reaches lookup first name
  reaches : ∀ name ∈ names text, Reaches lookup first name
  leads : ∀ name ∈ opened, ∀ other ∈ names text, TransGen (Refers lookup) name other

theorem Chain.start (lookup : String → Except Fault (Option String)) (first : String) :
    Chain lookup first [] first where
  nodup := .nil
  reaches_opened _ h := absurd h List.not_mem_nil
  reaches _ h := .direct h
  leads _ h := absurd h List.not_mem_nil

theorem Chain.open (h : Chain lookup first opened text) (hname : name ∈ names text)
    (hnew : name ∉ opened) (hfound : lookup name = .ok (some found)) :
    Chain lookup first (name :: opened) found where
  nodup := h.nodup.cons hnew
  reaches_opened := List.forall_mem_cons.2 ⟨h.reaches name hname, h.reaches_opened⟩
  reaches _ hother := (h.reaches name hname).onward ⟨found, hfound, hother⟩
  leads := by
    have hrefers (other : String) (hother : other ∈ names found) : Refers lookup name other :=
      ⟨found, hfound, hother⟩
    refine List.forall_mem_cons.2 ⟨fun other hother => .single (hrefers other hother), ?_⟩
    exact fun outer houter other hother =>
      (h.leads outer houter name hname).tail (hrefers other hother)

/-- A variable can be opened only while fewer are open than there are names. -/
theorem Chain.length_lt (h : Chain lookup first opened text)
    (hmet : ∀ name, Reaches lookup first name → name ∈ met)
    (hname : name ∈ names text) (hnew : name ∉ opened) : opened.length < met.length := by
  have hsubset : name :: opened ⊆ met := by
    rintro other (_ | ⟨_, hother⟩)
    · exact hmet name (h.reaches name hname)
    · exact hmet other (h.reaches_opened other hother)
  exact (h.nodup.cons hnew).length_le_of_subset hsubset

def joined (expandPiece : Piece → Except Fault (List Char)) : List Piece → Except Fault (List Char)
  | [] => .ok []
  | piece :: rest => do return (← expandPiece piece) ++ (← joined expandPiece rest)

/-- What an expansion makes of one piece of a text, the text found for a
variable being expanded by `next`. -/
def expandPiece (lookup : String → Except Fault (Option String)) (opened : List String)
    (text : String) (next : String → String → Except Fault String) :
    Piece → Except Fault (List Char)
  | .char c => .ok [c]
  | .variable cs =>
    if String.ofList cs ∈ opened then .error (.referenceLoop text (String.ofList cs))
    else do
      match ← lookup (String.ofList cs) with
      | none => .ok (Piece.variable cs).written
      | some found => String.toList <$> next (String.ofList cs) found

def deeper (lookup : String → Except Fault (Option String)) (opened : List String)
    (text : String) : ℕ → String → String → Except Fault String
  | 0, name, _ => .error (.referenceLoop text name)
  | depth + 1, name, found => expand lookup depth (name :: opened) found

theorem joined_eq (f : Piece → Except Fault (List Char)) (ps : List Piece) :
    joined f ps = List.flatten <$> ps.mapM f := by
  induction ps with
  | nil => rfl
  | cons piece rest ih =>
    rw [joined, ih, List.mapM_cons]
    cases f piece with
    | error e => rfl
    | ok part => cases rest.mapM f <;> rfl

theorem expand_eq (lookup : String → Except Fault (Option String)) (depth : ℕ)
    (opened : List String) (text : String) :
    expand lookup depth opened text = String.ofList <$>
      joined (expandPiece lookup opened text (deeper lookup opened text depth))
        (pieces text.toList) := by
  rw [expand.eq_def, joined_eq, Functor.map_map, ← bind_pure_comp]
  refine congrArg (fun f => List.mapM f _ >>= _) (funext fun piece => ?_)
  rcases piece with c | cs
  · rfl
  · simp only [expandPiece, List.contains_iff_mem]
    split
    · rfl
    · cases depth <;> rfl

theorem joined_congr {next next' : String → String → Except Fault String}
    (hps : ∀ piece ∈ ps, piece ∈ pieces text.toList)
    (h : ∀ name ∈ names text, name ∉ opened → ∀ found, lookup name = .ok (some found) →
      next name found = next' name found) :
    joined (expandPiece lookup opened text next) ps =
      joined (expandPiece lookup opened text next') ps := by
  induction ps with
  | nil => rfl
  | cons piece rest ih =>
    have hpiece : expandPiece lookup opened text next piece =
        expandPiece lookup opened text next' piece := by
      rcases piece with c | cs
      · rfl
      · simp only [expandPiece]
        split
        · rfl
        · rename_i hnew
          cases hlookup : lookup (String.ofList cs) with
          | error e => rfl
          | ok found =>
            cases found with
            | none => rfl
            | some found =>
              have hname := ofList_mem_names (hps _ List.mem_cons_self)
              exact congrArg (String.toList <$> ·) (h _ hname hnew found hlookup)
    rw [joined, joined, hpiece, ih fun p hp => hps p (.tail piece hp)]

/-- The bound on open variables plays no part when all names met may be open. -/
theorem expand_congr_depth (h : Chain lookup first opened text)
    (hmet : ∀ name, Reaches lookup first name → name ∈ met)
    (hdepth : met.length ≤ depth + opened.length) (hdepth' : met.length ≤ depth' + opened.length) :
    expand lookup depth opened text = expand lookup depth' opened text := by
  induction depth generalizing depth' opened text with
  | zero =>
    rw [expand_eq, expand_eq, joined_congr (fun _ => id) fun name hname hnew _ _ => ?_]
    have hlt := h.length_lt hmet hname hnew
    omega
  | succ depth ih =>
    rw [expand_eq, expand_eq, joined_congr (fun _ => id) fun name hname hnew found hfound => ?_]
    have hlt := h.length_lt hmet hname hnew
    cases depth' with
    | zero => omega
    | succ depth' =>
      refine ih (h.open hname hnew hfound) ?_ ?_ <;>
      · rw [List.length_cons]
        omega

theorem expand_of_unresolved (depth : ℕ) (h : ∀ name ∈ names text, lookup name = .ok none) :
    expand lookup depth [] text = .ok text := by
  have hkept (next : String → String → Except Fault String) (ps : List Piece)
      (hps : ∀ piece ∈ ps, piece ∈ pieces text.toList) :
      joined (expandPiece lookup [] text next) ps = .ok (ps.flatMap Piece.written) := by
    induction ps with
    | nil => rfl
    | cons piece rest ih =>
      rw [joined, ih fun p hp => hps p (.tail piece hp)]
      rcases piece with c | cs
      · rfl
      · rw [expandPiece, if_neg List.not_mem_nil,
          h _ (ofList_mem_names (hps _ List.mem_cons_self))]
        rfl
  rw [expand_eq, hkept _ _ fun _ => id, flatMap_written_pieces]
  simp [Functor.map, Except.map]

def Settles (lookup : String → Except Fault (Option String)) (first : String) (ps : List Piece)
    (result : Except Fault (List Char)) : Prop :=
  (∃ out, result = .ok out ∧ Expands lookup ps out) ∨
    (∃ within name, result = .error (.referenceLoop within name)) ∧ Loops lookup first

theorem Settles.append {result result' : Except Fault (List Char)}
    (h : Settles lookup first ps result) (h' : Settles lookup first rest result') :
    Settles lookup first (ps ++ rest) (do return (← result) ++ (← result')) := by
  rcases h with ⟨out, rfl, hout⟩ | ⟨⟨within, name, rfl⟩, hloops⟩
  · rcases h' with ⟨out', rfl, hout'⟩ | ⟨⟨within, name, rfl⟩, hloops⟩
    · exact .inl ⟨_, rfl, hout.append hout'⟩
    · exact .inr ⟨⟨within, name, rfl⟩, hloops⟩
  · exact .inr ⟨⟨within, name, rfl⟩, hloops⟩

/-- The pieces are expanded, or a name is met that leads back to itself or cannot be looked up. -/
def Concludes (lookup : String → Except Fault (Option String)) (first : String) (ps : List Piece)
    (result : Except Fault (List Char)) : Prop :=
  Settles lookup first ps result ∨
    ∃ name fault, result = .error fault ∧ Reaches lookup first name ∧ lookup name = .error fault

theorem Concludes.append {result result' : Except Fault (List Char)}
    (h : Concludes lookup first ps result) (h' : Concludes lookup first rest result') :
    Concludes lookup first (ps ++ rest) (do return (← result) ++ (← result')) := by
  rcases h with hsettles | ⟨name, fault, rfl, hfault⟩
  · rcases h' with hsettles' | ⟨name, fault, rfl, hfault⟩
    · exact .inl (hsettles.append hsettles')
    · rcases hsettles with ⟨out, rfl, -⟩ | ⟨⟨within, name, rfl⟩, hloops⟩
      · exact .inr ⟨name, fault, rfl, hfault⟩
      · exact .inl (.inr ⟨⟨within, name, rfl⟩, hloops⟩)
  · exact .inr ⟨name, fault, rfl, hfault⟩

theorem joined_concludes {next : String → String → Except Fault String}
    (h : Chain lookup first opened text)
    (hnext : ∀ name ∈ names text, name ∉ opened → ∀ found, lookup name = .ok (some found) →
      Concludes lookup first (pieces found.toList) (String.toList <$> next name found))
    (hps : ∀ piece ∈ ps, piece ∈ pieces text.toList) :
    Concludes lookup first ps (joined (expandPiece lookup opened text next) ps) := by
  induction ps with
  | nil => exact .inl (.inl ⟨[], rfl, .nil⟩)
  | cons piece rest ih =>
    suffices hpiece : Concludes lookup first [piece]
        (expandPiece lookup opened text next piece) from
      hpiece.append (ih fun p hp => hps p (.tail piece hp))
    rcases piece with c | cs
    · exact .inl (.inl ⟨[c], rfl, .char .nil⟩)
    · have hname := ofList_mem_names (hps _ List.mem_cons_self)
      rw [expandPiece]
      split
      · rename_i hopen
        exact .inl (.inr ⟨⟨text, _, rfl⟩, _, h.reaches _ hname, h.leads _ hopen _ hname⟩)
      · rename_i hnew
        cases hlookup : lookup (String.ofList cs) with
        | error fault => exact .inr ⟨_, fault, rfl, h.reaches _ hname, hlookup⟩
        | ok found =>
          cases found with
          | none => exact .inl (.inl ⟨_, rfl, by simpa using Expands.kept hlookup .nil⟩)
          | some found =>
            rcases hnext _ hname hnew found hlookup with
              (⟨inner, heq, hinner⟩ | hloops) | hfault
            · exact .inl (.inl ⟨inner, heq, by simpa using Expands.replaced hlookup hinner .nil⟩)
            · exact .inl (.inr hloops)
            · exact .inr hfault

/-- An expansion that may open all names met comes to its end, meets a loop, or meets a name
that cannot be looked up. -/
theorem expand_concludes (h : Chain lookup first opened text)
    (hmet : ∀ name, Reaches lookup first name → name ∈ met)
    (hdepth : met.length ≤ depth + opened.length) :
    Concludes lookup first (pieces text.toList)
      (String.toList <$> expand lookup depth opened text) := by
  have hround (result : Except Fault (List Char)) :
      String.toList <$> String.ofList <$> result = result := by
    cases result <;> simp [Functor.map, Except.map]
  induction depth generalizing opened text with
  | zero =>
    rw [expand_eq, hround]
    refine joined_concludes h (fun name hname hnew _ _ => ?_) fun _ => id
    have hlt := h.length_lt hmet hname hnew
    omega
  | succ depth ih =>
    rw [expand_eq, hround]
    refine joined_concludes h (fun name hname hnew found hfound => ?_) fun _ => id
    refine ih (h.open hname hnew hfound) ?_
    rw [List.length_cons]
    omega

theorem Concludes.settles {result : Except Fault (List Char)}
    (h : Concludes lookup first ps result)
    (hlookup : ∀ name, Reaches lookup first name → ∃ found, lookup name = .ok found) :
    Settles lookup first ps result := by
  rcases h with hsettles | ⟨name, fault, -, hname, hfault⟩
  · exact hsettles
  · obtain ⟨found, hfound⟩ := hlookup name hname
    cases hfault.symm.trans hfound

end Settings.Reference
