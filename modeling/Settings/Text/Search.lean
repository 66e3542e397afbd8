/-! # Searching a text for a mark

First and last occurrences of a mark, and the cuts made at every occurrence.
A mark that is cut at is non-empty, so each cut leaves a shorter rest.
-/

namespace Settings.Text

/-- The rest of a text that begins with the mark. -/
def after? : List Char → List Char → Option (List Char)
  | [], cs => some cs
  | m :: ms, c :: cs => if m = c then after? ms cs else none
  | _ :: _, [] => none

theorem after?_eq_some_iff {mark cs rest : List Char} :
    after? mark cs = some rest ↔ cs = mark ++ rest := by
  fun_induction after? mark cs with
  | case1 cs => simp
  | case2 m ms cs ih => simp [ih]
  | case3 m ms c cs h => simp [Ne.symm h]
  | case4 m ms => simp

/-- What stands before and after the first occurrence of a mark. -/
def breakAt? (mark : List Char) : List Char → Option (List Char × List Char)
  | [] => if mark.isEmpty then some ([], []) else none
  | c :: rest =>
    match after? mark (c :: rest) with
    | some after => some ([], after)
    | none => (breakAt? mark rest).map fun (before, after) => (c :: before, after)

def breakAtLast? (mark : List Char) : List Char → Option (List Char × List Char)
  | [] => if mark.isEmpty then some ([], []) else none
  | c :: rest =>
    match breakAtLast? mark rest with
    | some (before, after) => some (c :: before, after)
    | none => (after? mark (c :: rest)).map fun after => ([], after)

theorem eq_of_breakAt? {mark cs before after : List Char}
    (h : breakAt? mark cs = some (before, after)) : cs = before ++ mark ++ after := by
  induction cs generalizing before with
  | nil =>
    simp only [breakAt?] at h
    split at h <;> simp_all
  | cons c rest ih =>
    rw [breakAt?] at h
    split at h
    · rename_i found hf
      obtain ⟨rfl, rfl⟩ := by simpa using h
      simpa using after?_eq_some_iff.1 hf
    · obtain ⟨⟨b, a⟩, hb, he⟩ := Option.map_eq_some_iff.1 h
      obtain ⟨rfl, rfl⟩ := by simpa using he
      simp [ih hb]

/-- The pieces of a text between the occurrences of a non-empty mark. -/
def splitAt (mark : List Char) (hm : mark ≠ []) (cs : List Char) : List (List Char) :=
  match _found : breakAt? mark cs with
  | none => [cs]
  | some (before, after) => before :: splitAt mark hm after
termination_by cs.length
decreasing_by
  have := congrArg List.length (eq_of_breakAt? _found)
  have := List.length_pos_iff.2 hm
  simp only [List.length_append] at *
  omega

def splitAtChar (c : Char) (cs : List Char) : List (List Char) :=
  splitAt [c] (List.cons_ne_nil c []) cs

def replaceAll (mark : List Char) (hm : mark ≠ []) (new cs : List Char) : List Char :=
  List.intercalate new (splitAt mark hm cs)

end Settings.Text
