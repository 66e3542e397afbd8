import Settings.Fault

/-! # Variable references

A text may refer to variables as `${name}`. Expanding it replaces every
reference by the expanded text of its variable and keeps the references
without one. A chain of expansions that returns to one of its variables is
refused; the same variable on several chains is not.
-/

namespace Settings.Reference

/-- A text is a sequence of characters and references. -/
inductive Piece
  | char (c : Char)
  | variable (name : List Char)
deriving DecidableEq

/-- Characters that no variable name contains. -/
def isMark (c : Char) : Bool := c = '$' || c = '\x7b' || c = '\x7d'

/-- The name of the reference that a text begins with, and the rest after it. -/
def leading? : List Char → Option (List Char × List Char)
  | '$' :: '\x7b' :: inner =>
    match inner.takeWhile (!isMark ·), inner.dropWhile (!isMark ·) with
    | c :: name, '\x7d' :: after => some (c :: name, after)
    | _, _ => none
  | _ => none

theorem length_of_leading? {cs name after : List Char} (h : leading? cs = some (name, after)) :
    after.length < cs.length := by
  unfold leading? at h
  split at h
  · rename_i inner
    split at h
    · rename_i _ _ rest _ hdrop
      have hlen := congrArg List.length
        (List.takeWhile_append_dropWhile (p := fun c => !isMark c) (l := inner))
      rw [hdrop] at hlen
      simp only [Option.some.injEq, Prod.mk.injEq] at h
      obtain ⟨-, rfl⟩ := h
      simp only [List.length_append, List.length_cons] at hlen ⊢
      omega
    · simp at h
  · simp at h

/-- The pieces of a text, references being found from left to right. -/
def pieces (cs : List Char) : List Piece :=
  match cs with
  | [] => []
  | c :: rest =>
    match _found : leading? (c :: rest) with
    | some (name, after) => .variable name :: pieces after
    | none => .char c :: pieces rest
termination_by cs.length
decreasing_by
  · exact length_of_leading? _found
  · simp

def Piece.written : Piece → List Char
  | .char c => [c]
  | .variable name => '$' :: '\x7b' :: name ++ ['\x7d']

def names (text : String) : List String :=
  (pieces text.toList).filterMap fun
    | .char _ => none
    | .variable name => some (String.ofList name)

/-- Expands the references of a text. The names in `opened` are those under
expansion, and at most `depth` more may be opened. -/
def expand (lookup : String → Except Fault (Option String)) :
    Nat → List String → String → Except Fault String
  | depth, opened, text => do
    let parts ← (pieces text.toList).mapM fun
      | .char c => .ok [c]
      | .variable cs => do
        let name := String.ofList cs
        if opened.contains name then throw (.referenceLoop text name)
        match ← lookup name with
        | none => return (Piece.variable cs).written
        | some found =>
          match depth with
          | 0 => throw (.referenceLoop text name)
          | rest + 1 => return (← expand lookup rest (name :: opened) found).toList
    return String.ofList parts.flatten

end Settings.Reference
