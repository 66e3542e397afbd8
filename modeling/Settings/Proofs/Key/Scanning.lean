import Settings.Key
import Settings.Proofs.Key.Searching

/-! # Scanning keys

What the scanner does with the rest of a key, one equation for each thing the
rest can begin with.
-/

namespace Settings

namespace Markers

open Text

variable {m : Markers} {key : String} {pending cs rest inner next literal : List Char} {c : Char}

theorem flush_of_ne_nil (m : Markers) {token : List Char} (h : token ≠ []) :
    m.flush token = do return [← m.readElement token] := by
  cases token with
  | nil => exact absurd rfl h
  | cons c token => rfl

theorem scan_nil (m : Markers) (key : String) (pending : List Char) :
    m.scan key pending [] = m.flush pending := by
  rw [scan]

theorem scan_attribute (h : after? m.attributeStart cs = some inner) :
    m.scan key pending cs = do
      let parts ← m.flush pending
      match breakAt? m.attributeEnd inner with
      | none => .error (.unterminatedAttribute key)
      | some (name, after) =>
        return parts ++ .attr (String.ofList name) :: (← m.scan key [] after) := by
  cases cs with
  | nil =>
    have hempty := List.append_eq_nil_iff.1 (after?_eq_some_iff.1 h).symm
    exact absurd hempty.1 m.attributeStart_ne
  | cons c cs =>
    rw [scan]
    split
    · rename_i found hfound
      obtain rfl := Option.some.inj (hfound.symm.trans h)
      congr 1
      funext parts
      split <;> rename_i heq <;> rw [heq]
    · rename_i hnone
      simp [h] at hnone

theorem scan_of_delimiter (ha : ¬ m.attributeStart <+: cs)
    (h : after? m.delimiter cs = some next) :
    m.scan key pending cs =
      match after? m.delimiter next with
      | some literal => m.scan key (pending ++ m.delimiter) literal
      | none => do
        let parts ← m.flush pending
        return parts ++ (← m.scan key [] next) := by
  rw [← after?_eq_none_iff] at ha
  cases cs with
  | nil => exact absurd (List.append_eq_nil_iff.1 (after?_eq_some_iff.1 h).symm).1 m.delimiter_ne
  | cons c cs =>
    rw [scan]
    split
    · rename_i hsome
      simp [ha] at hsome
    · split
      · rename_i found hfound
        obtain rfl := Option.some.inj (hfound.symm.trans h)
        split <;> rename_i heq <;> rw [heq]
      · rename_i hnone
        simp [h] at hnone

theorem scan_literal (ha : ¬ m.attributeStart <+: m.delimiter ++ (m.delimiter ++ literal)) :
    m.scan key pending (m.delimiter ++ (m.delimiter ++ literal)) =
      m.scan key (pending ++ m.delimiter) literal := by
  rw [scan_of_delimiter ha (after?_append _ _), after?_append]

theorem scan_delimiter (ha : ¬ m.attributeStart <+: m.delimiter ++ next)
    (hd : ¬ m.delimiter <+: next) :
    m.scan key pending (m.delimiter ++ next) = do
      let parts ← m.flush pending
      return parts ++ (← m.scan key [] next) := by
  rw [scan_of_delimiter ha (after?_append _ _), after?_eq_none_iff.2 hd]

theorem scan_char (ha : ¬ m.attributeStart <+: c :: rest) (hd : ¬ m.delimiter <+: c :: rest) :
    m.scan key pending (c :: rest) = m.scan key (pending ++ [c]) rest := by
  rw [← after?_eq_none_iff] at ha hd
  rw [scan]
  split
  · simp_all
  · split
    · simp_all
    · rfl

end Markers

end Settings
