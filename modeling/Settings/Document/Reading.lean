import Settings.Decimal.Numeral
import Settings.Fault
import Settings.Text.Search

/-! # Reading documents

What all document readers share: why a document cannot be read, and numbers
and line ends in plain notation.
-/

namespace Settings.Document

open Settings.Decimal Settings.Text

/-- Why a document cannot be read. -/
inductive ReadFault
  | malformed
  /-- A part of a document that is well formed stands for no value. -/
  | refused (reason : Fault)
deriving DecidableEq

abbrev Reading (α : Type) := Except ReadFault α

def required {α : Type} : Option α → Reading α
  | some a => .ok a
  | none => .error .malformed

def refuse {α : Type} (reason : Fault) : Reading α := .error (.refused reason)

/-- An integer in decimal notation, which has a limited number of digits. -/
def decimalInteger (cs : List Char) : Reading Int :=
  match readInteger cs with
  | .ok n => .ok n
  | .error .malformed => .error .malformed
  | .error (.tooLong digits) => refuse (.numeralTooLong digits)

def hexValue? (c : Char) : Option Nat :=
  if '0' ≤ c && c ≤ '9' then some (c.toNat - 48)
  else if 'a' ≤ c && c ≤ 'f' then some (c.toNat - 87)
  else if 'A' ≤ c && c ≤ 'F' then some (c.toNat - 55)
  else none

/-- The value of digits of a base; a character beyond the base refuses it. -/
def ofBase? (base : Nat) (cs : List Char) : Option Nat :=
  cs.foldlM (fun n c => do
    let d ← hexValue? c
    if d < base then return n * base + d else none) 0

def charOf? (code : Nat) : Option Char :=
  if code.isValidChar then some (Char.ofNat code) else none

def unifyLineEnds : List Char → List Char
  | '\r' :: '\n' :: rest => '\n' :: unifyLineEnds rest
  | '\r' :: rest => '\n' :: unifyLineEnds rest
  | c :: rest => c :: unifyLineEnds rest
  | [] => []

/-- The lines of a text, without their ends. A line end at the end of the text
starts no further line. -/
def lines (cs : List Char) : List (List Char) :=
  let all := splitAtChar '\n' cs
  if all.getLast? = some [] then all.dropLast else all

end Settings.Document
