import Settings.Decimal.Numeral
import Settings.Fault
import Settings.Text.Search

/-! # Keys

A key such as `database.host(1)[@port]` is a sequence of parts, each naming
either an element, perhaps the one at an index among its namesakes, or an
attribute. The marks that separate and enclose the parts can be chosen.
-/

namespace Settings

open Settings.Text

/-- One step of a key. -/
inductive KeyPart
  | element (name : String) (index : Option Nat)
  | attr (name : String)
deriving DecidableEq, Repr

namespace KeyPart

def name : KeyPart → String
  | element name _ => name
  | attr name => name

def isAttribute : KeyPart → Bool
  | element .. => false
  | attr _ => true

end KeyPart

/-- The marks of a key language. An index needs both its marks; when either is
empty, no part has an index. -/
structure Markers where
  delimiter : List Char
  attributeStart : List Char
  attributeEnd : List Char
  indexStart : List Char
  indexEnd : List Char
  delimiter_ne : delimiter ≠ []
  attributeStart_ne : attributeStart ≠ []
  attributeEnd_ne : attributeEnd ≠ []

namespace Markers

/-- Marks given as texts, refused when a required one is empty. -/
def ofTexts (delimiter attributeStart attributeEnd indexStart indexEnd : String) :
    Except Fault Markers :=
  if h : delimiter.toList ≠ [] ∧ attributeStart.toList ≠ [] ∧ attributeEnd.toList ≠ [] then
    .ok ⟨delimiter.toList, attributeStart.toList, attributeEnd.toList, indexStart.toList,
      indexEnd.toList, h.1, h.2.1, h.2.2⟩
  else .error .emptyMarker

def standard : Markers where
  delimiter := ['.']
  attributeStart := ['[', '@']
  attributeEnd := [']']
  indexStart := ['(']
  indexEnd := [')']
  delimiter_ne := by simp
  attributeStart_ne := by simp
  attributeEnd_ne := by simp

variable (m : Markers)

/-- The name before an index and the digits of the index, when a token ends in one. -/
def indexed? (token : List Char) : Option (List Char × List Char) :=
  if m.indexStart = [] || m.indexEnd = [] || !m.indexEnd.isSuffixOf token then none
  else
    match breakAtLast? m.indexStart token with
    | none => none
    | some (name, after) =>
      let index := after.take (after.length - m.indexEnd.length)
      if name ≠ [] && index ≠ [] && index.all isDigitLike then some (name, index) else none

/-- The number of an index. What merely looks like a digit has no value. -/
def readIndex (index : List Char) : Except Fault Nat :=
  match Decimal.readInteger index with
  | .ok n => .ok n.toNat
  | .error .malformed => .error (.notInteger 10 (String.ofList index))
  | .error (.tooLong digits) => .error (.numeralTooLong digits)

def readElement (token : List Char) : Except Fault KeyPart :=
  match m.indexed? token with
  | none => .ok (.element (String.ofList token) none)
  | some (name, index) => do
    return .element (String.ofList name) (some (← readIndex index))

def flush : List Char → Except Fault (List KeyPart)
  | [] => .ok []
  | token => do return [← m.readElement token]

/-- The parts of the rest of a key, `pending` being the element under way. A
doubled delimiter is a delimiter inside a name. -/
def scan (key : String) (pending cs : List Char) : Except Fault (List KeyPart) :=
  match cs with
  | [] => m.flush pending
  | c :: rest =>
    match _attribute : after? m.attributeStart (c :: rest) with
    | some inner => do
      let parts ← m.flush pending
      match _closed : breakAt? m.attributeEnd inner with
      | none => .error (.unterminatedAttribute key)
      | some (name, after) =>
        return parts ++ .attr (String.ofList name) :: (← scan key [] after)
    | none =>
      match _separated : after? m.delimiter (c :: rest) with
      | some next =>
        match _doubled : after? m.delimiter next with
        | some literal => scan key (pending ++ m.delimiter) literal
        | none => do
          let parts ← m.flush pending
          return parts ++ (← scan key [] next)
      | none => scan key (pending ++ [c]) rest
termination_by cs.length
decreasing_by
  all_goals
    have := List.length_pos_iff.2 m.delimiter_ne
    have := List.length_pos_iff.2 m.attributeStart_ne
  · have h := congrArg List.length (after?_eq_some_iff.1 _attribute)
    have h' := congrArg List.length (eq_of_breakAt? _closed)
    simp only [List.length_append, List.length_cons] at *
    omega
  · have h := congrArg List.length (after?_eq_some_iff.1 _separated)
    have h' := congrArg List.length (after?_eq_some_iff.1 _doubled)
    simp only [List.length_append, List.length_cons] at *
    omega
  · have h := congrArg List.length (after?_eq_some_iff.1 _separated)
    simp only [List.length_append, List.length_cons] at *
    omega
  · simp

/-- The parts of a key; no key and the empty key have none. -/
def parse (key : Option String) : Except Fault (List KeyPart) :=
  match key with
  | none => .ok []
  | some text => m.scan text [] text.toList

/-- A name written so that it is read as a single part of a key. -/
def escape (name : String) : String :=
  String.ofList
    (replaceAll m.delimiter m.delimiter_ne (m.delimiter ++ m.delimiter) name.toList)

def attributeKey (name : String) : String :=
  String.ofList m.attributeStart ++ name ++ String.ofList m.attributeEnd

/-- The key of a child below a key; the root has the empty key. -/
def below (key name : String) : String :=
  if key = "" then name else key ++ String.ofList m.delimiter ++ name

end Markers

end Settings
