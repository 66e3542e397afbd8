import Settings.Document.Xml.Prolog

/-! # Marks in a document type

A document type is written in marks: names, texts between quotes, and signs.
Which character may follow a mark depends on its kind.
-/

namespace Settings.Document.Xml

open Settings.Text

inductive Mark
  | literal (cs : List Char)
  | name (n : QualifiedName)
  /-- Name characters that form no name. -/
  | word
  /-- A name with a sign that says how often it comes. -/
  | counted
  /-- A name after a number sign. -/
  | keyword (name : List Char)
  | percent
  /-- The name of declarations that are put in here. -/
  | insertion
  /-- The end of a group, and a sign that says how often it comes. -/
  | groupEnd (count : Option Char)
  | sign (c : Char)

/-- Whether a mark may end before a character: a blank or one of some signs. -/
def endsBefore (signs : String) (next : Option Char) : Bool :=
  next.any fun c => isSpace c || signs.toList.contains c

def isCount (c : Char) : Bool := c = '?' || c = '*' || c = '+'

/-- The name that name characters form, if they form one: it has at most one
colon, which is neither first nor last. -/
def nameOf? (cs : List Char) : Option QualifiedName :=
  match splitAtChar ':' cs with
  | [base] => if base.head?.any isNameStart then some ⟨none, base⟩ else none
  | [space, base] =>
    if space.head?.any isNameStart && !base.isEmpty then some ⟨some space, base⟩ else none
  | _ => none

/-- The mark that name characters form, and the rest after it. -/
def nameMark? (cs : List Char) : Option (Mark × List Char) :=
  let isPart := fun c => isNameChar c || c = ':'
  let rest := cs.dropWhile isPart
  match nameOf? (cs.takeWhile isPart), rest with
  | some n, c :: after =>
    if isCount c then some (.counted, after)
    else if endsBefore ">),|[%" (some c) then some (.name n, rest)
    else none
  | none, c :: _ => if endsBefore ">),|[%" (some c) then some (.word, rest) else none
  | _, [] => none

def mark? (cs : List Char) : Option (Mark × List Char) :=
  match cs with
  | '"' :: _ | '\'' :: _ => do
    let (text, rest) ← quotedText? cs
    if endsBefore ">%[" rest.head? then return (.literal text, rest) else none
  | '#' :: rest => do
    let (name, rest) ← plainName? rest
    if endsBefore ")>%|" rest.head? then return (.keyword name, rest) else none
  | '%' :: rest =>
    if endsBefore "%" rest.head? then some (.percent, rest)
    else
      match plainName? rest with
      | some (_, ';' :: rest) => some (.insertion, rest)
      | _ => none
  | ')' :: rest =>
    match rest with
    | c :: after =>
      if isCount c then some (.groupEnd (some c), after)
      else if endsBefore ">,|)" (some c) then some (.groupEnd none, rest)
      else none
    | [] => none
  | c :: rest =>
    if c = '[' || c = ']' || c = '(' || c = '|' || c = ',' || c = '>' then some (.sign c, rest)
    else if isNameChar c || c = ':' then nameMark? cs
    else none
  | [] => none

def nextMark? (cs : List Char) : Option (Mark × List Char) := mark? (skipSpace cs)

def literal? (cs : List Char) : Option (List Char × List Char) :=
  match nextMark? cs with
  | some (.literal text, rest) => some (text, rest)
  | _ => none

def someName? (cs : List Char) : Option (QualifiedName × List Char) :=
  match nextMark? cs with
  | some (.name n, rest) => some (n, rest)
  | _ => none

def baseName? (cs : List Char) : Option (List Char × List Char) :=
  match nextMark? cs with
  | some (.name ⟨none, base⟩, rest) => some (base, rest)
  | _ => none

def afterSign? (sign : Char) (cs : List Char) : Option (List Char) :=
  match nextMark? cs with
  | some (.sign c, rest) => if c = sign then some rest else none
  | _ => none

end Settings.Document.Xml
