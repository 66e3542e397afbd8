import Settings.Document.Xml.Content
import Settings.Document.Xml.DocumentType
import Settings.Document.Xml.Encoding

/-! # XML documents

A document holds one root element, whose mapping is what the document says.
-/

namespace Settings.Document.Xml

def root? (cs : List Char) : Option Element := do
  let (preamble, rest) ← leadingDeclaration? cs
  let rest ← skipMisc (rest.length + 1) rest
  let (declared, rest) ←
    match Text.after? "<!DOCTYPE".toList rest with
    | some rest => documentType? preamble.isStandalone rest
    | none => some (.none, rest)
  let rest ← skipMisc (rest.length + 1) rest
  let rest ← Text.after? ['<'] rest
  let scope : Scope := ⟨declared, entityContent declared declared.entities.length⟩
  let (e, rest) ← element? scope (rest.length + 1) initialSpaces rest
  if (← skipMisc (rest.length + 1) rest).isEmpty then return e else none

def read (bytes : ByteArray) : Reading Value := do
  let cs ← decode bytes
  if !cs.all isAllowed then throw .malformed
  let e ← required (root? (unifyLineEnds cs))
  return .mapping e.toMapping

end Settings.Document.Xml
