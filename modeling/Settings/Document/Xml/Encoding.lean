import Settings.Document.Xml.Prolog
import Settings.Text.Charset
import Settings.Text.Halves

/-! # Encodings of XML documents

The bytes of a document are decoded as its first bytes or its declaration say,
otherwise as UTF-8. A document in pairs of bytes may only name the order that
its pairs have; any other document may name an encoding of one byte per
character.
-/

namespace Settings.Document.Xml

open Settings.Text

inductive ByteOrder
  | highFirst
  | lowFirst
deriving DecidableEq

inductive Opening
  | pairs (order : ByteOrder) (units : List Nat)
  /-- Bytes, whose declaration may name an encoding. -/
  | bytes (rest : ByteArray)

def misfit : Char := Char.ofNat 0xFFFF

/-- The numbers of pairs of bytes; a single last byte counts as a misfit. -/
def unitsOf (order : ByteOrder) : List UInt8 → List Nat
  | a :: b :: rest =>
    (match order with
      | .highFirst => a.toNat * 256 + b.toNat
      | .lowFirst => b.toNat * 256 + a.toNat) :: unitsOf order rest
  | [_] => [misfit.toNat]
  | [] => []

def openingOf (bytes : ByteArray) : Opening :=
  let all := bytes.toList
  match all.map UInt8.toNat with
  | 0xFE :: 0xFF :: _ => .pairs .highFirst (unitsOf .highFirst (all.drop 2))
  | 0xFF :: 0xFE :: _ => .pairs .lowFirst (unitsOf .lowFirst (all.drop 2))
  | 0 :: 0x3C :: _ => .pairs .highFirst (unitsOf .highFirst all)
  | 0x3C :: 0 :: _ => .pairs .lowFirst (unitsOf .lowFirst all)
  | 0xEF :: 0xBB :: 0xBF :: _ => .bytes (bytes.extract 3 bytes.size)
  | _ => .bytes bytes

def lowered (name : String) : String := String.ofList (name.toList.map Char.toLower)

/-- Refuses an encoding that does not fit the document that names it, unless
there is more to say about the name. -/
def refuseNamed {α : Type} (name : String) : Reading α :=
  match Charset.ofName? name with
  | none => refuse .unknownEncoding
  | some .multiByte => refuse .multiByteEncoding
  | some (.page _) | some .foreign => .error .malformed

def checkPairs (order : ByteOrder) (name : String) : Reading Unit :=
  match lowered name with
  | "utf-16" => .ok ()
  | "utf-16be" => if order = .highFirst then .ok () else .error .malformed
  | "utf-16le" => if order = .lowFirst then .ok () else .error .malformed
  | "utf-8" | "iso-8859-1" | "us-ascii" => .error .malformed
  | _ => refuseNamed name

def decodeNamed (name : String) (bytes : ByteArray) : Reading (List Char) :=
  match lowered name with
  | "utf-8" => required ((String.fromUTF8? bytes).map String.toList)
  | "iso-8859-1" => .ok (bytes.toList.map fun b => Char.ofNat b.toNat)
  | "us-ascii" =>
    if bytes.toList.all (·.toNat < 0x80) then
      .ok (bytes.toList.map fun b => Char.ofNat b.toNat)
    else .error .malformed
  | "utf-16" | "utf-16be" | "utf-16le" => .error .malformed
  | _ =>
    match Charset.ofName? name with
    | some (.page p) => required (p.decode? bytes.toList)
    | _ => refuseNamed name

def decode (bytes : ByteArray) : Reading (List Char) := do
  match openingOf bytes with
  | .pairs order units =>
    let chars := joinHalves misfit units
    match (← required (leadingDeclaration? chars)).1.encoding with
    | none => return chars
    | some name =>
      checkPairs order name
      return chars
  | .bytes rest =>
    let shown := rest.toList.map fun b => Char.ofNat b.toNat
    match (← required (leadingDeclaration? shown)).1.encoding with
    | none => decodeNamed "utf-8" rest
    | some name => decodeNamed name rest

end Settings.Document.Xml
