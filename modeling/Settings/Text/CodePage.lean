/-! # Code pages

Encodings of one byte per character that agree with ASCII below 0x80.
-/

namespace Settings.Text

/-- An encoding of one byte per character. -/
structure CodePage where
  names : List String
  /-- Further names, in which dots may stand for underscores. -/
  aliases : List String
  /-- The characters of the bytes from 0x80 on. A replacement character, like
  the end of the text, stands for bytes without a character. -/
  upper : String
  /-- The characters below 0x80 that are missing. -/
  missing : List Char

/-- The control characters that many pages have at the bytes 0x80 to 0x9F. -/
def controls : String := String.ofList ((List.range 32).map fun n => Char.ofNat (0x80 + n))

namespace CodePage

def replacement : Char := Char.ofNat 0xFFFD

/-- The character of a byte, `upper` being the characters from 0x80 on. -/
def charOf? (page : CodePage) (upper : Array Char) (byte : UInt8) : Option Char :=
  let found :=
    if byte.toNat < 0x80 then some (Char.ofNat byte.toNat) else upper[byte.toNat - 0x80]?
  found.filter fun c => c ≠ replacement && !page.missing.contains c

def decode? (page : CodePage) (bytes : List UInt8) : Option (List Char) :=
  let upper := page.upper.toList.toArray
  bytes.mapM (page.charOf? upper)

end CodePage

end Settings.Text
