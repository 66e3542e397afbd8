import Settings.Text.CodePage.Dos
import Settings.Text.CodePage.Iso
import Settings.Text.CodePage.Macintosh
import Settings.Text.CodePage.Regional
import Settings.Text.CodePage.Windows

/-! # Character sets by name

The names under which encodings are known. Letter case does not count, and
every run of other characters than letters, digits and dots is one underscore.
-/

namespace Settings.Text

/-- The pages that add nothing to ASCII, or only the rest of Latin-1. -/
def plainPages : List CodePage := [
  ⟨["ascii", "iso2022_jp", "iso2022_jp_1", "iso2022_jp_2", "iso2022_jp_2004", "iso2022_jp_3",
     "iso2022_jp_ext", "utf_8", "utf_8_sig"],
    ["646", "ansi_x3.4_1968", "ansi_x3.4_1986", "ansi_x3_4_1968", "cp367", "csascii", "ibm367",
     "iso646_us", "iso_646.irv_1991", "iso_ir_6", "us", "us_ascii", "csiso2022jp", "iso2022jp",
     "iso_2022_jp", "iso2022jp_1", "iso_2022_jp_1", "iso2022jp_2", "iso_2022_jp_2",
     "iso2022jp_2004", "iso_2022_jp_2004", "iso2022jp_3", "iso_2022_jp_3", "iso2022jp_ext",
     "iso_2022_jp_ext", "cp65001", "u8", "utf", "utf8", "utf8_ucs2", "utf8_ucs4"],
    "", []⟩,
  ⟨["hz"], ["hz_gb", "hz_gb_2312", "hzgb"], "", ['~']⟩,
  ⟨["charmap", "iso8859_1", "latin_1", "raw_unicode_escape", "unicode_escape"],
    ["8859", "cp819", "csisolatin1", "ibm819", "iso8859", "iso8859_1", "iso_8859_1",
     "iso_8859_1_1987", "iso_ir_100", "l1", "latin", "latin1"],
    String.ofList ((List.range 128).map fun n => Char.ofNat (0x80 + n)), []⟩]

def codePages : List CodePage :=
  plainPages ++ isoPages ++ windowsPages ++ dosPages ++ macintoshPages ++ regionalPages

/-- Names of encodings that take more than one byte for some characters. -/
def multiByteNames : List String := [
    "big5", "big5hkscs", "cp932", "cp949", "cp950", "euc_jis_2004", "euc_jisx0213", "euc_jp",
    "euc_kr", "gb18030", "gb2312", "gbk", "iso2022_kr", "johab", "shift_jis", "shift_jis_2004",
    "shift_jisx0213", "utf_16", "utf_16_be", "utf_16_le", "utf_32", "utf_32_be", "utf_32_le",
    "utf_7"]

def multiByteAliases : List String := [
    "big5_tw", "csbig5", "x_mac_trad_chinese", "big5_hkscs", "hkscs", "932", "ms932", "ms_kanji",
    "mskanji", "949", "ms949", "uhc", "950", "ms950", "euc_jis2004", "eucjis2004", "jisx0213",
    "eucjisx0213", "eucjp", "u_jis", "ujis", "euckr", "korean", "ks_c_5601", "ks_c_5601_1987",
    "ks_x_1001", "ksc5601", "ksx1001", "x_mac_korean", "gb18030_2000", "chinese",
    "csiso58gb231280", "euc_cn", "euccn", "eucgb2312_cn", "gb2312_1980", "gb2312_80",
    "iso_ir_58", "x_mac_simp_chinese", "936", "cp936", "ms936", "csiso2022kr", "iso2022kr",
    "iso_2022_kr", "cp1361", "ms1361", "csshiftjis", "s_jis", "shiftjis", "sjis",
    "x_mac_japanese", "s_jis_2004", "shiftjis2004", "sjis_2004", "s_jisx0213", "shiftjisx0213",
    "sjisx0213", "u16", "utf16", "unicodebigunmarked", "utf_16be", "unicodelittleunmarked",
    "utf_16le", "u32", "utf32", "utf_32be", "utf_32le", "u7", "unicode_1_1_utf_7", "utf7"]

/-- Names of encodings that disagree with ASCII. -/
def foreignNames : List String := [
    "cp037", "cp1026", "cp1140", "cp273", "cp424", "cp500", "cp864", "cp875", "mac_arabic",
    "mac_farsi"]

def foreignAliases : List String := [
    "037", "csibm037", "ebcdic_cp_ca", "ebcdic_cp_nl", "ebcdic_cp_us", "ebcdic_cp_wt", "ibm037",
    "ibm039", "1026", "csibm1026", "ibm1026", "1140", "ibm1140", "273", "csibm273", "ibm273",
    "424", "csibm424", "ebcdic_cp_he", "ibm424", "500", "csibm500", "ebcdic_cp_be",
    "ebcdic_cp_ch", "ibm500", "864", "csibm864", "ibm864"]

inductive Charset
  | page (p : CodePage)
  | multiByte
  /-- An encoding of one byte per character that disagrees with ASCII. -/
  | foreign

namespace Charset

def nameWords : List Char → List Char → List (List Char)
  | word, [] => if word.isEmpty then [] else [word.reverse]
  | word, c :: cs =>
    if c.isAlphanum || c = '.' then nameWords (c.toLower :: word) cs
    else if word.isEmpty then nameWords [] cs
    else word.reverse :: nameWords [] cs

def spelled (name : String) : String :=
  "_".intercalate ((nameWords [] name.toList).map String.ofList)

def ofName? (name : String) : Option Charset :=
  let name := spelled name
  let undotted := String.ofList (name.toList.map fun c => if c = '.' then '_' else c)
  let isKnown (names aliases : List String) :=
    names.contains name || aliases.contains name || aliases.contains undotted
  match codePages.find? fun p => isKnown p.names p.aliases with
  | some p => some (page p)
  | none =>
    if isKnown multiByteNames multiByteAliases then some multiByte
    else if isKnown foreignNames foreignAliases then some foreign
    else none

end Charset

end Settings.Text
