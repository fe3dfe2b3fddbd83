/-!
# Encodings

A document may declare the encoding of its bytes. Encodings of one byte for each character are known
here as far as documentation files use them: Latin-1 and Windows-1252 as a whole, the others in what
they share with ASCII, so that a document with any other byte is refused. Nothing is guessed from
the bytes: UTF-16 without a byte order mark is taken for UTF-8 and refused for its null characters.
-/

namespace DocMerge.Xml

inductive Encoding
  | utf8
  | latin1
  /-- An encoding that agrees with ASCII on the bytes below 128. -/
  | ascii
  | windows1252
  deriving DecidableEq, Repr

namespace Encoding

/-- Encodings of which only what they share with ASCII is read. -/
def asciiBased : List String := [
  "us-ascii", "ascii", "iso646-us", "iso-8859-2", "iso-8859-3", "iso-8859-4",
  "iso-8859-5", "iso-8859-6",
  "iso-8859-7", "iso-8859-8", "iso-8859-9", "iso-8859-10", "iso-8859-11",
  "iso-8859-13", "iso-8859-14",
  "iso-8859-15", "iso-8859-16", "windows-1250", "windows-1251", "windows-1253", "windows-1254",
  "windows-1255", "windows-1256", "windows-1257", "windows-1258", "cp1250", "cp1251",
  "cp1253", "cp1254",
  "cp437", "cp850", "cp866", "koi8-r", "koi8-u", "macintosh", "shift_jis", "sjis",
  "cp932", "euc-jp",
  "euc-kr", "gb2312", "gbk", "gb18030", "big5", "tis-620"]

def ofName? (name : String) : Option Encoding :=
  let name := name.toLower
  if ["utf-8", "utf8"].contains name then some utf8
  else if ["iso-8859-1", "iso_8859-1", "iso8859-1", "iso-latin-1", "latin1",
    "latin-1", "l1", "cp819",
      "ibm819"].contains name then some latin1
  else if ["windows-1252", "cp1252", "ms-ansi"].contains name then some windows1252
  else if asciiBased.contains name then some ascii
  else none

/-- The characters of the bytes from 128 to 159; five bytes stand for none. -/
def windowsSpecials : List Nat := [
  0x20AC, 0, 0x201A, 0x0192, 0x201E, 0x2026, 0x2020, 0x2021, 0x02C6, 0x2030, 0x0160,
  0x2039, 0x0152, 0,
  0x017D, 0, 0, 0x2018, 0x2019, 0x201C, 0x201D, 0x2022, 0x2013, 0x2014, 0x02DC,
  0x2122, 0x0161, 0x203A,
  0x0153, 0, 0x017E, 0x0178]

def windowsChar? (byte : Nat) : Option Char :=
  if byte < 128 || 160 ≤ byte then some (Char.ofNat byte)
  else
    match windowsSpecials[byte - 128]? with
    | some 0 | none => none
    | some n => some (Char.ofNat n)

def decode? (e : Encoding) (bytes : ByteArray) : Option (List Char) :=
  match e with
  | utf8 => (String.fromUTF8? bytes).map String.toList
  | latin1 => some (bytes.toList.map (fun b => Char.ofNat b.toNat))
  | ascii => bytes.toList.mapM (fun b => if b < 128 then some (Char.ofNat b.toNat) else none)
  | windows1252 => bytes.toList.mapM (fun b => windowsChar? b.toNat)

end Encoding

end DocMerge.Xml
