import LayeredSettings.Encoding.Fault
import LayeredSettings.Text.Ascii

/-!
# Encodings

The encodings in which sources may be written, and the labels by which they are chosen. Labels are
compared without regard to case and punctuation. The system may know further encodings, and labels
also name transformations of bytes that are no encodings of texts.
-/

namespace LayeredSettings

/-- A decoder of texts that is not built in. What it keeps from one portion of bytes to the next,
be it bytes that are not decoded yet or a state of its own, is written as bytes. -/
structure Codec where
  label : String
  /-- The characters of a portion, given what was kept, and what is kept then. -/
  feed : (kept portion : List UInt8) → Except Encoding.Fault (Text × List UInt8)
  /-- The characters that are left when the bytes end. -/
  finish : (kept : List UInt8) → Except Encoding.Fault Text

/-- An encoding of texts as bytes, or what is chosen by a label in its place. -/
inductive Encoding where
  | ascii
  | latin1
  | windows1252
  | utf8
  /-- UTF-8 that may start with a byte-order mark. -/
  | utf8Marked
  /-- UTF-16 whose byte order is told by the byte-order mark that it starts with. -/
  | utf16
  | utf16le
  | utf16be
  | other (codec : Codec)
  /-- A transformation of bytes, such as compression or hexadecimal digits. -/
  | transform (label : String)

/-- What decoding bytes gives: characters, and the bytes behind them that are held back, since more
bytes may make a character of them. -/
structure Decoded where
  chars : Text
  held : List UInt8 := []
  deriving DecidableEq, Repr

def Decoded.cons (c : Char) (d : Decoded) : Decoded := { d with chars := c :: d.chars }

namespace Encoding

def label : Encoding → String
  | ascii => "ascii"
  | latin1 => "iso8859-1"
  | windows1252 => "cp1252"
  | utf8 => "utf-8"
  | utf8Marked => "utf-8-sig"
  | utf16 => "utf-16"
  | utf16le => "utf-16-le"
  | utf16be => "utf-16-be"
  | other codec => codec.label
  | transform label => label

/-- What is wrong with an encoding as one of texts. -/
def misfit? : Encoding → Option Fault
  | transform label => some (.notText label)
  | _ => none

/-- The labels that are compared as they stand. -/
def mainLabels : List (String × Encoding) :=
  [("ascii", ascii), ("latin_1", latin1), ("cp1252", windows1252), ("utf_8", utf8),
    ("utf_8_sig", utf8Marked), ("utf_16", utf16), ("utf_16_le", utf16le), ("utf_16_be", utf16be),
    ("base64_codec", transform "base64"), ("bz2_codec", transform "bz2"),
    ("hex_codec", transform "hex"), ("quopri_codec", transform "quopri"),
    ("rot_13", transform "rot-13"), ("uu_codec", transform "uu"),
    ("zlib_codec", transform "zlib")]

/-- The labels in which a full stop may stand for an underscore. -/
def otherLabels : List (String × Encoding) :=
  [("646", ascii), ("ansi_x3.4_1968", ascii), ("ansi_x3_4_1968", ascii), ("ansi_x3.4_1986", ascii),
    ("cp367", ascii), ("csascii", ascii), ("ibm367", ascii), ("iso646_us", ascii),
    ("iso_646.irv_1991", ascii), ("iso_ir_6", ascii), ("us", ascii), ("us_ascii", ascii),
    ("8859", latin1), ("cp819", latin1), ("csisolatin1", latin1), ("ibm819", latin1),
    ("iso8859", latin1), ("iso8859_1", latin1), ("iso_8859_1", latin1),
    ("iso_8859_1_1987", latin1), ("iso_ir_100", latin1), ("l1", latin1), ("latin", latin1),
    ("latin1", latin1), ("1252", windows1252), ("windows_1252", windows1252), ("u8", utf8),
    ("utf", utf8), ("utf8", utf8), ("utf8_ucs2", utf8), ("utf8_ucs4", utf8), ("cp65001", utf8),
    ("u16", utf16), ("utf16", utf16), ("utf_16le", utf16le), ("unicodelittleunmarked", utf16le),
    ("utf_16be", utf16be), ("unicodebigunmarked", utf16be), ("base64", transform "base64"),
    ("base_64", transform "base64"), ("bz2", transform "bz2"), ("hex", transform "hex"),
    ("quopri", transform "quopri"), ("quoted_printable", transform "quopri"),
    ("quotedprintable", transform "quopri"), ("rot13", transform "rot-13"),
    ("uu", transform "uu"), ("zip", transform "zlib"), ("zlib", transform "zlib")]

def isLabelChar (c : Char) : Bool := Text.isLetter c || Text.isDigit c || c = '.'

/-- A label in lower case, every run of punctuation being an underscore. -/
def normalise (label : Text) : Text :=
  let words := Text.splitOn ' ' (label.map fun c => if isLabelChar c then c.toLower else ' ')
  Text.joinWith '_' (words.filter (· ≠ []))

/-- The encoding that a label chooses. `further?` tells, by their labels in lower case, those that
the system knows beyond the ones listed here. -/
def ofLabel? (further? : Text → Option Encoding) (label : Text) : Option Encoding :=
  let find (table : List (String × Encoding)) (name : Text) : Option Encoding :=
    table.findSome? fun e => if e.1.toList = name then some e.2 else none
  let name := normalise label
  (find otherLabels name).or
    ((find otherLabels (name.map fun c => if c = '.' then '_' else c)).or
      ((find mainLabels name).or (further? name)))

end Encoding

end LayeredSettings
