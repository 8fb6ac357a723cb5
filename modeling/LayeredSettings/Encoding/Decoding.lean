import LayeredSettings.Encoding.Utf16
import LayeredSettings.Encoding.Utf8
import LayeredSettings.Transfer

/-!
# Decoding sources

The text of a source's bytes, which are decoded portion by portion while the text is read. Bytes
that cannot be decoded spoil the portion they stand in; the text of the portions before it has been
read by then. A line may end in a line feed, a carriage return or both; all three become one line
feed before the text is read.
-/

namespace LayeredSettings

namespace Encoding

/-- The characters that Windows-1252 has for the bytes 80 to 9F. -/
def windows1252Upper : List (Option Nat) :=
  [some 0x20ac, none, some 0x201a, some 0x192, some 0x201e, some 0x2026, some 0x2020, some 0x2021,
    some 0x2c6, some 0x2030, some 0x160, some 0x2039, some 0x152, none, some 0x17d, none,
    none, some 0x2018, some 0x2019, some 0x201c, some 0x201d, some 0x2022, some 0x2013,
    some 0x2014, some 0x2dc, some 0x2122, some 0x161, some 0x203a, some 0x153, none, some 0x17e,
    some 0x178]

/-- The character that Windows-1252 has for a byte. -/
def windows1252Char? (b : UInt8) : Option Char :=
  if 0x80 ≤ b ∧ b ≤ 0x9f then
    ((windows1252Upper[b.toNat - 0x80]?).getD none).map Char.ofNat
  else some (Char.ofNat b.toNat)

/-- The text of bytes in which every byte is a character, `char?` saying which. -/
def decodeBytes (scheme : Scheme) (cause : Fault.Cause) (char? : UInt8 → Option Char)
    (offset : Nat) : List UInt8 → Except Fault Decoded
  | [] => .ok ⟨[], []⟩
  | b :: rest =>
    match char? b with
    | some c => (decodeBytes scheme cause char? (offset + 1) rest).map (Decoded.cons c)
    | none => .error (.undecodable scheme b offset 1 cause)

end Encoding

/-! ## Portions -/

/-- A decoder between two portions: its encoding, and the bytes that are held back. An encoding
that may start with a byte-order mark gives way to the one behind the mark. -/
structure Decoder where
  encoding : Encoding
  held : List UInt8 := []

namespace Decoder

open Encoding

/-- The characters of the next portion, and the decoder behind them. -/
def feed (d : Decoder) (portion : List UInt8) : Except Fault (Text × Decoder) :=
  let bytes := d.held ++ portion
  let behind (e : Encoding) (r : Decoded) : Text × Decoder := (r.chars, ⟨e, r.held⟩)
  match d.encoding with
  | .ascii =>
    (decodeBytes .ascii .outsideAscii
      (fun b => if b < 0x80 then some (Char.ofNat b.toNat) else none) 0 bytes).map (behind .ascii)
  | .latin1 =>
    (decodeBytes .charmap .undefined (fun b => some (Char.ofNat b.toNat)) 0 bytes).map
      (behind .latin1)
  | .windows1252 =>
    (decodeBytes .charmap .undefined windows1252Char? 0 bytes).map (behind .windows1252)
  | .utf8 => (Utf8.decode bytes).map (behind .utf8)
  | .utf8Marked =>
    if Utf8.isMarkStart bytes then .ok ([], ⟨.utf8Marked, bytes⟩)
    else (Utf8.decodeMarked bytes).map (behind .utf8)
  | .utf16 =>
    (Utf16.decodeMarked bytes).map fun
      | (none, r) => behind .utf16 r
      | (some .little, r) => behind .utf16le r
      | (some .big, r) => behind .utf16be r
  | .utf16le => (Utf16.decodeFrom .little 0 bytes).map (behind .utf16le)
  | .utf16be => (Utf16.decodeFrom .big 0 bytes).map (behind .utf16be)
  | .other codec =>
    (codec.feed d.held portion).map fun (chars, kept) => (chars, ⟨.other codec, kept⟩)
  | .transform label => .error (.notText label)

/-- The characters that are left when the bytes end. Bytes that stop inside a byte-order mark are
no text, and no fault either. -/
def finish (d : Decoder) : Except Fault Text :=
  let whole (fault? : Option Fault) : Except Fault Text :=
    match fault? with
    | none => .ok []
    | some fault => .error fault
  match d.encoding with
  | .ascii | .latin1 | .windows1252 | .utf8Marked => .ok []
  | .utf8 => whole (Utf8.cutShort? d.held)
  | .utf16 | .utf16le => whole (Utf16.cutShort? .little d.held)
  | .utf16be => whole (Utf16.cutShort? .big d.held)
  | .other codec => codec.finish d.held
  | .transform label => .error (.notText label)

end Decoder

/-! ## Texts -/

/-- A text as far as it can be read, and why it breaks off if it does. -/
structure Content where
  chars : Text
  tear : Option Tear := none

/-- A content with a text in front of it. -/
def Content.behind (t : Text) (c : Content) : Content := { c with chars := t ++ c.chars }

/-- The content of portions, which break off with `failure` if it is given. -/
def Decoder.read (failure : Option Transfer.Failure) (d : Decoder) : List (List UInt8) → Content
  | [] =>
    match failure with
    | some f => ⟨[], some (.lost f)⟩
    | none =>
      match d.finish with
      | .ok t => ⟨t, none⟩
      | .error fault => ⟨[], some (.undecodable fault)⟩
  | portion :: rest =>
    match d.feed portion with
    | .ok (t, d') => (d'.read failure rest).behind t
    | .error fault => ⟨[], some (.undecodable fault)⟩

/-- A text with every line end a line feed. At the end of a torn text a carriage return is held
back, since a line feed might follow it. -/
def unifyLines (torn : Bool) : Text → Text
  | [] => []
  | ['\r'] => if torn then [] else ['\n']
  | '\r' :: '\n' :: rest => '\n' :: unifyLines torn rest
  | '\r' :: rest => '\n' :: unifyLines torn rest
  | c :: rest => c :: unifyLines torn rest

/-- The content of a source's bytes, with its lines unified. -/
def Encoding.read (e : Encoding) (tr : Transfer) : Content :=
  let content := Decoder.read tr.failure ⟨e, []⟩ tr.portions
  { content with chars := unifyLines content.tear.isSome content.chars }

end LayeredSettings
