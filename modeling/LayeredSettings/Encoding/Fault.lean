import LayeredSettings.Text.Basic

/-!
# Undecodable bytes

Why bytes are no text in an encoding, and how that is reported.
-/

namespace LayeredSettings.Encoding

/-- The rules by which bytes are read. -/
inductive Scheme where
  | ascii
  | charmap
  | utf8
  | utf16le
  | utf16be
  deriving DecidableEq, Repr

/-- What is wrong with a byte sequence. -/
inductive Fault.Cause where
  | outsideAscii
  | undefined
  | invalidStart
  | invalidContinuation
  | unexpectedEnd
  | truncated
  | loneLowSurrogate
  | unpairedHighSurrogate
  deriving DecidableEq, Repr

/-- A failure to decode: bytes that mean nothing, or a missing byte-order mark. -/
inductive Fault where
  /-- The `length` bytes from `position` on, the first of them being `byte`. -/
  | undecodable (scheme : Scheme) (byte : UInt8) (position length : Nat) (cause : Fault.Cause)
  | noByteOrderMark
  /-- The encoding `label` is none of texts. -/
  | notText (label : String)
  /-- What a decoder that is not built in finds wrong. -/
  | foreign (reason : Text)
  deriving DecidableEq, Repr

/-- A fault whose position is counted from `n` bytes further in front. -/
def Fault.shift (n : Nat) : Fault → Fault
  | undecodable scheme byte position length cause =>
    .undecodable scheme byte (n + position) length cause
  | f => f

def Scheme.name : Scheme → String
  | ascii => "ascii"
  | charmap => "charmap"
  | utf8 => "utf-8"
  | utf16le => "utf-16-le"
  | utf16be => "utf-16-be"

def Fault.Cause.message : Fault.Cause → String
  | outsideAscii => "ordinal not in range(128)"
  | undefined => "character maps to <undefined>"
  | invalidStart => "invalid start byte"
  | invalidContinuation => "invalid continuation byte"
  | unexpectedEnd => "unexpected end of data"
  | truncated => "truncated data"
  | loneLowSurrogate => "illegal encoding"
  | unpairedHighSurrogate => "illegal UTF-16 surrogate"

def hexByte (b : UInt8) : String :=
  let digits := Nat.toDigits 16 b.toNat
  String.ofList (List.replicate (2 - digits.length) '0' ++ digits)

def Fault.message : Fault → String
  | undecodable scheme byte position length cause =>
    "'" ++ scheme.name ++ "' codec can't decode "
      ++ (if length = 1 then
            "byte 0x" ++ hexByte byte ++ " in position " ++ toString position
          else
            "bytes in position " ++ toString position ++ "-" ++ toString (position + length - 1))
      ++ ": " ++ cause.message
  | noByteOrderMark => "UTF-16 stream does not start with BOM"
  | notText label =>
    "'" ++ label ++ "' is not a text encoding; use codecs.open() to handle arbitrary codecs"
  | foreign reason => String.ofList reason

end LayeredSettings.Encoding
