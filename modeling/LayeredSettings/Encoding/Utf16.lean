import LayeredSettings.Encoding.Basic

/-!
# UTF-16

A character is one unit of two bytes, or two units from the surrogate ranges, the high one first.
-/

namespace LayeredSettings.Encoding.Utf16

inductive Order where
  | little
  | big
  deriving DecidableEq, Repr

def Order.scheme : Order → Scheme
  | little => .utf16le
  | big => .utf16be

def Order.unit (order : Order) (a b : UInt8) : Nat :=
  match order with
  | little => b.toNat * 0x100 + a.toNat
  | big => a.toNat * 0x100 + b.toNat

/-- Whether a unit is the first of a pair. -/
def isHigh (u : Nat) : Bool := 0xd800 ≤ u && u < 0xdc00

/-- Whether a unit is the second of a pair. -/
def isLow (u : Nat) : Bool := 0xdc00 ≤ u && u < 0xe000

/-- The text of bytes that stand `offset` bytes from the start. Bytes that are cut short at the end
are held back. -/
def decodeFrom (order : Order) (offset : Nat) : List UInt8 → Except Fault Decoded
  | [] => .ok ⟨[], []⟩
  | [a] => .ok ⟨[], [a]⟩
  | a :: b :: rest =>
    let u := order.unit a b
    if isLow u then .error (.undecodable order.scheme a offset 2 .loneLowSurrogate)
    else if isHigh u then
      match rest with
      | c :: d :: rest' =>
        let v := order.unit c d
        if isLow v then
          (decodeFrom order (offset + 4) rest').map
            (Decoded.cons (Char.ofNat (0x10000 + (u - 0xd800) * 0x400 + (v - 0xdc00))))
        else .error (.undecodable order.scheme a offset 2 .unpairedHighSurrogate)
      | _ => .ok ⟨[], a :: b :: rest⟩
    else (decodeFrom order (offset + 2) rest).map (Decoded.cons (Char.ofNat u))

/-- The fault of bytes that were held back and to which nothing is added, counted from the first of
them. -/
def cutShort? (order : Order) : List UInt8 → Option Fault
  | [] => none
  | [a] => some (.undecodable order.scheme a 0 1 .truncated)
  | a :: _ :: rest =>
    some (.undecodable order.scheme a 0 (2 + rest.length) .unexpectedEnd)

/-- The byte order that a mark at the start of bytes tells, and the text behind the mark. Without a
mark the bytes are still read, low byte first, since a fault in them comes before the fault that the
mark is missing; if they make no character yet, a mark is not missed. -/
def decodeMarked : List UInt8 → Except Fault (Option Order × Decoded)
  | 0xff :: 0xfe :: rest => (decodeFrom .little 2 rest).map fun d => (some .little, d)
  | 0xfe :: 0xff :: rest => (decodeFrom .big 2 rest).map fun d => (some .big, d)
  | bytes =>
    match decodeFrom .little 0 bytes with
    | .error e => .error e
    | .ok d => if d.chars = [] then .ok (none, d) else .error .noByteOrderMark

end LayeredSettings.Encoding.Utf16
