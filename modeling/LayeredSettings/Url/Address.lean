import LayeredSettings.Text.Ascii

/-!
# Addresses

The written forms of the numeric addresses of hosts: four decimal octets, eight groups of
hexadecimal digits, and forms of later versions, which carry their version in front.
-/

namespace LayeredSettings.Url.Address

/-- A number below 256 in decimal digits that starts with a zero only if there is no other. -/
def isOctet (t : Text) : Bool :=
  (t = ['0'] || t.head? ≠ some '0') && (Text.natural? t).any (· < 256)

/-- Four octets with dots between them. -/
def isOctets (t : Text) : Bool :=
  let octets := Text.splitOn '.' t
  octets.length = 4 && octets.all isOctet

def isGroup (t : Text) : Bool := !t.isEmpty && t.length ≤ 4 && t.all Text.isHexDigit

/-- How many groups the parts of an address stand for; four octets in the last part stand for
two groups. -/
def groupCount? : List Text → Option Nat
  | [] => some 0
  | [t] => if isGroup t then some 1 else if isOctets t then some 2 else none
  | t :: ts => if isGroup t then (groupCount? ts).map (· + 1) else none

/-- The texts before and after the first two colons in a row. -/
def splitGap? : Text → Option (Text × Text)
  | ':' :: ':' :: rest => some ([], rest)
  | c :: rest => (splitGap? rest).map fun p => (c :: p.1, p.2)
  | [] => none

/-- The parts between single colons; an empty text has none. -/
def parts (t : Text) : List Text := if t = [] then [] else Text.splitOn ':' t

/-- Eight groups with colons between them. Once, two colons may stand for one or more groups of
zeros. -/
def isGroups (t : Text) : Bool :=
  match splitGap? t with
  | none => groupCount? (parts t) = some 8
  | some (front, back) =>
    (parts front).all isGroup
      && (groupCount? (parts back)).any fun n => (parts front).length + n ≤ 7

/-- Eight groups, and behind a percent sign the zone in which they hold. -/
def isZonedGroups (t : Text) : Bool :=
  isGroups (t.takeWhile (· ≠ '%'))
    && match t.dropWhile (· ≠ '%') with
      | [] => true
      | _ :: zone => !zone.isEmpty && !zone.contains '%'

/-- A version in hexadecimal digits behind the letter `v`, a dot, and anything. -/
def isVersioned : Text → Bool
  | 'v' :: t =>
    !(t.takeWhile Text.isHexDigit).isEmpty
      && match t.dropWhile Text.isHexDigit with
        | '.' :: rest => !rest.isEmpty
        | _ => false
  | _ => false

end LayeredSettings.Url.Address
