import LayeredSettings.Text.Basic

/-!
# Shortest decimals

The decimal text of a binary floating-point number: the fewest digits that read back as the
number, and of the texts with so many digits the nearest. All arithmetic is exact.
-/

namespace LayeredSettings.Decimal

/-! ## Binary numbers -/

/-- A positive finite number `significand * 2 ^ exponent`, and whether the numbers below it lie
twice as close as those above. -/
structure Binary where
  significand : Nat
  exponent : Int
  narrowBelow : Bool

inductive Class where
  | nan
  | infinite (negative : Bool)
  | zero (negative : Bool)
  | finite (negative : Bool) (magnitude : Binary)

def classify (x : Float) : Class :=
  let bits := x.toBits.toNat
  let negative := 0x8000000000000000 ≤ bits
  let field : Nat := bits / 0x10000000000000 % 0x800
  let fraction : Nat := bits % 0x10000000000000
  if field = 2047 then if fraction = 0 then .infinite negative else .nan
  else if field = 0 then
    if fraction = 0 then .zero negative else .finite negative ⟨fraction, -1074, false⟩
  else
    .finite negative
      ⟨0x10000000000000 + fraction, (field : Int) - 1075, fraction = 0 && field > 1⟩

/-! ## Digits -/

/-- The decimal digits of a number without the zeros at the end. -/
def digitsOf (n : Nat) : List Char :=
  ((Nat.toDigits 10 n).reverse.dropWhile (· = '0')).reverse

structure Ratio where
  num : Nat
  den : Nat

def Ratio.scale (r : Ratio) (base : Nat) (e : Int) : Ratio :=
  if e < 0 then { r with den := r.den * base.pow e.natAbs }
  else { r with num := r.num * base.pow e.natAbs }

/-- The exponent `k` with `10 ^ (k - 1) ≤ r < 10 ^ k`, for a positive ratio. -/
def Ratio.magnitude (r : Ratio) : Int :=
  if r.den ≤ r.num then (Nat.toDigits 10 (r.num / r.den)).length
  else
    let j := (Nat.toDigits 10 (r.den / r.num)).length
    if r.den ≤ r.num * Nat.pow 10 (j - 1) then 2 - (j : Int) else 1 - (j : Int)

/-- Digits behind a decimal point that stands `point` places to the right of their start. -/
structure Digits where
  digits : List Char
  point : Int

/-- The decimals with `n` digits next to the number, if one of them reads back: of two the
nearer, and of two as near the one with the even last digit. -/
def Binary.round? (b : Binary) (n : Nat) : Option Nat :=
  let value := Ratio.scale ⟨4 * b.significand, 1⟩ 2 (b.exponent - 2)
  let places := (n : Int) - value.magnitude
  let unit := Ratio.scale ⟨1, 1⟩ 2 (b.exponent - 2)
  let scaled (quarters : Nat) : Nat := (Ratio.scale ⟨quarters * unit.num, unit.den⟩ 10 places).num
  let den := (value.scale 10 places).den
  let mid := scaled (4 * b.significand)
  let low := scaled (4 * b.significand - if b.narrowBelow then 1 else 2)
  let high := scaled (4 * b.significand + 2)
  let closed := b.significand % 2 = 0
  let reads (d : Nat) : Bool :=
    if closed then low ≤ d * den && d * den ≤ high else low < d * den && d * den < high
  let below := mid / den
  let above := below + 1
  match reads below, reads above with
  | true, true =>
    let down := mid - below * den
    let up := above * den - mid
    if down < up || (down = up && below % 2 = 0) then some below else some above
  | true, false => some below
  | false, true => some above
  | false, false => none

def Binary.shortest (b : Binary) : Digits :=
  let point := (Ratio.scale ⟨4 * b.significand, 1⟩ 2 (b.exponent - 2)).magnitude
  let withDigits (n : Nat) : Option Digits :=
    (b.round? n).map fun d =>
      ⟨digitsOf d, point + (if Nat.pow 10 n ≤ d then 1 else 0)⟩
  ((List.range 17).findSome? fun n => withDigits (n + 1)).getD ⟨[], point⟩

/-! ## Text -/

/-- How a decimal is laid out: positionally while the point stands from `leastPoint` to
`greatestPoint`, and otherwise with an exponent of at least two digits. A positional decimal has a
digit on either side of the point. -/
structure Layout where
  leastPoint : Int
  greatestPoint : Int

/-- Positional from one ten-thousandth up to, and without, ten to the sixteenth. -/
def Layout.standard : Layout := ⟨-3, 16⟩

def Digits.render (layout : Layout) (d : Digits) : Text :=
  let count := (d.digits.length : Int)
  if d.point < layout.leastPoint ∨ layout.greatestPoint < d.point then
    let e := d.point - 1
    let power := Nat.toDigits 10 e.natAbs
    d.digits.take 1 ++ (if 1 < count then '.' :: d.digits.drop 1 else [])
      ++ ['e', if e < 0 then '-' else '+'] ++ List.replicate (2 - power.length) '0' ++ power
  else if d.point ≤ 0 then
    '0' :: '.' :: (List.replicate d.point.natAbs '0' ++ d.digits)
  else if count ≤ d.point then
    d.digits ++ List.replicate (d.point - count).toNat '0' ++ ['.', '0']
  else d.digits.take d.point.toNat ++ '.' :: d.digits.drop d.point.toNat

def render (x : Float) : Text :=
  match classify x with
  | .nan => "nan".toList
  | .infinite negative => if negative then "-inf".toList else "inf".toList
  | .zero negative => if negative then "-0.0".toList else "0.0".toList
  | .finite negative b =>
    (if negative then ['-'] else []) ++ b.shortest.render .standard

def toInt? (x : Float) : Option Int :=
  match classify x with
  | .nan | .infinite _ => none
  | .zero _ => some 0
  | .finite negative b =>
    let r := Ratio.scale ⟨b.significand, 1⟩ 2 b.exponent
    if r.num % r.den = 0 then
      some (if negative then -((r.num / r.den : Nat) : Int) else ((r.num / r.den : Nat) : Int))
    else none

def isFinite (x : Float) : Bool :=
  match classify x with
  | .nan | .infinite _ => false
  | _ => true

/-! ## Reading -/

/-- The double-precision number nearest to `mantissa * 10 ^ exponent`. Exponents beyond those of
any such number are taken as the nearest that make no difference. -/
def toFloat (negative : Bool) (mantissa : Nat) (exponent : Int) : Float :=
  let size := (Nat.toDigits 10 mantissa).length
  let magnitude :=
    if mantissa = 0 ∨ exponent + size < -330 then 0.0
    else if 330 < exponent + size then Float.ofBits 0x7ff0000000000000
    else if exponent < 0 then Float.ofScientific mantissa true exponent.natAbs
    else Float.ofScientific mantissa false exponent.natAbs
  if negative then -magnitude else magnitude

end LayeredSettings.Decimal
