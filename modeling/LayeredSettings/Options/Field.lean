import LayeredSettings.Datum
import LayeredSettings.Encoding.Basic
import LayeredSettings.Text.Ascii
import LayeredSettings.Text.Space

/-!
# Fields

How a field of an options record is checked. Checking is lenient: numbers and truth values may be
given as texts, and numbers as other kinds of numbers where nothing is lost. The rules of this
leniency are there so that the checks can run; no theorem rests on them, since statements about
options speak of records that were checked.
-/

namespace LayeredSettings.Field

inductive Problem where
  | missing
  | notText
  | notInteger
  | unreadableInteger
  | fractional
  | infinite
  | tooLarge
  | notNumber
  | unreadableNumber
  | notBoolean
  | unreadableBoolean
  | lessThan (bound : Int)
  | notMoreThan (bound : Int)
  | unknownEncoding (label : Text)
  | nullCharacter
  deriving DecidableEq, Repr

structure Error where
  field : String
  problem : Problem
  deriving DecidableEq, Repr

def Problem.message : Problem → String
  | missing => "Field required"
  | notText => "Input should be a valid string"
  | notInteger => "Input should be a valid integer"
  | unreadableInteger =>
    "Input should be a valid integer, unable to parse string as an integer"
  | fractional => "Input should be a valid integer, got a number with a fractional part"
  | infinite => "Input should be a finite number"
  | tooLarge => "Unable to parse input string as an integer, exceeded maximum size"
  | notNumber => "Input should be a valid number"
  | unreadableNumber => "Input should be a valid number, unable to parse string as a number"
  | notBoolean => "Input should be a valid boolean"
  | unreadableBoolean => "Input should be a valid boolean, unable to interpret input"
  | lessThan bound => "Input should be greater than or equal to " ++ toString bound
  | notMoreThan bound => "Input should be greater than " ++ toString bound
  | unknownEncoding label => "Value error, Unknown encoding: " ++ String.ofList label
  | nullCharacter => "Value error, embedded null character"

def Problem.code : Problem → String
  | missing => "missing"
  | notText => "string_type"
  | notInteger => "int_type"
  | unreadableInteger => "int_parsing"
  | fractional => "int_from_float"
  | infinite => "finite_number"
  | tooLarge => "int_parsing_size"
  | notNumber => "float_type"
  | unreadableNumber => "float_parsing"
  | notBoolean => "bool_type"
  | unreadableBoolean => "bool_parsing"
  | lessThan _ => "greater_than_equal"
  | notMoreThan _ => "greater_than"
  | unknownEncoding _ | nullCharacter => "value_error"

def Error.message (e : Error) : String :=
  e.field ++ ": " ++ e.problem.message ++ " [" ++ e.problem.code ++ "]"

/-! ## Numbers in texts -/

def mostDigits : Nat := 4300

/-- A text without a minus in front, and whether it had one. -/
def splitMinus : Text → Bool × Text
  | '-' :: rest => (true, rest)
  | t => (false, t)

/-- A whole number in its plain form: a minus or none, and digits that start with a zero only if
there is no other. -/
def plainInteger? (t : Text) : Option Int :=
  let (negative, digits) := splitMinus t
  if mostDigits < digits.length ∨ (digits.head? = some '0' ∧ 1 < digits.length) then none
  else (Text.natural? digits).map fun n => if negative then -(n : Int) else n

/-- Whether a text starts with a whole number in plain form that has too many digits, whatever
follows. -/
def startsTooLong (t : Text) : Bool :=
  let digits := (splitMinus t).2.takeWhile Text.isDigit
  digits.head? ≠ some '0' && mostDigits < digits.length

/-- Drops zeros and underscores, `last` being the character before them. Of zeros alone, or zeros
before a point, the last is kept. A minus may stand behind the zeros. -/
def dropZerosAfter (last : Char) : Text → Option Text
  | [] => some [last]
  | c :: rest =>
    if c = '0' ∨ c = '_' then dropZerosAfter c rest
    else if Text.isDigit c ∨ c = '-' then some (c :: rest)
    else if c = '.' then some (last :: c :: rest)
    else none

/-- Drops leading zeros and the underscores between them. A text that does not start with a digit
is no number. -/
def dropZeros? : Text → Option Text
  | '0' :: rest => dropZerosAfter '0' rest
  | c :: rest => if Text.isDigit c then some (c :: rest) else none
  | [] => none

/-- Drops a point with zeros and nothing else behind it. -/
def dropFraction (t : Text) : Text :=
  match t.dropWhile (· ≠ '.') with
  | _ :: '0' :: zeros => if zeros.all (· = '0') then t.takeWhile (· ≠ '.') else t
  | _ => t

def hasDoubleUnderscore : Text → Bool
  | '_' :: '_' :: _ => true
  | _ :: rest => hasDoubleUnderscore rest
  | [] => false

/-- Drops underscores if each stands between two other characters. -/
def dropUnderscores (t : Text) : Text :=
  if t.head? = some '_' ∨ t.getLast? = some '_' ∨ hasDoubleUnderscore t then t
  else t.filter (· ≠ '_')

/-- The whole number that a text stands for. White space around it, a sign, leading zeros, single
underscores and a fraction of zeros are allowed. -/
def integerOfText? (t : Text) : Option Int := do
  let (sign, digits) : Text × Text :=
    match Text.trim Text.isWhiteSpace t with
    | '+' :: rest => ([], rest)
    | '-' :: rest => (['-'], rest)
    | rest => ([], rest)
  plainInteger? (sign ++ dropUnderscores (dropFraction (← dropZeros? digits)))

/-- The number that decimal digits, a fraction or none and an exponent or none stand for. -/
def decimalOfText? (negative : Bool) (t : Text) : Option Float :=
  let whole := t.takeWhile Text.isDigit
  let rest := t.dropWhile Text.isDigit
  let (fraction, rest) :=
    match rest with
    | '.' :: r => (r.takeWhile Text.isDigit, r.dropWhile Text.isDigit)
    | _ => ([], rest)
  let exponent? : Option Int :=
    match rest with
    | [] => some 0
    | c :: r =>
      if c = 'e' ∨ c = 'E' then
        match r with
        | '-' :: digits => (Text.natural? digits).map fun n => -(n : Int)
        | '+' :: digits => (Text.natural? digits).map fun n => (n : Int)
        | digits => (Text.natural? digits).map fun n => (n : Int)
      else none
  match Text.natural? (whole ++ fraction), exponent? with
  | some mantissa, some exponent =>
    some (Decimal.toFloat negative mantissa (exponent - fraction.length))
  | _, _ => none

/-- The number that a text without white space around it stands for. -/
def signedOfText? (t : Text) : Option Float :=
  let (negative, t) :=
    match t with
    | '-' :: rest => (true, rest)
    | '+' :: rest => (false, rest)
    | _ => (false, t)
  let name := String.ofList (t.map Char.toLower)
  if name = "inf" ∨ name = "infinity" then some (if negative then -1.0 / 0.0 else 1.0 / 0.0)
  else if name = "nan" then some (0.0 / 0.0)
  else decimalOfText? negative t

/-- The number that a text stands for. It may have white space around it or single underscores in
it, but not both. -/
def realOfText? (t : Text) : Option Float :=
  (signedOfText? (Text.trim Text.isWhiteSpace t)).or (signedOfText? (dropUnderscores t))

/-! ## Checks -/

/-- A check of a field's value. -/
abbrev Check (α : Type) := Datum → Except Problem α

def text : Check Text
  | .text t => .ok t
  | _ => .error .notText

/-- The whole number that a real number equals. It must lie between the ends of the range of 64-bit
integers. -/
def integerOfReal (x : Float) : Except Problem Int :=
  if !Decimal.isFinite x then .error .infinite
  else
    match Decimal.toInt? x with
    | none => .error .fractional
    | some n => if -0x8000000000000000 < n ∧ n < 0x8000000000000000 then .ok n else .error .tooLarge

/-- Accepts whole numbers, in whatever form they are given. -/
def integer : Check Int
  | .integer n => .ok n
  | .bool b => .ok (if b then 1 else 0)
  | .real x => integerOfReal x
  | .text t =>
    if startsTooLong t then .error .tooLarge
    else
      match integerOfText? t with
      | some n => .ok n
      | none => .error .unreadableInteger
  | _ => .error .notInteger

def integerFrom (bound : Int) : Check Int := fun d => do
  let n ← integer d
  if n < bound then throw (.lessThan bound) else pure n

/-- Accepts numbers, in whatever form they are given. -/
def real : Check Float
  | .real x => .ok x
  | .bool b => .ok (if b then 1.0 else 0.0)
  | .integer n =>
    let x := Decimal.toFloat (n < 0) n.natAbs 0
    if Decimal.isFinite x then .ok x else .error .notNumber
  | .text t =>
    match realOfText? t with
    | some x => .ok x
    | none => .error .unreadableNumber
  | _ => .error .notNumber

def positive : Check Float := fun d => do
  let x ← real d
  if x > 0.0 then pure x else throw (.notMoreThan 0)

def booleanOfText? (t : Text) : Option Bool :=
  let name := String.ofList (t.map Char.toLower)
  if ["0", "off", "f", "false", "n", "no"].contains name then some false
  else if ["1", "on", "t", "true", "y", "yes"].contains name then some true
  else none

def booleanOfInteger (n : Int) : Except Problem Bool :=
  if n = 0 then .ok false else if n = 1 then .ok true else .error .unreadableBoolean

/-- Accepts truth values, also as zero and one and by name. A whole number beyond 64 bits is not
even read as one. -/
def boolean : Check Bool
  | .bool b => .ok b
  | .integer n =>
    if -0x8000000000000000 ≤ n ∧ n < 0x8000000000000000 then booleanOfInteger n
    else .error .notBoolean
  | .real x =>
    match integerOfReal x with
    | .ok n => booleanOfInteger n
    | .error _ => .error .notBoolean
  | .text t =>
    match booleanOfText? t with
    | some b => .ok b
    | none => .error .unreadableBoolean
  | _ => .error .notBoolean

/-- Accepts the labels of encodings, `further?` telling those that are not built in. -/
def encoding (further? : Text → Option Encoding) : Check Encoding := fun d => do
  let label ← text d
  if label.contains '\x00' then throw .nullCharacter
  match Encoding.ofLabel? further? label with
  | some e => pure e
  | none => throw (.unknownEncoding label)

/-! ## Records -/

/-- The checked value of the field `name`, or `default?` if it is absent. -/
def get {α : Type} (name : String) (default? : Option α) (check : Check α)
    (fields : List (Text × Datum)) : Except (List Error) α :=
  match Datum.field? name fields with
  | some d => (check d).mapError fun p => [⟨name, p⟩]
  | none =>
    match default? with
    | some a => .ok a
    | none => .error [⟨name, .missing⟩]

/-- Two checked values; the errors of both are kept. -/
def both {α β : Type} (a : Except (List Error) α) (b : Except (List Error) β) :
    Except (List Error) (α × β) :=
  match a, b with
  | .ok a, .ok b => .ok (a, b)
  | .error e, .ok _ => .error e
  | .ok _, .error e => .error e
  | .error e, .error e' => .error (e ++ e')

def messages (es : List Error) : String := "; ".intercalate (es.map Error.message)

end LayeredSettings.Field
