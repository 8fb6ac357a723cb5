import LayeredSettings.Document.Reader
import LayeredSettings.Error
import LayeredSettings.Store.Basic

/-!
# Making stores

Stores made of entries, of arguments of no fixed type, and of configuration text.
-/

namespace LayeredSettings

/-- The whole number that a datum equals, truth values being zero and one. -/
def Datum.whole? : Datum → Option Int
  | .bool b => some (if b then 1 else 0)
  | .integer n => some n
  | .real x => Decimal.toInt? x
  | _ => none

/-- Whether two keys of no fixed type are the same key. Numbers are compared by value. -/
def Datum.sameKey : Datum → Datum → Bool
  | .null, .null => true
  | .text t, .text u => t = u
  | .real x, .real y => x == y
  | a, b => a.whole?.isSome && a.whole? == b.whole?

/-- Whether a datum may be a key. -/
def Datum.isUsableKey : Datum → Bool
  | .list _ | .record _ => false
  | _ => true

namespace Store

/-- Sets a key of no fixed type; a key that is already set keeps its place. -/
def putDatum (key value : Datum) : List (Datum × Datum) → List (Datum × Datum)
  | [] => [(key, value)]
  | e :: rest =>
    if e.1.sameKey key then (e.1, value) :: rest else e :: putDatum key value rest

/-- The mapping that pairs of no fixed type give. -/
def mappingOf (pairs : List (Datum × Datum)) : Except Failure (List (Datum × Datum)) :=
  pairs.foldlM (fun m p =>
    if p.1.isUsableKey then .ok (putDatum p.1 p.2 m) else .error (.unusableKey p.1)) []

/-- The entries of a mapping whose keys and values are all texts. -/
def textual : List (Datum × Datum) → Except Failure (List Entry)
  | [] => .ok []
  | (.text k, .text v) :: rest => (textual rest).map ((k, v) :: ·)
  | (k, v) :: _ => .error (.notTextual k v)

def ofEntries (es : List Entry) : Store := .mapped (Settings.ofList es)

/-- The store that holds pairs of no fixed type, which must be texts. -/
def ofPairs (pairs : List (Datum × Datum)) : Except Failure Store := do
  let mapping ← mappingOf pairs
  let es ← textual mapping
  return ofEntries es

/-- The pairs that alternating keys and values make. -/
def pairUp : List Datum → List (Datum × Datum)
  | k :: v :: rest => (k, v) :: pairUp rest
  | _ => []

def ofArguments (args : List Datum) : Except Failure Store :=
  if args.length % 2 = 1 then .error .oddArguments else ofPairs (pairUp args)

/-- Layers a store over what must be a store. -/
def composeWith (s : Store) : Store ⊕ Datum → Except Failure Store
  | .inl defaults => .ok (s.compose defaults)
  | .inr value => .error (.notStore value)

end Store

/-- The settings of a configuration text from `source`, over `defaults`. -/
def parseText (text source : Text) (defaults : Settings) (strict : Bool) :
    Except Failure Settings :=
  (Document.ofText strict defaults text).mapError (Document.Fault.inSource source)

/-- The store that holds the settings of a configuration text. -/
def Store.ofText (text source : Text) (strict : Bool) : Except Failure Store :=
  (parseText text source .empty strict).map .mapped

end LayeredSettings
