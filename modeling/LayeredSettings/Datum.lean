import LayeredSettings.Decimal.Shortest
import LayeredSettings.Text.Inspect

/-!
# Data

Values of no fixed type, as options and arguments are given before they are checked.
-/

namespace LayeredSettings

/-- A value of no fixed type. -/
inductive Datum where
  | null
  | bool (b : Bool)
  | integer (n : Int)
  | real (x : Float)
  | text (t : Text)
  | list (items : List Datum)
  | record (fields : List (Text × Datum))
  deriving Inhabited

namespace Datum

def kindName : Datum → String
  | null => "NoneType"
  | bool _ => "bool"
  | integer _ => "int"
  | real _ => "float"
  | text _ => "str"
  | list _ => "list"
  | record _ => "dict"

/-- Texts with a comma and a space between neighbours. -/
def commaSeparated : List Text → Text
  | [] => []
  | [t] => t
  | t :: u :: ts => t ++ ',' :: ' ' :: commaSeparated (u :: ts)

mutual

def inspect : Datum → Text
  | null => "None".toList
  | bool b => if b then "True".toList else "False".toList
  | integer n => (toString n).toList
  | real x => Decimal.render x
  | text t => t.inspect
  | list items => '[' :: (commaSeparated (inspectItems items) ++ [']'])
  | record fields => '\x7b' :: (commaSeparated (inspectFields fields) ++ ['\x7d'])

def inspectItems : List Datum → List Text
  | [] => []
  | d :: ds => d.inspect :: inspectItems ds

def inspectFields : List (Text × Datum) → List Text
  | [] => []
  | (k, d) :: fs => (k.inspect ++ ':' :: ' ' :: d.inspect) :: inspectFields fs

end

/-- The field of a record; of several with one name the last. -/
def field? (name : String) : List (Text × Datum) → Option Datum
  | [] => none
  | (k, d) :: fs =>
    match field? name fs with
    | some d' => some d'
    | none => if k = name.toList then some d else none

end Datum

end LayeredSettings
