import LayeredSettings.Error
import LayeredSettings.Expansion.Frames
import LayeredSettings.Store.Basic

/-!
# Looking up and expanding

Settings that must exist, and values with their markers replaced. A marker inside a value is read
relative to the key of that value.
-/

namespace LayeredSettings.Store

/-- The value of a setting that must exist. -/
def get (host : Host) (s : Store) (key : Text) : Except Expansion.Error Text :=
  match s.query host key with
  | some value => .ok value
  | none => .error (.missing key)

/-- Whether a store shows a setting; only texts are keys. -/
def contains (host : Host) (s : Store) : Datum → Bool
  | .text key => (s.query host key).isSome
  | _ => false

/-- Looks up the markers in the value of `base`, and those at the top level if `base` is empty. -/
def resolver (host : Host) (s : Store) : Expansion.Resolver Text := fun base key =>
  match Key.relative base key with
  | .error fault => .error (.relative fault)
  | .ok effective => (s.get host effective).map fun value => (value, effective)

/-- Replaces the markers of a template by the settings they name. -/
def expand (host : Host) (s : Store) (ceiling : Expansion.Ceiling) (template : Text) :
    Except Expansion.Error Text :=
  (Expansion.expand (s.resolver host) ceiling [] template).result

/-- The value of a setting with its markers replaced. -/
def resolve (host : Host) (s : Store) (ceiling : Expansion.Ceiling) (key : Text) :
    Except Expansion.Error Text :=
  match s.get host key with
  | .error e => .error e
  | .ok value => (Expansion.expand (s.resolver host) ceiling key value).result

end LayeredSettings.Store
