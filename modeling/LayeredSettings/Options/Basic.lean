import LayeredSettings.Expansion.Basic
import LayeredSettings.Location
import LayeredSettings.Options.Field

/-!
# Options

The options of loading and expanding, checked when they are given. All failing fields of a record
are reported, in the order in which the record declares them.
-/

namespace LayeredSettings

structure LoadOptions where
  strict : Bool := false
  encoding : Encoding := .utf8
  /-- How long to wait for a URL, in seconds. -/
  timeout : Float := 30.0

/-- The options of loading, `further?` telling the encodings that are not built in. -/
def LoadOptions.ofFields (further? : Text → Option Encoding) (fields : List (Text × Datum)) :
    Except (List Field.Error) LoadOptions := do
  let (strict, encoding, timeout) ←
    Field.both (Field.get "strict_mode" (some false) Field.boolean fields)
      (Field.both (Field.get "encoding" (some .utf8) (Field.encoding further?) fields)
        (Field.get "timeout_seconds" (some 30.0) Field.positive fields))
  return { strict, encoding, timeout }

def Expansion.Ceiling.ofFields (fields : List (Text × Datum)) :
    Except (List Field.Error) Expansion.Ceiling := do
  let n ← Field.get "max_depth" (some (standard.depth : Int)) (Field.integerFrom least) fields
  match ofInt? n with
  | some c => return c
  | none => throw [⟨"max_depth", .lessThan least⟩]

def Location.ofFields (fields : List (Text × Datum)) : Except (List Field.Error) Location := do
  let (source, offset, line) ←
    Field.both (Field.get "source" none Field.text fields)
      (Field.both (Field.get "offset" (some 0) (Field.integerFrom 0) fields)
        (Field.get "line" (some 1) (Field.integerFrom 1) fields))
  return { source, position := ⟨offset.toNat, line.toNat⟩ }

end LayeredSettings
