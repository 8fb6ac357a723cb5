import LayeredSettings.Text.Basic

/-!
# Keys

A key is a text read as segments with dots between them. `Key.relative` reads a key that starts
with dots against the key whose value mentions it, one level up for each dot, much as `../` is
read in a path:

    app.host    = localhost
    app.db.host = "${..host}"     app.db.host, app.db, app, app.host
-/

namespace LayeredSettings

namespace Key

/-- The segments of a key; the empty key has none. -/
def segments (key : Text) : List Text :=
  if key = [] then [] else Text.splitOn '.' key

def ofSegments (segments : List Text) : Text := Text.joinWith '.' segments

/-- The name `name` inside the block `block`; the empty block adds nothing. -/
def under (block name : Text) : Text :=
  if block = [] then name else block ++ '.' :: name

def ascent (key : Text) : Nat := (key.takeWhile (· = '.')).length

/-- Why a key that starts with dots names nothing. -/
inductive RelativeFault where
  /-- More dots than the base key has segments. -/
  | pastRoot (key base : Text)
  /-- Nothing but dots. -/
  | onlyDots (key : Text)
  deriving DecidableEq, Repr

/-- The key that `key` names inside the value of `base`. -/
def relative (base key : Text) : Except RelativeFault Text :=
  if ascent key = 0 then .ok key
  else if (segments base).length < ascent key then .error (.pastRoot key base)
  else if key.drop (ascent key) = [] then .error (.onlyDots key)
  else
    .ok (ofSegments
      ((segments base).take ((segments base).length - ascent key) ++ [key.drop (ascent key)]))

theorem ofSegments_segments (key : Text) : ofSegments (segments key) = key := by
  unfold segments ofSegments
  split
  · next h => simp [h, Text.joinWith]
  · exact Text.joinWith_splitOn '.' key

end Key

end LayeredSettings
