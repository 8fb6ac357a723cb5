import LayeredSettings.Text.Basic

/-!
# Paths

A path is a root or none and a list of names. Repeated slashes, single dots and a slash at the
end are dropped when a path is read; two dots are kept, since they may leave a linked directory.
-/

namespace LayeredSettings

/-- Where a path starts: at the working directory, at the root, or at a root written with two
slashes. -/
inductive Path.Anchor where
  | working
  | root
  | doubleRoot
  deriving DecidableEq, Repr

/-- A path as an anchor and the names to follow from there. -/
structure Path where
  anchor : Path.Anchor
  names : List Text
  deriving DecidableEq, Repr

namespace Path

/-- The anchor that a written path starts with. -/
def anchorOf : Text → Anchor
  | '/' :: '/' :: '/' :: _ => .root
  | '/' :: '/' :: _ => .doubleRoot
  | '/' :: _ => .root
  | _ => .working

def ofText (t : Text) : Path :=
  ⟨anchorOf t, (Text.splitOn '/' t).filter fun n => n ≠ [] ∧ n ≠ ['.']⟩

/-- The path as it is written; the empty path is a single dot. -/
def render (p : Path) : Text :=
  let names := Text.joinWith '/' p.names
  match p.anchor with
  | .working => if p.names = [] then ['.'] else names
  | .root => '/' :: names
  | .doubleRoot => '/' :: '/' :: names

/-- How many bytes a text takes when paths are handed to the system, which is in UTF-8. -/
def byteSize (t : Text) : Nat := t.foldl (fun n c => n + c.utf8Size) 0

end Path

end LayeredSettings
