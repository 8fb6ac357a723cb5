import LayeredSettings.Text.Basic

/-!
# Positions and locations

A position counts the characters before a place in a text and the lines begun up to it. A
location is a position in a named source. `Position.after_append` lets a text be read in pieces.
-/

namespace LayeredSettings

/-- A place in a text: the characters before it, and its line, the first being line 1. -/
structure Position where
  offset : Nat := 0
  line : Nat := 1
  deriving DecidableEq, Repr, Inhabited

namespace Position

def next (p : Position) (c : Char) : Position :=
  ⟨p.offset + 1, if c = '\n' then p.line + 1 else p.line⟩

/-- The position behind a text that starts at `p`. -/
def after (p : Position) (t : Text) : Position := t.foldl next p

@[simp] theorem after_nil (p : Position) : p.after [] = p := rfl

@[simp] theorem after_cons (p : Position) (c : Char) (t : Text) :
    p.after (c :: t) = (p.next c).after t := rfl

theorem after_append (p : Position) (t u : Text) : p.after (t ++ u) = (p.after t).after u :=
  List.foldl_append

theorem after_eq (p : Position) (t : Text) :
    p.after t = ⟨p.offset + t.length, p.line + t.count '\n'⟩ := by
  induction t generalizing p with
  | nil => rfl
  | cons c t ih =>
    rw [after_cons, ih, next]
    by_cases h : c = '\n' <;> simp [h] <;> omega

end Position

/-- A position in a source, which is named by a path, a URL or a label. -/
structure Location where
  source : Text
  position : Position := {}
  deriving DecidableEq, Repr, Inhabited

/-- The location as diagnostics show it: `SOURCE(OFFSET):LINE`. -/
def Location.render (l : Location) : String :=
  String.ofList l.source ++ "(" ++ toString l.position.offset ++ "):" ++ toString l.position.line

end LayeredSettings
