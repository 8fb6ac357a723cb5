/-!
# Texts

A text is the list of its characters, so that splitting, scanning and joining are recursions on
the text itself. `joinWith_splitOn` says that splitting at a separator loses nothing.
-/

namespace LayeredSettings

/-- A sequence of Unicode characters. A surrogate that stands alone is no character: sequences of
code points with such surrogates in them are left out. -/
abbrev Text := List Char

namespace Text

/-- The parts between the occurrences of `sep`; there is always at least one part. -/
def splitOn (sep : Char) : Text → List Text
  | [] => [[]]
  | c :: rest =>
    if c = sep then [] :: splitOn sep rest
    else
      match splitOn sep rest with
      | [] => [[c]]
      | part :: parts => (c :: part) :: parts

/-- The parts one after another, with `sep` between neighbours. -/
def joinWith (sep : Char) : List Text → Text
  | [] => []
  | [part] => part
  | part :: next :: parts => part ++ sep :: joinWith sep (next :: parts)

theorem joinWith_cons (sep : Char) (part : Text) (parts : List Text) :
    joinWith sep (part :: parts) = part ++ parts.flatMap (sep :: ·) := by
  induction parts generalizing part with
  | nil => simp [joinWith]
  | cons next parts ih =>
    rw [joinWith, ih, List.flatMap_cons]
    rfl

theorem splitOn_ne_nil (sep : Char) (t : Text) : splitOn sep t ≠ [] := by
  cases t with
  | nil => simp [splitOn]
  | cons c rest =>
    unfold splitOn
    split
    · simp
    · split <;> simp

theorem joinWith_cons_cons (sep c : Char) (part : Text) (parts : List Text) :
    joinWith sep ((c :: part) :: parts) = c :: joinWith sep (part :: parts) := by
  cases parts <;> rfl

theorem joinWith_splitOn (sep : Char) (t : Text) : joinWith sep (splitOn sep t) = t := by
  induction t with
  | nil => rfl
  | cons c rest ih =>
    unfold splitOn
    cases h : splitOn sep rest with
    | nil => exact absurd h (splitOn_ne_nil sep rest)
    | cons part parts =>
      rw [h] at ih
      split
      · next hc => simp [joinWith, ih, hc]
      · simp [joinWith_cons_cons, ih]

/-- Drops the longest run of characters of the class `p` from both ends. -/
def trim (p : Char → Bool) (t : Text) : Text :=
  ((t.dropWhile p).reverse.dropWhile p).reverse

/-- Drops the longest run of characters of the class `p` from the end. -/
def trimEnd (p : Char → Bool) (t : Text) : Text :=
  (t.reverse.dropWhile p).reverse

/-- Whether `t` comes before `u` or equals it, comparing by code points. -/
def le (t u : Text) : Bool := decide (¬ u < t)

def lines (ls : List Text) : Text := joinWith '\n' ls

end Text

end LayeredSettings
