import LayeredSettings.Text.Basic

/-!
# Patterns

Regular patterns of texts, matched by derivatives: what remains to be matched behind a character
is again a pattern.
-/

namespace LayeredSettings

inductive Pattern where
  /-- Matches nothing. -/
  | never
  /-- Matches the empty text. -/
  | done
  /-- Matches one character of a class. -/
  | one (p : Char → Bool)
  | seq (a b : Pattern)
  | alt (a b : Pattern)
  | star (a : Pattern)

namespace Pattern

def nullable : Pattern → Bool
  | never => false
  | done => true
  | one _ => false
  | seq a b => a.nullable && b.nullable
  | alt a b => a.nullable || b.nullable
  | star _ => true

/-- One pattern behind another, simplified where one of them is trivial. -/
def andThen : Pattern → Pattern → Pattern
  | never, _ => never
  | done, b => b
  | _, never => never
  | a, b => seq a b

/-- Either of two patterns, simplified where one of them is trivial. -/
def orElse : Pattern → Pattern → Pattern
  | never, b => b
  | a, never => a
  | a, b => alt a b

/-- What remains to be matched behind a character. -/
def behind (c : Char) : Pattern → Pattern
  | never => never
  | done => never
  | one p => if p c then done else never
  | seq a b =>
    if a.nullable then orElse (andThen (a.behind c) b) (b.behind c)
    else andThen (a.behind c) b
  | alt a b => orElse (a.behind c) (b.behind c)
  | star a => andThen (a.behind c) (star a)

def accepts (p : Pattern) (t : Text) : Bool := (t.foldl (fun p c => p.behind c) p).nullable

/-! ## Common patterns -/

def char (c : Char) : Pattern := one (· = c)

def oneOf (s : String) : Pattern := one fun c => s.toList.contains c

def exactly (s : String) : Pattern := s.toList.foldr (fun c p => seq (char c) p) done

def any (ps : List Pattern) : Pattern := ps.foldr alt never

def all (ps : List Pattern) : Pattern := ps.foldr seq done

def optional (p : Pattern) : Pattern := alt p done

def plus (p : Pattern) : Pattern := seq p (star p)

end Pattern

end LayeredSettings
