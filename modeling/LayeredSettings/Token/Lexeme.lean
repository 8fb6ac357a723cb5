import LayeredSettings.Token.Lexer
import LayeredSettings.Transfer

/-!
# Lexemes

A text as the run of its tokens, each with its position, and the way in which the run ends. A
text may be torn, that is, break off at bytes that cannot be decoded or did not arrive; what can
only be told by looking at the end of such a text is then not told, and the run ends there.
-/

namespace LayeredSettings

/-- A token with the position it starts at. -/
structure Lexeme where
  token : Token
  start : Position
  deriving DecidableEq, Repr

/-- How a run of lexemes ends: with the text, at a fault, or at the tear of a torn text. -/
inductive Lexeme.Ending where
  | finish (position : Position)
  | fault (fault : Lexer.Fault)
  | torn (tear : Tear)
  deriving DecidableEq, Repr

/-- The lexemes of a text and the ending behind them. -/
structure Lexemes where
  run : List Lexeme
  ending : Lexeme.Ending
  deriving DecidableEq, Repr

namespace Lexemes

def cons (x : Lexeme) (xs : Lexemes) : Lexemes := { xs with run := x :: xs.run }

/-- The lexemes that a lexer reads, its text being torn if `tear` is given. -/
def ofLexer (tear : Option Tear) (l : Lexer) : Lexemes :=
  match if l.read.sawEnd then tear else none with
  | some e => ⟨[], .torn e⟩
  | none =>
    match _h : l.read.outcome with
    | .error f => ⟨[], .fault f⟩
    | .ok token =>
      if _ht : token = .finish then ⟨[], .finish l.read.start⟩
      else (ofLexer tear l.read.next).cons ⟨token, l.read.start⟩
termination_by l.left.length
decreasing_by exact Lexer.length_left_lt _h _ht

def ofText (t : Text) : Lexemes := ofLexer none (.ofText t)

end Lexemes

end LayeredSettings
