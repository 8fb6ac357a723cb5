import LayeredSettings.Token.Lexeme

/-!
# Faults of a document

Why the lexemes of a text form no document.
-/

namespace LayeredSettings.Document

/-- What the grammar required instead of the token found. -/
inductive Reason where
  | valueExpected
  | wordExpected
  | assignmentExpected
  /-- The block `key` is still open. -/
  | closeExpected (key : Text)
  | endExpected
  deriving DecidableEq, Repr

inductive Fault where
  | lexical (fault : Lexer.Fault)
  | grammar (position : Position) (reason : Reason)
  | duplicate (position : Position) (key : Text)
  | torn (tear : Tear)
  deriving DecidableEq, Repr

/-- The fault of a document that goes on with `ls` where `reason` says what was required. -/
def refuse (ending : Lexeme.Ending) (ls : List Lexeme) (reason : Reason) : Fault :=
  match ls, ending with
  | x :: _, _ => .grammar x.start reason
  | [], .finish p => .grammar p reason
  | [], .fault f => .lexical f
  | [], .torn e => .torn e

end LayeredSettings.Document
