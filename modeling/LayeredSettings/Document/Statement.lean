import LayeredSettings.Document.Fault

/-!
# Statements

A document is a run of statements:

    body      := statement*
    statement := key '=' key | key '{' body '}'
    key       := WORD ('.' WORD)*

A statement is read up to the end of its value or to the brace that opens its block.
-/

namespace LayeredSettings.Document

/-- The words of a key behind its first word, and the lexemes behind the key. -/
def moreWords (ending : Lexeme.Ending) : List Lexeme → Except Fault (List Text × List Lexeme)
  | [] =>
    match ending with
    | .finish _ => .ok ([], [])
    | _ => .error (refuse ending [] .wordExpected)
  | ⟨.dot, _⟩ :: ⟨.word w, _⟩ :: rest =>
    match moreWords ending rest with
    | .ok (ws, rest') => .ok (w :: ws, rest')
    | .error e => .error e
  | ⟨.dot, _⟩ :: rest => .error (refuse ending rest .wordExpected)
  | rest => .ok ([], rest)

/-- A statement: an assignment, or the opening of a block. -/
inductive Statement where
  | assignment (key value : List Text)
  | block (key : List Text)
  deriving DecidableEq, Repr

/-- What stands behind the key of a statement, and the lexemes behind that. -/
def afterKey (ending : Lexeme.Ending) (key : List Text) :
    List Lexeme → Except Fault (Statement × List Lexeme)
  | ⟨.equal, _⟩ :: ⟨.word v, _⟩ :: rest =>
    match moreWords ending rest with
    | .ok (vs, rest') => .ok (.assignment key (v :: vs), rest')
    | .error e => .error e
  | ⟨.equal, _⟩ :: rest => .error (refuse ending rest .valueExpected)
  | ⟨.opening, _⟩ :: rest => .ok (.block key, rest)
  | rest => .error (refuse ending rest .assignmentExpected)

/-- The statement that starts with the word `w`, and the lexemes behind it. -/
def statement (ending : Lexeme.Ending) (w : Text) (ls : List Lexeme) :
    Except Fault (Statement × List Lexeme) :=
  match moreWords ending ls with
  | .ok (ws, rest) => afterKey ending (w :: ws) rest
  | .error e => .error e

/-! ## Progress -/

theorem length_moreWords_le {ending : Lexeme.Ending} {ls rest : List Lexeme} {ws : List Text}
    (h : moreWords ending ls = .ok (ws, rest)) : rest.length ≤ ls.length := by
  fun_induction moreWords ending ls generalizing ws rest with
  | case1 =>
    cases h
    exact Nat.le_refl _
  | case2 => cases h
  | case3 _ _ _ _ _ _ hm ih =>
    cases h
    exact Nat.le_succ_of_le (Nat.le_succ_of_le (ih hm))
  | case4 => cases h
  | case5 => cases h
  | case6 =>
    cases h
    exact Nat.le_refl _

theorem length_afterKey_le {ending : Lexeme.Ending} {key : List Text} {ls rest : List Lexeme}
    {s : Statement} (h : afterKey ending key ls = .ok (s, rest)) : rest.length ≤ ls.length := by
  unfold afterKey at h
  split at h
  · split at h
    · next hm =>
      cases h
      have := length_moreWords_le hm
      simp only [List.length_cons]
      omega
    · cases h
  · cases h
  · cases h
    simp
  · cases h

/-- Reading a statement takes lexemes away. -/
theorem length_statement_le {ending : Lexeme.Ending} {w : Text} {ls rest : List Lexeme}
    {s : Statement} (h : statement ending w ls = .ok (s, rest)) : rest.length ≤ ls.length := by
  unfold statement at h
  split at h
  · next hm => exact Nat.le_trans (length_afterKey_le h) (length_moreWords_le hm)
  · cases h

end LayeredSettings.Document
