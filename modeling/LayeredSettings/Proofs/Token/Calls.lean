import LayeredSettings.Token.Lexer

/-!
# Calls of a lexer

A lexer may be read again and again, behind a fault and behind the end of the text too. A call
shows a report (`Report`), and it takes a gap and what stands behind the gap up to where the lexer
stops (`Taken`). What the calls have taken in all therefore says where the lexer stands
(`inside_calls`).
-/

namespace LayeredSettings.Lexer

open Token

/-- What a call shows: a token or a fault, where the token starts, and where the lexer stops. -/
structure Report where
  outcome : Except Fault Token
  start : Position
  stop : Position

def report (l : Lexer) : Report := ⟨l.read.outcome, l.read.start, l.read.next.position⟩

/-- The lexer behind `n` calls. -/
def calls (l : Lexer) : Nat → Lexer
  | 0 => l
  | n + 1 => (l.calls n).read.next

/-- What the next `n` calls show. -/
def reports (l : Lexer) : Nat → List Report
  | 0 => []
  | n + 1 => l.report :: l.read.next.reports n

/-! ## What a call takes -/

/-- A reading at `p` in front of `t` takes `gap`, behind which the token starts, and `span`. Faults
are placed at one of the two ends of `span`. -/
structure Taken (r : Reading) (p : Position) (t gap span : Text) : Prop where
  text : t = gap ++ (span ++ r.next.left)
  start : r.start = p.after gap
  stop : r.next.position = r.start.after span
  fault : ∀ f, r.outcome = .error f → f.position = r.start ∨ f.position = r.next.position

section Readings

variable (p : Position) (carried : Text)

theorem taken_readName (t : Text) :
    Taken (readName p carried t) p t [] (t.takeWhile isNameChar) where
  text := List.takeWhile_append_dropWhile.symm
  start := rfl
  stop := rfl
  fault := by
    intro f hf
    cases hf

theorem taken_readNumber (t : Text) :
    Taken (readNumber p carried t) p t [] (Number.scan .start t).1 where
  text := (Number.scan_append .start t).symm
  start := rfl
  stop := rfl
  fault := by
    intro f hf
    simp only [readNumber] at hf
    split at hf
    · cases hf
    · cases hf
      exact .inl rfl

theorem taken_readLiteral (t : Text) :
    Taken (readLiteral p carried t) p ('"' :: t) [] ('"' :: (Quoted.scan t).taken) := by
  have ht := congrArg ('"' :: ·) (Quoted.taken_append_left t).symm
  unfold readLiteral
  simp only
  split
  · exact ⟨ht, rfl, rfl, fun f hf => by cases hf⟩
  · exact ⟨ht, rfl, rfl, fun f hf => by cases hf; exact .inl rfl⟩
  · exact ⟨ht, rfl, rfl, fun f hf => by cases hf; exact .inr rfl⟩

theorem exists_taken_readToken (t : Text) : ∃ span, Taken (readToken p carried t) p t [] span := by
  cases t with
  | nil => exact ⟨[], rfl, rfl, rfl, fun f hf => by cases hf⟩
  | cons c rest =>
    rcases readToken_cases c rest with ⟨m, -, hr⟩ | ⟨rfl, hr⟩ | ⟨-, hr⟩ | ⟨-, hr⟩ | hr
    · rw [hr]
      exact ⟨[c], rfl, rfl, rfl, fun f hf => by cases hf⟩
    · rw [hr]
      exact ⟨_, taken_readLiteral p carried rest⟩
    · rw [hr]
      exact ⟨_, taken_readNumber p carried (c :: rest)⟩
    · rw [hr]
      exact ⟨_, taken_readName p carried (c :: rest)⟩
    · rw [hr]
      exact ⟨[], rfl, rfl, rfl, fun f hf => by cases hf; exact .inl rfl⟩

end Readings

theorem gap_append_rest (comment : Bool) (t : Text) :
    (gap comment t).1 ++ (gap comment t).2 = t := by
  induction t generalizing comment with
  | nil => rfl
  | cons c t ih =>
    unfold gap
    repeat' split
    all_goals first
      | rfl
      | exact congrArg (c :: ·) (ih _)

theorem exists_taken (l : Lexer) : ∃ gap span, Taken l.read l.position l.left gap span := by
  obtain ⟨span, htext, hstart, hstop, hfault⟩ := exists_taken_readToken
    (l.position.after (gap false l.left).1) l.carried (gap false l.left).2
  refine ⟨(gap false l.left).1, span, ?_, hstart, hstop, hfault⟩
  have hgap := gap_append_rest false l.left
  rw [htext] at hgap
  exact hgap.symm

/-! ## Where a lexer stands -/

/-- The lexer stands inside `t`, where the characters end that it has taken. -/
def Inside (l : Lexer) (t : Text) : Prop :=
  ∃ taken, t = taken ++ l.left ∧ l.position = Position.after {} taken

theorem inside_ofText (t : Text) : (ofText t).Inside t := ⟨[], rfl, rfl⟩

theorem Inside.next {t : Text} {l : Lexer} (h : l.Inside t) : l.read.next.Inside t := by
  obtain ⟨taken, rfl, hp⟩ := h
  obtain ⟨gap, span, htext, hstart, hstop, -⟩ := exists_taken l
  refine ⟨taken ++ (gap ++ span), ?_, ?_⟩
  · rw [htext, List.append_assoc, List.append_assoc]
  · rw [hstop, hstart, hp, Position.after_append, Position.after_append]

/-- However often a new lexer is read, it stands inside its text. -/
theorem inside_calls (t : Text) (n : Nat) : ((ofText t).calls n).Inside t := by
  induction n with
  | zero => exact inside_ofText t
  | succ n ih => exact ih.next

end LayeredSettings.Lexer
