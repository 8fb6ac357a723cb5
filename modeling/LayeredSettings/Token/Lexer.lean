import LayeredSettings.Location
import LayeredSettings.Text.Quoted
import LayeredSettings.Token.Number

/-!
# Reading tokens

A lexer holds the unread text and its position. `Lexer.read` skips blanks and comments and reads
one token; a malformed token is a fault, and the lexer may be read again from where it then
stands. `Lexer.length_left_lt` says that every token but the last takes characters, so that a
text has finitely many tokens.
-/

namespace LayeredSettings

open Token

inductive Lexer.Reason where
  | unexpectedCharacter (c : Char)
  | unterminatedLiteral
  | unicodeEscape
  | unsupportedEscape (sign : Char)
  | malformedNumber (text : Text)
  deriving DecidableEq, Repr

/-- A reason with the position it is reported at. -/
structure Lexer.Fault where
  reason : Lexer.Reason
  position : Position
  deriving DecidableEq, Repr

/-- The unread text, its position, and the characters of failed literals, which come in front of
the next word. -/
structure Lexer where
  left : Text
  position : Position := {}
  carried : Text := []
  deriving DecidableEq, Repr

namespace Lexer

def ofText (t : Text) : Lexer := { left := t }

/-- Splits off what stands before the next token: blanks, and comments up to and including the
next line feed. The flag says that a comment is open. -/
def gap (comment : Bool) : Text → Text × Text
  | [] => ([], [])
  | c :: rest =>
    if comment then
      let r := gap (c != '\n') rest
      (c :: r.1, r.2)
    else if c = '#' then
      let r := gap true rest
      (c :: r.1, r.2)
    else if isBlank c then
      let r := gap false rest
      (c :: r.1, r.2)
    else ([], c :: rest)

/-- What one call of `read` gives: a token or a fault, the position the token starts at, the lexer
behind it, and whether the end of the text was seen on the way. -/
structure Reading where
  outcome : Except Fault Token
  start : Position
  next : Lexer
  sawEnd : Bool

def readName (start : Position) (carried t : Text) : Reading :=
  let name := t.takeWhile isNameChar
  let left := t.dropWhile isNameChar
  { outcome := .ok (.word (carried ++ name))
    start
    next := { left, position := start.after name }
    sawEnd := left.isEmpty }

def readNumber (start : Position) (carried t : Text) : Reading :=
  let r := Number.scan .start t
  { outcome :=
      if r.2.2.accepts then .ok (.word (carried ++ r.1))
      else .error ⟨.malformedNumber (carried ++ r.1), start⟩
    start
    next := { left := r.2.1, position := start.after r.1 }
    sawEnd := r.2.1.isEmpty }

/-- Reads a quoted literal whose opening quote is taken. -/
def readLiteral (start : Position) (carried t : Text) : Reading :=
  let scan := Quoted.scan t
  let position := start.after ('"' :: scan.taken)
  let failed : Lexer := { left := scan.left, position, carried := carried ++ scan.decoded }
  match scan.close with
  | .closed =>
    { outcome := .ok (.word (carried ++ scan.decoded))
      start
      next := { left := scan.left, position }
      sawEnd := false }
  | .unterminated =>
    { outcome := .error ⟨.unterminatedLiteral, start⟩, start, next := failed, sawEnd := true }
  | .escape sign =>
    { outcome :=
        .error ⟨if sign = 'u' then .unicodeEscape else .unsupportedEscape sign, position⟩
      start, next := failed, sawEnd := false }

/-- Reads the token that `t` starts with; nothing is skipped before it. -/
def readToken (start : Position) (carried : Text) : Text → Reading
  | [] =>
    { outcome := .ok .finish, start, next := ⟨[], start, carried⟩, sawEnd := true }
  | c :: rest =>
    match ofMark? c with
    | some mark =>
      { outcome := .ok mark, start, next := ⟨rest, start.next c, carried⟩, sawEnd := false }
    | none =>
      if c = '"' then readLiteral start carried rest
      else if isSign c || Text.isDigit c then readNumber start carried (c :: rest)
      else if isNameStart c then readName start carried (c :: rest)
      else
        { outcome := .error ⟨.unexpectedCharacter c, start⟩
          start, next := ⟨c :: rest, start, carried⟩, sawEnd := false }

def read (l : Lexer) : Reading :=
  let g := gap false l.left
  readToken (l.position.after g.1) l.carried g.2

/-- What can stand where a token is read, whatever the position and the characters carried. -/
theorem readToken_cases (c : Char) (rest : Text) :
    (∃ m, ofMark? c = some m ∧ ∀ start carried, readToken start carried (c :: rest) =
      ⟨.ok m, start, ⟨rest, start.next c, carried⟩, false⟩) ∨
    (c = '"' ∧ ∀ start carried, readToken start carried (c :: rest) =
      readLiteral start carried rest) ∨
    ((isSign c || Text.isDigit c) = true ∧ ∀ start carried, readToken start carried (c :: rest) =
      readNumber start carried (c :: rest)) ∨
    (isNameStart c = true ∧ ∀ start carried, readToken start carried (c :: rest) =
      readName start carried (c :: rest)) ∨
    ∀ start carried, readToken start carried (c :: rest) =
      ⟨.error ⟨.unexpectedCharacter c, start⟩, start, ⟨c :: rest, start, carried⟩, false⟩ := by
  cases hm : ofMark? c with
  | some m => exact .inl ⟨m, rfl, fun _ _ => by simp only [readToken, hm]⟩
  | none =>
    refine .inr ?_
    by_cases hq : c = '"'
    · exact .inl ⟨hq, fun _ _ => by simp only [readToken, hm, if_pos hq]⟩
    · refine .inr ?_
      by_cases hn : (isSign c || Text.isDigit c) = true
      · exact .inl ⟨hn, fun _ _ => by simp only [readToken, hm, if_neg hq, if_pos hn]⟩
      · refine .inr ?_
        by_cases hs : isNameStart c = true
        · exact .inl ⟨hs, fun _ _ => by
            simp only [readToken, hm, if_neg hq, if_neg hn, if_pos hs]⟩
        · exact .inr fun _ _ => by
            simp only [readToken, hm, if_neg hq, if_neg hn, if_neg hs]

/-! ## Progress -/

theorem length_gap_le (comment : Bool) (t : Text) : (gap comment t).2.length ≤ t.length := by
  induction t generalizing comment with
  | nil => simp [gap]
  | cons c rest ih =>
    unfold gap
    have h := ih (c != '\n')
    have h₁ := ih true
    have h₂ := ih false
    repeat' split
    all_goals simp only [List.length_cons] at *
    all_goals omega

private theorem length_readName_lt {c : Char} (h : isNameStart c = true) (p : Position)
    (carried rest : Text) :
    (readName p carried (c :: rest)).next.left.length < (c :: rest).length := by
  have hc : isNameChar c = true := by simp [isNameChar, h]
  simp only [readName, List.dropWhile_cons, hc, if_true, List.length_cons]
  exact Nat.lt_succ_of_le (List.dropWhile_sublist _).length_le

private theorem length_scan_le (s : Number.State) (t : Text) :
    (Number.scan s t).2.1.length ≤ t.length := by
  have h := congrArg List.length (Number.scan_append s t)
  rw [List.length_append] at h
  omega

private theorem length_readNumber_lt {c : Char} (h : (isSign c || Text.isDigit c) = true)
    (p : Position) (carried rest : Text) :
    (readNumber p carried (c :: rest)).next.left.length < (c :: rest).length := by
  obtain ⟨s, hs⟩ := Number.State.exists_next_start h
  simp only [readNumber, Number.scan, hs, List.length_cons]
  exact Nat.lt_succ_of_le (length_scan_le s rest)

private theorem length_readLiteral_le (p : Position) (carried t : Text) :
    (readLiteral p carried t).next.left.length ≤ t.length := by
  have h := congrArg List.length (Quoted.taken_append_left t)
  rw [List.length_append] at h
  have hl : (readLiteral p carried t).next.left = (Quoted.scan t).left := by
    unfold readLiteral
    cases h : (Quoted.scan t).close <;> simp only [h]
  rw [hl]
  omega

private theorem length_readToken_lt {p : Position} {carried t : Text} {token : Token}
    (h : (readToken p carried t).outcome = .ok token) (ht : token ≠ .finish) :
    (readToken p carried t).next.left.length < t.length := by
  cases t with
  | nil => simp only [readToken, Except.ok.injEq] at h; exact absurd h.symm ht
  | cons c rest =>
    rcases readToken_cases c rest with ⟨m, -, hr⟩ | ⟨-, hr⟩ | ⟨hn, hr⟩ | ⟨hn, hr⟩ | hr
    · rw [hr]
      exact Nat.lt_succ_self _
    · rw [hr]
      exact Nat.lt_succ_of_le (length_readLiteral_le _ _ _)
    · rw [hr]
      exact length_readNumber_lt hn _ _ _
    · rw [hr]
      exact length_readName_lt hn _ _ _
    · rw [hr] at h
      cases h

/-- Every token but the last takes at least one character. -/
theorem length_left_lt {l : Lexer} {t : Token} (h : l.read.outcome = .ok t) (ht : t ≠ .finish) :
    l.read.next.left.length < l.left.length :=
  Nat.lt_of_lt_of_le (length_readToken_lt h ht) (length_gap_le false l.left)

end Lexer

end LayeredSettings
