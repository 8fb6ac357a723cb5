import LayeredSettings.Token.Basic

/-!
# Numbers

A number is a sign or none, digits, and then a fraction, an exponent, both or neither. The
automaton below follows a text for as long as it may still become a number; the text is a number
if the automaton then stands in an accepting state. It never goes back to a shorter number.
-/

namespace LayeredSettings.Number

open Token

/-- What has been read of a number. -/
inductive State where
  /-- Nothing. -/
  | start
  /-- The sign. -/
  | signed
  /-- The digits of the whole part, at least one. -/
  | whole
  /-- The point. -/
  | point
  /-- The digits of the fraction, at least one. -/
  | fraction
  /-- The letter of the exponent. -/
  | marker
  /-- The sign of the exponent. -/
  | markerSigned
  /-- The digits of the exponent, at least one. -/
  | exponent
  deriving DecidableEq, Repr

namespace State

/-- Whether a number may end here. -/
def accepts : State → Bool
  | whole | fraction | exponent => true
  | _ => false

/-- The state behind one more character, or none if it cannot continue the number. -/
def next (s : State) (c : Char) : Option State :=
  if isSign c then
    match s with
    | start => some signed
    | marker => some markerSigned
    | _ => none
  else if c = '.' then
    match s with
    | whole => some point
    | _ => none
  else if c = 'e' ∨ c = 'E' then
    match s with
    | whole | fraction => some marker
    | _ => none
  else if Text.isDigit c then
    match s with
    | start | signed | whole => some whole
    | point | fraction => some fraction
    | marker | markerSigned | exponent => some exponent
  else none

/-- A number starts with every sign and every digit. -/
theorem exists_next_start {c : Char} (h : (isSign c || Text.isDigit c) = true) :
    ∃ s, start.next c = some s := by
  have hdot : isSign c = false → c ≠ '.' := by
    rintro hs rfl
    revert h; decide
  have he : isSign c = false → ¬ (c = 'e' ∨ c = 'E') := by
    rintro hs (rfl | rfl) <;> revert h <;> decide
  unfold next
  cases hs : isSign c with
  | true => exact ⟨_, rfl⟩
  | false => simp_all

end State

/-- Follows a text as far as it continues the number: the characters taken, those left, and the
state reached. -/
def scan (s : State) : Text → Text × Text × State
  | [] => ([], [], s)
  | c :: rest =>
    match s.next c with
    | none => ([], c :: rest, s)
    | some s' =>
      let r := scan s' rest
      (c :: r.1, r.2)

theorem scan_append (s : State) (t : Text) : (scan s t).1 ++ (scan s t).2.1 = t := by
  induction t generalizing s with
  | nil => rfl
  | cons c rest ih =>
    unfold scan
    cases s.next c with
    | none => rfl
    | some s' => simp [ih s']

end LayeredSettings.Number
