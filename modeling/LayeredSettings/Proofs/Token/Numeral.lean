import LayeredSettings.Token.Number

/-!
# The language of numbers

A numeral is a sign or none, digits, and then a fraction, an exponent, both or neither. The
automaton is in an accepting state exactly behind a numeral (`numeral_iff`), and it has a state at
all exactly behind what some numeral starts with (`viable_iff`): each state says what has been read
(`State.Behind`), and from each state one digit leads to an accepting one. Whether a numeral has a
point and an exponent says where the automaton ends (`run_eq_of_numeral`), and a numeral that starts
with a digit goes on with a whole number and a point in front of it (`numeral_behind_point`).
-/

namespace LayeredSettings.Number

open Token

/-! ## Numerals -/

/-- A sign or none. -/
def Sign (t : Text) : Prop := t = [] ∨ t = ['+'] ∨ t = ['-']

/-- One digit or more. -/
def Digits (t : Text) : Prop := t ≠ [] ∧ ∀ c ∈ t, Text.isDigit c = true

/-- A point and digits, or nothing. -/
def Fraction (t : Text) : Prop := t = [] ∨ ∃ ds, Digits ds ∧ t = '.' :: ds

/-- The letter `e` in either case, a sign or none, and digits; or nothing. -/
def Exponent (t : Text) : Prop :=
  t = [] ∨ ∃ e s ds, (e = 'e' ∨ e = 'E') ∧ Sign s ∧ Digits ds ∧ t = e :: (s ++ ds)

/-- A number without its exponent. -/
def Mantissa (t : Text) : Prop :=
  ∃ s ds f, Sign s ∧ Digits ds ∧ Fraction f ∧ t = s ++ (ds ++ f)

/-- A number: `[+-]?d+(.d+)?([eE][+-]?d+)?`, where `d` is a digit. -/
def Numeral (t : Text) : Prop := ∃ m e, Mantissa m ∧ Exponent e ∧ t = m ++ e

/-- Some numeral starts with `t`. -/
def Viable (t : Text) : Prop := ∃ u, Numeral (t ++ u)

theorem digits_singleton {c : Char} (h : Text.isDigit c = true) : Digits [c] :=
  ⟨List.cons_ne_nil _ _, by simpa using h⟩

theorem Digits.concat {t : Text} {c : Char} (h : Digits t) (hc : Text.isDigit c = true) :
    Digits (t ++ [c]) := by
  refine ⟨by simp, fun d hd => ?_⟩
  rcases List.mem_append.1 hd with hd | hd
  · exact h.2 d hd
  · exact List.mem_singleton.1 hd ▸ hc

theorem sign_singleton {c : Char} (h : isSign c = true) : Sign [c] := by
  simp only [isSign, Bool.or_eq_true, decide_eq_true_eq] at h
  rcases h with rfl | rfl
  · exact .inr (.inl rfl)
  · exact .inr (.inr rfl)

/-! ## Runs of the automaton -/

namespace State

/-- The state behind a text that the automaton follows to its end. -/
def run (s : State) : Text → Option State
  | [] => some s
  | c :: t => (s.next c).bind fun s' => s'.run t

theorem run_append (s : State) (t u : Text) :
    s.run (t ++ u) = (s.run t).bind fun s' => s'.run u := by
  induction t generalizing s with
  | nil => rfl
  | cons c t ih =>
    rw [List.cons_append, run, run, Option.bind_assoc]
    congr 1
    exact funext fun s' => ih s'

/-- The state behind a digit. -/
def digit : State → State
  | start | signed | whole => whole
  | point | fraction => fraction
  | marker | markerSigned | exponent => exponent

theorem digit_digit (s : State) : s.digit.digit = s.digit := by
  cases s <;> rfl

theorem accepts_digit (s : State) : s.digit.accepts = true := by
  cases s <;> rfl

theorem next_of_digit {c : Char} (h : Text.isDigit c = true) (s : State) :
    s.next c = some s.digit := by
  have hne : ∀ d, Text.isDigit d = false → c ≠ d := by
    rintro d hd rfl
    rw [h] at hd
    cases hd
  have hsign : isSign c = false := by
    simp [isSign, hne '+' (by decide), hne '-' (by decide)]
  unfold next
  rw [if_neg (by simp [hsign]), if_neg (hne '.' (by decide)),
    if_neg (not_or.2 ⟨hne 'e' (by decide), hne 'E' (by decide)⟩), if_pos h]
  cases s <;> rfl

theorem run_digits {t : Text} (h : ∀ c ∈ t, Text.isDigit c = true) (s : State) :
    s.digit.run t = some s.digit := by
  induction t with
  | nil => rfl
  | cons c t ih =>
    obtain ⟨hc, ht⟩ := List.forall_mem_cons.1 h
    rw [run, next_of_digit hc, Option.bind_some, digit_digit]
    exact ih ht

theorem run_of_digits {t : Text} (h : Digits t) (s : State) : s.run t = some s.digit := by
  obtain ⟨hne, hall⟩ := h
  cases t with
  | nil => exact absurd rfl hne
  | cons c t =>
    obtain ⟨hc, ht⟩ := List.forall_mem_cons.1 hall
    rw [run, next_of_digit hc, Option.bind_some]
    exact run_digits ht s

end State

/-! ## Numerals are followed -/

open State

theorem run_of_mantissa {t : Text} (h : Mantissa t) :
    start.run t = some whole ∨ start.run t = some fraction := by
  obtain ⟨s, ds, f, hs, hds, hf, rfl⟩ := h
  have hsign : start.run s = some start ∨ start.run s = some signed := by
    rcases hs with rfl | rfl | rfl
    · exact .inl rfl
    · exact .inr rfl
    · exact .inr rfl
  have hwhole : start.run (s ++ ds) = some whole := by
    rcases hsign with hs | hs <;> rw [run_append, hs, Option.bind_some, run_of_digits hds] <;> rfl
  rw [← List.append_assoc, run_append, hwhole, Option.bind_some]
  rcases hf with rfl | ⟨es, hes, rfl⟩
  · exact .inl rfl
  · exact .inr (run_of_digits hes point)

theorem run_of_numeral {t : Text} (h : Numeral t) :
    ∃ st, start.run t = some st ∧ st.accepts = true := by
  obtain ⟨m, e, hm, he, rfl⟩ := h
  rcases he with rfl | ⟨c, s, ds, hc, hs, hds, rfl⟩
  · rw [List.append_nil]
    rcases run_of_mantissa hm with hrun | hrun
    · exact ⟨whole, hrun, rfl⟩
    · exact ⟨fraction, hrun, rfl⟩
  · have hmarker : start.run (m ++ [c]) = some marker := by
      rw [run_append]
      rcases run_of_mantissa hm with hrun | hrun <;> rcases hc with rfl | rfl <;> rw [hrun] <;> rfl
    have hsign : ∃ s', marker.run s = some s' ∧ s'.digit = exponent := by
      rcases hs with rfl | rfl | rfl
      · exact ⟨marker, rfl, rfl⟩
      · exact ⟨markerSigned, rfl, rfl⟩
      · exact ⟨markerSigned, rfl, rfl⟩
    obtain ⟨s', hs', hdigit⟩ := hsign
    refine ⟨exponent, ?_, rfl⟩
    rw [← List.singleton_append, ← List.append_assoc, run_append, hmarker, Option.bind_some,
      run_append, hs', Option.bind_some, run_of_digits hds, hdigit]

/-! ## What the states say -/

/-- What has been read where the automaton is in the given state. -/
def State.Behind (t : Text) : State → Prop
  | start => t = []
  | signed => t ≠ [] ∧ Sign t
  | whole => ∃ s ds, Sign s ∧ Digits ds ∧ t = s ++ ds
  | point => ∃ s ds, Sign s ∧ Digits ds ∧ t = s ++ ds ++ ['.']
  | fraction => ∃ s ds fs, Sign s ∧ Digits ds ∧ Digits fs ∧ t = s ++ ds ++ '.' :: fs
  | marker => ∃ m e, Mantissa m ∧ (e = 'e' ∨ e = 'E') ∧ t = m ++ [e]
  | markerSigned => ∃ m e s, Mantissa m ∧ (e = 'e' ∨ e = 'E') ∧ Sign s ∧ t = m ++ e :: s
  | exponent => ∃ m e s ds, Mantissa m ∧ (e = 'e' ∨ e = 'E') ∧ Sign s ∧ Digits ds ∧
      t = m ++ e :: (s ++ ds)

theorem mantissa_of_whole {t : Text} (h : whole.Behind t) : Mantissa t := by
  obtain ⟨s, ds, hs, hds, rfl⟩ := h
  exact ⟨s, ds, [], hs, hds, .inl rfl, by rw [List.append_nil]⟩

theorem mantissa_of_fraction {t : Text} (h : fraction.Behind t) : Mantissa t := by
  obtain ⟨s, ds, fs, hs, hds, hfs, rfl⟩ := h
  exact ⟨s, ds, '.' :: fs, hs, hds, .inr ⟨fs, hfs, rfl⟩, List.append_assoc _ _ _⟩

/-- A digit leads from what one state says to what the next one says. -/
theorem State.Behind.digit {s : State} {t : Text} {c : Char} (h : s.Behind t)
    (hc : Text.isDigit c = true) : s.digit.Behind (t ++ [c]) := by
  have hone := digits_singleton hc
  cases s with
  | start => exact ⟨[], [c], .inl rfl, hone, by rw [h]⟩
  | signed => exact ⟨t, [c], h.2, hone, rfl⟩
  | whole =>
    obtain ⟨s, ds, hs, hds, rfl⟩ := h
    exact ⟨s, ds ++ [c], hs, hds.concat hc, List.append_assoc _ _ _⟩
  | point =>
    obtain ⟨s, ds, hs, hds, rfl⟩ := h
    exact ⟨s, ds, [c], hs, hds, hone, List.append_assoc _ _ _⟩
  | fraction =>
    obtain ⟨s, ds, fs, hs, hds, hfs, rfl⟩ := h
    exact ⟨s, ds, fs ++ [c], hs, hds, hfs.concat hc, List.append_assoc _ _ _⟩
  | marker =>
    obtain ⟨m, e, hm, he, rfl⟩ := h
    exact ⟨m, e, [], [c], hm, he, .inl rfl, hone, List.append_assoc _ _ _⟩
  | markerSigned =>
    obtain ⟨m, e, s, hm, he, hs, rfl⟩ := h
    exact ⟨m, e, s, [c], hm, he, hs, hone, List.append_assoc _ _ _⟩
  | exponent =>
    obtain ⟨m, e, s, ds, hm, he, hs, hds, rfl⟩ := h
    exact ⟨m, e, s, ds ++ [c], hm, he, hs, hds.concat hc, by simp⟩

/-- A step of the automaton leads from what one state says to what the next one says. -/
theorem State.Behind.next {s s' : State} {t : Text} {c : Char} (h : s.Behind t)
    (hs : s.next c = some s') : s'.Behind (t ++ [c]) := by
  by_cases hdigit : Text.isDigit c = true
  · rw [next_of_digit hdigit] at hs
    cases hs
    exact h.digit hdigit
  unfold State.next at hs
  split at hs
  · next hc =>
    have hsign := sign_singleton hc
    split at hs
    · cases hs
      rw [show t = [] from h]
      exact ⟨List.cons_ne_nil _ _, hsign⟩
    · cases hs
      obtain ⟨m, e, hm, he, rfl⟩ := h
      exact ⟨m, e, [c], hm, he, hsign, List.append_assoc _ _ _⟩
    · cases hs
  · split at hs
    · next hc =>
      subst hc
      split at hs
      · cases hs
        obtain ⟨s, ds, hsign, hds, rfl⟩ := h
        exact ⟨s, ds, hsign, hds, rfl⟩
      · cases hs
    · split at hs
      · next hc =>
        split at hs
        · cases hs
          exact ⟨t, c, mantissa_of_whole h, hc, rfl⟩
        · cases hs
          exact ⟨t, c, mantissa_of_fraction h, hc, rfl⟩
        · cases hs
      · cases hs

theorem State.Behind.run {s s' : State} {t u : Text} (h : s.Behind t) (hs : s.run u = some s') :
    s'.Behind (t ++ u) := by
  induction u generalizing s t with
  | nil =>
    cases hs
    rw [List.append_nil]
    exact h
  | cons c u ih =>
    obtain ⟨s₁, hnext, hrun⟩ := Option.bind_eq_some_iff.1 hs
    have hu := ih (h.next hnext) hrun
    rw [List.append_assoc] at hu
    exact hu

theorem numeral_of_behind {s : State} {t : Text} (h : s.Behind t) (hs : s.accepts = true) :
    Numeral t := by
  cases s with
  | whole => exact ⟨t, [], mantissa_of_whole h, .inl rfl, (List.append_nil t).symm⟩
  | fraction => exact ⟨t, [], mantissa_of_fraction h, .inl rfl, (List.append_nil t).symm⟩
  | exponent =>
    obtain ⟨m, e, s, ds, hm, he, hsign, hds, rfl⟩ := h
    exact ⟨m, e :: (s ++ ds), hm, .inr ⟨e, s, ds, he, hsign, hds, rfl⟩, rfl⟩
  | start | signed | point | marker | markerSigned => cases hs

/-! ## The language of the automaton -/

theorem numeral_iff {t : Text} : Numeral t ↔ ∃ st, start.run t = some st ∧ st.accepts = true := by
  constructor
  · exact run_of_numeral
  · rintro ⟨st, hrun, haccepts⟩
    have hempty : start.Behind [] := rfl
    exact numeral_of_behind (hempty.run hrun) haccepts

/-- From every state one digit leads to an accepting one, so that the automaton follows exactly
what may still become a numeral. -/
theorem viable_iff {t : Text} : Viable t ↔ ∃ st, start.run t = some st := by
  constructor
  · rintro ⟨u, hu⟩
    obtain ⟨st, hrun, -⟩ := numeral_iff.1 hu
    rw [run_append] at hrun
    obtain ⟨s, hs, -⟩ := Option.bind_eq_some_iff.1 hrun
    exact ⟨s, hs⟩
  · rintro ⟨st, hrun⟩
    refine ⟨['0'], numeral_iff.2 ⟨st.digit, ?_, accepts_digit st⟩⟩
    rw [run_append, hrun, Option.bind_some, run_of_digits (digits_singleton (by decide))]

/-- The automaton stops at a character with which no numeral goes on. -/
theorem next_eq_none_iff {t : Text} {st : State} (h : start.run t = some st) (c : Char) :
    st.next c = none ↔ ¬ Viable (t ++ [c]) := by
  rw [viable_iff, run_append, h, Option.bind_some]
  show _ ↔ ¬ ∃ s', (st.next c).bind some = some s'
  cases st.next c <;> simp

/-! ## Points and exponents -/

def hasPoint (t : Text) : Bool := t.any (· = '.')

def hasExponent (t : Text) : Bool := t.any fun c => c = 'e' || c = 'E'

theorem hasPoint_append (t u : Text) : hasPoint (t ++ u) = (hasPoint t || hasPoint u) :=
  List.any_append

theorem hasPoint_append_point (t u : Text) : hasPoint (t ++ '.' :: u) = true := by
  rw [hasPoint_append]
  exact Bool.or_true _

theorem hasExponent_append (t u : Text) : hasExponent (t ++ u) = (hasExponent t || hasExponent u) :=
  List.any_append

theorem Digits.has_eq_false {t : Text} (h : Digits t) :
    hasPoint t = false ∧ hasExponent t = false := by
  have hne : ∀ c ∈ t, ∀ d, Text.isDigit d = false → c ≠ d := by
    rintro c hc d hd rfl
    rw [h.2 c hc] at hd
    cases hd
  unfold hasPoint hasExponent
  rw [List.any_eq_false, List.any_eq_false]
  refine ⟨fun c hc => ?_, fun c hc => ?_⟩
  · simp [hne c hc '.' (by decide)]
  · simp [hne c hc 'e' (by decide), hne c hc 'E' (by decide)]

theorem Sign.has_eq_false {t : Text} (h : Sign t) :
    hasPoint t = false ∧ hasExponent t = false := by
  rcases h with rfl | rfl | rfl <;> exact ⟨rfl, rfl⟩

theorem Exponent.hasPoint_eq_false {t : Text} (h : Exponent t) : hasPoint t = false := by
  rcases h with rfl | ⟨e, s, ds, he, hs, hds, rfl⟩
  · rfl
  · have hmark : hasPoint [e] = false := by rcases he with rfl | rfl <;> rfl
    rw [← List.singleton_append, hasPoint_append, hasPoint_append, hmark, hs.has_eq_false.1,
      hds.has_eq_false.1]
    rfl

/-- Where the automaton stands behind a numeral. -/
theorem run_eq_of_numeral {t : Text} (h : Numeral t) :
    start.run t = some (if hasExponent t then exponent else if hasPoint t then fraction
      else whole) := by
  obtain ⟨st, hrun, haccepts⟩ := run_of_numeral h
  have hempty : start.Behind [] := rfl
  have hbehind := hempty.run hrun
  rw [List.nil_append] at hbehind
  rw [hrun]
  congr 1
  cases st with
  | whole =>
    obtain ⟨s, ds, hs, hds, rfl⟩ := hbehind
    rw [hasExponent_append, hasPoint_append, hs.has_eq_false.1, hs.has_eq_false.2,
      hds.has_eq_false.1, hds.has_eq_false.2]
    rfl
  | fraction =>
    obtain ⟨s, ds, fs, hs, hds, hfs, rfl⟩ := hbehind
    have hexponent : hasExponent ('.' :: fs) = false := hfs.has_eq_false.2
    rw [hasPoint_append_point, hasExponent_append, hasExponent_append,
      hs.has_eq_false.2, hds.has_eq_false.2, hexponent]
    rfl
  | exponent =>
    obtain ⟨m, e, s, ds, -, he, -, -, rfl⟩ := hbehind
    have hmark : hasExponent (e :: (s ++ ds)) = true := by rcases he with rfl | rfl <;> rfl
    rw [hasExponent_append, hmark, Bool.or_true]
    rfl
  | start | signed | point | marker | markerSigned => cases haccepts

/-- A numeral that starts with a digit, behind a whole number and a point: without a point of its
own it makes one numeral with them, and otherwise its digits before the point do, and what stands
behind the point is a numeral again. -/
theorem numeral_behind_point {a t : Text} (ha : start.run a = some whole) (ht : Numeral t)
    (hdigit : t.head?.any Text.isDigit = true) :
    (hasPoint t = false ∧ Numeral (a ++ '.' :: t)) ∨
    ∃ ds u, t = ds ++ '.' :: u ∧ start.run (a ++ '.' :: ds) = some fraction ∧ Numeral u ∧
      hasPoint u = false ∧ hasExponent u = hasExponent t := by
  have hempty : start.Behind [] := rfl
  obtain ⟨sign, whole, hsign, hwhole, rfl⟩ := hempty.run ha
  obtain ⟨m, e, ⟨s, ds, f, hs, hds, hf, rfl⟩, he, rfl⟩ := ht
  obtain rfl : s = [] := by
    rcases hs with rfl | rfl | rfl
    · rfl
    · exact absurd hdigit (by simp; decide)
    · exact absurd hdigit (by simp; decide)
  rw [List.nil_append]
  rcases hf with rfl | ⟨fs, hfs, rfl⟩
  · refine .inl ⟨?_, ?_⟩
    · rw [List.append_nil, hasPoint_append, hds.has_eq_false.1, he.hasPoint_eq_false]
      rfl
    · refine ⟨sign ++ (whole ++ '.' :: ds), e, ?_, he, by simp⟩
      exact ⟨sign, whole, '.' :: ds, hsign, hwhole, .inr ⟨ds, hds, rfl⟩, rfl⟩
  · refine .inr ⟨ds, fs ++ e, by simp, ?_, ?_, ?_, ?_⟩
    · rw [run_append, ha, Option.bind_some]
      exact run_of_digits hds point
    · exact ⟨fs, e, ⟨[], fs, [], .inl rfl, hfs, .inl rfl, by simp⟩, he, rfl⟩
    · rw [hasPoint_append, hfs.has_eq_false.1, he.hasPoint_eq_false]
      rfl
    · rw [hasExponent_append, hasExponent_append, hasExponent_append, hds.has_eq_false.2]
      rfl

/-! ## Scans -/

/-- A scan takes what the automaton follows, up to where it stops. -/
theorem scan_append_of_run {s st : State} {t u : Text} (h : s.run t = some st)
    (hu : ∀ c ∈ u.head?, st.next c = none) : scan s (t ++ u) = (t, u, st) := by
  induction t generalizing s with
  | nil =>
    cases h
    cases u with
    | nil => rfl
    | cons c u => rw [List.nil_append, scan, hu c rfl]
  | cons c t ih =>
    obtain ⟨s', hnext, hrun⟩ := Option.bind_eq_some_iff.1 h
    rw [List.cons_append, scan, hnext]
    simp only [ih hrun]

theorem run_scan (s : State) (t : Text) : s.run (scan s t).1 = some (scan s t).2.2 := by
  induction t generalizing s with
  | nil => rfl
  | cons c t ih =>
    rw [scan]
    cases h : s.next c with
    | none => rfl
    | some s' => rw [run, h, Option.bind_some, ih]

/-- A scan stops where the automaton does. -/
theorem next_head?_scan (s : State) (t : Text) :
    ∀ c ∈ (scan s t).2.1.head?, (scan s t).2.2.next c = none := by
  induction t generalizing s with
  | nil =>
    intro c hc
    cases hc
  | cons c t ih =>
    rw [scan]
    cases h : s.next c with
    | none =>
      intro d hd
      cases hd
      exact h
    | some s' => exact ih s'

end LayeredSettings.Number
