import LayeredSettings.Proofs.Token.Calls

/-!
# Lexers read on behind faults

A lexer that is read on, behind faults or tokens, reads what is left as a new lexer does, with all
positions moved to where it stands (`reports_calls`). The only other trace of what was read are
the characters of failed literals, which come in front of the next word or malformed number.

1. A call of a moved lexer that carries further characters shows what the call of the other one
   shows, moved and with these characters in front, and the lexers behind the calls are related in
   the same way (`resumes_read`). So are therefore all their calls (`reports_resumed`).
2. What a lexer carries are the characters of the literals that failed since it last showed a word
   or a malformed number (`carried_calls`).
3. Before an unexpected character a lexer stands still (`read_next_of_unexpected`).
-/

namespace LayeredSettings

/-- A position in a text that starts at `p`. -/
def Position.behind (p q : Position) : Position :=
  ⟨p.offset + q.offset, q.line + (p.line - 1)⟩

theorem Position.behind_after (p q : Position) (t : Text) :
    p.behind (q.after t) = (p.behind q).after t := by
  rw [after_eq, after_eq]
  simp only [behind, Position.mk.injEq]
  omega

theorem Position.behind_start {p : Position} (h : 1 ≤ p.line) : p.behind {} = p := by
  obtain ⟨offset, line⟩ := p
  simp only [behind, Position.mk.injEq] at h ⊢
  omega

namespace Lexer

open Token

/-! ## Outcomes -/

/-- The characters carried are shown: in a word, or in a malformed number. -/
def flushes : Except Fault Token → Bool
  | .ok (.word _) => true
  | .error ⟨.malformedNumber _, _⟩ => true
  | _ => false

def failsLiteral : Except Fault Token → Bool
  | .error ⟨.unterminatedLiteral, _⟩ => true
  | .error ⟨.unicodeEscape, _⟩ => true
  | .error ⟨.unsupportedEscape _, _⟩ => true
  | _ => false

/-- The outcome where `c` is carried in addition. -/
def withFront (c : Text) : Except Fault Token → Except Fault Token
  | .ok (.word w) => .ok (.word (c ++ w))
  | .error ⟨.malformedNumber w, p⟩ => .error ⟨.malformedNumber (c ++ w), p⟩
  | outcome => outcome

/-- Nothing is put in front where nothing that was carried is shown. -/
theorem withFront_of_flushes {outcome : Except Fault Token} (h : flushes outcome = false)
    (c : Text) : withFront c outcome = outcome := by
  unfold flushes at h
  unfold withFront
  split at h
  · cases h
  · cases h
  · rfl

theorem flushes_mark {d : Char} {m : Token} (h : ofMark? d = some m) : flushes (.ok m) = false := by
  unfold ofMark? at h
  repeat' split at h
  all_goals cases h
  all_goals rfl

/-- An escape that is not supported makes the literal fail. -/
theorem failsLiteral_escape (sign : Char) (p : Position) :
    flushes (.error ⟨if sign = 'u' then .unicodeEscape else .unsupportedEscape sign, p⟩) = false ∧
      failsLiteral (.error ⟨if sign = 'u' then .unicodeEscape else .unsupportedEscape sign, p⟩) =
        true := by
  by_cases h : sign = 'u'
  · rw [if_pos h]
    exact ⟨rfl, rfl⟩
  · rw [if_neg h]
    exact ⟨rfl, rfl⟩

theorem withFront_nil (outcome : Except Fault Token) : withFront [] outcome = outcome := by
  unfold withFront
  split <;> rfl

def Fault.behind (p : Position) (f : Fault) : Fault := ⟨f.reason, p.behind f.position⟩

/-- What is reported where the text starts at `p`. -/
def Report.behind (p : Position) (r : Report) : Report :=
  ⟨r.outcome.mapError (Fault.behind p), p.behind r.start, p.behind r.stop⟩

/-- The reports with `c` in front of the first word or malformed number. -/
def carry (c : Text) : List Report → List Report
  | [] => []
  | r :: rs =>
    ⟨withFront c r.outcome, r.start, r.stop⟩ :: if flushes r.outcome then rs else carry c rs

theorem carry_nil (rs : List Report) : carry [] rs = rs := by
  induction rs with
  | nil => rfl
  | cons r rs ih => rw [carry, withFront_nil, ih, ite_self]

/-! ## One call -/

/-- The lexer with its text starting at `p`, and with `c` in front of what it carries. -/
def resumed (p : Position) (c : Text) (l : Lexer) : Lexer :=
  ⟨l.left, p.behind l.position, c ++ l.carried⟩

/-- The reading `r'` goes like `r` where the text starts at `p` and `c` is carried in addition. -/
structure Resumes (p : Position) (c : Text) (r r' : Reading) : Prop where
  outcome : r'.outcome = (withFront c r.outcome).mapError (Fault.behind p)
  start : r'.start = p.behind r.start
  next : r'.next = r.next.resumed p (if flushes r.outcome then [] else c)

/-- A call that does not show what is carried is only moved. -/
theorem resumes_of_flushes {p : Position} {c : Text} {r r' : Reading}
    (h : flushes r.outcome = false) (houtcome : r'.outcome = r.outcome.mapError (Fault.behind p))
    (hstart : r'.start = p.behind r.start) (hnext : r'.next = r.next.resumed p c) :
    Resumes p c r r' where
  outcome := by rw [withFront_of_flushes h, houtcome]
  start := hstart
  next := by rw [h, hnext]; rfl

section Readings

variable (p q : Position) (c carried : Text)

theorem resumes_readName (t : Text) :
    Resumes p c (readName q carried t) (readName (p.behind q) (c ++ carried) t) where
  outcome := by
    unfold readName
    simp only
    rw [List.append_assoc]
    rfl
  start := rfl
  next := by
    unfold readName
    simp only
    rw [← Position.behind_after]
    rfl

theorem resumes_readNumber (t : Text) :
    Resumes p c (readNumber q carried t) (readNumber (p.behind q) (c ++ carried) t) := by
  unfold readNumber
  simp only
  rw [← Position.behind_after, List.append_assoc]
  split
  · exact ⟨rfl, rfl, rfl⟩
  · exact ⟨rfl, rfl, rfl⟩

theorem resumes_readLiteral (t : Text) :
    Resumes p c (readLiteral q carried t) (readLiteral (p.behind q) (c ++ carried) t) := by
  unfold readLiteral
  simp only
  rw [← Position.behind_after, List.append_assoc]
  split
  · exact ⟨rfl, rfl, rfl⟩
  · exact ⟨rfl, rfl, rfl⟩
  · next sign _ => exact resumes_of_flushes (failsLiteral_escape sign _).1 rfl rfl rfl

theorem resumes_readToken (t : Text) :
    Resumes p c (readToken q carried t) (readToken (p.behind q) (c ++ carried) t) := by
  cases t with
  | nil => exact ⟨rfl, rfl, rfl⟩
  | cons d rest =>
    rcases readToken_cases d rest with ⟨m, hm, hr⟩ | ⟨-, hr⟩ | ⟨-, hr⟩ | ⟨-, hr⟩ | hr
    · have hnext : (p.behind q).next d = p.behind (q.next d) := (Position.behind_after p q [d]).symm
      rw [hr, hr, hnext]
      exact resumes_of_flushes (flushes_mark hm) rfl rfl rfl
    · rw [hr, hr]
      exact resumes_readLiteral p q c carried rest
    · rw [hr, hr]
      exact resumes_readNumber p q c carried (d :: rest)
    · rw [hr, hr]
      exact resumes_readName p q c carried (d :: rest)
    · rw [hr, hr]
      exact ⟨rfl, rfl, rfl⟩

end Readings

theorem resumes_read (p : Position) (c : Text) (l : Lexer) :
    Resumes p c l.read (l.resumed p c).read := by
  show Resumes p c l.read (readToken ((p.behind l.position).after (gap false l.left).1)
    (c ++ l.carried) (gap false l.left).2)
  rw [← Position.behind_after]
  exact resumes_readToken p _ c l.carried _

/-! ## Many calls -/

/-- The calls of a moved lexer that carries further characters. -/
theorem reports_resumed (p : Position) (c : Text) (l : Lexer) (k : Nat) :
    (l.resumed p c).reports k = (carry c (l.reports k)).map (Report.behind p) := by
  induction k generalizing c l with
  | zero => rfl
  | succ k ih =>
    obtain ⟨houtcome, hstart, hnext⟩ := resumes_read p c l
    have hreport : (l.resumed p c).report =
        Report.behind p ⟨withFront c l.read.outcome, l.read.start, l.read.next.position⟩ := by
      unfold report
      rw [houtcome, hstart, hnext]
      rfl
    rw [reports, hnext, ih, hreport, reports, carry, List.map_cons]
    by_cases hflushes : flushes l.read.outcome = true
    · rw [if_pos hflushes, carry_nil, if_pos (show flushes l.report.outcome = true from hflushes)]
      rfl
    · rw [if_neg hflushes, if_neg (show ¬ flushes l.report.outcome = true from hflushes)]
      rfl

/-! ## What is carried -/

/-- The characters of the literal that a call shows to have failed, as far as they were read. The
literal stands behind the gap. -/
def collected (l : Lexer) : Text :=
  if failsLiteral l.read.outcome then (Quoted.scan (gap false l.left).2.tail).decoded else []

/-- The characters of the literals that failed in the first `n` calls, those before the last word
or malformed number left out. -/
def collectedIn (l : Lexer) : Nat → Text
  | 0 => []
  | n + 1 =>
    if flushes (l.calls n).read.outcome then [] else l.collectedIn n ++ (l.calls n).collected

theorem carried_readLiteral (q : Position) (carried t : Text) :
    (readLiteral q carried t).next.carried =
      if flushes (readLiteral q carried t).outcome then []
      else carried ++ if failsLiteral (readLiteral q carried t).outcome then
        (Quoted.scan t).decoded else [] := by
  cases hclose : (Quoted.scan t).close with
  | closed =>
    simp only [readLiteral, hclose]
    rfl
  | unterminated =>
    simp only [readLiteral, hclose]
    rfl
  | escape sign =>
    obtain ⟨hflushes, hfails⟩ := failsLiteral_escape sign (q.after ('"' :: (Quoted.scan t).taken))
    simp only [readLiteral, hclose]
    rw [hflushes, hfails]
    rfl

theorem carried_readToken (q : Position) (carried t : Text) :
    (readToken q carried t).next.carried =
      if flushes (readToken q carried t).outcome then []
      else carried ++ if failsLiteral (readToken q carried t).outcome then
        (Quoted.scan t.tail).decoded else [] := by
  cases t with
  | nil => exact (List.append_nil carried).symm
  | cons d rest =>
    rcases readToken_cases d rest with ⟨m, hm, hr⟩ | ⟨-, hr⟩ | ⟨-, hr⟩ | ⟨-, hr⟩ | hr
    · rw [hr]
      show carried = if flushes (.ok m) then [] else carried ++ []
      rw [flushes_mark hm, List.append_nil]
      rfl
    · rw [hr]
      exact carried_readLiteral q carried rest
    · rw [hr, readNumber]
      simp only
      split <;> rfl
    · rw [hr]
      rfl
    · rw [hr]
      exact (List.append_nil carried).symm

theorem carried_calls (t : Text) (n : Nat) :
    ((ofText t).calls n).carried = (ofText t).collectedIn n := by
  induction n with
  | zero => rfl
  | succ n ih =>
    rw [collectedIn, ← ih]
    exact carried_readToken _ _ _

theorem collectedIn_of_none {l : Lexer} {n : Nat}
    (h : ∀ m < n, failsLiteral (l.calls m).read.outcome = false) : l.collectedIn n = [] := by
  induction n with
  | zero => rfl
  | succ n ih =>
    rw [collectedIn, ih fun m hm => h m (by omega), collected, h n (by omega)]
    exact ite_self _

/-! ## Unexpected characters -/

/-- What stands behind a gap is not skipped. -/
theorem gap_rest (comment : Bool) (t : Text) :
    gap false (gap comment t).2 = ([], (gap comment t).2) := by
  fun_induction gap comment t with
  | case1 => rfl
  | case2 c t r ih => exact ih
  | case3 t comment _ r ih => exact ih
  | case4 c t comment _ _ _ r ih => exact ih
  | case5 comment c t _ hc hb =>
    show gap false (c :: t) = _
    rw [gap, if_neg (by simp), if_neg hc, if_neg hb]

theorem next_of_unexpected {q p : Position} {carried t : Text} {c : Char}
    (h : (readToken q carried t).outcome = .error ⟨.unexpectedCharacter c, p⟩) :
    (readToken q carried t).next = ⟨t, q, carried⟩ := by
  cases t with
  | nil => cases h
  | cons d rest =>
    rcases readToken_cases d rest with ⟨m, -, hr⟩ | ⟨-, hr⟩ | ⟨-, hr⟩ | ⟨-, hr⟩ | hr
    · rw [hr] at h
      cases h
    · rw [hr, readLiteral] at h
      split at h
      · cases h
      · cases h
      · split at h <;> cases h
    · rw [hr, readNumber] at h
      simp only at h
      split at h <;> cases h
    · rw [hr] at h
      cases h
    · rw [hr]

/-- Before an unexpected character the lexer stands still. -/
theorem read_next_of_unexpected {l : Lexer} {p : Position} {c : Char}
    (h : l.read.outcome = .error ⟨.unexpectedCharacter c, p⟩) : l.read.next.read = l.read := by
  have hnext : l.read.next = ⟨(gap false l.left).2, l.position.after (gap false l.left).1,
      l.carried⟩ := next_of_unexpected h
  rw [hnext]
  show readToken (Position.after _ (gap false (gap false l.left).2).1) l.carried
    (gap false (gap false l.left).2).2 = l.read
  rw [gap_rest]
  rfl

theorem reports_of_still {l : Lexer} (h : l.read.next.read = l.read) (k : Nat) :
    l.reports k = List.replicate k l.report := by
  induction k generalizing l with
  | zero => rfl
  | succ k ih =>
    have hreport : l.read.next.report = l.report := by
      unfold report
      rw [h]
    rw [reports, ih (by rw [h, h]), hreport, List.replicate_succ]

/-! ## Lexers that have been read -/

/-- Whatever its first calls have shown, a lexer goes on like a new lexer on what is left, moved to
where it stands, except that the characters of the literals that have failed come in front of the
next word or malformed number. If no literal has failed, there is no difference. An unexpected
character is reported again, at the same place, by every later call. -/
theorem reports_calls (t : Text) (n : Nat) :
    let l := (ofText t).calls n
    (∀ k, l.reports k =
      (carry ((ofText t).collectedIn n) ((ofText l.left).reports k)).map
        (Report.behind l.position)) ∧
    ((∀ m < n, failsLiteral ((ofText t).calls m).read.outcome = false) →
      ∀ k, l.reports k = ((ofText l.left).reports k).map (Report.behind l.position)) ∧
    ∀ c p, l.read.outcome = .error ⟨.unexpectedCharacter c, p⟩ →
      ∀ k, l.reports k = List.replicate k l.report := by
  intro l
  have hresumed : (ofText l.left).resumed l.position ((ofText t).collectedIn n) = l := by
    obtain ⟨taken, -, hp⟩ := inside_calls t n
    have hline : 1 ≤ l.position.line := by
      rw [hp, Position.after_eq]
      exact Nat.le_add_right 1 _
    unfold resumed
    rw [← carried_calls]
    show Lexer.mk l.left (l.position.behind {}) (l.carried ++ []) = l
    rw [Position.behind_start hline, List.append_nil]
  have hreports : ∀ k, l.reports k =
      (carry ((ofText t).collectedIn n) ((ofText l.left).reports k)).map
        (Report.behind l.position) := by
    intro k
    rw [← reports_resumed, hresumed]
  refine ⟨hreports, ?_, ?_⟩
  · intro hnone k
    rw [hreports, collectedIn_of_none hnone, carry_nil]
  · intro c p h k
    exact reports_of_still (read_next_of_unexpected h) k

/-- A literal fails at its escape, and a character is not expected. -/
theorem reports_calls_failed :
    ((ofText "\"a\\x 5".toList).calls 1).reports 3 =
        (carry "a".toList ((ofText "x 5".toList).reports 3)).map (Report.behind ⟨3, 1⟩) ∧
      ((ofText "a 1. b".toList).calls 2).reports 2 =
        ((ofText " b".toList).reports 2).map (Report.behind ⟨4, 1⟩) ∧
      ((ofText "a ?".toList).calls 1).reports 4 =
        List.replicate 4 ⟨.error ⟨.unexpectedCharacter '?', ⟨2, 1⟩⟩, ⟨2, 1⟩, ⟨2, 1⟩⟩ := by
  refine ⟨?escape, ?number, ?character⟩
  case escape => exact (reports_calls "\"a\\x 5".toList 1).1 3
  case number =>
    refine (reports_calls "a 1. b".toList 2).2.1 (fun m hm => ?_) 2
    obtain rfl | rfl : m = 0 ∨ m = 1 := by omega
    · rfl
    · rfl
  case character => exact (reports_calls "a ?".toList 1).2.2 '?' ⟨2, 1⟩ rfl 4

end Lexer

end LayeredSettings
