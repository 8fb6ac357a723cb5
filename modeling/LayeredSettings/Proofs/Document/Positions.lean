import LayeredSettings.Proofs.Document.Refusal
import LayeredSettings.Proofs.Token.Calls
import Mathlib.Order.Monotone.Basic

/-!
# Positions

A lexer knows at any time how many characters and how many line feeds it has taken, and where
documents are at fault is told by such a count (`positions_exact`).

1. A call reads forwards, from where the lexer stands over the start of the token to where it
   stops (`Lexer.position_le_start`, `Lexer.start_le_stop`).
2. Tokens start, and faults are placed, where the lexer stands or will stand
   (`Lexer.Inside.within_start`, `Lexer.Inside.within_fault`).
3. A document is refused where a lexeme starts or where its lexemes end
   (`exists_position_of_ofText`), in a strict document where a statement starts too.
-/

namespace LayeredSettings

/-! ## Places in a text -/

namespace Position

/-- The position is one of the text, on the line that the line feeds in front of it tell. -/
def Within (p : Position) (t : Text) : Prop :=
  p.offset ≤ t.length ∧ p.line = 1 + (t.take p.offset).count '\n'

theorem within_after (taken left : Text) : (after {} taken).Within (taken ++ left) := by
  rw [after_eq, Nat.zero_add]
  refine ⟨?_, ?_⟩
  · show taken.length ≤ (taken ++ left).length
    rw [List.length_append]
    omega
  · show 1 + taken.count '\n' = 1 + ((taken ++ left).take taken.length).count '\n'
    rw [List.take_left]

/-- A position lies behind another if it has both more characters and more lines before it. -/
instance : Preorder Position where
  le p q := p.offset ≤ q.offset ∧ p.line ≤ q.line
  le_refl p := ⟨Nat.le_refl _, Nat.le_refl _⟩
  le_trans _ _ _ h h' := ⟨Nat.le_trans h.1 h'.1, Nat.le_trans h.2 h'.2⟩

theorem le_after (p : Position) (t : Text) : p ≤ p.after t := by
  rw [after_eq]
  exact ⟨Nat.le_add_right _ _, Nat.le_add_right _ _⟩

end Position

/-! ## Calls -/

namespace Lexer

variable {l : Lexer} {t : Text}

theorem position_le_start (l : Lexer) : l.position ≤ l.read.start := by
  obtain ⟨gap, span, -, hstart, -, -⟩ := exists_taken l
  rw [hstart]
  exact Position.le_after _ _

theorem start_le_stop (l : Lexer) : l.read.start ≤ l.read.next.position := by
  obtain ⟨gap, span, -, -, hstop, -⟩ := exists_taken l
  rw [hstop]
  exact Position.le_after _ _

/-- A token takes characters. -/
theorem offset_lt_of_ok {token : Token} (h : l.read.outcome = .ok token)
    (htoken : token ≠ .finish) : l.position.offset < l.read.next.position.offset := by
  obtain ⟨gap, span, htext, hstart, hstop, -⟩ := exists_taken l
  have hlt := length_left_lt h htoken
  have hlen := congrArg List.length htext
  rw [List.length_append, List.length_append] at hlen
  rw [hstop, hstart, Position.after_eq, Position.after_eq]
  show l.position.offset < l.position.offset + gap.length + span.length
  omega

theorem Inside.within_position (h : l.Inside t) : l.position.Within t := by
  obtain ⟨taken, rfl, hp⟩ := h
  rw [hp]
  exact Position.within_after taken l.left

theorem Inside.within_start (h : l.Inside t) : l.read.start.Within t := by
  obtain ⟨taken, rfl, hp⟩ := h
  obtain ⟨gap, span, htext, hstart, -, -⟩ := exists_taken l
  rw [hstart, hp, ← Position.after_append, htext, ← List.append_assoc]
  exact Position.within_after _ _

theorem Inside.within_fault (h : l.Inside t) {f : Fault} (hf : l.read.outcome = .error f) :
    f.position.Within t := by
  obtain ⟨gap, span, -, -, -, hfault⟩ := exists_taken l
  rcases hfault f hf with hp | hp
  · rw [hp]
    exact h.within_start
  · rw [hp]
    exact h.next.within_position

/-- Where the token starts that `n` calls have come to; before the first call, where the lexer
stands. -/
def tokenStart (l : Lexer) : Nat → Position
  | 0 => l.position
  | n + 1 => (l.calls n).read.start

theorem tokenStart_le_position (l : Lexer) (n : Nat) : l.tokenStart n ≤ (l.calls n).position := by
  cases n with
  | zero => exact le_refl l.position
  | succ n => exact start_le_stop (l.calls n)

theorem monotone_position (l : Lexer) : Monotone fun n => (l.calls n).position := by
  refine monotone_nat_of_le_succ fun n => ?_
  exact le_trans (position_le_start (l.calls n)) (start_le_stop (l.calls n))

theorem monotone_tokenStart (l : Lexer) : Monotone l.tokenStart := by
  refine monotone_nat_of_le_succ fun n => ?_
  exact le_trans (tokenStart_le_position l n) (position_le_start (l.calls n))

end Lexer

/-! ## Lexemes -/

/-- Where lexemes end, if they end with the text or at a fault. -/
def Lexeme.Ending.position? : Lexeme.Ending → Option Position
  | finish p => some p
  | fault f => some f.position
  | torn _ => none

/-- The lexemes start inside the text, and there they end. -/
theorem Lexemes.within_ofLexer (tear : Option Tear) {l : Lexer} {t : Text}
    (h : l.Inside t) : (∀ x ∈ (ofLexer tear l).run, x.start.Within t) ∧
      ∀ p ∈ (ofLexer tear l).ending.position?, p.Within t := by
  fun_induction ofLexer tear l with
  | case1 => exact ⟨by simp, fun p hp => by cases hp⟩
  | case2 l _ f hf =>
    refine ⟨by simp, fun p hp => ?_⟩
    cases hp
    exact h.within_fault hf
  | case3 l _ hok =>
    refine ⟨by simp, fun p hp => ?_⟩
    cases hp
    exact h.within_start
  | case4 l _ token hok htoken ih =>
    obtain ⟨hrun, hending⟩ := ih h.next
    exact ⟨List.forall_mem_cons.2 ⟨h.within_start, hrun⟩, hending⟩

/-! ## Documents -/

namespace Document

/-- Where a document is at fault, unless its text is torn there. -/
def Fault.position? : Fault → Option Position
  | lexical f => some f.position
  | grammar p _ => some p
  | duplicate p _ => some p
  | torn _ => none

/-- A statement that assigns starts with a lexeme. -/
theorem Steps.exists_start {ending : Lexeme.Ending} {blocks blocks' : List Text}
    {ls rest : List Lexeme} {made : List Assignment}
    (h : Steps ending blocks ls made blocks' rest) :
    ∀ a ∈ made, ∃ x ∈ ls, x.start = a.start := by
  induction h with
  | refl => exact fun a ha => absurd ha List.not_mem_nil
  | head hstep _ ih =>
    obtain ⟨xs, hls, -⟩ := hstep.begins_iff
    intro a ha
    rcases List.mem_append.1 ha with ha | ha
    · cases hstep with
      | assignment =>
        cases List.mem_singleton.1 ha
        exact ⟨_, List.mem_cons_self, rfl⟩
      | opening => cases ha
      | closing => cases ha
    · obtain ⟨x, hx, hstart⟩ := ih a ha
      rw [hls]
      exact ⟨x, List.mem_append_right xs hx, hstart⟩

/-- A document is refused where one of its lexemes starts or where they end. -/
theorem position_of_refuse {ending : Lexeme.Ending} (ls : List Lexeme) (reason : Reason) :
    (∃ x ∈ ls, (refuse ending ls reason).position? = some x.start) ∨
      (refuse ending ls reason).position? = ending.position? := by
  cases ls with
  | cons x ls => exact .inl ⟨x, List.mem_cons_self, rfl⟩
  | nil =>
    refine .inr ?_
    cases ending with
    | finish | fault | torn => rfl

/-- A text that is no document is at fault at a place inside it. -/
theorem exists_position_of_ofText {strict : Bool} {defaults : Settings} {t : Text} {e : Fault}
    (h : ofText strict defaults t = .error e) : ∃ p, e.position? = some p ∧ p.Within t := by
  obtain ⟨hrun, hending⟩ := Lexemes.within_ofLexer none (Lexer.inside_ofText t)
  have hlenient : ofText false defaults t = .error e → ∃ p, e.position? = some p ∧ p.Within t := by
    intro h
    obtain ⟨taken, rest, reason, htaken, rfl, -⟩ := refusal_of_ofText h
    rcases position_of_refuse rest reason with ⟨x, hx, hp⟩ | hp
    · have hmem : x ∈ (Lexemes.ofText t).run := by
        rw [htaken]
        exact List.mem_append_right taken hx
      exact ⟨x.start, hp, hrun x hmem⟩
    · rw [hp]
      cases hend : (Lexemes.ofText t).ending with
      | finish p => exact ⟨p, rfl, hending p (congrArg Lexeme.Ending.position? hend)⟩
      | fault f => exact ⟨f.position, rfl, hending _ (congrArg Lexeme.Ending.position? hend)⟩
      | torn f => cases Lexemes.tear_of_ending hend
  cases strict with
  | false => exact hlenient h
  | true =>
    obtain ⟨made, hmade⟩ := exists_assigns (Lexemes.ofText t)
    rcases (ofLexemes_of_assigns hmade defaults).1 with ⟨-, heq⟩ | ⟨a, hfirst, heq⟩
    · exact hlenient (heq.symm.trans h)
    · obtain ⟨before, after, rfl, -⟩ := hfirst
      obtain ⟨blocks, rest, hsteps, -⟩ := hmade
      obtain ⟨x, hx, hstart⟩ := hsteps.exists_start a (by simp)
      cases Except.error.inj (heq.symm.trans h)
      exact ⟨a.start, rfl, hstart ▸ hrun x hx⟩

end Document

/-- Where the configuration is at fault, if that is a place in a source. -/
def ConfigError.location? : ConfigError → Option Location
  | lexical location _ => some location
  | grammar location _ => some location
  | duplicate location _ => some location
  | load _ => none
  | expansion _ => none

theorem Document.Fault.location_inSource {e : Document.Fault} {p : Position}
    (h : e.position? = some p) (source : Text) :
    ∃ error, e.inSource source = .config error ∧ error.location? = some ⟨source, p⟩ := by
  cases e with
  | lexical | grammar | duplicate =>
    cases h
    exact ⟨_, rfl, rfl⟩
  | torn => cases h

/-- However often a lexer is read, behind faults and behind the end too, its position counts the
characters and the line feeds it has taken. The token that it has come to does not start behind
it, no call moves either of them back, and a token moves the lexer on. The faults it shows, and
whatever a parsed text is refused with, strictly or not, lie within the text and on the line that
the line feeds in front of them tell. -/
theorem positions_exact (t : Text) :
    (∀ n, ∃ taken, t = taken ++ ((Lexer.ofText t).calls n).left ∧
      ((Lexer.ofText t).calls n).position = ⟨taken.length, 1 + taken.count '\n'⟩) ∧
    (∀ n, (Lexer.ofText t).tokenStart n ≤ ((Lexer.ofText t).calls n).position) ∧
    (Monotone fun n => ((Lexer.ofText t).calls n).position) ∧
    Monotone (Lexer.ofText t).tokenStart ∧
    (∀ n token, ((Lexer.ofText t).calls n).read.outcome = .ok token → token ≠ .finish →
      ((Lexer.ofText t).calls n).position.offset <
        ((Lexer.ofText t).calls (n + 1)).position.offset) ∧
    (∀ n fault, ((Lexer.ofText t).calls n).read.outcome = .error fault →
      fault.position.Within t) ∧
    ∀ source defaults strict failure, parseText t source defaults strict = .error failure →
      ∃ error position, failure = .config error ∧
        error.location? = some ⟨source, position⟩ ∧ position.Within t := by
  refine ⟨?taken, (Lexer.ofText t).tokenStart_le_position, (Lexer.ofText t).monotone_position,
    (Lexer.ofText t).monotone_tokenStart, ?progress, ?faults, ?refused⟩
  case taken =>
    intro n
    obtain ⟨taken, ht, hp⟩ := Lexer.inside_calls t n
    rw [Position.after_eq, Nat.zero_add] at hp
    exact ⟨taken, ht, hp⟩
  case progress => exact fun n token => Lexer.offset_lt_of_ok
  case faults => exact fun n fault => (Lexer.inside_calls t n).within_fault
  case refused =>
    intro source defaults strict failure h
    unfold parseText at h
    cases hread : Document.ofText strict defaults t with
    | ok settings =>
      rw [hread] at h
      cases h
    | error e =>
      rw [hread] at h
      cases h
      obtain ⟨p, hp, hwithin⟩ := Document.exists_position_of_ofText hread
      obtain ⟨error, hconfig, hlocation⟩ := Document.Fault.location_inSource hp source
      exact ⟨error, p, hconfig, hlocation, hwithin⟩

/-- A literal on the second line is never closed. -/
theorem positions_exact_unterminated :
    ((Lexer.ofText "a\n\"b".toList).calls 0).read.outcome = .ok (.word "a".toList) ∧
      ((Lexer.ofText "a\n\"b".toList).calls 0).position.offset <
        ((Lexer.ofText "a\n\"b".toList).calls 1).position.offset ∧
      ((Lexer.ofText "a\n\"b".toList).calls 1).read.outcome =
        .error ⟨.unterminatedLiteral, ⟨2, 2⟩⟩ ∧
      Position.Within ⟨2, 2⟩ "a\n\"b".toList ∧
      parseText "a\n\"b".toList "s".toList .empty false =
        .error (.config (.lexical ⟨"s".toList, ⟨2, 2⟩⟩ .unterminatedLiteral)) ∧
      ∃ error position, Failure.config (.lexical ⟨"s".toList, ⟨2, 2⟩⟩ .unterminatedLiteral) =
        .config error ∧ error.location? = some ⟨"s".toList, position⟩ ∧
          position.Within "a\n\"b".toList := by
  obtain ⟨-, -, -, -, hprogress, hfaults, hrefused⟩ := positions_exact "a\n\"b".toList
  have hword : ((Lexer.ofText "a\n\"b".toList).calls 0).read.outcome = .ok (.word "a".toList) := rfl
  have hfault : ((Lexer.ofText "a\n\"b".toList).calls 1).read.outcome =
      .error ⟨.unterminatedLiteral, ⟨2, 2⟩⟩ := rfl
  have hls : Lexemes.ofText "a\n\"b".toList =
      ⟨[⟨.word "a".toList, ⟨0, 1⟩⟩], .fault ⟨.unterminatedLiteral, ⟨2, 2⟩⟩⟩ := by decide +kernel
  have hparse : parseText "a\n\"b".toList "s".toList .empty false =
      .error (.config (.lexical ⟨"s".toList, ⟨2, 2⟩⟩ .unterminatedLiteral)) := by
    unfold parseText Document.ofText
    rw [hls, Document.ofLexemes, Document.read]
    rfl
  exact ⟨hword, hprogress 0 _ hword (by simp), hfault, hfaults 1 _ hfault, hparse,
    hrefused _ _ _ _ hparse⟩

end LayeredSettings
