import LayeredSettings.Proofs.Token.Resumption
import LayeredSettings.Proofs.Token.Tiling

/-!
# Reading across a line feed

Behind a text that is read to its end and a line feed, any other text is read as it is alone, moved
to where it starts (`reports_append_feed`): whatever the first text ends with, a comment, a name, a
number or a literal, the line feed ends it and belongs to the gap in front of the next token.

1. The row of the first text is passed token by token. Behind it the lexer stands, as far as its
   calls can tell, where the second text starts (`Tiling.passes`).
2. What is passed comes in front of all that the lexer shows then, be it looked at call by call
   (`Passes.reports`) or as lexemes (`Passes.lexemes`). A gap or a spelling may be put in front
   (`Passes.gap`, `Passes.spelling`).
3. A lexer whose text starts elsewhere has the same lexemes, moved (`ofLexer_resumed`).
-/

namespace LayeredSettings

/-! ## Moved lexemes -/

def Lexeme.behind (p : Position) (x : Lexeme) : Lexeme := ⟨x.token, p.behind x.start⟩

def Lexeme.Ending.behind (p : Position) : Lexeme.Ending → Lexeme.Ending
  | finish q => finish (p.behind q)
  | fault f => fault (f.behind p)
  | torn e => torn e

/-- The lexemes of a text that starts at `p`. -/
def Lexemes.behind (p : Position) (ls : Lexemes) : Lexemes :=
  ⟨ls.run.map (Lexeme.behind p), ls.ending.behind p⟩

theorem Lexemes.ofLexer_resumed (p : Position) (l : Lexer) :
    ofLexer none (l.resumed p []) = (ofLexer none l).behind p := by
  obtain ⟨houtcome, hstart, hnext⟩ := Lexer.resumes_read p [] l
  rw [Lexer.withFront_nil] at houtcome
  cases h : l.read.outcome with
  | error f =>
    have herror : (l.resumed p []).read.outcome = .error (f.behind p) := by
      rw [houtcome, h]
      rfl
    rw [ofLexer_of_error h, ofLexer_of_error herror]
    rfl
  | ok token =>
    have hok : (l.resumed p []).read.outcome = .ok token := by
      rw [houtcome, h]
      rfl
    by_cases ht : token = .finish
    · subst ht
      rw [ofLexer_of_finish h, ofLexer_of_finish hok, hstart]
      rfl
    · -- what is carried stays empty, whether or not the token shows it
      have hlt := Lexer.length_left_lt h ht
      rw [ofLexer_of_ok h ht, ofLexer_of_ok hok ht, hstart, hnext, ite_self,
        ofLexer_resumed p l.read.next]
      rfl
termination_by l.left.length

namespace Lexer

/-- A new lexer whose text starts at `p`. -/
theorem resumed_ofText {p : Position} (hp : 1 ≤ p.line) (t : Text) :
    (ofText t).resumed p [] = ⟨t, p, []⟩ := by
  show Lexer.mk t (p.behind {}) [] = _
  rw [Position.behind_start hp]

/-! ## Passing tokens -/

/-- What a span shows among the lexemes. -/
def Span.lexeme (x : Span) : Lexeme := ⟨x.token, x.start⟩

/-- The first calls of `l` show the tokens of the spans, and from there on `l` is read as `l'`
is. -/
inductive Passes : Lexer → List Span → Lexer → Prop
  | done {l l' : Lexer} : l.read = l'.read → Passes l [] l'
  | token {l l' : Lexer} {x : Span} {spans : List Span} : x.token ≠ .finish →
      l.report = x.report → Passes l.read.next spans l' → Passes l (x :: spans) l'

theorem reports_congr {l l' : Lexer} (h : l.read = l'.read) (k : Nat) :
    l.reports k = l'.reports k := by
  cases k with
  | zero => rfl
  | succ k =>
    unfold reports report
    rw [h]

theorem Passes.reports {l l' : Lexer} {spans : List Span} (h : Passes l spans l') (k : Nat) :
    l.reports (spans.length + k) = spans.map Span.report ++ l'.reports k := by
  induction h with
  | done hread =>
    rw [List.length_nil, Nat.zero_add, reports_congr hread]
    rfl
  | @token l l' x spans _ hreport _ ih =>
    have hlength : (x :: spans).length + k = spans.length + k + 1 := by
      rw [List.length_cons]
      omega
    rw [hlength, Lexer.reports, hreport, ih]
    rfl

theorem Passes.lexemes {l l' : Lexer} {spans : List Span} (h : Passes l spans l') :
    Lexemes.ofLexer none l = ⟨spans.map Span.lexeme ++ (Lexemes.ofLexer none l').run,
      (Lexemes.ofLexer none l').ending⟩ := by
  induction h with
  | done hread =>
    rw [Lexemes.ofLexer_congr hread]
    rfl
  | @token l l' x spans htoken hreport _ ih =>
    have hok : l.read.outcome = .ok x.token := congrArg Report.outcome hreport
    have hstart : l.read.start = x.start := congrArg Report.start hreport
    rw [Lexemes.ofLexer_of_ok hok htoken, hstart, ih]
    rfl

/-- The tokens that are passed come in front of the others. -/
theorem Passes.tokens? {l l' : Lexer} {spans : List Span} {ts : List Token} (h : Passes l spans l')
    (hts : (Lexemes.ofLexer none l').tokens? = some ts) :
    (Lexemes.ofLexer none l).tokens? = some (spans.map Span.token ++ ts) := by
  rw [h.lexemes]
  generalize Lexemes.ofLexer none l' = ls at hts ⊢
  obtain ⟨run, ending⟩ := ls
  cases ending with
  | finish p =>
    obtain rfl : run.map Lexeme.token = ts := Option.some.inj hts
    rw [Lexemes.tokens?, List.map_append, List.map_map]
    rfl
  | fault f => cases hts
  | torn e => cases hts

/-- A gap in front is skipped. -/
theorem Passes.gap {g t : Text} {p : Position} {spans : List Span} {l : Lexer} (hg : Gap g)
    (h : Passes ⟨t, p.after g, []⟩ spans l) : Passes ⟨g ++ t, p, []⟩ spans l := by
  have hread := read_gap hg t p []
  cases h with
  | done hdone => exact .done (hread.trans hdone)
  | token htoken hreport hrest =>
    apply Passes.token htoken
    · unfold report at hreport ⊢
      rw [hread]
      exact hreport
    · rw [hread]
      exact hrest

/-- A spelling in front is passed. -/
theorem Passes.spelling {w s : Text} {token : Token} {p : Position} {spans : List Span}
    {l : Lexer} (hw : Spells w token s) (htoken : token ≠ .finish)
    (h : Passes ⟨s, p.after w, []⟩ spans l) :
    Passes ⟨w ++ s, p, []⟩ (⟨token, p, p.after w⟩ :: spans) l := by
  obtain ⟨hreport, hnext⟩ := read_spelling .nil hw p
  rw [List.nil_append, Position.after_nil] at hreport hnext
  apply Passes.token htoken hreport
  rw [hnext]
  exact h

/-! ## Rows with a line feed behind them -/

/-- A line feed closes an open comment. -/
theorem LastGap.gap_feed {g : Text} (h : LastGap g) : Gap (g ++ ['\n']) := by
  cases h with
  | gap hg => exact hg.append (.blank rfl .nil)
  | comment hg hl =>
    rw [List.append_assoc]
    exact hg.append (.comment hl .nil)

theorem Tiling.passes {p e : Position} {t : Text} {spans : List Span} (h : Tiling p t spans e)
    (u : Text) : Passes ⟨t ++ '\n' :: u, p, []⟩ spans ⟨u, p.after (t ++ ['\n']), []⟩ := by
  induction h with
  | @last p g hg =>
    apply Passes.done
    rw [List.append_cons, read_gap hg.gap_feed]
  | @token p e g w s token spans hg hw _ ih =>
    have hplace : p.after (g ++ (w ++ s) ++ ['\n']) =
        ((p.after g).after w).after (s ++ ['\n']) := by
      simp only [Position.after_append]
    have hfeed : Spells w token (s ++ '\n' :: u) :=
      hw.spells.replace (mayReplace_append_blank (c := '\n') rfl s u)
    rw [hplace, List.append_assoc, List.append_assoc]
    exact (ih.spelling hfeed hw.ne_finish).gap hg

/-- Behind a text that is read to its end and a line feed, the calls show what they show of the
second text alone, tokens, end and faults, and so do the lexemes. All places are moved by the
characters of the first text and the line feed, and by the lines that these end. -/
theorem reports_append_feed {t : Text} {spans : List Span} {last : Report}
    (h : (ofText t).Reads spans last) (hlast : last.outcome = .ok .finish) (u : Text) :
    let p : Position := ⟨t.length + 1, t.count '\n' + 2⟩
    (∀ k, (ofText (t ++ '\n' :: u)).reports (spans.length + k) =
      spans.map Span.report ++ ((ofText u).reports k).map (Report.behind p)) ∧
    Lexemes.ofText (t ++ '\n' :: u) =
      ⟨spans.map Span.lexeme ++ ((Lexemes.ofText u).behind p).run,
        ((Lexemes.ofText u).behind p).ending⟩ := by
  intro p
  obtain ⟨e, -, htiling⟩ := tiling_of_reads h hlast
  have hplace : Position.after {} (t ++ ['\n']) = p := by
    rw [Position.after_eq, List.length_append, List.count_append]
    simp only [List.length_singleton, List.count_singleton_self, Position.mk.injEq, p]
    omega
  have hmoved : (ofText u).resumed p [] = ⟨u, p, []⟩ :=
    resumed_ofText (Nat.le_add_left 1 _) u
  have hpasses := htiling.passes u
  rw [hplace, ← hmoved] at hpasses
  constructor
  · intro k
    rw [← carry_nil ((ofText u).reports k), ← reports_resumed]
    exact hpasses.reports k
  · have hlexemes := hpasses.lexemes
    rw [Lexemes.ofLexer_resumed] at hlexemes
    exact hlexemes

/-- The first text ends inside a comment, and the second one with a literal that is not closed. -/
theorem reports_append_feed_comment :
    (ofText "1.5 #".toList).Reads [⟨.word "1.5".toList, ⟨0, 1⟩, ⟨3, 1⟩⟩] (.finish ⟨5, 1⟩) ∧
      (ofText "1.5 #\nb \"".toList).reports 3 =
        [⟨.ok (.word "1.5".toList), ⟨0, 1⟩, ⟨3, 1⟩⟩, ⟨.ok (.word "b".toList), ⟨6, 2⟩, ⟨7, 2⟩⟩,
          ⟨.error ⟨.unterminatedLiteral, ⟨8, 2⟩⟩, ⟨8, 2⟩, ⟨9, 2⟩⟩] := by
  have hreads : (ofText "1.5 #".toList).Reads [⟨.word "1.5".toList, ⟨0, 1⟩, ⟨3, 1⟩⟩]
      (.finish ⟨5, 1⟩) := by
    refine ⟨fun x hx => ?_, rfl⟩
    rw [List.mem_singleton.1 hx]
    exact Token.noConfusion
  exact ⟨hreads, (reports_append_feed hreads rfl "b \"".toList).1 2⟩

end Lexer

end LayeredSettings
