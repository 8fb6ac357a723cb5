import LayeredSettings.Proofs.Token.Calls
import LayeredSettings.Proofs.Token.Spelling

/-!
# Texts as rows of longest tokens

A text that is read to its end without a fault is a row of gaps and of tokens, each of them the
longest one that stands in its place, and every such row is read to its end
(`reads_finish_iff_tiling`).

1. What a call does in front of a text is determined by the gap and the longest token the text
   starts with, if there are such (`call_cases`).
2. A row is read token by token (`Tiling.reads`), and what is read to the end is a row
   (`tiling_of_reads`).
3. Every call takes characters until one shows the end or a fault (`exists_reads`), so that a text
   that is no row has a fault.
-/

namespace LayeredSettings.Lexer

open Token

/-! ## Gaps at the end of a text -/

/-- Blanks and comments at the end of a text, where the last comment may lack its line feed. -/
inductive LastGap : Text → Prop
  | gap {g : Text} : Gap g → LastGap g
  | comment {g line : Text} : Gap g → '\n' ∉ line → LastGap (g ++ '#' :: line)

theorem LastGap.append {g h : Text} (hg : Gap g) (hh : LastGap h) : LastGap (g ++ h) := by
  cases hh with
  | gap hh => exact .gap (hg.append hh)
  | comment hh hl =>
    rw [← List.append_assoc]
    exact .comment (hg.append hh) hl

/-- A text is a gap, or something else stands behind the gap that it starts with. -/
theorem lastGap_or_exists (t : Text) :
    LastGap t ∨ ∃ g c s, Gap g ∧ t = g ++ c :: s ∧ isBlank c = false ∧ c ≠ '#' := by
  match t with
  | [] => exact .inl (.gap .nil)
  | c :: rest =>
    by_cases hcomment : c = '#'
    · subst hcomment
      by_cases hfeed : '\n' ∈ rest
      · obtain ⟨line, rest', rfl, hl⟩ := List.eq_append_cons_of_mem hfeed
        have hline : Gap ('#' :: (line ++ ['\n'])) := .comment hl .nil
        rcases lastGap_or_exists rest' with hlast | ⟨g, d, s, hg, rfl, hd⟩
        · have happend := LastGap.append hline hlast
          simp only [List.cons_append, List.append_assoc, List.nil_append] at happend
          exact .inl happend
        · exact .inr ⟨'#' :: (line ++ '\n' :: g), d, s, .comment hl hg, by simp, hd⟩
      · exact .inl (.comment .nil hfeed)
    · by_cases hblank : isBlank c = true
      · rcases lastGap_or_exists rest with hlast | ⟨g, d, s, hg, rfl, hd⟩
        · exact .inl (LastGap.append (.blank hblank .nil) hlast)
        · exact .inr ⟨c :: g, d, s, .blank hblank hg, rfl, hd⟩
      · exact .inr ⟨[], c, rest, .nil, rfl, Bool.eq_false_iff.2 hblank, hcomment⟩
termination_by t.length
decreasing_by
  all_goals subst_vars
  all_goals simp only [List.length_append, List.length_cons]
  all_goals omega

theorem gap_comment_of_notMem {line : Text} (h : '\n' ∉ line) : gap true line = (line, []) := by
  induction line with
  | nil => rfl
  | cons c line ih =>
    rw [List.mem_cons, not_or] at h
    have hc : (c != '\n') = true := bne_iff_ne.2 (Ne.symm h.1)
    rw [gap, if_pos rfl, hc, ih h.2]

/-- Nothing stands behind a gap at the end of a text. -/
theorem read_lastGap {g : Text} (h : LastGap g) (p : Position) (carried : Text) :
    read ⟨g, p, carried⟩ = readToken (p.after g) carried [] := by
  cases h with
  | @gap g hg =>
    have hread := read_gap hg [] p carried
    rw [List.append_nil] at hread
    exact hread
  | comment hg hl =>
    rw [read_gap hg, Position.after_append]
    unfold read
    simp only
    rw [gap, if_neg (by decide), if_pos rfl, gap_comment_of_notMem hl]

/-! ## What a call does -/

theorem Longest.ne_finish {w s : Text} {token : Token} (h : Longest w token s) :
    token ≠ .finish := by
  cases h with
  | mark hm =>
    rintro rfl
    exact ofMark?_ne_finish _ hm
  | name | numeral | literal => exact Token.noConfusion

theorem Longest.ne_nil {w s : Text} {token : Token} (h : Longest w token s) : w ≠ [] := by
  rintro rfl
  obtain ⟨hok, -, -⟩ := h.spells s (.refl s) {}
  have hlt := length_left_lt hok h.ne_finish
  rw [(h.spells s (.refl s) {}).2.2] at hlt
  exact absurd hlt (Nat.lt_irrefl _)

theorem readToken_cons_ne_finish (p : Position) (carried : Text) (c : Char) (rest : Text) :
    (readToken p carried (c :: rest)).outcome ≠ .ok .finish := by
  intro h
  rcases readToken_cases c rest with ⟨m, hm, hr⟩ | ⟨-, hr⟩ | ⟨-, hr⟩ | ⟨-, hr⟩ | hr
  · rw [hr] at h
    cases h
    exact ofMark?_ne_finish c hm
  · rw [hr, readLiteral] at h
    split at h <;> cases h
  · rw [hr, readNumber] at h
    simp only at h
    split at h <;> cases h
  · rw [hr] at h
    cases h
  · rw [hr] at h
    cases h

/-- The report of a call that shows the end of the text. -/
def Report.finish (e : Position) : Report := ⟨.ok .finish, e, e⟩

theorem report_lastGap {g : Text} (h : LastGap g) (p : Position) :
    report ⟨g, p, []⟩ = .finish (p.after g) := by
  unfold report
  rw [read_lastGap h]
  rfl

/-- A spelling behind a gap is read. -/
theorem read_spelling {g w s : Text} {token : Token} (hg : Gap g) (hw : Spells w token s)
    (p : Position) :
    report ⟨g ++ (w ++ s), p, []⟩ = ⟨.ok token, p.after g, (p.after g).after w⟩ ∧
      (read ⟨g ++ (w ++ s), p, []⟩).next = ⟨s, (p.after g).after w, []⟩ := by
  obtain ⟨hok, hstart, hnext⟩ := hw s (.refl s) (p.after g)
  unfold report
  rw [read_gap hg, hok, hstart, hnext]
  exact ⟨rfl, rfl⟩

/-- The longest token behind a gap is read. -/
theorem read_longest {g w s : Text} {token : Token} (hg : Gap g) (hw : Longest w token s)
    (p : Position) :
    report ⟨g ++ (w ++ s), p, []⟩ = ⟨.ok token, p.after g, (p.after g).after w⟩ ∧
      (read ⟨g ++ (w ++ s), p, []⟩).next = ⟨s, (p.after g).after w, []⟩ :=
  read_spelling hg hw.spells p

/-- A call in front of a text shows the end if the text is a gap, and otherwise the longest token
behind the gap that the text starts with, or a fault. -/
theorem call_cases (t : Text) (p : Position) :
    LastGap t ∨
    (∃ g w s token, Gap g ∧ Longest w token s ∧ t = g ++ (w ++ s)) ∨
    ∃ f, (read ⟨t, p, []⟩).outcome = .error f := by
  rcases lastGap_or_exists t with hlast | ⟨g, c, s, hg, rfl, hb, hc⟩
  · exact .inl hlast
  · refine .inr ?_
    rw [read_gap hg, read_of_start hb hc]
    cases hok : (readToken (p.after g) [] (c :: s)).outcome with
    | error f => exact .inr ⟨f, rfl⟩
    | ok token =>
      have htoken : token ≠ .finish := by
        rintro rfl
        exact readToken_cons_ne_finish _ _ c s hok
      obtain ⟨w, s', hparts, hw⟩ := exists_longest hok htoken
      exact .inl ⟨g, w, s', token, hg, hw, by rw [hparts]⟩

/-! ## Rows -/

/-- A token with the places where it starts and where it ends. -/
structure Span where
  token : Token
  start : Position
  stop : Position
  deriving DecidableEq, Repr

def Span.report (x : Span) : Report := ⟨.ok x.token, x.start, x.stop⟩

/-- A text that starts at one place and ends at another is a row of gaps and of longest tokens, the
spans of which are listed. -/
inductive Tiling : Position → Text → List Span → Position → Prop
  | last {p : Position} {g : Text} : LastGap g → Tiling p g [] (p.after g)
  | token {p e : Position} {g w s : Text} {token : Token} {spans : List Span} : Gap g →
      Longest w token s → Tiling ((p.after g).after w) s spans e →
      Tiling p (g ++ (w ++ s)) (⟨token, p.after g, (p.after g).after w⟩ :: spans) e

/-- The first calls show the tokens of the spans, and the next one shows `last`. -/
def Reads (l : Lexer) (spans : List Span) (last : Report) : Prop :=
  (∀ x ∈ spans, x.token ≠ .finish) ∧
    l.reports (spans.length + 1) = spans.map Span.report ++ [last]

theorem reads_nil {l : Lexer} {last : Report} : l.Reads [] last ↔ l.report = last := by
  constructor
  · exact fun h => (List.cons.inj h.2).1
  · rintro rfl
    exact ⟨by simp, rfl⟩

theorem reads_cons {l : Lexer} {x : Span} {spans : List Span} {last : Report} :
    l.Reads (x :: spans) last ↔
      x.token ≠ .finish ∧ l.report = x.report ∧ l.read.next.Reads spans last := by
  constructor
  · rintro ⟨hne, hreports⟩
    obtain ⟨hx, hspans⟩ := List.forall_mem_cons.1 hne
    obtain ⟨hreport, hrest⟩ := List.cons.inj hreports
    exact ⟨hx, hreport, hspans, hrest⟩
  · rintro ⟨hx, hreport, hspans, hrest⟩
    refine ⟨List.forall_mem_cons.2 ⟨hx, hspans⟩, ?_⟩
    show l.report :: l.read.next.reports (spans.length + 1) = x.report :: _
    rw [hreport, hrest]
    rfl

/-- A row is read to its end. -/
theorem Tiling.reads {p e : Position} {t : Text} {spans : List Span} (h : Tiling p t spans e) :
    Reads ⟨t, p, []⟩ spans (.finish e) := by
  induction h with
  | last hg => exact reads_nil.2 (report_lastGap hg _)
  | token hg hw _ ih =>
    obtain ⟨hreport, hnext⟩ := read_longest hg hw _
    refine reads_cons.2 ⟨hw.ne_finish, hreport, ?_⟩
    rw [hnext]
    exact ih

/-- What is read to its end is a row. -/
theorem tiling_of_reads {p : Position} {t : Text} {spans : List Span} {last : Report}
    (h : Reads ⟨t, p, []⟩ spans last) (hlast : last.outcome = .ok .finish) :
    ∃ e, last = .finish e ∧ Tiling p t spans e := by
  induction spans generalizing t p with
  | nil =>
    have hreport := reads_nil.1 h
    rcases call_cases t p with hg | ⟨g, w, s, token, hg, hw, rfl⟩ | ⟨f, hf⟩
    · exact ⟨p.after t, hreport.symm.trans (report_lastGap hg p), .last hg⟩
    · have hok := (congrArg Report.outcome hreport).symm.trans
        (congrArg Report.outcome (read_longest hg hw p).1)
      exact absurd (Except.ok.inj (hok.symm.trans hlast)) hw.ne_finish
    · have herror := (congrArg Report.outcome hreport).symm.trans hf
      cases herror.symm.trans hlast
  | cons x spans ih =>
    obtain ⟨hx, hreport, hrest⟩ := reads_cons.1 h
    rcases call_cases t p with hg | ⟨g, w, s, token, hg, hw, rfl⟩ | ⟨f, hf⟩
    · have hfinish := congrArg Report.outcome (hreport.symm.trans (report_lastGap hg p))
      exact absurd (Except.ok.inj hfinish) hx
    · obtain ⟨hw', hnext⟩ := read_longest hg hw p
      rw [hnext] at hrest
      obtain ⟨e, he, htiling⟩ := ih hrest
      obtain ⟨token', start, stop⟩ := x
      cases hreport.symm.trans hw'
      exact ⟨e, he, .token hg hw htiling⟩
    · have herror := (congrArg Report.outcome hreport).symm.trans hf
      cases herror

theorem report_of_ok {l : Lexer} {token : Token} (h : l.read.outcome = .ok token) :
    l.report = Span.report ⟨token, l.read.start, l.read.next.position⟩ := by
  unfold report
  rw [h]
  rfl

/-- Some call shows the end or a fault, and those before it show tokens. -/
theorem exists_reads (l : Lexer) :
    ∃ spans last, l.Reads spans last ∧
      (last.outcome = .ok .finish ∨ ∃ f, last.outcome = .error f) := by
  cases hok : l.read.outcome with
  | error f => exact ⟨[], l.report, reads_nil.2 rfl, .inr ⟨f, hok⟩⟩
  | ok token =>
    by_cases htoken : token = .finish
    · subst htoken
      exact ⟨[], l.report, reads_nil.2 rfl, .inl hok⟩
    · have hlt := length_left_lt hok htoken
      obtain ⟨spans, last, hreads, hlast⟩ := exists_reads l.read.next
      refine ⟨⟨token, l.read.start, l.read.next.position⟩ :: spans, last, ?_, hlast⟩
      exact reads_cons.2 ⟨htoken, report_of_ok hok, hreads⟩
termination_by l.left.length

/-- A text is read to its end, with the tokens of some spans, exactly if it is a row of gaps and of
longest tokens with these spans. In a text that is no such row a call shows a fault. -/
theorem reads_finish_iff_tiling (t : Text) :
    (∀ spans e, (ofText t).Reads spans (.finish e) ↔ Tiling {} t spans e) ∧
    ((¬ ∃ spans e, Tiling {} t spans e) →
      ∃ spans fault start stop, (ofText t).Reads spans ⟨.error fault, start, stop⟩) := by
  constructor
  · intro spans e
    constructor
    · intro h
      obtain ⟨e', he, htiling⟩ := tiling_of_reads h rfl
      cases he
      exact htiling
    · exact Tiling.reads
  · intro hnone
    obtain ⟨spans, last, hreads, hlast | ⟨f, hf⟩⟩ := exists_reads (ofText t)
    · obtain ⟨e, -, htiling⟩ := tiling_of_reads hreads hlast
      exact absurd ⟨spans, e, htiling⟩ hnone
    · obtain ⟨outcome, start, stop⟩ := last
      obtain rfl : outcome = .error f := hf
      exact ⟨spans, f, start, stop, hreads⟩

/-- An open comment ends a text, and a number without its digits lets a text have no row. -/
theorem reads_finish_iff_tiling_number :
    Tiling {} "a-15#".toList
        [⟨.word "a".toList, ⟨0, 1⟩, ⟨1, 1⟩⟩, ⟨.word "-15".toList, ⟨1, 1⟩, ⟨4, 1⟩⟩] ⟨5, 1⟩ ∧
      (¬ ∃ spans e, Tiling {} "a 1.x".toList spans e) ∧
      ∃ spans fault start stop,
        (ofText "a 1.x".toList).Reads spans ⟨.error fault, start, stop⟩ := by
  have hnone : ¬ ∃ spans e, Tiling {} "a 1.x".toList spans e := by
    rintro ⟨spans, e, htiling⟩
    have hreads := ((reads_finish_iff_tiling "a 1.x".toList).1 spans e).2 htiling
    cases spans with
    | nil => cases reads_nil.1 hreads
    | cons x spans =>
      have hrest := (reads_cons.1 hreads).2.2
      cases spans with
      | nil => cases reads_nil.1 hrest
      | cons y spans => cases (reads_cons.1 hrest).2.1
  refine ⟨?_, hnone, (reads_finish_iff_tiling "a 1.x".toList).2 hnone⟩
  refine ((reads_finish_iff_tiling "a-15#".toList).1 _ _).1 ⟨?_, rfl⟩
  intro x hx
  simp only [List.mem_cons, List.not_mem_nil, or_false] at hx
  rcases hx with rfl | rfl <;> simp

end LayeredSettings.Lexer
