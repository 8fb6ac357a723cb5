import LayeredSettings.Proofs.Token.Lexing
import LayeredSettings.Proofs.Token.Munch

/-!
# Texts as gaps and spellings

A text without lexical faults is a row of gaps and of spellings of its tokens
(`tokens?_eq_some_iff`). Two such texts may be put together with a blank between them that keeps
the last token of the one apart from the first of the other, and the last comment of the one apart
from all of the other: a line feed does so always, another blank unless the text ends inside a
comment (`tokens?_append`).
-/

namespace LayeredSettings

open Token

/-- A text made of gaps and of spellings of the given tokens. It may end inside a comment. -/
inductive Tiles : Text → List Token → Prop
  | gap {g : Text} : Lexer.Gap g → Tiles g []
  | comment {g line : Text} : Lexer.Gap g → '\n' ∉ line → Tiles (g ++ '#' :: line) []
  | token {g w s : Text} {token : Token} {ts : List Token} : Lexer.Gap g → token ≠ .finish →
      Lexer.Spells w token s → Tiles s ts → Tiles (g ++ (w ++ s)) (token :: ts)

/-! ## Rows are read -/

theorem Tiles.lexes {t : Text} {ts : List Token} (h : Tiles t ts) : Lexes t ts := by
  induction h with
  | @gap g hg =>
    have hlexes := Lexes.gap hg Lexes.nil
    rw [List.append_nil] at hlexes
    exact hlexes
  | comment hg hl =>
    intro p
    have hread := Lexer.read_lastGap (.comment hg hl) p []
    rw [Lexemes.ofLexer_of_finish (by rw [hread]; rfl)]
    rfl
  | token hg ht hw _ ih => exact Lexes.gap hg (Lexes.spelling hw ht ih)

/-! ## What is read is a row -/

/-- The lexemes of a text without faults are what the calls show. -/
theorem Lexemes.exists_reads_of_tokens? {l : Lexer} {ts : List Token}
    (h : (ofLexer none l).tokens? = some ts) :
    ∃ spans last, l.Reads spans last ∧ last.outcome = .ok .finish ∧
      spans.map Lexer.Span.token = ts := by
  generalize htear : (none : Option Tear) = tear at h
  fun_induction ofLexer tear l generalizing ts with
  | case1 l e hsaw =>
    subst htear
    split at hsaw <;> cases hsaw
  | case2 => cases h
  | case3 l _ hok =>
    cases h
    exact ⟨[], l.report, Lexer.reads_nil.2 rfl, hok, rfl⟩
  | case4 l _ token hok htoken ih =>
    rw [tokens?_cons, Option.map_eq_some_iff] at h
    obtain ⟨ts, hts, rfl⟩ := h
    obtain ⟨spans, last, hreads, hlast, rfl⟩ := ih hts
    refine ⟨⟨token, l.read.start, l.read.next.position⟩ :: spans, last, ?_, hlast, rfl⟩
    exact Lexer.reads_cons.2 ⟨htoken, Lexer.report_of_ok hok, hreads⟩

theorem Lexer.Tiling.tiles {p e : Position} {t : Text} {spans : List Span}
    (h : Tiling p t spans e) : Tiles t (spans.map Span.token) := by
  induction h with
  | last hg =>
    cases hg with
    | gap hg => exact .gap hg
    | comment hg hl => exact .comment hg hl
  | token hg hw _ ih => exact .token hg hw.ne_finish hw.spells ih

/-- A text has tokens exactly if it is a row of gaps and of spellings of these tokens. -/
theorem tokens?_eq_some_iff {t : Text} {ts : List Token} :
    (Lexemes.ofText t).tokens? = some ts ↔ Tiles t ts := by
  constructor
  · intro h
    obtain ⟨spans, last, hreads, hlast, rfl⟩ := Lexemes.exists_reads_of_tokens? h
    obtain ⟨e, -, htiling⟩ := Lexer.tiling_of_reads hreads hlast
    exact htiling.tiles
  · exact fun h => h.lexes.tokens?_ofText

/-! ## Rows put together -/

/-- A comment sign stands between tokens and no line feed behind it. -/
def EndsInComment (t : Text) : Prop :=
  ∃ u line ts, t = u ++ '#' :: line ∧ '\n' ∉ line ∧ (Lexemes.ofText u).tokens? = some ts

/-- A blank that ends whatever stands at the end of the text. -/
def Separates (c : Char) (t : Text) : Prop := c = '\n' ∨ isBlank c = true ∧ ¬ EndsInComment t

theorem Separates.isBlank {c : Char} {t : Text} (h : Separates c t) : isBlank c = true := by
  rcases h with rfl | ⟨h, -⟩
  · rfl
  · exact h

/-- A text that goes on where another one ends ends inside a comment if that one does. -/
theorem endsInComment_append {g w s : Text} {token : Token} (hg : Lexer.Gap g)
    (ht : token ≠ .finish) (hw : Lexer.Spells w token s) (h : EndsInComment s) :
    EndsInComment (g ++ (w ++ s)) := by
  obtain ⟨u, line, ts, rfl, hl, hu⟩ := h
  have hu' : Lexer.Spells w token u := hw.replace (Lexer.mayReplace_append u _)
  refine ⟨g ++ (w ++ u), line, token :: ts, by simp, hl, ?_⟩
  exact tokens?_eq_some_iff.2 (.token hg ht hu' (tokens?_eq_some_iff.1 hu))

theorem Tiles.gap_append {g t : Text} {ts : List Token} (hg : Lexer.Gap g) (h : Tiles t ts) :
    Tiles (g ++ t) ts := by
  cases h with
  | gap h => exact .gap (hg.append h)
  | comment h hl =>
    rw [← List.append_assoc]
    exact .comment (hg.append h) hl
  | token h ht hw hs =>
    rw [← List.append_assoc]
    exact .token (hg.append h) ht hw hs

theorem Tiles.append {c : Char} {t u : Text} {ts us : List Token} (h : Tiles t ts)
    (hc : Separates c t) (hu : Tiles u us) : Tiles (t ++ c :: u) (ts ++ us) := by
  have hblank : Lexer.Gap [c] := .blank hc.isBlank .nil
  induction h with
  | gap hg => exact (hu.gap_append hblank).gap_append hg
  | @comment g line hg hl =>
    rcases hc with rfl | ⟨-, hc⟩
    · -- The line feed closes the comment, so that all of it is a gap in front of `u`.
      have hgap : Lexer.Gap (g ++ '#' :: (line ++ ['\n'])) := hg.append (.comment hl .nil)
      have hrow := hu.gap_append hgap
      simp only [List.append_assoc, List.cons_append, List.nil_append] at hrow ⊢
      exact hrow
    · refine absurd ⟨g, line, [], rfl, hl, ?_⟩ hc
      exact tokens?_eq_some_iff.2 (.gap hg)
  | @token g w s token ts hg ht hw _ ih =>
    have hs : Separates c s := hc.imp_right fun hc =>
      ⟨hc.1, fun hs => hc.2 (endsInComment_append hg ht hw hs)⟩
    have hw' : Lexer.Spells w token (s ++ c :: u) :=
      hw.replace (Lexer.mayReplace_append_blank hc.isBlank s u)
    rw [List.append_assoc, List.append_assoc]
    exact .token hg ht hw' (ih hs)

/-- The tokens of two texts that are kept apart. -/
theorem tokens?_append {c : Char} {t u : Text} {ts us : List Token}
    (ht : (Lexemes.ofText t).tokens? = some ts) (hc : Separates c t)
    (hu : (Lexemes.ofText u).tokens? = some us) :
    (Lexemes.ofText (t ++ c :: u)).tokens? = some (ts ++ us) := by
  rw [tokens?_eq_some_iff] at ht hu ⊢
  exact ht.append hc hu

end LayeredSettings
