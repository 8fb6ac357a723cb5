import LayeredSettings.Proofs.Document.Refusal
import LayeredSettings.Proofs.Store.RoundTrip

/-!
# Literals and keys that end themselves

A written literal is read back whatever stands behind it, and the lexer stops where it ends, without
a look at what follows. A written key is read back in front of every text that neither goes on with
a name nor starts with a dot; what is read behind it is what that text alone has, moved
(`written_delimited`).

1. What a text starts with comes up in front of its lexemes (`upcoming_ofLexer`), be the rest of the
   text readable or not.
2. A row of words ends in front of every token but a dot (`moreWords_of_followed`), and a written
   key is a row of words with dots between them (`passes_key`).
-/

namespace LayeredSettings

namespace Document

/-- The first token of a text comes up, whatever stands behind it. -/
theorem upcoming_ofLexer {l : Lexer} {token : Token} (h : l.read.outcome = .ok token) :
    upcoming (Lexemes.ofLexer none l).ending (Lexemes.ofLexer none l).run =
      some ⟨token, l.read.start⟩ := by
  by_cases ht : token = .finish
  · subst ht
    rw [Lexemes.ofLexer_of_finish h]
    rfl
  · rw [Lexemes.ofLexer_of_ok h ht]
    rfl

theorem upcoming_behind (p : Position) (ls : Lexemes) :
    upcoming (ls.behind p).ending (ls.behind p).run =
      (upcoming ls.ending ls.run).map (Lexeme.behind p) := by
  rcases ls with ⟨_ | ⟨x, run⟩, q | f | e⟩ <;> rfl

theorem followed_of_upcoming {ending : Lexeme.Ending} {ls : List Lexeme} {x : Lexeme}
    (h : upcoming ending ls = some x) (hx : x.token ≠ .dot) : Followed ending ls := by
  cases ls with
  | nil =>
    cases ending with
    | finish p => exact ⟨p, rfl⟩
    | fault f => cases h
    | torn e => cases h
  | cons y ls =>
    cases h
    exact hx

/-- The lexemes of a text that starts at `p` are those it has alone, moved. -/
theorem ofLexer_eq_behind {p : Position} (hp : 1 ≤ p.line) (t : Text) :
    Lexemes.ofLexer none ⟨t, p, []⟩ = (Lexemes.ofText t).behind p := by
  rw [← Lexer.resumed_ofText hp t, Lexemes.ofLexer_resumed]
  rfl

/-- In front of a text that does not go on with a name, a written key is a row of words, and behind
it come the lexemes of that text. -/
theorem lexemes_render (key : Text) {r : Text} (hr : ∀ c ∈ r.head?, Token.isNameChar c = false) :
    ∃ xs, xs.map Lexeme.token = Words.moreTokens (Words.ofKey key).more ∧
      Lexemes.ofText (Key.render key ++ r) =
        ⟨⟨.word (Words.ofKey key).first, {}⟩ ::
            (xs ++ ((Lexemes.ofText r).behind (Position.after {} (Key.render key))).run),
          ((Lexemes.ofText r).behind (Position.after {} (Key.render key))).ending⟩ := by
  obtain ⟨stop, spans, hspans, hpasses⟩ := passes_key key hr {}
  have hline : 1 ≤ (Position.after {} (Key.render key)).line := by
    rw [Position.after_eq]
    exact Nat.le_add_right 1 _
  have hlexemes := hpasses.lexemes
  rw [ofLexer_eq_behind hline r] at hlexemes
  refine ⟨spans.map Lexer.Span.lexeme, ?_, hlexemes⟩
  rw [List.map_map, ← hspans]
  rfl

end Document

open Document

/-- A written literal is read back whatever stands behind it: the lexer stops where the literal
ends and has not looked further. A written key, outside all blocks, is read back in front of every
text that does not go on with a name and whose first token is read and is no dot. That token comes
up then, and the lexemes left are those that the text has alone, moved to where it starts. -/
theorem written_delimited :
    (∀ t r : Text, (Lexer.ofText (Quoted.literal t ++ r)).read =
      { outcome := .ok (.word t)
        start := {}
        next := ⟨r, Position.after {} (Quoted.literal t), []⟩
        sawEnd := false }) ∧
    ∀ (key r : Text) (token : Token), (∀ c ∈ r.head?, Token.isNameChar c = false) →
      (Lexer.ofText r).read.outcome = .ok token → token ≠ .dot →
      ∃ w ls ws rest ending,
        Lexemes.ofText (Key.render key ++ r) = ⟨⟨.word w, {}⟩ :: ls, ending⟩ ∧
        moreWords ending ls = .ok (ws, rest) ∧
        Key.under [] (Key.ofSegments (w :: ws)) = key ∧
        upcoming ending rest = some ⟨token,
          (Position.after {} (Key.render key)).behind (Lexer.ofText r).read.start⟩ ∧
        ⟨rest, ending⟩ = (Lexemes.ofText r).behind (Position.after {} (Key.render key)) := by
  constructor
  · intro t r
    have htext : Quoted.literal t ++ r = '"' :: (Quoted.encode t ++ '"' :: r) := by
      rw [Quoted.literal, List.cons_append, List.append_assoc]
      rfl
    rw [Lexer.ofText, htext, Lexer.read_literal, Lexer.readLiteral, Quoted.scan_encode]
    rfl
  · intro key r token hr hok hdot
    obtain ⟨xs, hxs, hlexemes⟩ := lexemes_render key hr
    have hnext := upcoming_behind (Position.after {} (Key.render key)) (Lexemes.ofText r)
    rw [Lexemes.ofText, upcoming_ofLexer hok] at hnext
    have hmore := moreWords_of_followed hxs (followed_of_upcoming hnext hdot)
    refine ⟨_, _, _, _, _, hlexemes, hmore, ?_, hnext, rfl⟩
    rw [Key.under, if_pos rfl]
    exact Words.text_ofKey key

/-- A key with an empty segment and one that is no name, in front of an equals sign behind which no
token can be read. -/
theorem written_delimited_before_fault :
    (∀ c ∈ "=1.x".toList.head?, Token.isNameChar c = false) ∧
      (Lexer.ofText "=1.x".toList).read.outcome = .ok .equal ∧ Token.equal ≠ .dot ∧
      ∃ w ls ws rest ending,
        Lexemes.ofText "a.\"\".\"b c\"=1.x".toList = ⟨⟨.word w, {}⟩ :: ls, ending⟩ ∧
        moreWords ending ls = .ok (ws, rest) ∧
        Key.under [] (Key.ofSegments (w :: ws)) = "a..b c".toList ∧
        upcoming ending rest = some ⟨.equal, ⟨10, 1⟩⟩ := by
  have hhead : ∀ c ∈ "=1.x".toList.head?, Token.isNameChar c = false := by
    intro c hc
    cases hc
    rfl
  have hequal : (Lexer.ofText "=1.x".toList).read.outcome = .ok .equal := rfl
  obtain ⟨w, ls, ws, rest, ending, hlexemes, hmore, hkey, hnext, -⟩ :=
    written_delimited.2 "a..b c".toList "=1.x".toList .equal hhead hequal (by decide)
  exact ⟨hhead, hequal, by decide, w, ls, ws, rest, ending, hlexemes, hmore, hkey, hnext⟩

end LayeredSettings
