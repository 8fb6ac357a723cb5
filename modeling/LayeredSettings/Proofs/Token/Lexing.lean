import LayeredSettings.Proofs.Token.Spelling
import LayeredSettings.Token.Lexeme

/-!
# Texts made of tokens

`Lexes t ts` says that a text is made of the given tokens, wherever it starts. Blanks and comments
may stand in front of it (`Lexes.gap`), and so may a spelling of a token, a mark or a literal for
one (`Lexes.spelling`, `Lexes.mark`, `Lexes.literal`). Any tokens are those of some text
(`Lexes.written`).
-/

namespace LayeredSettings

open Token

/-- The tokens of a run of lexemes that ends with the text, the end left out. -/
def Lexemes.tokens? (ls : Lexemes) : Option (List Token) :=
  match ls.ending with
  | .finish _ => some (ls.run.map Lexeme.token)
  | _ => none

theorem Lexemes.tokens?_cons (x : Lexeme) (ls : Lexemes) :
    (ls.cons x).tokens? = ls.tokens?.map (x.token :: ·) := by
  rcases ls with ⟨run, p | f | e⟩ <;> rfl

/-- The end of the text as a lexeme, if that is how the run ends. -/
def Lexeme.Ending.lexeme? : Lexeme.Ending → Option Lexeme
  | .finish p => some ⟨.finish, p⟩
  | _ => none

/-- The run with the end of the text behind it, if that is how the run ends. -/
def Lexemes.withEnd (ls : Lexemes) : List Lexeme := ls.run ++ ls.ending.lexeme?.toList

theorem Lexemes.map_token_withEnd {ls : Lexemes} {ts : List Token} (h : ls.tokens? = some ts) :
    ls.withEnd.map Lexeme.token = ts ++ [.finish] := by
  rcases ls with ⟨run, p | f | e⟩
  · obtain rfl : run.map Lexeme.token = ts := Option.some.inj h
    exact List.map_append
  · cases h
  · cases h

namespace Lexemes

theorem ofLexer_congr {l l' : Lexer} (h : l.read = l'.read) : ofLexer none l = ofLexer none l' := by
  rw [ofLexer.eq_def none l, ofLexer.eq_def none l', h]

theorem ofLexer_of_ok {l : Lexer} {token : Token} (h : l.read.outcome = .ok token)
    (ht : token ≠ .finish) :
    ofLexer none l = (ofLexer none l.read.next).cons ⟨token, l.read.start⟩ := by
  rw [ofLexer]
  split
  · next he => simp at he
  · split
    · next f hf => simp [h] at hf
    · next token' hok =>
      rw [h] at hok
      cases hok
      rw [dif_neg ht]

theorem ofLexer_of_finish {l : Lexer} (h : l.read.outcome = .ok .finish) :
    ofLexer none l = ⟨[], .finish l.read.start⟩ := by
  rw [ofLexer]
  split
  · next he => simp at he
  · split
    · next f hf => simp [h] at hf
    · next token hok =>
      rw [h] at hok
      cases hok
      rw [dif_pos rfl]

theorem ofLexer_of_error {l : Lexer} {f : Lexer.Fault} (h : l.read.outcome = .error f) :
    ofLexer none l = ⟨[], .fault f⟩ := by
  rw [ofLexer]
  split
  · next he => simp at he
  · split
    · next f' hf =>
      rw [h] at hf
      cases hf
      rfl
    · next token hok => simp [h] at hok

/-- A spelling of a token is one lexeme. -/
theorem ofLexer_of_spells {w s u : Text} {token : Token} (hw : Lexer.Spells w token s)
    (ht : token ≠ .finish) (hu : Lexer.MayReplace s u) (p : Position) :
    ofLexer none ⟨w ++ u, p, []⟩ = (ofLexer none ⟨u, p.after w, []⟩).cons ⟨token, p⟩ := by
  obtain ⟨hok, hstart, hnext⟩ := hw u hu p
  rw [ofLexer_of_ok hok ht, hstart, hnext]

/-- The end of the lexemes is a tear only if the text is torn. -/
theorem tear_of_ending {tear : Option Tear} {l : Lexer} {e : Tear}
    (h : (ofLexer tear l).ending = .torn e) : tear = some e := by
  fun_induction ofLexer tear l with
  | case1 l e' htear =>
    cases h
    split at htear
    · exact htear
    · cases htear
  | case2 => cases h
  | case3 => cases h
  | case4 l _ token _ _ ih => exact ih h

/-- The end of the text is not part of the run. -/
theorem token_ne_finish_of_mem_run {tear : Option Tear} {l : Lexer} :
    ∀ x ∈ (ofLexer tear l).run, x.token ≠ .finish := by
  fun_induction ofLexer tear l with
  | case1 => simp
  | case2 => simp
  | case3 => simp
  | case4 l _ token _ ht ih => exact List.forall_mem_cons.2 ⟨ht, ih⟩

end Lexemes

/-! ## Token by token -/

/-- Characters that a token may be written with, whatever stands behind them. -/
def Token.written : Token → Text
  | word t => Quoted.literal t
  | dot => ['.']
  | opening => ['\x7b']
  | closing => ['\x7d']
  | equal => ['=']
  | finish => []

/-- The text is made of these tokens, wherever it starts. -/
def Lexes (t : Text) (ts : List Token) : Prop :=
  ∀ p, (Lexemes.ofLexer none ⟨t, p, []⟩).tokens? = some ts

namespace Lexes

variable {t : Text} {ts : List Token}

theorem tokens?_ofText (h : Lexes t ts) : (Lexemes.ofText t).tokens? = some ts := h {}

theorem nil : Lexes [] [] := by
  intro p
  rw [Lexemes.ofLexer]
  rfl

theorem gap {g : Text} (hg : Lexer.Gap g) (h : Lexes t ts) : Lexes (g ++ t) ts := by
  intro p
  rw [Lexemes.ofLexer_congr (Lexer.read_gap hg t p []), h]

/-- A spelling of a token may stand in front of the others. -/
theorem spelling {w : Text} {token : Token} (hw : Lexer.Spells w token t) (ht : token ≠ .finish)
    (h : Lexes t ts) : Lexes (w ++ t) (token :: ts) := by
  intro p
  rw [Lexemes.ofLexer_of_spells hw ht (.refl t) p, Lexemes.tokens?_cons, h]
  rfl

theorem mark {c : Char} {m : Token} (hm : ofMark? c = some m) (h : Lexes t ts) :
    Lexes (c :: t) (m :: ts) := by
  have hfinish : m ≠ .finish := by
    rintro rfl
    exact Lexer.ofMark?_ne_finish c hm
  exact spelling (Lexer.spells_mark hm t) hfinish h

theorem literal (w : Text) (h : Lexes t ts) : Lexes (Quoted.literal w ++ t) (.word w :: ts) :=
  spelling (Lexer.spells_quoted w t) (by simp) h

/-- A value behind an equals sign, with a space on either side of the sign. -/
theorem value (v : Text) (h : Lexes t ts) :
    Lexes (' ' :: '=' :: ' ' :: (Quoted.literal v ++ t)) (.equal :: .word v :: ts) := by
  have hspace : Lexer.Gap [' '] := .blank rfl .nil
  exact gap hspace (mark rfl (gap hspace (literal v h)))

/-- Tokens written one behind the other are read back. -/
theorem written {ts : List Token} (h : .finish ∉ ts) : Lexes (ts.flatMap Token.written) ts := by
  induction ts with
  | nil => exact nil
  | cons token ts ih =>
    obtain ⟨htoken, hts⟩ := not_or.1 (mt List.mem_cons.2 h)
    cases token with
    | word w => exact literal w (ih hts)
    | dot => exact mark (c := '.') rfl (ih hts)
    | opening => exact mark (c := '\x7b') rfl (ih hts)
    | closing => exact mark (c := '\x7d') rfl (ih hts)
    | equal => exact mark (c := '=') rfl (ih hts)
    | finish => exact absurd rfl htoken

end Lexes

end LayeredSettings
