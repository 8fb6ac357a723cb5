import LayeredSettings.Proofs.Document.Reading
import LayeredSettings.Proofs.Token.Lexing
import LayeredSettings.Store.Construction

/-!
# Parsing texts

A text is parsed exactly when it has no lexical fault and its tokens can be derived from the
grammar; the settings are then the defaults with the entries of the derivation on top.
-/

namespace LayeredSettings

namespace Document

/-- The settings of a text, in a strict document too. -/
theorem ofText_eq_ok_iff {strict : Bool} {defaults settings : Settings} {t : Text} :
    ofText strict defaults t = .ok settings ↔
      ∃ body : Body, (Lexemes.ofText t).tokens? = some body.tokens ∧
        (strict = true → ((body.entries []).map Prod.fst).Nodup) ∧
        settings = defaults.insertAll (body.entries []) := by
  unfold ofText ofLexemes Lexemes.tokens?
  rw [read_eq_ok_iff]
  constructor
  · rintro ⟨⟨p, hp⟩, es, hrest, hadmits, rfl⟩
    rw [hp]
    generalize hts : (Lexemes.ofText t).run.map Lexeme.token = ts at hrest
    cases hrest with
    | last body => exact ⟨body, rfl, fun hs => (hadmits hs).1, rfl⟩
  · rintro ⟨body, htokens, hnodup, rfl⟩
    cases he : (Lexemes.ofText t).ending with
    | finish p =>
      rw [he] at htokens
      refine ⟨⟨p, rfl⟩, body.entries [], ?_, ?_, rfl⟩
      · rw [Option.some.inj htokens]
        exact .last body
      · exact fun hs => ⟨hnodup hs, fun e _ => List.not_mem_nil⟩
    | fault f => rw [he] at htokens; cases htokens
    | torn f => rw [he] at htokens; cases htokens

end Document

theorem parseText_eq_ok {text source : Text} {defaults settings : Settings} {strict : Bool} :
    parseText text source defaults strict = .ok settings ↔
      Document.ofText strict defaults text = .ok settings := by
  unfold parseText
  cases Document.ofText strict defaults text with
  | error e => constructor <;> intro h <;> cases h
  | ok s => constructor <;> intro h <;> cases h <;> rfl

/-- A text whose tokens are derived from the grammar is parsed, in a strict document if it assigns
no key twice. -/
theorem parseText_eq_ok_iff_of_body {text source : Text} {defaults settings : Settings}
    {strict : Bool} {body : Document.Body}
    (h : (Lexemes.ofText text).tokens? = some body.tokens) :
    parseText text source defaults strict = .ok settings ↔
      (strict = true → ((body.entries []).map Prod.fst).Nodup) ∧
        settings = defaults.insertAll (body.entries []) := by
  rw [parseText_eq_ok, Document.ofText_eq_ok_iff]
  constructor
  · rintro ⟨other, htokens, hrest⟩
    rw [h] at htokens
    obtain rfl := Document.Body.tokens_injective (Option.some.inj htokens)
    exact hrest
  · intro hrest
    exact ⟨body, h, hrest⟩

theorem parseText_of_body {text : Text} {body : Document.Body} (source : Text)
    (defaults : Settings) (h : (Lexemes.ofText text).tokens? = some body.tokens) :
    parseText text source defaults false = .ok (defaults.insertAll (body.entries [])) := by
  rw [parseText_eq_ok_iff_of_body h]
  refine ⟨?_, rfl⟩
  intro hs
  cases hs

/-- A text is parsed exactly when its tokens can be derived from the grammar, and its settings are
the defaults with one entry for each `=` of the derivation set on top, one after another: a key
keeps the place where it comes first and has the value that comes last. -/
theorem parseText_eq_ok_iff (text source : Text) (defaults : Settings) :
    (∀ settings, parseText text source defaults false = .ok settings ↔
      ∃ body : Document.Body, (Lexemes.ofText text).tokens? = some body.tokens ∧
        settings = defaults.insertAll (body.entries [])) ∧
    ∀ es : List Entry,
      (defaults.insertAll es).keys = (defaults.keys ++ es.map Prod.fst).eraseDups ∧
      ∀ key, (defaults.insertAll es).get? key =
        (Settings.valueOf? key es.reverse).or (defaults.get? key) := by
  refine ⟨fun settings => ?_, fun es => ⟨?_, ?_⟩⟩
  · rw [parseText_eq_ok, Document.ofText_eq_ok_iff]
    simp only [Bool.false_eq_true, false_implies, true_and]
  · exact Settings.keys_insertAll defaults es
  · exact Settings.get?_insertAll defaults es

end LayeredSettings
