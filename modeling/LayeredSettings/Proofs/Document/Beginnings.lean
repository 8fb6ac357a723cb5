import LayeredSettings.Proofs.Document.Parsing
import Mathlib.Data.List.Chain

/-!
# Beginnings of documents

`Begins blocks ts` says that a document may go on with the tokens `ts` inside open blocks. Whole
entries, opened blocks and closed blocks may be taken off the front of `ts` without changing the
answer (`begins_node`, `begins_opening`, `begins_closing`), which leaves the statement that is
being read. `beginsDocument_iff` carries the notion over to texts.
-/

namespace LayeredSettings

namespace Document

variable {blocks : List Text} {ts us : List Token} {es : List Entry}

/-- The tokens begin what may be left of a document inside open blocks, whose keys stand innermost
first. The end of the text counts as a token. -/
def Begins (blocks : List Text) (ts : List Token) : Prop :=
  ∃ us es, Remainder blocks us es ∧ ts <+: us ++ [.finish]

theorem Begins.shorten (h : Begins blocks us) (hts : ts <+: us) : Begins blocks ts := by
  obtain ⟨vs, es, hvs, hus⟩ := h
  exact ⟨vs, es, hvs, hts.trans hus⟩

theorem begins_nil (blocks : List Text) : Begins blocks [] := by
  have hrest : ∃ us es, Remainder blocks us es := by
    induction blocks with
    | nil => exact ⟨_, _, .last []⟩
    | cons key outer ih =>
      obtain ⟨us, es, h⟩ := ih
      exact ⟨_, _, h.leave⟩
  obtain ⟨us, es, h⟩ := hrest
  exact ⟨us, es, h, _, rfl⟩

/-! ## What stands in front -/

namespace Remainder

theorem head?_ne_dot (h : Remainder blocks us es) :
    (us ++ [Token.finish]).head? ≠ some Token.dot := by
  cases h with
  | last body => exact head?_body_ne_dot body (by simp)
  | inside body h =>
    rw [List.append_assoc]
    exact head?_body_ne_dot body (by simp)

/-- A word in front is the first word of an entry. -/
theorem exists_node {w : Text} (h : Remainder blocks us es) (hw : us.head? = some (.word w)) :
    ∃ (node : Node) (us' : List Token) (es' : List Entry),
      us = node.tokens ++ us' ∧ Remainder blocks us' es' := by
  cases h with
  | last body =>
    cases body with
    | nil => cases hw
    | cons node rest => exact ⟨node, _, _, rfl, .last rest⟩
  | inside body h =>
    cases body with
    | nil => cases hw
    | cons node rest => exact ⟨node, _, _, List.append_assoc _ _ _, h.inside rest⟩

end Remainder

theorem Node.tokens_eq_word_cons (node : Node) :
    ∃ w ts, node.tokens = .word w :: ts := by
  cases node with
  | assignment key value => exact ⟨key.first, _, rfl⟩
  | block key body => exact ⟨key.first, _, rfl⟩

/-- Tokens that start with a word begin an entry and what may be left behind it. -/
theorem Begins.exists_node {w : Text} (h : Begins blocks (.word w :: ts)) :
    ∃ (node : Node) (us : List Token) (es : List Entry), Remainder blocks us es ∧
      .word w :: ts <+: node.tokens ++ (us ++ [.finish]) := by
  obtain ⟨us, es, hus, more, hmore⟩ := h
  have hw : us.head? = some (.word w) := by
    cases us with
    | nil => cases (List.cons.inj hmore).1
    | cons x us => exact congrArg some (List.cons.inj hmore).1.symm
  obtain ⟨node, us', es', rfl, hrest⟩ := hus.exists_node hw
  refine ⟨node, us', es', hrest, more, ?_⟩
  rw [hmore, List.append_assoc]

/-- An entry in front may be taken off. -/
theorem begins_node (node : Node) (hts : ts.head? ≠ some .dot) :
    Begins blocks (node.tokens ++ ts) ↔ Begins blocks ts := by
  constructor
  · intro h
    obtain ⟨w, ts', hnode⟩ := node.tokens_eq_word_cons
    cases ts with
    | nil => exact begins_nil blocks
    | cons x ts =>
      rw [hnode, List.cons_append] at h
      obtain ⟨other, us, es, hus, more, hmore⟩ := h.exists_node
      rw [← List.cons_append, ← hnode, List.append_assoc] at hmore
      obtain ⟨-, hrest⟩ := Node.tokens_append_inj node other hmore hts hus.head?_ne_dot
      exact ⟨us, es, hus, more, hrest⟩
  · rintro ⟨us, es, hus, hts⟩
    refine ⟨_, _, hus.node node, ?_⟩
    rw [List.append_assoc]
    exact (List.prefix_append_right_inj _).2 hts

/-- The opening of a block in front may be taken off, and the block is then open. -/
theorem begins_opening {key : Words} :
    Begins blocks (key.tokens ++ .opening :: ts) ↔
      Begins (Key.under (blocks.headD []) key.text :: blocks) ts := by
  constructor
  · intro h
    obtain ⟨node, us, es, hus, more, hmore⟩ := Begins.exists_node (w := key.first) h
    change key.tokens ++ Token.opening :: ts ++ more = _ at hmore
    cases node with
    | assignment key' value =>
      rw [Node.tokens, List.append_assoc, List.append_assoc] at hmore
      obtain ⟨-, hmark⟩ := Words.tokens_append_inj hmore (by simp) (by simp)
      cases (List.cons.inj hmark).1
    | block key' body =>
      rw [Node.tokens, List.append_assoc, List.append_assoc] at hmore
      obtain ⟨rfl, hbody⟩ := Words.tokens_append_inj hmore (by simp) (by simp)
      refine ⟨_, _, hus.inside body, more, ?_⟩
      have hrest : ts ++ more = Body.tokens body ++ [.closing] ++ (us ++ [.finish]) :=
        (List.cons.inj hbody).2
      rw [hrest, List.append_assoc, List.append_assoc]
      rfl
  · rintro ⟨us, es, hus, hts⟩
    refine ⟨_, _, hus.enter, ?_⟩
    rw [List.append_assoc, List.cons_append]
    exact (List.prefix_append_right_inj _).2 (List.cons_prefix_cons.2 ⟨rfl, hts⟩)

/-- The closing of a block in front may be taken off, and the block is then closed. -/
theorem begins_closing {key : Text} :
    Begins (key :: blocks) (.closing :: ts) ↔ Begins blocks ts := by
  constructor
  · rintro ⟨us, es, hus, hts⟩
    cases hus with
    | @inside key outer us es body hus =>
      cases body with
      | nil => exact ⟨us, es, hus, (List.cons_prefix_cons.1 hts).2⟩
      | cons node rest =>
        obtain ⟨w, ws, hnode⟩ := node.tokens_eq_word_cons
        rw [Body.tokens, hnode] at hts
        cases (List.cons_prefix_cons.1 hts).1
  · rintro ⟨us, es, hus, hts⟩
    exact ⟨_, _, hus.leave, List.cons_prefix_cons.2 ⟨rfl, hts⟩⟩

/-- What may stand where no statement is being read. -/
theorem Begins.head_cases {x : Token} (h : Begins blocks (x :: ts)) :
    (∃ w, x = .word w) ∨ (x = .closing ∧ blocks ≠ []) ∨ (x = .finish ∧ blocks = []) := by
  obtain ⟨us, es, hus, hts⟩ := h
  cases hus with
  | last body =>
    cases body with
    | nil => exact .inr (.inr ⟨(List.cons_prefix_cons.1 hts).1, rfl⟩)
    | cons node rest =>
      obtain ⟨w, ws, hnode⟩ := node.tokens_eq_word_cons
      rw [Body.tokens, hnode] at hts
      exact .inl ⟨w, (List.cons_prefix_cons.1 hts).1⟩
  | inside body hus =>
    cases body with
    | nil => exact .inr (.inl ⟨(List.cons_prefix_cons.1 hts).1, List.cons_ne_nil _ _⟩)
    | cons node rest =>
      obtain ⟨w, ws, hnode⟩ := node.tokens_eq_word_cons
      rw [Body.tokens, hnode] at hts
      exact .inl ⟨w, (List.cons_prefix_cons.1 hts).1⟩

/-! ## Inside a statement -/

/-- The beginning of an entry begins what is left. -/
theorem begins_of_prefix_node (node : Node) (h : ts <+: node.tokens) : Begins blocks ts := by
  have hnode : Begins blocks (node.tokens ++ []) :=
    (begins_node node (by simp)).2 (begins_nil blocks)
  rw [List.append_nil] at hnode
  exact hnode.shorten h

/-- Behind a key stands a dot, an equals sign or an opening brace. -/
theorem Begins.behind_key {key : Words} {x : Token} (h : Begins blocks (key.tokens ++ [x])) :
    x = .dot ∨ x = .equal ∨ x = .opening := by
  by_cases hx : x = .dot
  · exact .inl hx
  · obtain ⟨node, us, es, hus, more, hmore⟩ := Begins.exists_node (w := key.first) h
    change key.tokens ++ [x] ++ more = _ at hmore
    rw [List.append_assoc] at hmore
    cases node with
    | assignment key' value =>
      rw [Node.tokens, List.append_assoc] at hmore
      obtain ⟨-, hmark⟩ := Words.tokens_append_inj hmore (by simpa using hx) (by simp)
      exact .inr (.inl (List.cons.inj hmark).1)
    | block key' body =>
      rw [Node.tokens, List.append_assoc] at hmore
      obtain ⟨-, hmark⟩ := Words.tokens_append_inj hmore (by simpa using hx) (by simp)
      exact .inr (.inr (List.cons.inj hmark).1)

/-- Every dot and every equals sign has a word behind it. -/
def Linked (ts : List Token) : Prop :=
  ts.IsChain fun a b => a = .dot ∨ a = .equal → ∃ w, b = .word w

namespace Linked

theorem cons_of_ne {x : Token} (hdot : x ≠ .dot) (hequal : x ≠ .equal) (h : Linked ts) :
    Linked (x :: ts) := by
  refine List.isChain_cons.2 ⟨fun b _ hx => ?_, h⟩
  rcases hx with hx | hx
  · exact absurd hx hdot
  · exact absurd hx hequal

theorem cons_word {x : Token} {w : Text} (h : Linked (.word w :: ts)) :
    Linked (x :: .word w :: ts) :=
  List.isChain_cons_cons.2 ⟨fun _ => ⟨w, rfl⟩, h⟩

theorem moreTokens (ws : List Text) (h : Linked ts) : Linked (Words.moreTokens ws ++ ts) := by
  induction ws with
  | nil => exact h
  | cons w ws ih => exact (ih.cons_of_ne (by simp) (by simp)).cons_word

theorem words (key : Words) (h : Linked ts) : Linked (key.tokens ++ ts) :=
  (moreTokens key.more h).cons_of_ne (by simp) (by simp)

mutual

theorem node (node : Node) {ts : List Token} (h : Linked ts) : Linked (node.tokens ++ ts) := by
  match node with
  | .assignment key value =>
    rw [Node.tokens, List.append_assoc]
    exact words key (cons_word (words value h))
  | .block key inner =>
    have hclosing : Linked (.closing :: ts) := h.cons_of_ne (by simp) (by simp)
    rw [Node.tokens, List.append_assoc, List.cons_append, List.append_assoc]
    exact words key ((Linked.body inner hclosing).cons_of_ne (by simp) (by simp))

theorem body (body : Body) {ts : List Token} (h : Linked ts) : Linked (body.tokens ++ ts) := by
  match body with
  | [] => exact h
  | first :: rest =>
    rw [Body.tokens, List.append_assoc]
    exact Linked.node first (Linked.body rest h)

end

theorem remainder (h : Remainder blocks us es) : Linked (us ++ [Token.finish]) := by
  induction h with
  | last body => exact Linked.body body (List.isChain_singleton _)
  | inside body _ ih =>
    rw [List.append_assoc]
    exact Linked.body body (ih.cons_of_ne (by simp) (by simp))

end Linked

theorem Begins.word_behind {x y : Token} (h : Begins blocks (ts ++ [x, y]))
    (hx : x = .dot ∨ x = .equal) : ∃ w, y = .word w := by
  obtain ⟨us, es, hus, more, hmore⟩ := h
  have hlinked : Linked (ts ++ [x, y] ++ more) := hmore ▸ Linked.remainder hus
  rw [List.append_assoc] at hlinked
  exact (List.isChain_cons_cons.1 (List.isChain_append.1 hlinked).2.1).1 hx

/-! ## Texts -/

theorem Words.finish_notMem_tokens (key : Words) : Token.finish ∉ key.tokens := by
  simp [tokens, moreTokens]

mutual

theorem Node.finish_notMem_tokens (node : Node) : Token.finish ∉ node.tokens := by
  match node with
  | .assignment key value =>
    simp [Node.tokens, key.finish_notMem_tokens, value.finish_notMem_tokens]
  | .block key body =>
    simp [Node.tokens, key.finish_notMem_tokens, Body.finish_notMem_tokens body]

theorem Body.finish_notMem_tokens (body : Body) : Token.finish ∉ body.tokens := by
  match body with
  | [] => exact List.not_mem_nil
  | node :: rest =>
    simp [Body.tokens, node.finish_notMem_tokens, Body.finish_notMem_tokens rest]

end

end Document

open Document

/-- The tokens begin those of a text that is parsed. The end of the text counts as a token. -/
def BeginsDocument (ts : List Token) : Prop :=
  ∃ text source settings, parseText text source .empty false = .ok settings ∧
    ts <+: (Lexemes.ofText text).withEnd.map Lexeme.token

theorem beginsDocument_iff {ts : List Token} : BeginsDocument ts ↔ Begins [] ts := by
  constructor
  · rintro ⟨text, source, settings, hparse, hts⟩
    obtain ⟨body, hbody, -⟩ := ofText_eq_ok_iff.1 (parseText_eq_ok.1 hparse)
    rw [Lexemes.map_token_withEnd hbody] at hts
    exact ⟨_, _, .last body, hts⟩
  · rintro ⟨us, es, hus, hts⟩
    cases hus with
    | last body =>
      have hbody : (Lexemes.ofText (body.tokens.flatMap Token.written)).tokens? =
          some body.tokens := (Lexes.written body.finish_notMem_tokens).tokens?_ofText
      refine ⟨_, [], _, parseText_of_body [] .empty hbody, ?_⟩
      rw [Lexemes.map_token_withEnd hbody]
      exact hts

end LayeredSettings
