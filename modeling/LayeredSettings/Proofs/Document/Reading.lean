import LayeredSettings.Proofs.Document.Derivation

/-!
# Reading is deriving

`read_eq_ok_iff`: reading lexemes inside open blocks succeeds exactly when their tokens can be
derived from what the grammar leaves for these blocks, a body for each block and one behind them
all. It then makes the entries of the derivation. A strict document is read with the same result,
provided that it assigns no key twice.

1. A statement is read exactly when its tokens are those of a key followed by a value or by an
   opening brace (`statement_cases`, `statement_assignment`, `statement_block`).
2. Soundness follows the reader: what a statement or a brace adds to a derivation of the rest is
   said once for each (`Remainder.node`, `Remainder.enter`).
3. Completeness follows the derivation (`read_node`, `read_body`).
-/

namespace LayeredSettings.Document

/-! ## Statements -/

theorem tokens_of_moreWords {ending : Lexeme.Ending} {ls rest : List Lexeme} {ws : List Text}
    (h : moreWords ending ls = .ok (ws, rest)) :
    ls.map Lexeme.token = Words.moreTokens ws ++ rest.map Lexeme.token := by
  fun_induction moreWords ending ls generalizing ws rest with
  | case1 p => cases h; rfl
  | case2 _ => cases h
  | case3 p w q ls ws' rest' hr ih =>
    cases h
    rw [List.map_cons, List.map_cons, ih hr]
    rfl
  | case4 p w q ls e hr ih => cases h
  | case5 p ls _ => cases h
  | case6 ls _ _ _ => cases h; rfl

/-- A statement is a key with a value or with an opening brace. -/
theorem statement_cases {ending : Lexeme.Ending} {w : Text} {ls rest : List Lexeme}
    {st : Statement} (h : statement ending w ls = .ok (st, rest)) :
    (∃ key value : Words, st = .assignment key.toList value.toList ∧
      .word w :: ls.map Lexeme.token =
        key.tokens ++ .equal :: (value.tokens ++ rest.map Lexeme.token)) ∨
    ∃ key : Words, st = .block key.toList ∧
      .word w :: ls.map Lexeme.token = key.tokens ++ .opening :: rest.map Lexeme.token := by
  unfold statement at h
  split at h
  · next ws ls' hws =>
    have hkey := tokens_of_moreWords hws
    unfold afterKey at h
    split at h
    · next p v q ls' =>
      split at h
      · next vs rest' hvs =>
        cases h
        refine Or.inl ⟨⟨w, ws⟩, ⟨v, vs⟩, rfl, ?_⟩
        rw [hkey, List.map_cons, List.map_cons, tokens_of_moreWords hvs]
        rfl
      · cases h
    · cases h
    · cases h
      refine Or.inr ⟨⟨w, ws⟩, rfl, ?_⟩
      rw [hkey]
      rfl
    · cases h
  · cases h

section Complete

variable {p : Position} {ls : List Lexeme} {ts : List Token}

theorem moreWords_eq_ok {ws : List Text} (h : ls.map Lexeme.token = Words.moreTokens ws ++ ts)
    (hts : ts.head? ≠ some .dot) :
    ∃ rest, rest.map Lexeme.token = ts ∧ moreWords (.finish p) ls = .ok (ws, rest) := by
  induction ws generalizing ls with
  | nil =>
    refine ⟨ls, h, ?_⟩
    unfold moreWords
    split
    · rfl
    · cases h; exact absurd rfl hts
    · cases h; exact absurd rfl hts
    · rfl
  | cons w ws ih =>
    obtain ⟨⟨_, q⟩, ls₁, rfl, rfl, h₁⟩ := List.map_eq_cons_iff.1 h
    obtain ⟨⟨_, q'⟩, ls₂, rfl, rfl, h₂⟩ := List.map_eq_cons_iff.1 h₁
    obtain ⟨rest, hrest, hread⟩ := ih h₂
    refine ⟨rest, hrest, ?_⟩
    rw [moreWords, hread]

theorem statement_assignment {key value : Words} {w : Text}
    (h : .word w :: ls.map Lexeme.token = key.tokens ++ .equal :: (value.tokens ++ ts))
    (hts : ts.head? ≠ some .dot) :
    ∃ rest, rest.map Lexeme.token = ts ∧
      statement (.finish p) w ls = .ok (.assignment key.toList value.toList, rest) := by
  obtain ⟨k, ks⟩ := key
  obtain ⟨hw, hkey⟩ := List.cons.inj h
  cases hw
  obtain ⟨_, hafter, hread⟩ := moreWords_eq_ok (p := p) hkey (by simp)
  obtain ⟨⟨_, q⟩, ls₁, rfl, rfl, h₁⟩ := List.map_eq_cons_iff.1 hafter
  obtain ⟨⟨_, q'⟩, ls₂, rfl, rfl, h₂⟩ := List.map_eq_cons_iff.1 h₁
  obtain ⟨rest, hrest, hread'⟩ := moreWords_eq_ok (p := p) h₂ hts
  refine ⟨rest, hrest, ?_⟩
  simp only [statement, hread, afterKey, hread']
  rfl

theorem statement_block {key : Words} {w : Text}
    (h : .word w :: ls.map Lexeme.token = key.tokens ++ .opening :: ts) :
    ∃ rest, rest.map Lexeme.token = ts ∧
      statement (.finish p) w ls = .ok (.block key.toList, rest) := by
  obtain ⟨k, ks⟩ := key
  obtain ⟨hw, hkey⟩ := List.cons.inj h
  cases hw
  obtain ⟨_, hafter, hread⟩ := moreWords_eq_ok (p := p) hkey (by simp)
  obtain ⟨⟨_, q⟩, ls₁, rfl, rfl, h₁⟩ := List.map_eq_cons_iff.1 hafter
  refine ⟨ls₁, h₁, ?_⟩
  simp only [statement, hread, afterKey]
  rfl

end Complete

/-! ## Drafts -/

namespace Draft

def extend (d : Draft) (es : List Entry) : Draft :=
  { settings := d.settings.insertAll es
    assigned := (es.map Prod.fst).reverse ++ d.assigned }

/-- A strict draft takes entries whose keys it has not assigned and that do not repeat. -/
def Admits (strict : Bool) (d : Draft) (es : List Entry) : Prop :=
  strict = true → (es.map Prod.fst).Nodup ∧ ∀ e ∈ es, e.1 ∉ d.assigned

theorem extend_append (d : Draft) (es fs : List Entry) :
    d.extend (es ++ fs) = (d.extend es).extend fs := by
  unfold extend
  rw [Settings.insertAll_append, List.map_append, List.reverse_append, List.append_assoc]

theorem admits_nil (strict : Bool) (d : Draft) : d.Admits strict [] :=
  fun _ => ⟨List.nodup_nil, fun _ h => nomatch h⟩

theorem admits_append {strict : Bool} {d : Draft} {es fs : List Entry} :
    d.Admits strict (es ++ fs) ↔ d.Admits strict es ∧ (d.extend es).Admits strict fs := by
  unfold Admits extend
  rw [← forall_and]
  refine forall_congr' fun _ => ?_
  rw [List.map_append, List.nodup_append, List.forall_mem_append]
  simp only [List.mem_append, List.mem_reverse, not_or]
  constructor
  · rintro ⟨⟨hes, hfs, hne⟩, hd, hd'⟩
    refine ⟨⟨hes, hd⟩, hfs, fun f hf => ⟨fun hm => ?_, hd' f hf⟩⟩
    exact hne _ hm _ (List.mem_map_of_mem hf) rfl
  · rintro ⟨⟨hes, hd⟩, hfs, hd'⟩
    refine ⟨⟨hes, hfs, ?_⟩, hd, fun f hf => (hd' f hf).2⟩
    rintro a ha b hb rfl
    obtain ⟨f, hf, rfl⟩ := List.mem_map.1 hb
    exact (hd' f hf).1 ha

theorem assign_eq_ok_iff {strict : Bool} {d d' : Draft} {p : Position} {key value : Text} :
    d.assign strict p key value = .ok d' ↔
      d.Admits strict [(key, value)] ∧ d' = d.extend [(key, value)] := by
  unfold assign Admits
  by_cases h : (strict && d.assigned.contains key) = true
  · rw [if_pos h]
    rw [Bool.and_eq_true, List.contains_iff_mem] at h
    constructor
    · intro h'
      cases h'
    · rintro ⟨h', -⟩
      exact absurd h.2 ((h' h.1).2 _ (List.mem_singleton_self _))
  · rw [if_neg h]
    rw [Bool.and_eq_true, not_and, List.contains_iff_mem] at h
    constructor
    · intro h'
      cases h'
      refine ⟨fun hs => ⟨List.pairwise_singleton _ _, ?_⟩, rfl⟩
      exact List.forall_mem_singleton.2 (h hs)
    · rintro ⟨-, rfl⟩
      rfl

end Draft

/-! ## What open blocks leave -/

/-- What may be left of a document inside open blocks, whose keys stand innermost first: a body
for each block and a body behind them all. -/
inductive Remainder : List Text → List Token → List Entry → Prop
  | last (body : Body) : Remainder [] body.tokens (body.entries [])
  | inside {key : Text} {outer : List Text} {ts : List Token} {es : List Entry} (body : Body) :
      Remainder outer ts es →
        Remainder (key :: outer) (body.tokens ++ .closing :: ts) (body.entries key ++ es)

namespace Remainder

variable {blocks : List Text} {ts : List Token} {es : List Entry}

/-- An entry may stand in front. -/
theorem node (node : Node) (h : Remainder blocks ts es) :
    Remainder blocks (node.tokens ++ ts) (node.entries (blocks.headD []) ++ es) := by
  cases h with
  | last body => exact last (node :: body)
  | @inside key outer ts es body h =>
    have hinside : Remainder (key :: outer) (Body.tokens (node :: body) ++ .closing :: ts)
        (Body.entries key (node :: body) ++ es) := h.inside (node :: body)
    rw [Body.tokens, Body.entries, List.append_assoc, List.append_assoc] at hinside
    exact hinside

/-- The rest of a block and what stands behind it are left when the block is opened. -/
theorem enter {key : Words}
    (h : Remainder (Key.under (blocks.headD []) key.text :: blocks) ts es) :
    Remainder blocks (key.tokens ++ .opening :: ts) es := by
  cases h with
  | inside body h =>
    have hblock := h.node (.block key body)
    rw [Node.tokens, Node.entries, List.append_assoc, List.cons_append, List.append_assoc,
      List.singleton_append] at hblock
    exact hblock

/-- A block may be closed at once. -/
theorem leave {key : Text} (h : Remainder blocks ts es) :
    Remainder (key :: blocks) (.closing :: ts) es :=
  h.inside []

end Remainder

/-! ## Soundness -/

theorem read_sound {strict : Bool} {ending : Lexeme.Ending} {blocks : List Text} {draft : Draft}
    {ls : List Lexeme} {settings : Settings}
    (h : read strict ending blocks draft ls = .ok settings) :
    (∃ p, ending = .finish p) ∧ ∃ es, Remainder blocks (ls.map Lexeme.token) es ∧
      draft.Admits strict es ∧ settings = (draft.extend es).settings := by
  fun_induction read strict ending blocks draft ls with
  | case1 draft p he =>
    cases h
    exact ⟨⟨p, he⟩, [], .last [], draft.admits_nil strict, rfl⟩
  | case2 => cases h
  | case3 => cases h
  | case4 => cases h
  | case5 blocks draft w p ls key value ls' hst draft' hd ih =>
    obtain ⟨hfinish, es, hrest, hadmits, hs⟩ := ih h
    obtain ⟨hone, rfl⟩ := Draft.assign_eq_ok_iff.1 hd
    obtain ⟨k, v, hk, htokens⟩ | ⟨k, hk, -⟩ := statement_cases hst
    · cases hk
      refine ⟨hfinish, _, ?_, Draft.admits_append.2 ⟨hone, hadmits⟩, ?_⟩
      · have hnode := hrest.node (.assignment k v)
        rw [Node.tokens, List.append_assoc, List.cons_append] at hnode
        rw [List.map_cons, htokens]
        exact hnode
      · rw [Draft.extend_append]
        exact hs
    · cases hk
  | case6 blocks draft w p ls key ls' hst ih =>
    obtain ⟨hfinish, es, hrest, hadmits, hs⟩ := ih h
    refine ⟨hfinish, es, ?_, hadmits, hs⟩
    obtain ⟨k, v, hk, -⟩ | ⟨k, hk, htokens⟩ := statement_cases hst
    · cases hk
    · cases hk
      rw [List.map_cons, htokens]
      exact hrest.enter
  | case7 => cases h
  | case8 draft p ls key outer ih =>
    obtain ⟨hfinish, es, hrest, hadmits, hs⟩ := ih h
    exact ⟨hfinish, es, hrest.leave, hadmits, hs⟩
  | case9 => cases h

/-! ## Completeness -/

section Steps

variable {strict : Bool} {ending : Lexeme.Ending} {blocks : List Text} {draft : Draft}
  {w : Text} {p : Position} {ls rest : List Lexeme}

theorem read_assignment {draft' : Draft} {key value : Words}
    (hst : statement ending w ls = .ok (.assignment key.toList value.toList, rest))
    (hd : draft.assign strict p (Key.under (blocks.headD []) key.text) value.text = .ok draft') :
    read strict ending blocks draft (⟨.word w, p⟩ :: ls) =
      read strict ending blocks draft' rest := by
  unfold Words.text at hd
  rw [read]
  split <;> simp_all

theorem read_opening {key : Words}
    (hst : statement ending w ls = .ok (.block key.toList, rest)) :
    read strict ending blocks draft (⟨.word w, p⟩ :: ls) =
      read strict ending (Key.under (blocks.headD []) key.text :: blocks) draft rest := by
  unfold Words.text
  rw [read]
  split <;> simp_all

theorem read_of_statement_error {e : Fault} (hst : statement ending w ls = .error e) :
    read strict ending blocks draft (⟨.word w, p⟩ :: ls) = .error e := by
  rw [read]
  split <;> simp_all

theorem read_closing {key : Text} :
    read strict ending (key :: blocks) draft (⟨.closing, p⟩ :: ls) =
      read strict ending blocks draft ls := by
  rw [read]

end Steps

section Derived

variable {strict : Bool} {p : Position}

mutual

/-- The tokens of an entry are read, and what it assigns is assigned. -/
theorem read_node (node : Node) (blocks : List Text) {draft : Draft} {ls : List Lexeme}
    {ts : List Token} (h : ls.map Lexeme.token = node.tokens ++ ts) (hts : ts.head? ≠ some .dot)
    (ha : draft.Admits strict (node.entries (blocks.headD []))) :
    ∃ rest, rest.map Lexeme.token = ts ∧ read strict (.finish p) blocks draft ls =
      read strict (.finish p) blocks (draft.extend (node.entries (blocks.headD []))) rest := by
  match node with
  | .assignment key value =>
    rw [Node.tokens, List.append_assoc, List.cons_append] at h
    obtain ⟨⟨_, q⟩, ls₁, rfl, rfl, h₁⟩ := List.map_eq_cons_iff.1 h
    obtain ⟨rest, hrest, hst⟩ := statement_assignment (p := p) (congrArg _ h₁) hts
    exact ⟨rest, hrest, read_assignment hst (Draft.assign_eq_ok_iff.2 ⟨ha, rfl⟩)⟩
  | .block key body =>
    rw [Node.tokens, List.append_assoc, List.cons_append, List.append_assoc] at h
    obtain ⟨⟨_, q⟩, ls₁, rfl, rfl, h₁⟩ := List.map_eq_cons_iff.1 h
    obtain ⟨ls₂, h₂, hst⟩ := statement_block (p := p) (congrArg _ h₁)
    obtain ⟨ls₃, h₃, hread⟩ :=
      read_body body (Key.under (blocks.headD []) key.text :: blocks) h₂ (by simp) ha
    obtain ⟨⟨_, q'⟩, ls₄, rfl, rfl, h₄⟩ := List.map_eq_cons_iff.1 h₃
    refine ⟨ls₄, h₄, ?_⟩
    rw [read_opening hst, hread, read_closing]
    rfl

/-- The tokens of a body are read, and what it assigns is assigned. -/
theorem read_body (body : Body) (blocks : List Text) {draft : Draft} {ls : List Lexeme}
    {ts : List Token} (h : ls.map Lexeme.token = body.tokens ++ ts) (hts : ts.head? ≠ some .dot)
    (ha : draft.Admits strict (body.entries (blocks.headD []))) :
    ∃ rest, rest.map Lexeme.token = ts ∧ read strict (.finish p) blocks draft ls =
      read strict (.finish p) blocks (draft.extend (body.entries (blocks.headD []))) rest := by
  match body with
  | [] => exact ⟨ls, h, rfl⟩
  | node :: more =>
    rw [Body.tokens, List.append_assoc] at h
    obtain ⟨hnode, hmore⟩ := Draft.admits_append.1 ha
    obtain ⟨ls₁, h₁, hread₁⟩ := read_node node blocks h (head?_body_ne_dot more hts) hnode
    obtain ⟨rest, hrest, hread₂⟩ := read_body more blocks h₁ hts hmore
    refine ⟨rest, hrest, ?_⟩
    rw [hread₁, hread₂, ← Draft.extend_append]
    rfl

end

/-- What the open blocks leave is read to the end. -/
theorem read_remainder {blocks : List Text} {draft : Draft} {ls : List Lexeme}
    {ts : List Token} {es : List Entry} (h : Remainder blocks ts es)
    (hls : ls.map Lexeme.token = ts) (ha : draft.Admits strict es) :
    read strict (.finish p) blocks draft ls = .ok (draft.extend es).settings := by
  induction h generalizing draft ls with
  | last body =>
    rw [← List.append_nil body.tokens] at hls
    obtain ⟨rest, hrest, hread⟩ := read_body (p := p) body [] hls (by simp) ha
    obtain rfl := List.map_eq_nil_iff.1 hrest
    rw [hread, read]
    rfl
  | @inside key outer ts es body _ ih =>
    obtain ⟨hbody, houter⟩ := Draft.admits_append.1 ha
    obtain ⟨ls₁, h₁, hread⟩ := read_body (p := p) body (key :: outer) hls (by simp) hbody
    obtain ⟨⟨_, q⟩, ls₂, rfl, rfl, h₂⟩ := List.map_eq_cons_iff.1 h₁
    rw [hread, read_closing, List.headD_cons, ih h₂ houter, Draft.extend_append]

end Derived

theorem read_eq_ok_iff {strict : Bool} {ending : Lexeme.Ending} {blocks : List Text}
    {draft : Draft} {ls : List Lexeme} {settings : Settings} :
    read strict ending blocks draft ls = .ok settings ↔
      (∃ p, ending = .finish p) ∧ ∃ es, Remainder blocks (ls.map Lexeme.token) es ∧
        draft.Admits strict es ∧ settings = (draft.extend es).settings := by
  refine ⟨read_sound, ?_⟩
  rintro ⟨⟨p, rfl⟩, es, hrest, ha, rfl⟩
  exact read_remainder hrest rfl ha

end LayeredSettings.Document
