import LayeredSettings.Proofs.Document.Grammar
import LayeredSettings.Proofs.Settings

/-!
# Derivations and their tokens

The grammar is unambiguous: the tokens of a body determine it (`Body.tokens_injective`), since a
key goes on exactly as long as dots follow, and a body as long as words do. Bodies that stand one
behind the other make their entries one behind the other, and a body inside a block makes the
entries that it makes on its own, with the key of the block in front (`Body.entries_of_outer`).
-/

namespace LayeredSettings

theorem Key.under_of_ne {block : Text} (h : block ≠ []) (name : Text) :
    under block name = block ++ '.' :: name := if_neg h

namespace Document

/-! ## Bodies one behind the other -/

theorem Body.tokens_append (body more : Body) :
    Body.tokens (body ++ more) = body.tokens ++ more.tokens := by
  induction body with
  | nil => rfl
  | cons node rest ih => rw [List.cons_append, tokens, tokens, ih, List.append_assoc]

theorem Body.entries_append (block : Text) (body more : Body) :
    Body.entries block (body ++ more) = body.entries block ++ more.entries block := by
  induction body with
  | nil => rfl
  | cons node rest ih => rw [List.cons_append, entries, entries, ih, List.append_assoc]

/-! ## The grammar is unambiguous -/

theorem head?_body_ne_dot (body : Body) {ts : List Token} (hts : ts.head? ≠ some .dot) :
    (body.tokens ++ ts).head? ≠ some .dot := by
  cases body with
  | nil => exact hts
  | cons node rest => cases node <;> simp [Body.tokens, Node.tokens, Words.tokens]

theorem Words.moreTokens_append_inj {ws vs : List Text} {ts us : List Token}
    (h : moreTokens ws ++ ts = moreTokens vs ++ us) (hts : ts.head? ≠ some .dot)
    (hus : us.head? ≠ some .dot) : ws = vs ∧ ts = us := by
  induction ws generalizing vs with
  | nil =>
    cases vs with
    | nil => exact ⟨rfl, h⟩
    | cons v vs => exact absurd (congrArg List.head? h) hts
  | cons w ws ih =>
    cases vs with
    | nil => exact absurd (congrArg List.head? h).symm hus
    | cons v vs =>
      obtain ⟨hword, hrest⟩ := List.cons.inj (List.cons.inj h).2
      obtain ⟨rfl, rfl⟩ := ih hrest
      cases hword
      exact ⟨rfl, rfl⟩

/-- The words of a key are those up to the first word without a dot behind it. -/
theorem Words.tokens_append_inj {key other : Words} {ts us : List Token}
    (h : key.tokens ++ ts = other.tokens ++ us) (hts : ts.head? ≠ some .dot)
    (hus : us.head? ≠ some .dot) : key = other ∧ ts = us := by
  obtain ⟨first, more⟩ := key
  obtain ⟨first', more'⟩ := other
  obtain ⟨hword, hrest⟩ := List.cons.inj h
  obtain ⟨rfl, rfl⟩ := moreTokens_append_inj hrest hts hus
  cases hword
  exact ⟨rfl, rfl⟩

/-- No word follows, and no dot: a body ends here. -/
def Ends (ts : List Token) : Prop := ∀ t ∈ ts.head?, t = .closing

theorem Ends.head?_ne_dot {ts : List Token} (h : Ends ts) : ts.head? ≠ some .dot := by
  intro hdot
  cases h .dot hdot

theorem Ends.ne_node {ts us : List Token} (h : Ends ts) (node : Node) : ts ≠ node.tokens ++ us := by
  rintro rfl
  cases node with
  | assignment key value => cases h (.word key.first) rfl
  | block key body => cases h (.word key.first) rfl

mutual

theorem Node.tokens_append_inj (node other : Node) {ts us : List Token}
    (h : node.tokens ++ ts = other.tokens ++ us) (hts : ts.head? ≠ some .dot)
    (hus : us.head? ≠ some .dot) : node = other ∧ ts = us := by
  match node, other with
  | .assignment key value, .assignment key' value' =>
    rw [Node.tokens, Node.tokens, List.append_assoc, List.append_assoc] at h
    obtain ⟨rfl, hvalue⟩ := Words.tokens_append_inj h (by simp) (by simp)
    obtain ⟨rfl, rfl⟩ := Words.tokens_append_inj (List.cons.inj hvalue).2 hts hus
    exact ⟨rfl, rfl⟩
  | .block key body, .block key' body' =>
    -- The inner body ends at its closing mark, at which no entry can start.
    rw [Node.tokens, Node.tokens, List.append_assoc, List.append_assoc] at h
    obtain ⟨rfl, hbody⟩ := Words.tokens_append_inj h (by simp) (by simp)
    have hinner : Body.tokens body ++ [.closing] ++ ts = Body.tokens body' ++ [.closing] ++ us :=
      (List.cons.inj hbody).2
    rw [List.append_assoc, List.append_assoc] at hinner
    obtain ⟨rfl, hrest⟩ :=
      Body.tokens_append_inj body body' hinner (by simp [Ends]) (by simp [Ends])
    exact ⟨rfl, (List.cons.inj hrest).2⟩
  | .assignment key value, .block key' body' =>
    rw [Node.tokens, Node.tokens, List.append_assoc, List.append_assoc] at h
    obtain ⟨-, hmark⟩ := Words.tokens_append_inj h (by simp) (by simp)
    cases (List.cons.inj hmark).1
  | .block key body, .assignment key' value' =>
    rw [Node.tokens, Node.tokens, List.append_assoc, List.append_assoc] at h
    obtain ⟨-, hmark⟩ := Words.tokens_append_inj h (by simp) (by simp)
    cases (List.cons.inj hmark).1

theorem Body.tokens_append_inj (body other : Body) {ts us : List Token}
    (h : body.tokens ++ ts = other.tokens ++ us) (hts : Ends ts) (hus : Ends us) :
    body = other ∧ ts = us := by
  match body, other with
  | [], [] => exact ⟨rfl, h⟩
  | [], node :: rest =>
    rw [Body.tokens, Body.tokens, List.append_assoc] at h
    exact absurd h (hts.ne_node node)
  | node :: rest, [] =>
    rw [Body.tokens, Body.tokens, List.append_assoc] at h
    exact absurd h.symm (hus.ne_node node)
  | node :: rest, node' :: rest' =>
    rw [Body.tokens, Body.tokens, List.append_assoc, List.append_assoc] at h
    obtain ⟨rfl, hrest⟩ := Node.tokens_append_inj node node' h
      (head?_body_ne_dot rest hts.head?_ne_dot) (head?_body_ne_dot rest' hus.head?_ne_dot)
    obtain ⟨rfl, rfl⟩ := Body.tokens_append_inj rest rest' hrest hts hus
    exact ⟨rfl, rfl⟩

end

/-- No two bodies have the same tokens. -/
theorem Body.tokens_injective {body other : Body} (h : body.tokens = other.tokens) :
    body = other := by
  have hnil : body.tokens ++ [] = other.tokens ++ [] := by
    rw [List.append_nil, List.append_nil, h]
  have hends : Ends [] := fun t ht => nomatch ht
  exact (Body.tokens_append_inj body other hnil hends hends).1

/-! ## Entries of a block -/

open Settings (qualify)

mutual

theorem Node.entries_of_outer (outer : Text) {block : Text} (h : block ≠ []) (node : Node) :
    node.entries (outer ++ '.' :: block) = (node.entries block).map (qualify outer) := by
  match node with
  | .assignment key value =>
    rw [Node.entries, Node.entries, Key.under_of_ne (by simp), Key.under_of_ne h]
    simp [qualify]
  | .block key body =>
    have hkey : Key.under (outer ++ '.' :: block) key.text =
        outer ++ '.' :: Key.under block key.text := by
      rw [Key.under_of_ne (by simp), Key.under_of_ne h, List.append_assoc]
      rfl
    have hne : Key.under block key.text ≠ [] := by
      rw [Key.under_of_ne h]
      simp
    rw [Node.entries, Node.entries, hkey]
    exact Body.entries_of_outer outer hne body

/-- A block inside another one makes its entries with the key of that one in front. -/
theorem Body.entries_of_outer (outer : Text) {block : Text} (h : block ≠ []) (body : Body) :
    body.entries (outer ++ '.' :: block) = (body.entries block).map (qualify outer) := by
  match body with
  | [] => rfl
  | node :: rest =>
    rw [Body.entries, Body.entries, List.map_append, Node.entries_of_outer outer h node,
      Body.entries_of_outer outer h rest]

end

/-- Inside a block a body makes the entries that it makes on its own, with the key of the block in
front, provided that the block and the blocks of the body have keys that are not empty. -/
theorem Body.entries_eq_map_qualify {outer : Text} (h : outer ≠ []) {body : Body}
    (hbody : ∀ key inner, Node.block key inner ∈ body → key.text ≠ []) :
    body.entries outer = (body.entries []).map (qualify outer) := by
  induction body with
  | nil => rfl
  | cons node rest ih =>
    have hrest := ih fun key inner hmem => hbody key inner (List.mem_cons_of_mem node hmem)
    have hnode : node.entries outer = (node.entries []).map (qualify outer) := by
      cases node with
      | assignment key value =>
        rw [Node.entries, Node.entries, Key.under_of_ne h]
        rfl
      | block key inner =>
        -- Behind this key no open block has an empty key, whatever the words further down.
        have hkey : key.text ≠ [] := hbody key inner List.mem_cons_self
        rw [Node.entries, Node.entries, Key.under_of_ne h]
        exact Body.entries_of_outer outer hkey inner
    rw [Body.entries, Body.entries, List.map_append, hnode, hrest]

end Document

end LayeredSettings
