import LayeredSettings.Proofs.Document.Parsing
import LayeredSettings.Proofs.Token.Tiling

/-!
# Blocks and dotted keys

A block puts its key and a dot in front of the keys of its body, so that `K { n = v }` sets the key
that `K.n = v` sets. The key of the open blocks is one text, however, and an empty one stands for no
block: a block whose words make an empty key adds nothing to the keys of its body, where the dotted
form has the empty word and its dot in front (`Key.under_eq_iff`).
-/

namespace LayeredSettings

open Document

/-! ## Dotted keys -/

namespace Document.Words

/-- The words of `key`, and those of `name` behind a dot. -/
def dot (key name : Words) : Words := ⟨key.first, key.more ++ name.toList⟩

theorem tokens_dot (key name : Words) :
    (key.dot name).tokens = key.tokens ++ .dot :: name.tokens := by
  unfold tokens dot moreTokens toList
  rw [List.flatMap_append, List.flatMap_cons]
  rfl

theorem text_dot (key name : Words) : (key.dot name).text = key.text ++ '.' :: name.text := by
  unfold text Key.ofSegments dot toList
  rw [Text.joinWith_cons, Text.joinWith_cons, Text.joinWith_cons, List.flatMap_append,
    List.flatMap_cons, List.append_assoc]
  rfl

end Document.Words

/-- One assignment is parsed, in a strict document too. -/
theorem parseText_assignment {t : Text} {key value : Words} (source : Text) (strict : Bool)
    (ht : (Lexemes.ofText t).tokens? = some (key.tokens ++ .equal :: value.tokens)) :
    parseText t source .empty strict = .ok (.ofList [(key.text, value.text)]) := by
  have htokens : (Lexemes.ofText t).tokens? = some (Body.tokens [.assignment key value]) := by
    rw [ht, Body.tokens, Body.tokens, Node.tokens, List.append_nil]
  rw [parseText_eq_ok_iff_of_body htokens]
  exact ⟨fun _ => List.pairwise_singleton _ _, rfl⟩

/-- The dotted form of an entry. -/
theorem parseText_dotted {t : Text} {key name value : Words} (source : Text) (strict : Bool)
    (ht : (Lexemes.ofText t).tokens? =
      some (key.tokens ++ .dot :: (name.tokens ++ .equal :: value.tokens))) :
    parseText t source .empty strict =
      .ok (.ofList [(key.text ++ '.' :: name.text, value.text)]) := by
  rw [← Words.text_dot]
  apply parseText_assignment
  rw [ht, Words.tokens_dot, List.append_assoc, List.cons_append]

/-! ## Blocks -/

theorem Key.under_eq_iff (block name : Text) :
    under block name = block ++ '.' :: name ↔ block ≠ [] := by
  refine ⟨?_, fun h => under_of_ne h name⟩
  rintro h rfl
  have hlen : name.length = ('.' :: name).length := congrArg List.length h
  rw [List.length_cons] at hlen
  omega

/-- The tokens of a block, spelled with a blank on either side of its braces. -/
theorem tokens?_block {k b : Text} {c d : Char} {ks bs : List Token}
    (hk : (Lexemes.ofText k).tokens? = some ks) (hc : Separates c k)
    (hb : (Lexemes.ofText b).tokens? = some bs) (hd : Separates d b) :
    (Lexemes.ofText (k ++ c :: '\x7b' :: ' ' :: (b ++ [d, '\x7d']))).tokens? =
      some (ks ++ .opening :: (bs ++ [.closing])) := by
  rw [tokens?_eq_some_iff] at hk hb ⊢
  have hclose : Tiles ['\x7d'] [.closing] :=
    .token .nil (by decide) (Lexer.spells_mark rfl []) (.gap .nil)
  have hinner : Tiles (' ' :: (b ++ [d, '\x7d'])) (bs ++ [.closing]) :=
    (hb.append hd hclose).gap_append (.blank rfl .nil)
  have hopen : Tiles ('\x7b' :: ' ' :: (b ++ [d, '\x7d'])) (.opening :: (bs ++ [.closing])) :=
    .token .nil (by decide) (Lexer.spells_mark rfl _) hinner
  exact hk.append hc hopen

theorem parseText_of_block_tokens {t source : Text} {strict : Bool} {settings : Settings}
    {key : Words} {body : Body}
    (ht : (Lexemes.ofText t).tokens? =
      some (key.tokens ++ .opening :: (body.tokens ++ [.closing]))) :
    parseText t source .empty strict = .ok settings ↔
      (strict = true → ((body.entries key.text).map Prod.fst).Nodup) ∧
        settings = Settings.empty.insertAll (body.entries key.text) := by
  let whole : Body := [.block key body]
  have htokens : (Lexemes.ofText t).tokens? = some whole.tokens := by
    rw [ht, Body.tokens, Body.tokens, Node.tokens, List.append_nil]
  have hentries : whole.entries [] = body.entries key.text := by
    rw [Body.entries, Body.entries, Node.entries, List.append_nil]
    rfl
  rw [parseText_eq_ok_iff_of_body htokens, hentries]

/-- The block form of an entry. -/
theorem parseText_block_entry {t : Text} {key name value : Words} (source : Text) (strict : Bool)
    (ht : (Lexemes.ofText t).tokens? =
      some (key.tokens ++ .opening :: (name.tokens ++ .equal :: (value.tokens ++ [.closing])))) :
    parseText t source .empty strict =
      .ok (.ofList [(Key.under key.text name.text, value.text)]) := by
  let body : Body := [.assignment name value]
  have hbody : body.tokens ++ [.closing] =
      name.tokens ++ .equal :: (value.tokens ++ [.closing]) := by
    rw [Body.tokens, Body.tokens, Node.tokens, List.append_nil, List.append_assoc]
    rfl
  rw [← hbody] at ht
  rw [parseText_of_block_tokens ht]
  exact ⟨fun _ => List.pairwise_singleton _ _, rfl⟩

/-- Let `b` be a text that is parsed on its own. In a block its settings have the key of the block
and a dot in front of their keys, whether the block is given by its tokens or put together from
texts, if neither that key nor the key of a block that stands in `b` itself is empty. A block of the
empty key leaves the settings as they are. An entry in dotted form has the key and the dot in front
in any case, so that the two forms agree exactly if the key is not empty. -/
theorem parseText_block {b source : Text} {strict : Bool} {settings : Settings} {key : Words}
    {body : Body} (hbody : (Lexemes.ofText b).tokens? = some body.tokens)
    (hb : parseText b source .empty strict = .ok settings) :
    (key.text ≠ [] → (∀ inner nodes, Node.block inner nodes ∈ body → inner.text ≠ []) →
      (∀ t, (Lexemes.ofText t).tokens? =
          some (key.tokens ++ .opening :: (body.tokens ++ [.closing])) →
        parseText t source .empty strict = .ok (settings.qualified key.text)) ∧
      ∀ k c d, (Lexemes.ofText k).tokens? = some key.tokens → Separates c k → Separates d b →
        parseText (k ++ c :: '\x7b' :: ' ' :: (b ++ [d, '\x7d'])) source .empty strict =
          .ok (settings.qualified key.text)) ∧
    (key.text = [] → ∀ t, (Lexemes.ofText t).tokens? =
        some (key.tokens ++ .opening :: (body.tokens ++ [.closing])) →
      parseText t source .empty strict = .ok settings) ∧
    ∀ (name value : Words) (t u : Text),
      (Lexemes.ofText t).tokens? =
        some (key.tokens ++ .opening :: (name.tokens ++ .equal :: (value.tokens ++ [.closing]))) →
      (Lexemes.ofText u).tokens? =
        some (key.tokens ++ .dot :: (name.tokens ++ .equal :: value.tokens)) →
      parseText u source .empty strict =
        .ok (.ofList [(key.text ++ '.' :: name.text, value.text)]) ∧
      (parseText t source .empty strict = parseText u source .empty strict ↔ key.text ≠ []) := by
  obtain ⟨hnodup, rfl⟩ := (parseText_eq_ok_iff_of_body hbody).1 hb
  refine ⟨?named, ?unnamed, ?dotted⟩
  case named =>
    intro hkey hinner
    have htoken : ∀ t, (Lexemes.ofText t).tokens? =
          some (key.tokens ++ .opening :: (body.tokens ++ [.closing])) →
        parseText t source .empty strict =
          .ok ((Settings.empty.insertAll (body.entries [])).qualified key.text) := by
      intro t ht
      rw [parseText_of_block_tokens ht, Body.entries_eq_map_qualify hkey hinner,
        Settings.qualified_insertAll]
      exact ⟨fun hs => Settings.nodup_qualify key.text (hnodup hs), rfl⟩
    refine ⟨htoken, ?_⟩
    intro k c d hk hc hd
    exact htoken _ (tokens?_block hk hc hbody hd)
  case unnamed =>
    intro hkey t ht
    rw [parseText_of_block_tokens ht, hkey]
    exact ⟨hnodup, rfl⟩
  case dotted =>
    intro name value t u ht hu
    have hdotted := parseText_dotted source strict hu
    have hblock := parseText_block_entry source strict ht
    refine ⟨hdotted, ?_⟩
    rw [hblock, hdotted, ← Key.under_eq_iff key.text name.text]
    constructor
    · intro h
      have hentries : [(Key.under key.text name.text, value.text)] =
          [(key.text ++ '.' :: name.text, value.text)] :=
        congrArg Settings.entries (Except.ok.inj h)
      exact (Prod.mk.inj (List.cons.inj hentries).1).1
    · intro h
      rw [h]

/-- A key of a quoted word, and a body with a comment and a block. -/
theorem parseText_block_quoted_key :
    parseText "x = 1 # n\ny \x7b z = 2 \x7d".toList "s".toList .empty true =
        .ok (.ofList [("x".toList, "1".toList), ("y.z".toList, "2".toList)]) ∧
      parseText "a.\"b c\" \x7b x = 1 # n\ny \x7b z = 2 \x7d\n\x7d".toList "s".toList .empty true =
        .ok (.ofList [("a.b c.x".toList, "1".toList), ("a.b c.y.z".toList, "2".toList)]) := by
  let key : Words := ⟨"a".toList, ["b c".toList]⟩
  let body : Body := [.assignment ⟨"x".toList, []⟩ ⟨"1".toList, []⟩,
    .block ⟨"y".toList, []⟩ [.assignment ⟨"z".toList, []⟩ ⟨"2".toList, []⟩]]
  have hbody : (Lexemes.ofText "x = 1 # n\ny \x7b z = 2 \x7d".toList).tokens? =
      some body.tokens := by decide +kernel
  have hparse : parseText "x = 1 # n\ny \x7b z = 2 \x7d".toList "s".toList .empty true =
      .ok (.ofList [("x".toList, "1".toList), ("y.z".toList, "2".toList)]) :=
    (parseText_eq_ok_iff_of_body hbody).2 ⟨by decide +kernel, rfl⟩
  have hwhole : (Lexemes.ofText
        "a.\"b c\" \x7b x = 1 # n\ny \x7b z = 2 \x7d\n\x7d".toList).tokens? =
      some (key.tokens ++ .opening :: (body.tokens ++ [.closing])) := by decide +kernel
  have hinner : ∀ inner nodes, Node.block inner nodes ∈ body → inner.text ≠ [] := by
    intro inner nodes hmem
    simp only [body, List.mem_cons, Node.block.injEq, reduceCtorEq, false_or, List.not_mem_nil,
      or_false] at hmem
    rw [hmem.1]
    decide
  obtain ⟨hnamed, -, -⟩ := @parseText_block _ _ true _ key body hbody hparse
  exact ⟨hparse, (hnamed (by decide) hinner).1 _ hwhole⟩

/-- A block of the empty key stands for no block, although the dotted form has the dot, and so has
the block inside another one. -/
theorem parseText_block_empty_key :
    parseText "a = 1".toList "s".toList .empty false =
        .ok (.ofList [("a".toList, "1".toList)]) ∧
      parseText "\"\" \x7b a = 1 \x7d".toList "s".toList .empty false =
        .ok (.ofList [("a".toList, "1".toList)]) ∧
      Settings.ofList [("a".toList, "1".toList)] ≠
        (Settings.ofList [("a".toList, "1".toList)]).qualified [] ∧
      parseText "\"\".a = 1".toList "s".toList .empty false =
        .ok (.ofList [(".a".toList, "1".toList)]) ∧
      parseText "k \x7b \"\" \x7b a = 1 \x7d \x7d".toList "s".toList .empty false =
        .ok (.ofList [("k..a".toList, "1".toList)]) := by
  let entry : Node := .assignment ⟨"a".toList, []⟩ ⟨"1".toList, []⟩
  refine ⟨?body, ?block, by decide, ?dotted, ?nested⟩
  case body =>
    have htokens : (Lexemes.ofText "a = 1".toList).tokens? = some (Body.tokens [entry]) := by
      decide +kernel
    exact parseText_of_body _ _ htokens
  case block =>
    have htokens : (Lexemes.ofText "\"\" \x7b a = 1 \x7d".toList).tokens? =
        some (Body.tokens [.block ⟨[], []⟩ [entry]]) := by decide +kernel
    exact parseText_of_body _ _ htokens
  case dotted =>
    have htokens : (Lexemes.ofText "\"\".a = 1".toList).tokens? =
        some (Body.tokens [.assignment ⟨[], ["a".toList]⟩ ⟨"1".toList, []⟩]) := by decide +kernel
    exact parseText_of_body _ _ htokens
  case nested =>
    have htokens : (Lexemes.ofText "k \x7b \"\" \x7b a = 1 \x7d \x7d".toList).tokens? =
        some (Body.tokens [.block ⟨"k".toList, []⟩ [.block ⟨[], []⟩ [entry]]]) := by decide +kernel
    exact parseText_of_body _ _ htokens

end LayeredSettings
