import LayeredSettings.Proofs.Document.Parsing
import LayeredSettings.Proofs.Token.Tiling

/-!
# Documents one behind the other

Two texts with a line feed between them have the tokens of the one and then those of the other, and
derivations of both make a derivation of the whole. The settings of the whole are therefore those
of the second text over those of the first.
-/

namespace LayeredSettings

open Document

/-- The bodies of two texts, one behind the other. -/
theorem tokens?_append_feed {t u : Text} {body more : Body}
    (ht : (Lexemes.ofText t).tokens? = some body.tokens)
    (hu : (Lexemes.ofText u).tokens? = some more.tokens) :
    (Lexemes.ofText (t ++ '\n' :: u)).tokens? = some (Body.tokens (body ++ more)) := by
  rw [Body.tokens_append]
  exact tokens?_append ht (.inl rfl) hu

/-- Entries of different keys may be set in any order. -/
theorem Settings.get?_insertAll_append_comm (s : Settings) {es fs : List Entry}
    (h : ∀ key ∈ es.map Prod.fst, key ∉ fs.map Prod.fst) (key : Text) :
    (s.insertAll (es ++ fs)).get? key = (s.insertAll (fs ++ es)).get? key := by
  rw [get?_insertAll, get?_insertAll, List.reverse_append, List.reverse_append, valueOf?_append,
    valueOf?_append]
  congr 1
  have hnone : ∀ gs : List Entry, key ∉ gs.map Prod.fst → valueOf? key gs.reverse = none := by
    intro gs hgs
    rw [valueOf?_eq_none_iff, List.map_reverse, List.mem_reverse]
    exact hgs
  by_cases hkey : key ∈ es.map Prod.fst
  · rw [hnone fs (h key hkey), Option.none_or, Option.or_none]
  · rw [hnone es hkey, Option.none_or, Option.or_none]

theorem exists_parseText_strict {text source : Text} {defaults : Settings} {body : Body}
    (h : (Lexemes.ofText text).tokens? = some body.tokens) :
    (∃ settings, parseText text source defaults true = .ok settings) ↔
      ((body.entries []).map Prod.fst).Nodup := by
  constructor
  · rintro ⟨settings, hsettings⟩
    exact ((parseText_eq_ok_iff_of_body h).1 hsettings).1 rfl
  · intro hnodup
    exact ⟨_, (parseText_eq_ok_iff_of_body h).2 ⟨fun _ => hnodup, rfl⟩⟩

/-- Parsing one text behind another is layering: the second text is parsed over the settings of
the first. A strict document that consists of both is accepted exactly when both are and no key is
defined in both, and then the order of the texts changes no value. -/
theorem parseText_append {t u source : Text} {first second : Settings}
    (ht : parseText t source .empty false = .ok first)
    (hu : parseText u source .empty false = .ok second) :
    (∀ defaults, ∃ below settings, parseText t source defaults false = .ok below ∧
      parseText u source below false = .ok settings ∧
      parseText (t ++ '\n' :: u) source defaults false = .ok settings) ∧
    (∀ defaults, (∃ settings, parseText (t ++ '\n' :: u) source defaults true = .ok settings) ↔
      (∃ settings, parseText t source defaults true = .ok settings) ∧
      (∃ settings, parseText u source defaults true = .ok settings) ∧
      ∀ key ∈ first.keys, key ∉ second.keys) ∧
    ((∀ key ∈ first.keys, key ∉ second.keys) → ∀ defaults strict settings,
      parseText (t ++ '\n' :: u) source defaults strict = .ok settings →
      ∃ swapped, parseText (u ++ '\n' :: t) source defaults strict = .ok swapped ∧
        ∀ key, settings.get? key = swapped.get? key) := by
  obtain ⟨body, hbody, -, rfl⟩ := ofText_eq_ok_iff.1 (parseText_eq_ok.1 ht)
  obtain ⟨more, hmore, -, rfl⟩ := ofText_eq_ok_iff.1 (parseText_eq_ok.1 hu)
  have hdisjoint : (∀ key ∈ (Settings.empty.insertAll (body.entries [])).keys,
      key ∉ (Settings.empty.insertAll (more.entries [])).keys) ↔
      ∀ key ∈ (body.entries []).map Prod.fst, key ∉ (more.entries []).map Prod.fst := by
    simp only [Settings.mem_keys_insertAll, Settings.keys_empty, List.not_mem_nil, false_or]
  have happend := tokens?_append_feed hbody hmore
  have hswapped := tokens?_append_feed hmore hbody
  rw [hdisjoint]
  refine ⟨?layers, ?strict, ?swap⟩
  case layers =>
    intro defaults
    have hwhole := parseText_of_body source defaults happend
    rw [Body.entries_append, Settings.insertAll_append] at hwhole
    exact ⟨_, _, parseText_of_body source defaults hbody, parseText_of_body source _ hmore, hwhole⟩
  case strict =>
    -- Only what the text itself assigns counts, so that the defaults play no part.
    intro defaults
    rw [exists_parseText_strict happend, exists_parseText_strict hbody,
      exists_parseText_strict hmore, Body.entries_append, List.map_append, List.nodup_append]
    have hne : (∀ key ∈ (body.entries []).map Prod.fst, ∀ other ∈ (more.entries []).map Prod.fst,
        key ≠ other) ↔
        ∀ key ∈ (body.entries []).map Prod.fst, key ∉ (more.entries []).map Prod.fst := by
      constructor
      · exact fun h key hkey hother => h key hkey key hother rfl
      · exact fun h key hkey other hother he => h key hkey (he ▸ hother)
    rw [hne]
  case swap =>
    intro hkeys defaults strict settings hsettings
    obtain ⟨hnodup, rfl⟩ := (parseText_eq_ok_iff_of_body happend).1 hsettings
    refine ⟨_, (parseText_eq_ok_iff_of_body hswapped).2 ⟨?_, rfl⟩, ?_⟩
    · intro hs
      have hperm : (Body.entries [] (body ++ more)).Perm (Body.entries [] (more ++ body)) := by
        rw [Body.entries_append, Body.entries_append]
        exact List.perm_append_comm
      exact (hperm.map Prod.fst).nodup (hnodup hs)
    · intro key
      rw [Body.entries_append, Body.entries_append]
      exact Settings.get?_insertAll_append_comm defaults hkeys key

/-- A comment ends the first text, and the second one has a block. -/
theorem parseText_append_comment_block :
    parseText "a = 1 # note".toList "s".toList .empty false =
        .ok (.ofList [("a".toList, "1".toList)]) ∧
      parseText "b \x7b c = 2 \x7d".toList "s".toList .empty false =
        .ok (.ofList [("b.c".toList, "2".toList)]) ∧
      ∃ settings swapped,
        parseText "a = 1 # note\nb \x7b c = 2 \x7d".toList "s".toList .empty true = .ok settings ∧
        parseText "b \x7b c = 2 \x7d\na = 1 # note".toList "s".toList .empty true = .ok swapped ∧
        ∀ key, settings.get? key = swapped.get? key := by
  let body : Body := [.assignment ⟨"a".toList, []⟩ ⟨"1".toList, []⟩]
  let more : Body := [.block ⟨"b".toList, []⟩ [.assignment ⟨"c".toList, []⟩ ⟨"2".toList, []⟩]]
  have hbody : (Lexemes.ofText "a = 1 # note".toList).tokens? = some body.tokens := by
    decide +kernel
  have hmore : (Lexemes.ofText "b \x7b c = 2 \x7d".toList).tokens? = some more.tokens := by
    decide +kernel
  have hfirst : parseText "a = 1 # note".toList "s".toList .empty false =
      .ok (.ofList [("a".toList, "1".toList)]) := parseText_of_body _ _ hbody
  have hsecond : parseText "b \x7b c = 2 \x7d".toList "s".toList .empty false =
      .ok (.ofList [("b.c".toList, "2".toList)]) := parseText_of_body _ _ hmore
  obtain ⟨-, hstrict, hswap⟩ := parseText_append hfirst hsecond
  have hkeys : ∀ key ∈ (Settings.ofList [("a".toList, "1".toList)]).keys,
      key ∉ (Settings.ofList [("b.c".toList, "2".toList)]).keys := by
    decide +kernel
  obtain ⟨settings, hsettings⟩ := (hstrict .empty).2
    ⟨(exists_parseText_strict hbody).2 (by decide +kernel),
      (exists_parseText_strict hmore).2 (by decide +kernel), hkeys⟩
  obtain ⟨swapped, hswapped, hget⟩ := hswap hkeys .empty true settings hsettings
  exact ⟨hfirst, hsecond, settings, swapped, hsettings, hswapped, hget⟩

end LayeredSettings
