import LayeredSettings.Proofs.Document.Concatenation
import LayeredSettings.Proofs.Store.RoundTrip

/-!
# Headers of written stores

The lines of a header are written as comments, and a comment ends at the first line feed. A header
whose lines have no line feed changes nothing of what the written store is read as. What stands
behind a line feed is no comment: it is configuration text in front of the settings of the store,
which are laid over those that it makes (`parseText_render_header`).
-/

namespace LayeredSettings.Store

/-- The lines of `before`, the line `line` and the lines of `after`, with `text` behind a line feed
in the middle one. -/
def brokenHeader (before : List Text) (line text : Text) (after : List Text) : List Text :=
  before ++ (line ++ '\n' :: text) :: after

variable (host : Host) (s : Store)

/-- A line feed in a header line ends the comment. -/
theorem render_brokenHeader (before : List Text) (line text : Text) (after : List Text) :
    s.render host (brokenHeader before line text after) =
      ((before.map commentLine).flatMap (· ++ ['\n']) ++ '#' :: ((' ' :: line) ++ ['\n'])) ++
        (text ++ '\n' :: ((after.map commentLine).flatMap (· ++ ['\n']) ++
          '\n' :: ((s.sortedEntries host).map entryLine).flatMap (· ++ ['\n']))) := by
  have hline : commentLine (line ++ '\n' :: text) = '#' :: ' ' :: (line ++ '\n' :: text) :=
    if_neg (by simp)
  have hheader : headerLines (brokenHeader before line text after) =
      (before.map commentLine ++ ('#' :: ' ' :: (line ++ '\n' :: text)) :: after.map commentLine) ++
        [[]] := by
    unfold headerLines brokenHeader
    rw [if_neg (by simp), List.map_append, List.map_cons, hline]
  unfold render
  rw [hheader, Text.lines_append_feed (by simp)]
  simp

/-- The tokens of what stands behind the line feed come in front of those of the settings. -/
theorem tokens?_render_brokenHeader {before after : List Text} {line text : Text}
    {body : Document.Body} (hlines : ∀ l ∈ before ++ line :: after, '\n' ∉ l)
    (hbody : (Lexemes.ofText text).tokens? = some body.tokens) :
    (Lexemes.ofText (s.render host (brokenHeader before line text after))).tokens? =
      some (Document.Body.tokens
        (body ++ (s.sortedEntries host).map Document.Node.ofEntry)) := by
  obtain ⟨hbefore, hline, hafter⟩ := List.forall_mem_append.1 hlines |>.imp_right
    List.forall_mem_cons.1
  have hspace : '\n' ∉ ' ' :: line := by
    rw [List.mem_cons, not_or]
    exact ⟨by decide, hline⟩
  have hfront : Lexer.Gap ((before.map commentLine).flatMap (· ++ ['\n']) ++
      '#' :: ((' ' :: line) ++ ['\n'])) :=
    (gap_commentLines hbefore).append (.comment hspace .nil)
  have hempty : Lexer.Gap ['\n'] := .blank rfl .nil
  have hrest := Lexes.gap (gap_commentLines hafter)
    (Lexes.gap hempty (lexes_entryLines (s.sortedEntries host)))
  have happend := tokens?_append_feed hbody hrest.tokens?_ofText
  rw [render_brokenHeader, tokens?_eq_some_iff]
  exact (tokens?_eq_some_iff.1 happend).gap_append hfront

/-- The settings of a store over others answer as the store does, and the others where it lacks a
key. -/
theorem get?_insertAll_sortedEntries (below : Settings) (key : Text) :
    (below.insertAll (s.sortedEntries host)).get? key =
      (s.query host key).or (below.get? key) := by
  have hperm : (s.sortedEntries host).reverse.Perm (s.entries host) :=
    (List.reverse_perm _).trans (sortedEntries_perm host s)
  have hnodup : ((s.sortedEntries host).reverse.map Prod.fst).Nodup :=
    (hperm.map Prod.fst).nodup_iff.2 (nodup_keys_entries host s)
  rw [Settings.get?_insertAll, Settings.valueOf?_eq_of_perm hperm hnodup, query_eq_valueOf?]

/-- A header without line feeds in its lines is only comments: with it and without it a written
store is read, and as the same settings. What stands behind a line feed in a line of the header is
read as configuration text; where it is a document of its own, the settings of the store are laid
over those that it makes, so that it adds all the keys that the store lacks. -/
theorem parseText_render_header (source : Text) :
    (∀ header, (∀ line ∈ header, '\n' ∉ line) → ∀ defaults strict, ∃ settings,
      parseText (s.render host header) source defaults strict = .ok settings ∧
        parseText (s.render host []) source defaults strict = .ok settings) ∧
    ∀ before line text after, (∀ l ∈ before ++ line :: after, '\n' ∉ l) →
      ∀ defaults below, parseText text source defaults false = .ok below → ∃ settings,
        parseText (s.render host (brokenHeader before line text after)) source defaults false =
            .ok settings ∧
          parseText (s.render host []) source below false = .ok settings ∧
          ∀ key, settings.get? key = (s.query host key).or (below.get? key) := by
  have hnone : ∀ line ∈ ([] : List Text), '\n' ∉ line := fun line h => by cases h
  constructor
  · intro header hlines defaults strict
    exact ⟨_, parseText_render_over host s header hlines source defaults strict,
      parseText_render_over host s [] hnone source defaults strict⟩
  · intro before line text after hlines defaults below hbelow
    obtain ⟨body, hbody, -, rfl⟩ := Document.ofText_eq_ok_iff.1 (parseText_eq_ok.1 hbelow)
    have htokens := tokens?_render_brokenHeader host s hlines hbody
    have hparse := parseText_of_body source defaults htokens
    rw [Document.Body.entries_append, Document.entries_map_ofEntry,
      Settings.insertAll_append] at hparse
    exact ⟨_, hparse, parseText_render_over host s [] hnone source _ false,
      get?_insertAll_sortedEntries host s _⟩

/-- A store with one setting. -/
def single : Store := .mapped (.ofList [("k".toList, "v".toList)])

/-- A header of two lines without a line feed, and a header line that goes on behind one. -/
theorem parseText_render_header_single :
    (∃ settings,
      parseText (single.render ⟨.empty, .empty⟩ [[], "a = 1".toList]) "s".toList .empty true =
          .ok settings ∧
        parseText (single.render ⟨.empty, .empty⟩ []) "s".toList .empty true = .ok settings) ∧
    ∃ settings,
      parseText (single.render ⟨.empty, .empty⟩ ["by\na = 1".toList, []]) "s".toList .empty false =
          .ok settings ∧
        settings.get? "a".toList = some "1".toList ∧
        settings.get? "k".toList = some "v".toList := by
  obtain ⟨hcomments, hbroken⟩ := parseText_render_header ⟨.empty, .empty⟩ single "s".toList
  let body : Document.Body := [.assignment ⟨"a".toList, []⟩ ⟨"1".toList, []⟩]
  have hbody : (Lexemes.ofText "a = 1".toList).tokens? = some body.tokens := by decide +kernel
  have hbelow : parseText "a = 1".toList "s".toList .empty false =
      .ok (.ofList [("a".toList, "1".toList)]) := parseText_of_body _ _ hbody
  obtain ⟨settings, hparse, -, hget⟩ :=
    hbroken [] "by".toList "a = 1".toList [[]] (by decide) .empty _ hbelow
  exact ⟨hcomments _ (by decide) .empty true, settings, hparse, hget _, hget _⟩

/-- A header line with a line feed in it adds a setting. -/
theorem parseText_render_line_feed :
    parseText (single.render ⟨.empty, .empty⟩ ["note\nadmin = 1".toList]) "<string>".toList .empty
        false = .ok (.ofList [("admin".toList, "1".toList), ("k".toList, "v".toList)]) ∧
      parseText (single.render ⟨.empty, .empty⟩ []) "<string>".toList .empty false =
        .ok (.ofList [("k".toList, "v".toList)]) ∧
      (Settings.ofList [("admin".toList, "1".toList), ("k".toList, "v".toList)]).entries ≠
        (Settings.ofList [("k".toList, "v".toList)]).entries := by
  let body : Document.Body := [.assignment ⟨"admin".toList, []⟩ ⟨"1".toList, []⟩]
  have hbody : (Lexemes.ofText "admin = 1".toList).tokens? = some body.tokens := by decide +kernel
  have hsorted : single.sortedEntries ⟨.empty, .empty⟩ = [("k".toList, "v".toList)] :=
    List.mergeSort_singleton _
  have hlines : ∀ line ∈ [] ++ "note".toList :: [], '\n' ∉ line := by decide
  have htokens := tokens?_render_brokenHeader ⟨.empty, .empty⟩ single hlines hbody
  refine ⟨?_, ?_, by decide⟩
  · have hparse := parseText_of_body "<string>".toList .empty htokens
    rw [Document.Body.entries_append, Document.entries_map_ofEntry, hsorted] at hparse
    exact hparse
  · rw [parseText_render_over _ _ _ (by decide), hsorted]
    rfl

end LayeredSettings.Store
