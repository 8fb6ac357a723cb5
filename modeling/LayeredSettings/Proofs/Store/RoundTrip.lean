import LayeredSettings.Proofs.Document.Parsing
import LayeredSettings.Proofs.Store.Entries
import LayeredSettings.Proofs.Token.Seam

/-!
# Reading back a written store

The text of a store is a header, which the lexer skips, and one line for each setting. Each line is
made of the tokens of one assignment, and the line feed behind it keeps its value apart from the
next key. Parsing the text therefore gives the settings back, in the order of their keys.
-/

namespace LayeredSettings

/-! ## Lines -/

theorem Text.lines_append_feed {ls : List Text} (h : ls ≠ []) :
    lines ls ++ ['\n'] = ls.flatMap (· ++ ['\n']) := by
  induction ls with
  | nil => exact absurd rfl h
  | cons l ls ih =>
    cases ls with
    | nil => simp [lines, joinWith]
    | cons l' ls =>
      have hrest := ih (List.cons_ne_nil l' ls)
      unfold lines at hrest ⊢
      rw [List.flatMap_cons, ← hrest, joinWith, List.append_assoc, List.append_assoc]
      rfl

/-! ## Keys and entries as derivations -/

/-- The segments of a key as words. -/
def Document.Words.ofKey (key : Text) : Words :=
  match Text.splitOn '.' key with
  | [] => ⟨[], []⟩
  | first :: more => ⟨first, more⟩

theorem Document.Words.toList_ofKey (key : Text) :
    (ofKey key).toList = Text.splitOn '.' key := by
  unfold ofKey
  cases h : Text.splitOn '.' key with
  | nil => exact absurd h (Text.splitOn_ne_nil '.' key)
  | cons first more => rfl

theorem Document.Words.text_ofKey (key : Text) : (ofKey key).text = key := by
  rw [text, toList_ofKey]
  exact Text.joinWith_splitOn '.' key

/-- A written key, word by word. -/
theorem Key.render_eq (key : Text) :
    render key = renderSegment (Document.Words.ofKey key).first ++
      (Document.Words.ofKey key).more.flatMap fun w => '.' :: renderSegment w := by
  rw [render, ← Document.Words.toList_ofKey, Document.Words.toList, List.map_cons,
    Text.joinWith_cons, List.flatMap_map]

/-- The assignment of one entry. -/
def Document.Node.ofEntry (e : Entry) : Node := .assignment (.ofKey e.1) ⟨e.2, []⟩

/-- Outside all blocks an assignment makes the entry that it was made of. -/
theorem Document.entries_map_ofEntry (es : List Entry) :
    Body.entries [] (es.map Node.ofEntry) = es := by
  induction es with
  | nil => rfl
  | cons e es ih =>
    rw [List.map_cons, Body.entries, ih, Node.ofEntry, Node.entries, Words.text_ofKey, Key.under,
      if_pos rfl]
    rfl

/-! ## Tokens of a line -/

section Lines

variable {t : Text} {ts : List Token}

/-- A name ends in front of further segments, each of which comes with a dot. -/
theorem head?_moreSegments (ws : List Text) (ht : ∀ c ∈ t.head?, Token.isNameChar c = false) :
    ∀ c ∈ ((ws.flatMap fun w => '.' :: Key.renderSegment w) ++ t).head?,
      Token.isNameChar c = false := by
  cases ws with
  | nil => exact ht
  | cons w ws =>
    intro c hc
    cases hc
    decide

/-- The segments behind the first one are passed, each with the dot in front of it. -/
theorem passes_moreSegments (ws : List Text) (ht : ∀ c ∈ t.head?, Token.isNameChar c = false)
    (p : Position) :
    ∃ spans, spans.map Lexer.Span.token = Document.Words.moreTokens ws ∧
      Lexer.Passes ⟨(ws.flatMap fun w => '.' :: Key.renderSegment w) ++ t, p, []⟩ spans
        ⟨t, p.after (ws.flatMap fun w => '.' :: Key.renderSegment w), []⟩ := by
  induction ws generalizing p with
  | nil => exact ⟨[], rfl, .done rfl⟩
  | cons w ws ih =>
    obtain ⟨spans, hspans, hpasses⟩ := ih ((p.after ['.']).after (Key.renderSegment w))
    have hword := hpasses.spelling (Lexer.spells_segment w (head?_moreSegments ws ht)) (by simp)
    have hdot := hword.spelling (Lexer.spells_mark (c := '.') rfl _) (by simp)
    rw [← Position.after_append, ← Position.after_append] at hdot
    refine ⟨_, ?_, by simpa using hdot⟩
    rw [List.map_cons, List.map_cons, hspans]
    rfl

/-- A written key is passed word by word if the text behind it does not go on with a name. -/
theorem passes_key (key : Text) (ht : ∀ c ∈ t.head?, Token.isNameChar c = false) (p : Position) :
    ∃ stop spans,
      spans.map Lexer.Span.token = Document.Words.moreTokens (Document.Words.ofKey key).more ∧
      Lexer.Passes ⟨Key.render key ++ t, p, []⟩
        (⟨.word (Document.Words.ofKey key).first, p, stop⟩ :: spans)
        ⟨t, p.after (Key.render key), []⟩ := by
  obtain ⟨spans, hspans, hpasses⟩ := passes_moreSegments (Document.Words.ofKey key).more ht
    (p.after (Key.renderSegment (Document.Words.ofKey key).first))
  rw [← Position.after_append, ← Key.render_eq] at hpasses
  have hfirst := hpasses.spelling (Lexer.spells_segment _ (head?_moreSegments _ ht)) (by simp)
  rw [← List.append_assoc, ← Key.render_eq] at hfirst
  exact ⟨_, spans, hspans, hfirst⟩

/-- A written key is made of its words if the text behind it does not go on with a name. -/
theorem lexes_key (key : Text) (ht : ∀ c ∈ t.head?, Token.isNameChar c = false)
    (h : Lexes t ts) :
    Lexes (Key.render key ++ t) ((Document.Words.ofKey key).tokens ++ ts) := by
  intro p
  obtain ⟨stop, spans, hspans, hpasses⟩ := passes_key key ht p
  have htokens := hpasses.tokens? (h _)
  rw [List.map_cons, hspans] at htokens
  exact htokens

/-- The line of a setting is made of the tokens of its assignment, whatever the next line is. -/
theorem lexes_entryLine (e : Entry) (h : Lexes t ts) :
    Lexes (Store.entryLine e ++ '\n' :: t) ((Document.Node.ofEntry e).tokens ++ ts) := by
  have hfeed : Lexer.Gap ['\n'] := .blank (by decide) .nil
  have hvalue : Lexes (' ' :: '=' :: ' ' :: (Quoted.literal e.2 ++ '\n' :: t))
      (.equal :: .word e.2 :: ts) :=
    Lexes.value e.2 (Lexes.gap hfeed h)
  have hkey := lexes_key e.1 (by simp; decide) hvalue
  have hline : Store.entryLine e ++ '\n' :: t =
      Key.render e.1 ++ ' ' :: '=' :: ' ' :: (Quoted.literal e.2 ++ '\n' :: t) := by
    simp [Store.entryLine]
  have htokens : (Document.Node.ofEntry e).tokens ++ ts =
      (Document.Words.ofKey e.1).tokens ++ .equal :: .word e.2 :: ts := by
    simp [Document.Node.ofEntry, Document.Node.tokens, Document.Words.tokens,
      Document.Words.moreTokens]
  rw [hline, htokens]
  exact hkey

theorem lexes_entryLines (es : List Entry) :
    Lexes ((es.map Store.entryLine).flatMap (· ++ ['\n']))
      (Document.Body.tokens (es.map Document.Node.ofEntry)) := by
  induction es with
  | nil => exact Lexes.nil
  | cons e es ih =>
    rw [List.map_cons, List.map_cons, List.flatMap_cons, List.append_assoc, Document.Body.tokens]
    exact lexes_entryLine e ih

end Lines

namespace Store

/-! ## The header -/

theorem gap_commentLine {line : Text} (h : '\n' ∉ line) :
    Lexer.Gap (commentLine line ++ ['\n']) := by
  unfold commentLine
  split
  · exact .comment List.not_mem_nil .nil
  · have hspace : '\n' ∉ ' ' :: line := by
      rw [List.mem_cons, not_or]
      exact ⟨by decide, h⟩
    exact .comment hspace .nil

theorem gap_commentLines {lines : List Text} (h : ∀ line ∈ lines, '\n' ∉ line) :
    Lexer.Gap ((lines.map commentLine).flatMap (· ++ ['\n'])) := by
  induction lines with
  | nil => exact .nil
  | cons line lines ih =>
    rw [List.map_cons, List.flatMap_cons]
    obtain ⟨hline, hrest⟩ := List.forall_mem_cons.1 h
    exact (gap_commentLine hline).append (ih hrest)

theorem gap_headerLines {header : List Text} (h : ∀ line ∈ header, '\n' ∉ line) :
    Lexer.Gap ((headerLines header).flatMap (· ++ ['\n'])) := by
  unfold headerLines
  split
  · exact .nil
  · rw [List.flatMap_append]
    exact (gap_commentLines h).append (.blank (by decide) .nil)

/-! ## The whole text -/

variable (host : Host) (s : Store) (header : List Text)

/-- A written store is made of one assignment for each setting. -/
theorem lexes_render (h : ∀ line ∈ header, '\n' ∉ line) :
    Lexes (s.render host header)
      (Document.Body.tokens ((s.sortedEntries host).map Document.Node.ofEntry)) := by
  unfold render
  by_cases hnil : headerLines header ++ (s.sortedEntries host).map entryLine = []
  · -- Nothing is written but the line feed at the end.
    obtain ⟨-, hentries⟩ := List.append_eq_nil_iff.1 hnil
    have hfeed : Lexer.Gap ['\n'] := .blank (by decide) .nil
    rw [hnil, List.map_eq_nil_iff.1 hentries]
    show Lexes (['\n'] ++ []) []
    exact Lexes.gap hfeed Lexes.nil
  · rw [Text.lines_append_feed hnil, List.flatMap_append]
    exact Lexes.gap (gap_headerLines h) (lexes_entryLines (s.sortedEntries host))

/-- What a store shows, as settings in the order of the keys. -/
def sortedSettings : Settings := ⟨s.sortedEntries host, nodup_keys_sortedEntries host s⟩

/-- A written store sets its entries, whatever is set already. -/
theorem parseText_render_over (h : ∀ line ∈ header, '\n' ∉ line) (source : Text)
    (defaults : Settings) (strict : Bool) :
    parseText (s.render host header) source defaults strict =
      .ok (defaults.insertAll (s.sortedEntries host)) := by
  rw [parseText_eq_ok_iff_of_body (lexes_render host s header h).tokens?_ofText,
    Document.entries_map_ofEntry]
  exact ⟨fun _ => nodup_keys_sortedEntries host s, rfl⟩

theorem parseText_render_eq (h : ∀ line ∈ header, '\n' ∉ line) (source : Text) (strict : Bool) :
    parseText (s.render host header) source .empty strict = .ok (s.sortedSettings host) := by
  have hentries : (Settings.empty.insertAll (s.sortedEntries host)).entries =
      s.sortedEntries host :=
    Settings.entries_insertAll (nodup_keys_sortedEntries host s) fun _ _ => List.not_mem_nil
  rw [parseText_render_over host s header h]
  exact congrArg Except.ok (Settings.ext hentries)

/-- Parsing a written store succeeds, in a strict document too, and gives exactly the entries that
the store shows, in strictly increasing order of their keys. -/
theorem parseText_render (source : Text) (h : ∀ line ∈ header, '\n' ∉ line) :
    ∃ settings, parseText (s.render host header) source .empty true = .ok settings ∧
      settings.entries.Perm (s.entries host) ∧ settings.keys.Pairwise (· < ·) := by
  refine ⟨s.sortedSettings host, parseText_render_eq host s header h source true, ?_, ?_⟩
  · exact sortedEntries_perm host s
  · exact pairwise_sortedEntries host s

/-- A store whose keys are no names and whose values look like comments and further lines. -/
def awkward : Store :=
  .layered (.mapped (.ofList [("é..".toList, "a\n\"b\" = c".toList), ([], "# d".toList)]))
    (.mapped (.ofList [([], "e".toList), (".f".toList, [])]))

theorem parseText_render_awkward :
    (∀ line ∈ [[], "saved".toList], '\n' ∉ line) ∧
      ∃ settings, parseText (awkward.render ⟨.empty, .empty⟩ [[], "saved".toList]) "s".toList
          .empty true = .ok settings ∧
        settings.entries.Perm [("é..".toList, "a\n\"b\" = c".toList), ([], "# d".toList),
          (".f".toList, [])] ∧
        settings.keys.Pairwise (· < ·) := by
  have hheader : ∀ line ∈ [[], "saved".toList], '\n' ∉ line := by decide
  have hentries : awkward.entries ⟨.empty, .empty⟩ =
      [("é..".toList, "a\n\"b\" = c".toList), ([], "# d".toList), (".f".toList, [])] := by
    decide
  rw [← hentries]
  exact ⟨hheader, parseText_render _ awkward _ _ hheader⟩

end Store

end LayeredSettings
