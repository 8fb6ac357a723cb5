import LayeredSettings.Proofs.Document.Blocks
import LayeredSettings.Proofs.Key

/-!
# Keys as they may be written

The segments of a written key are names, numbers and quoted literals with dots between them. A dot
also stands in numbers, and the lexer takes it for a decimal point wherever it can: behind a whole
number, unless that is itself read as the fraction of a number. A key is therefore read if and only
if a digit stands behind every such dot (`Segment.readable`), and then it has the joined texts of
its segments, even where the lexer has put two of them into one word (`parseText_segments`).

1. A segment is read as a word up to the dot behind it, unless that is taken for a decimal point
   (`Segment.spells_dot`).
2. A whole number takes the next segment as its fraction, all of it or its digits up to a point of
   its own (`Number.numeral_behind_point`), or it is malformed (`read_point_malformed`).
3. By induction on the segments, a row of them is the words of a key or has a malformed number in it
   (`keyRead_segments`), and the document is refused there (`ofLexemes_eq_fault`).
-/

namespace LayeredSettings

namespace Document

/-! ## Segments -/

/-- A segment of a key as it may be written. -/
inductive Segment where
  | name (w : Text) (h : Key.isName w = true)
  | number (w : Text) (h : Number.Numeral w)
  | literal (body text : Text) (h : Quoted.Body body text)

namespace Segment

/-- The characters that the segment is written with. -/
def written : Segment → Text
  | name w _ => w
  | number w _ => w
  | literal body _ _ => '"' :: (body ++ ['"'])

/-- The text that the segment stands for. -/
def text : Segment → Text
  | name w _ => w
  | number w _ => w
  | literal _ text _ => text

def startsWithDigit (s : Segment) : Bool := s.written.head?.any Text.isDigit

/-- Whether a dot behind the segment is taken for a decimal point; `point` says whether the dot in
front of it is. Behind a point it takes another point to begin a new whole number. -/
def awaitsPoint (point : Bool) : Segment → Bool
  | number w _ => !Number.hasExponent w && Number.hasPoint w == point
  | _ => false

/-- Whether a digit stands behind every dot that is taken for a decimal point. -/
def readable (point : Bool) : List Segment → Bool
  | [] => true
  | s :: rest => (!point || s.startsWithDigit) && readable (s.awaitsPoint point) rest

def writtenKey (segments : List Segment) : Text := Text.joinWith '.' (segments.map written)

def key (segments : List Segment) : Text := Key.ofSegments (segments.map text)

theorem exists_cons_of_written (s : Segment) : ∃ c w, s.written = c :: w := by
  cases s with
  | name w hw =>
    cases w with
    | nil => cases hw
    | cons c rest => exact ⟨c, rest, rfl⟩
  | number w hw =>
    obtain ⟨c, rest, hcons, -⟩ := Lexer.exists_cons_of_numeral hw
    exact ⟨c, rest, hcons⟩
  | literal body text h => exact ⟨'"', _, rfl⟩

/-- A written key starts as its first segment does. -/
theorem isDigit_head?_writtenKey {s : Segment} (h : s.startsWithDigit = false)
    (rest : List Segment) (u : Text) :
    ∀ c ∈ (writtenKey (s :: rest) ++ u).head?, Text.isDigit c = false := by
  obtain ⟨d, w, hd⟩ := s.exists_cons_of_written
  rw [startsWithDigit, hd] at h
  rw [writtenKey, List.map_cons, Text.joinWith_cons, hd]
  intro c hc
  cases hc
  exact h

/-! ## Segments as words -/

/-- Behind a dot that is no decimal point, a whole number awaits one. -/
theorem awaitsPoint_number_iff {w : Text} (hw : Number.Numeral w) :
    (number w hw).awaitsPoint false = true ↔ Number.State.start.run w = some .whole := by
  rw [Number.run_eq_of_numeral hw, awaitsPoint]
  cases Number.hasExponent w <;> cases Number.hasPoint w <;> simp

/-- A segment is a word where nothing goes on behind it. -/
theorem spells_last (s : Segment) : Lexer.Spells s.written (.word s.text) [] := by
  have hnone : ∀ {P : Char → Prop}, ∀ c ∈ ([] : Text).head?, P c := fun c hc => by cases hc
  cases s with
  | name w hw => exact Lexer.spells_name hw hnone
  | number w hw =>
    obtain ⟨st, hrun, haccepts⟩ := Number.numeral_iff.1 hw
    exact Lexer.spells_numeral hrun haccepts hnone
  | literal body text h => exact Lexer.spells_literal (h.scan_append [])

/-- A segment is a word in front of a dot that is not taken for a decimal point. -/
theorem spells_dot {s : Segment} (hs : s.awaitsPoint false = false) (rest : Text) :
    Lexer.Spells s.written (.word s.text) ('.' :: rest) := by
  cases s with
  | name w hw =>
    apply Lexer.spells_name hw
    intro c hc
    cases hc
    decide
  | number w hw =>
    obtain ⟨st, hrun, haccepts⟩ := Number.numeral_iff.1 hw
    have hne : st ≠ .whole := by
      rintro rfl
      rw [(awaitsPoint_number_iff hw).2 hrun] at hs
      cases hs
    apply Lexer.spells_numeral hrun haccepts
    intro c hc
    cases hc
    cases st with
    | whole => exact absurd rfl hne
    | _ => rfl
  | literal body text h => exact Lexer.spells_literal (h.scan_append _)

/-- A whole number and a dot without a digit behind it are malformed. -/
theorem read_point_malformed {a : Text} (ha : Number.State.start.run a = some .whole)
    {rest : Text} (hrest : ∀ c ∈ rest.head?, Text.isDigit c = false) (p : Position) :
    (Lexer.read ⟨a ++ '.' :: rest, p, []⟩).outcome =
      .error ⟨.malformedNumber (a ++ ['.']), p⟩ := by
  have hpoint : Number.State.start.run (a ++ ['.']) = some .point := by
    rw [Number.State.run_append, ha]
    rfl
  have hstop : ∀ c ∈ rest.head?, Number.State.point.next c = none := by
    intro c hc
    unfold Number.State.next
    simp [hrest c hc]
  have hscan := Number.scan_append_of_run hpoint hstop
  obtain ⟨c, w, rfl, hc⟩ :=
    Lexer.exists_cons_of_numeral (Number.numeral_iff.2 ⟨.whole, ha, rfl⟩)
  have hscan' : Number.scan .start (c :: (w ++ '.' :: rest)) = (c :: w ++ ['.'], rest, .point) := by
    rw [List.append_assoc] at hscan
    exact hscan
  rw [List.cons_append, Lexer.read_number hc, Lexer.readNumber, hscan']
  rfl

/-! ## Rows of segments -/

/-- What a row of segments is read as in front of `ts`: the words of a key, or the beginning of a
key with a malformed number behind it. -/
inductive KeyRead (ts : List Token) (ls : Lexemes) : Bool → Text → Prop
  | words (k : Words) : ls.tokens? = some (k.tokens ++ ts) → KeyRead ts ls true k.text
  | malformed (k : Words) (number : Text) (p : Position) {key : Text} :
      ls.run.map Lexeme.token <+: k.tokens → ls.ending = .fault ⟨.malformedNumber number, p⟩ →
      KeyRead ts ls false key

/-- A word and a dot may stand in front of a key. -/
theorem KeyRead.cons {ts : List Token} {ls : Lexemes} {ok : Bool} {key : Text}
    (h : KeyRead ts ls ok key) (w : Text) (p q : Position) :
    KeyRead ts ((ls.cons ⟨.dot, q⟩).cons ⟨.word w, p⟩) ok (w ++ '.' :: key) := by
  let first : Words := ⟨w, []⟩
  have htokens : ∀ k : Words, (first.dot k).tokens = .word w :: .dot :: k.tokens :=
    fun k => Words.tokens_dot first k
  cases h with
  | words k hk =>
    have htext : (first.dot k).text = w ++ '.' :: k.text := Words.text_dot first k
    rw [← htext]
    apply KeyRead.words
    rw [Lexemes.tokens?_cons, Lexemes.tokens?_cons, hk, htokens]
    rfl
  | malformed k number p hk hending =>
    refine KeyRead.malformed (first.dot k) number p ?_ hending
    rw [htokens]
    exact (List.prefix_append_right_inj [.word w, .dot]).2 hk

/-- A segment with a dot behind it that is no decimal point. -/
theorem ofLexer_spells_dot {w text rest : Text}
    (hw : Lexer.Spells w (.word text) ('.' :: rest)) (p : Position) :
    Lexemes.ofLexer none ⟨w ++ '.' :: rest, p, []⟩ =
      ((Lexemes.ofLexer none ⟨rest, (p.after w).next '.', []⟩).cons ⟨.dot, p.after w⟩).cons
        ⟨.word text, p⟩ := by
  have hdot : Lexer.Spells ['.'] .dot rest := Lexer.spells_mark rfl rest
  have hrest := Lexemes.ofLexer_of_spells hdot (by decide) (.refl rest) (p.after w)
  rw [List.singleton_append] at hrest
  rw [Lexemes.ofLexer_of_spells hw (by simp) (.refl _), hrest]
  rfl

theorem startsWithDigit_cases {s : Segment} (h : s.startsWithDigit = true) :
    ∃ w hw, s = .number w hw ∧ w.head?.any Text.isDigit = true := by
  cases s with
  | name w hw =>
    exfalso
    cases w with
    | nil => cases hw
    | cons c rest =>
      have hc : Text.isDigit c = true := h
      rw [Key.isName, Bool.and_eq_true] at hw
      have hnumber := Lexer.notNumber_of_isNameStart hw.1
      rw [hc, Bool.or_true] at hnumber
      cases hnumber
  | number w hw => exact ⟨w, hw, rfl, h⟩
  | literal body text hbody =>
    have hquote : Text.isDigit '"' = true := h
    exact absurd hquote (by decide)

/-- Nothing but a whole number awaits a point there. -/
theorem whole_of_awaitsPoint {s : Segment} (h : s.awaitsPoint false = true) :
    ∃ a ha, s = .number a ha ∧ Number.State.start.run a = some .whole := by
  cases s with
  | name => cases h
  | literal => cases h
  | number a ha => exact ⟨a, ha, rfl, (awaitsPoint_number_iff ha).1 h⟩

theorem readable_false_cons (s : Segment) (rest : List Segment) :
    readable false (s :: rest) = readable (s.awaitsPoint false) rest := rfl

theorem readable_true_cons (s : Segment) (rest : List Segment) :
    readable true (s :: rest) = (s.startsWithDigit && readable (s.awaitsPoint true) rest) := rfl

theorem awaitsPoint_number_of_eq {w : Text} {point : Bool} (hw : Number.Numeral w)
    (h : Number.hasPoint w = point) :
    (number w hw).awaitsPoint point = !Number.hasExponent w := by
  rw [awaitsPoint, h, beq_self_eq_true, Bool.and_true]

theorem awaitsPoint_number_of_ne {w : Text} {point : Bool} (hw : Number.Numeral w)
    (h : Number.hasPoint w ≠ point) : (number w hw).awaitsPoint point = false := by
  rw [awaitsPoint, beq_eq_false_iff_ne.2 h, Bool.and_false]

/-- What a key is read as, its segments being read one behind the other. -/
theorem keyRead_segments {u : Text} {ts : List Token} (hu : Lexes u ts)
    (hblank : ∀ c ∈ u.head?, Token.isBlank c = true) (rest : List Segment) (s : Segment)
    (p : Position) :
    KeyRead ts (Lexemes.ofLexer none ⟨writtenKey (s :: rest) ++ u, p, []⟩)
      (readable false (s :: rest)) (key (s :: rest)) := by
  induction rest generalizing s p with
  | nil =>
    have hlast : Lexer.Spells s.written (.word s.text) u :=
      s.spells_last.replace fun c hc => .inl (hblank c hc)
    have htokens := Lexes.spelling hlast (by simp) hu p
    exact KeyRead.words ⟨s.text, []⟩ htokens
  | cons s' rest ih =>
    by_cases hpoint : s.awaitsPoint false = true
    · obtain ⟨a, ha, rfl, hrun⟩ := whole_of_awaitsPoint hpoint
      rw [readable_false_cons, hpoint, readable_true_cons]
      by_cases hdigit : s'.startsWithDigit = true
      · obtain ⟨t, ht, rfl, hhead⟩ := startsWithDigit_cases hdigit
        rw [hdigit, Bool.true_and]
        rcases Number.numeral_behind_point hrun ht hhead with
          ⟨hnone, hwhole⟩ | ⟨ds, v, rfl, hfraction, hv, hnone, hexponent⟩
        · -- The two numbers are one, in the text and in the key alike.
          have hwritten : writtenKey (number a ha :: number t ht :: rest) =
              writtenKey (number (a ++ '.' :: t) hwhole :: rest) := Text.joinWith_merge _ _ _ _
          have hkey : key (number a ha :: number t ht :: rest) =
              key (number (a ++ '.' :: t) hwhole :: rest) := Text.joinWith_merge _ _ _ _
          have hone := ih (number (a ++ '.' :: t) hwhole) p
          rw [readable_false_cons,
            awaitsPoint_number_of_ne hwhole (by simp [Number.hasPoint_append_point])] at hone
          rw [hwritten, hkey, awaitsPoint_number_of_ne ht (by simp [hnone])]
          exact hone
        · -- The digits up to the point of the second number go to the first one.
          have hwritten : writtenKey (number a ha :: number (ds ++ '.' :: v) ht :: rest) =
              (a ++ '.' :: ds) ++ '.' :: writtenKey (number v hv :: rest) :=
            Text.joinWith_shift _ _ _ _ _
          have hkey : key (number a ha :: number (ds ++ '.' :: v) ht :: rest) =
              (a ++ '.' :: ds) ++ '.' :: key (number v hv :: rest) :=
            Text.joinWith_shift _ _ _ _ _
          have hword : Lexer.Spells (a ++ '.' :: ds) (.word (a ++ '.' :: ds))
              ('.' :: (writtenKey (number v hv :: rest) ++ u)) := by
            apply Lexer.spells_numeral hfraction rfl
            intro c hc
            cases hc
            rfl
          have hrest := ih (number v hv) ((p.after (a ++ '.' :: ds)).next '.')
          rw [readable_false_cons, awaitsPoint_number_of_eq hv hnone, hexponent] at hrest
          rw [hwritten, hkey, List.append_assoc, List.cons_append, ofLexer_spells_dot hword,
            awaitsPoint_number_of_eq ht (Number.hasPoint_append_point ds v)]
          exact hrest.cons _ _ _
      · rw [Bool.not_eq_true] at hdigit
        rw [hdigit, Bool.false_and]
        have htext : writtenKey (number a ha :: s' :: rest) ++ u =
            a ++ '.' :: (writtenKey (s' :: rest) ++ u) := List.append_assoc _ _ _
        have herror := read_point_malformed hrun (isDigit_head?_writtenKey hdigit rest u) p
        rw [htext, Lexemes.ofLexer_of_error herror]
        exact KeyRead.malformed ⟨[], []⟩ (a ++ ['.']) p List.nil_prefix rfl
    · rw [Bool.not_eq_true] at hpoint
      have htext : writtenKey (s :: s' :: rest) ++ u =
          s.written ++ '.' :: (writtenKey (s' :: rest) ++ u) := List.append_assoc _ _ _
      rw [htext, readable_false_cons, hpoint, ofLexer_spells_dot (spells_dot hpoint _)]
      exact (ih s' _).cons s.text _ _

end Segment

/-! ## Documents cut short -/

section CutShort

variable {f : Lexer.Fault}

/-- A row of words in which a fault lies is refused there. -/
theorem moreWords_eq_fault {ws : List Text} {ls : List Lexeme}
    (h : ls.map Lexeme.token <+: Words.moreTokens ws) :
    moreWords (.fault f) ls = .error (.lexical f) := by
  induction ws generalizing ls with
  | nil =>
    obtain rfl : ls = [] := List.map_eq_nil_iff.1 (List.prefix_nil.1 h)
    rfl
  | cons w ws ih =>
    match ls with
    | [] => rfl
    | [⟨token, p⟩] =>
      obtain rfl : token = .dot := (List.cons_prefix_cons.1 h).1
      rfl
    | ⟨token, p⟩ :: ⟨token', q⟩ :: rest =>
      obtain ⟨hdot, hrest⟩ := List.cons_prefix_cons.1 h
      obtain ⟨hword, hmore⟩ := List.cons_prefix_cons.1 hrest
      obtain rfl : token = .dot := hdot
      obtain rfl : token' = .word w := hword
      rw [moreWords, ih hmore]

/-- A document whose first key has a fault in it is refused there. -/
theorem ofLexemes_eq_fault {key : Words} {ls : Lexemes} (strict : Bool) (defaults : Settings)
    (hrun : ls.run.map Lexeme.token <+: key.tokens) (hending : ls.ending = .fault f) :
    ofLexemes strict defaults ls = .error (.lexical f) := by
  unfold ofLexemes
  rw [hending]
  cases hls : ls.run with
  | nil =>
    rw [read]
    · rfl
    · intro p hp
      cases hp
  | cons x rest =>
    obtain ⟨token, p⟩ := x
    rw [hls] at hrun
    obtain ⟨hword, hmore⟩ := List.cons_prefix_cons.1 hrun
    obtain rfl : token = .word key.first := hword
    have hstatement : statement (.fault f) key.first rest = .error (.lexical f) := by
      rw [statement, moreWords_eq_fault hmore]
    exact read_of_statement_error hstatement

end CutShort

end Document

open Document

/-! ## Documents of one assignment -/

/-- One assignment, as it may be written. -/
def Document.Segment.assignmentText (segments : List Segment) (value : Text) : Text :=
  writtenKey segments ++ ' ' :: '=' :: ' ' :: Quoted.literal value

/-- A key of names, numbers and quoted literals is read if and only if a digit stands behind every
dot that is taken for a decimal point; then it is assigned under the joined texts of its segments.
A number is malformed otherwise. -/
theorem parseText_segments {segments : List Segment} (h : segments ≠ []) (value source : Text)
    (strict : Bool) :
    (Segment.readable false segments = true →
      parseText (Segment.assignmentText segments value) source .empty strict =
        .ok (.ofList [(Segment.key segments, value)])) ∧
    (Segment.readable false segments = false →
      ∃ p number, parseText (Segment.assignmentText segments value) source .empty strict =
        .error (.config (.lexical ⟨source, p⟩ (.malformedNumber number)))) := by
  obtain ⟨s, rest, rfl⟩ := List.exists_cons_of_ne_nil h
  have hvalue : Lexes (' ' :: '=' :: ' ' :: Quoted.literal value) [.equal, .word value] := by
    have hlexes := Lexes.value value Lexes.nil
    rw [List.append_nil] at hlexes
    exact hlexes
  have hblank : ∀ c ∈ (' ' :: '=' :: ' ' :: Quoted.literal value).head?,
      Token.isBlank c = true := by
    intro c hc
    cases hc
    rfl
  have hread := Segment.keyRead_segments hvalue hblank rest s {}
  constructor
  · intro hreadable
    rw [hreadable] at hread
    generalize hkey : Segment.key (s :: rest) = key at hread
    cases hread with
    | words k htokens =>
      let word : Words := ⟨value, []⟩
      have hline : (Lexemes.ofText (Segment.assignmentText (s :: rest) value)).tokens? =
          some (k.tokens ++ .equal :: word.tokens) := htokens
      exact parseText_assignment source strict hline
  · intro hreadable
    rw [hreadable] at hread
    cases hread with
    | malformed k number p hrun hending =>
      refine ⟨p, number, ?_⟩
      have hfault : ofText strict .empty (Segment.assignmentText (s :: rest) value) =
          .error (.lexical ⟨.malformedNumber number, p⟩) :=
        ofLexemes_eq_fault strict .empty hrun hending
      rw [parseText, hfault]
      rfl

/-- Dots that are taken for decimal points beside dots that are not; and one with a name behind
it. -/
theorem parseText_segments_mixed :
    parseText "1.5.x.\"a\\tb\".2.3.4 = \"v\"".toList "s".toList .empty true =
        .ok (.ofList [("1.5.x.a\tb.2.3.4".toList, "v".toList)]) ∧
      ∃ p number, parseText "x.1.y = \"v\"".toList "s".toList .empty true =
        .error (.config (.lexical ⟨"s".toList, p⟩ (.malformedNumber number))) := by
  have hnumeral : ∀ {w : Text} {st : Number.State},
      Number.State.start.run w = some st → st.accepts = true → Number.Numeral w :=
    fun hrun haccepts => Number.numeral_iff.2 ⟨_, hrun, haccepts⟩
  have hbody : Quoted.Body "a\\tb".toList "a\tb".toList :=
    .plain (by decide) (by decide) (.escape (by decide) (.plain (by decide) (by decide) .nil))
  let mixed : List Segment := [.number "1".toList (hnumeral rfl rfl),
    .number "5".toList (hnumeral rfl rfl), .name "x".toList (by decide), .literal _ _ hbody,
    .number "2".toList (hnumeral rfl rfl), .number "3.4".toList (hnumeral rfl rfl)]
  let refused : List Segment := [.name "x".toList (by decide),
    .number "1".toList (hnumeral rfl rfl), .name "y".toList (by decide)]
  constructor
  · exact (parseText_segments (List.cons_ne_nil _ _ : mixed ≠ []) "v".toList _ true).1 rfl
  · exact (parseText_segments (List.cons_ne_nil _ _ : refused ≠ []) "v".toList _ true).2 rfl

/-- The number `1` and the name `e5` cannot stand side by side: the dot between them is taken for
a decimal point. -/
theorem parseText_segments_point :
    parseText "1.e5 = \"v\"".toList "<string>".toList .empty false =
        .error (.config (.lexical ⟨"<string>".toList, ⟨0, 1⟩⟩ (.malformedNumber "1.".toList))) ∧
      ¬ ∀ (segments : List Segment) (value : Text), segments ≠ [] →
        parseText (Segment.assignmentText segments value) "<string>".toList .empty false =
          .ok (.ofList [(Segment.key segments, value)]) := by
  have hfault : (Lexemes.ofText "1.e5 = \"v\"".toList) =
      ⟨[], .fault ⟨.malformedNumber "1.".toList, ⟨0, 1⟩⟩⟩ := by decide +kernel
  have hparse : parseText "1.e5 = \"v\"".toList "<string>".toList .empty false =
      .error (.config (.lexical ⟨"<string>".toList, ⟨0, 1⟩⟩ (.malformedNumber "1.".toList))) := by
    rw [parseText, ofText, hfault, ofLexemes, Document.read]
    · rfl
    · simp
  refine ⟨hparse, ?_⟩
  intro hall
  have hone : Number.Numeral "1".toList := Number.numeral_iff.2 ⟨.whole, rfl, rfl⟩
  have hclaim := hall [.number _ hone, .name "e5".toList (by decide)] "v".toList
    (List.cons_ne_nil _ _)
  exact absurd (hparse.symm.trans hclaim) (by simp)

end LayeredSettings
