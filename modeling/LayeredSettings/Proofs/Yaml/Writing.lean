import LayeredSettings.Proofs.Yaml.Piece

/-!
# Writing scalars

The emitter keeps columns to decide where a line is folded. Whatever it decides, what it writes
for a scalar is a row of pieces that stand for the scalar's text (`writeScalar_shown`): a line is
folded far to the right only, so that the indentation of the next line is always written out.
-/

namespace LayeredSettings.Yaml

/-! ## Pens -/

namespace Pen

/-- What was written. -/
def text (pen : Pen) : Text := pen.written.reverse

/-- The pen stands behind text, in a line that is not fresh. -/
def Settled (pen : Pen) : Prop := pen.spaced = false ∧ pen.fresh = false

variable (pen : Pen)

@[simp] theorem text_write (t : Text) : (pen.write t).text = pen.text ++ t := by
  unfold text write
  rw [List.reverse_append, List.reverse_reverse]

@[simp] theorem column_write (t : Text) : (pen.write t).column = pen.column + t.length := rfl

@[simp] theorem text_settle : pen.settle.text = pen.text := rfl

@[simp] theorem column_settle : pen.settle.column = pen.column := rfl

theorem settled_settle : pen.settle.Settled := ⟨rfl, rfl⟩

@[simp] theorem text_breakLine (c : Char) : (pen.breakLine c).text = pen.text ++ [c] :=
  List.reverse_cons

@[simp] theorem text_indicate (c : Char) (apart indents : Bool) :
    (pen.indicate c apart indents).text =
      pen.text ++ if pen.spaced || !apart then [c] else [' ', c] :=
  text_write pen _

theorem settled_indicate (c : Char) (apart : Bool) : (pen.indicate c apart false).Settled :=
  ⟨rfl, Bool.and_false _⟩

variable {pen}

/-- Behind the second column the line is broken before the pen indents. -/
theorem indent_of_lt (h : scalarIndent < pen.column) :
    (pen.indent scalarIndent).text = pen.text ++ ['\n', ' ', ' '] ∧
      (pen.indent scalarIndent).column = scalarIndent := by
  have hbreak : (!pen.fresh || decide (scalarIndent < pen.column) ||
      (decide (pen.column = scalarIndent) && !pen.spaced)) = true := by
    simp [h]
  unfold indent
  rw [if_pos hbreak]
  constructor
  · show ((pen.breakLine '\n').write [' ', ' ']).text = _
    rw [text_write, text_breakLine, List.append_assoc]
    rfl
  · rfl

theorem text_indent_breakLine (c : Char) :
    ((pen.breakLine c).indent scalarIndent).text = pen.text ++ [c] ++ [' ', ' '] := by
  show ((pen.breakLine c).write [' ', ' ']).text = _
  rw [text_write, text_breakLine]

end Pen

/-! ## Runs -/

namespace Run

def text : Run → Text
  | spaces count => List.replicate count ' '
  | breaks first rest => first :: rest
  | solid t => t

/-- A run is of the kind it says. -/
def Valid : Run → Prop
  | spaces _ => True
  | breaks first rest => ∀ c ∈ first :: rest, isBreak c = true
  | solid t => ∀ c ∈ t, isBreak c = false

theorem text_push (c : Char) (rs : List Run) :
    (push c rs).flatMap text = c :: rs.flatMap text := by
  unfold push
  split
  · next hc =>
    subst hc
    split <;> rfl
  · split
    · split <;> rfl
    · split <;> rfl

theorem valid_push (c : Char) {rs : List Run} (h : ∀ r ∈ rs, r.Valid) :
    ∀ r ∈ push c rs, r.Valid := by
  unfold push
  split
  · next hc =>
    split
    · rw [List.forall_mem_cons] at h ⊢
      exact ⟨trivial, h.2⟩
    · exact List.forall_mem_cons.2 ⟨trivial, h⟩
  · split
    · next hb =>
      split
      · rw [List.forall_mem_cons] at h ⊢
        exact ⟨List.forall_mem_cons.2 ⟨hb, h.1⟩, h.2⟩
      · exact List.forall_mem_cons.2 ⟨List.forall_mem_cons.2 ⟨hb, by simp⟩, h⟩
    · next hb =>
      have hb' : isBreak c = false := by simpa using hb
      split
      · rw [List.forall_mem_cons] at h ⊢
        exact ⟨List.forall_mem_cons.2 ⟨hb', h.1⟩, h.2⟩
      · exact List.forall_mem_cons.2 ⟨List.forall_mem_cons.2 ⟨hb', by simp⟩, h⟩

end Run

theorem text_runs (t : Text) : (runs t).flatMap Run.text = t := by
  induction t with
  | nil => rfl
  | cons c t ih =>
    show (Run.push c (runs t)).flatMap Run.text = c :: t
    rw [Run.text_push, ih]

theorem valid_runs (t : Text) : ∀ r ∈ runs t, r.Valid := by
  induction t with
  | nil =>
    intro r hr
    cases hr
  | cons c t ih => exact Run.valid_push c ih

/-! ## Rows of pieces -/

/-- Between two states of the pen, pieces that stand for `t` were written. -/
def Wrote (style : Style) (t : Text) (pen pen' : Pen) : Prop :=
  ∃ ps : List Piece, (∀ p ∈ ps, p.Fits style) ∧ Piece.texts ps = t ∧
    pen'.text = pen.text ++ Piece.codes ps

section Wrote

variable {style : Style} {t u : Text} {pen pen' pen'' : Pen}

theorem Wrote.refl : Wrote style [] pen pen :=
  ⟨[], by simp, rfl, (List.append_nil _).symm⟩

theorem Wrote.trans (h : Wrote style t pen pen') (h' : Wrote style u pen' pen'') :
    Wrote style (t ++ u) pen pen'' := by
  obtain ⟨ps, hps, rfl, hpen⟩ := h
  obtain ⟨qs, hqs, rfl, hpen'⟩ := h'
  refine ⟨ps ++ qs, ?_, List.flatMap_append, ?_⟩
  · intro p hp
    exact (List.mem_append.1 hp).elim (hps p) (hqs p)
  · rw [hpen', hpen, Piece.codes, Piece.codes, Piece.codes, List.flatMap_append,
      List.append_assoc]

theorem Wrote.piece {p : Piece} (hp : p.Fits style) (h : pen'.text = pen.text ++ p.code) :
    Wrote style p.text pen pen' := by
  refine ⟨[p], List.forall_mem_singleton.2 hp, ?_, ?_⟩
  · exact List.append_nil _
  · rw [h]
    exact congrArg (pen.text ++ ·) (List.append_nil _).symm

/-- Characters are written as what they are. -/
theorem Wrote.chars (h : ∀ c ∈ t, (Piece.char c).Fits style) : Wrote style t pen (pen.write t) := by
  refine ⟨t.map .char, ?_, ?_, ?_⟩
  · intro p hp
    obtain ⟨c, hc, rfl⟩ := List.mem_map.1 hp
    exact h c hc
  · rw [Piece.texts, List.flatMap_map]
    exact List.flatMap_singleton' t
  · rw [Pen.text_write, Piece.codes, List.flatMap_map]
    exact congrArg (pen.text ++ ·) (List.flatMap_singleton' t).symm

end Wrote

theorem of_folds {pen : Pen} {fold : Bool} {count : Nat} (h : folds pen fold count = true) :
    count = 1 ∧ scalarIndent < pen.column := by
  simp only [folds, Bool.and_eq_true, decide_eq_true_eq] at h
  have hwidth : Pen.width < pen.column := h.2
  unfold Pen.width at hwidth
  unfold scalarIndent
  exact ⟨h.1.2, by omega⟩

/-! ## Plain scalars -/

theorem writePlainRuns_wrote (fold : Bool) (pen : Pen) {rs : List Run}
    (h : '\n' ∉ rs.flatMap Run.text) :
    Wrote .plain (rs.flatMap Run.text) pen (writePlainRuns fold pen rs) := by
  have hchars : ∀ {t : Text}, '\n' ∉ t → ∀ c ∈ t, (Piece.char c).Fits .plain := by
    rintro t ht c hc rfl
    exact ht hc
  fun_induction writePlainRuns fold pen rs with
  | case1 pen => exact .refl
  | case2 pen n rest hfold ih =>
    rw [List.flatMap_cons, List.mem_append, not_or] at h
    obtain ⟨rfl, hcolumn⟩ := of_folds hfold
    have hspace : Wrote .plain [' '] pen (pen.indent scalarIndent).settle :=
      @Wrote.piece _ _ _ .fold trivial (Pen.indent_of_lt hcolumn).1
    exact hspace.trans (ih h.2)
  | case3 pen n rest _ ih =>
    rw [List.flatMap_cons, List.mem_append, not_or] at h
    exact (Wrote.chars (hchars h.1)).trans (ih h.2)
  | case4 pen t rest ih =>
    rw [List.flatMap_cons, List.mem_append, not_or] at h
    exact (Wrote.chars (hchars h.1)).trans (ih h.2)
  | case5 pen c t rest ih =>
    rw [List.flatMap_cons, List.mem_append, not_or] at h
    exact (Wrote.chars (hchars h.1)).trans (ih h.2)

theorem settled_writePlainRuns {fold : Bool} {pen : Pen} {rs : List Run} (h : pen.Settled) :
    (writePlainRuns fold pen rs).Settled := by
  fun_induction writePlainRuns fold pen rs with
  | case1 => exact h
  | case2 pen n rest _ ih => exact ih (Pen.settled_settle _)
  | case3 pen n rest _ ih => exact ih h
  | case4 pen t rest ih => exact ih h
  | case5 pen c t rest ih => exact ih h

/-- Without folding, a plain scalar is its text. -/
theorem text_writePlainRuns (pen : Pen) (rs : List Run) :
    (writePlainRuns false pen rs).text = pen.text ++ rs.flatMap Run.text := by
  induction rs generalizing pen with
  | nil => exact (List.append_nil _).symm
  | cons r rest ih =>
    cases r <;> exact (ih _).trans (by rw [Pen.text_write, List.append_assoc]; rfl)

/-! ## Single-quoted scalars -/

theorem text_foldl_breakLine (pen : Pen) (t : Text) :
    (t.foldl Pen.breakLine pen).text = pen.text ++ t := by
  induction t generalizing pen with
  | nil => exact (List.append_nil _).symm
  | cons c t ih =>
    rw [List.foldl_cons, ih, Pen.text_breakLine, List.append_assoc]
    rfl

/-- After line breaks the pen stands at the start of a line. -/
theorem exists_foldl_breakLine (pen : Pen) (c : Char) (t : Text) :
    ∃ (pen' : Pen) (d : Char), (c :: t).foldl Pen.breakLine pen = pen'.breakLine d := by
  induction t generalizing pen c with
  | nil => exact ⟨pen, c, rfl⟩
  | cons d t ih => exact ih (pen.breakLine c) d

theorem text_writeBreaks (pen : Pen) (first : Char) (rest : Text) :
    (writeBreaks pen first rest).text = pen.text ++ (Piece.breaks first rest).code := by
  have hindent : ∀ pen : Pen, (((first :: rest).foldl Pen.breakLine pen).indent scalarIndent).text =
      pen.text ++ (first :: rest) ++ [' ', ' '] := by
    intro pen
    obtain ⟨pen', d, he⟩ := exists_foldl_breakLine pen first rest
    rw [← text_foldl_breakLine, he, Pen.text_indent_breakLine, Pen.text_breakLine]
  show _ = pen.text ++ (Piece.writtenBreaks first rest ++ [' ', ' '])
  unfold writeBreaks Piece.writtenBreaks
  by_cases hf : first = '\n'
  · simp only [if_pos hf]
    rw [hindent, Pen.text_breakLine]
    simp
  · simp only [if_neg hf]
    rw [hindent, List.append_assoc]

/-- Characters within a line are written as what they are, single quotes twice. -/
theorem wrote_quoted {pen : Pen} {t : Text} (h : ∀ c ∈ t, isBreak c = false) :
    Wrote .single t pen
      (pen.write (t.flatMap fun c => if c = '\'' then ['\'', '\''] else [c])) := by
  have htext : ∀ c, (if c = '\'' then Piece.quote else .char c).text = [c] := by
    intro c
    split
    · next hc => rw [hc]; rfl
    · rfl
  have hcode : ∀ c, (if c = '\'' then Piece.quote else .char c).code =
      if c = '\'' then ['\'', '\''] else [c] := by
    intro c
    split <;> rfl
  refine ⟨t.map fun c => if c = '\'' then .quote else .char c, ?_, ?_, ?_⟩
  · intro p hp
    obtain ⟨c, hc, rfl⟩ := List.mem_map.1 hp
    by_cases hq : c = '\''
    · rw [if_pos hq]
      trivial
    · rw [if_neg hq]
      exact ⟨hq, h c hc⟩
  · rw [Piece.texts, List.flatMap_map]
    simp only [htext]
    exact List.flatMap_singleton' t
  · rw [Pen.text_write, Piece.codes, List.flatMap_map]
    simp only [hcode]

theorem writeSingleRuns_wrote (fold inside : Bool) (pen : Pen) {rs : List Run}
    (h : ∀ r ∈ rs, r.Valid) :
    Wrote .single (rs.flatMap Run.text) pen (writeSingleRuns fold inside pen rs) := by
  fun_induction writeSingleRuns fold inside pen rs with
  | case1 => exact .refl
  | case2 inside pen n rest hfold ih =>
    rw [List.forall_mem_cons] at h
    simp only [Bool.and_eq_true] at hfold
    obtain ⟨rfl, hcolumn⟩ := of_folds hfold.2
    have hspace : Wrote .single [' '] pen (pen.indent scalarIndent) :=
      @Wrote.piece _ _ _ .fold trivial (Pen.indent_of_lt hcolumn).1
    exact hspace.trans (ih h.2)
  | case3 inside pen n rest _ ih =>
    rw [List.forall_mem_cons] at h
    have hspaces : ∀ c ∈ List.replicate n ' ', (Piece.char c).Fits .single := by
      intro c hc
      rw [List.eq_of_mem_replicate hc]
      exact ⟨by decide, rfl⟩
    exact (Wrote.chars hspaces).trans (ih h.2)
  | case4 inside pen c t rest ih =>
    rw [List.forall_mem_cons] at h
    have hbreaks : Wrote .single (c :: t) pen (writeBreaks pen c t) :=
      @Wrote.piece _ _ _ (.breaks c t) h.1 (text_writeBreaks pen c t)
    exact hbreaks.trans (ih h.2)
  | case5 inside pen t rest quoted ih =>
    rw [List.forall_mem_cons] at h
    exact Wrote.trans (wrote_quoted h.1) (ih h.2)

/-! ## Double-quoted scalars -/

theorem foldDouble_of_lt {pen : Pen} {next : Option Char} (h : scalarIndent < pen.column + 1) :
    (foldDouble pen next).text =
        pen.text ++ Piece.join.code ++ (if next = some ' ' then ['\\'] else []) ∧
      (foldDouble pen next).column ≤ Pen.width := by
  obtain ⟨htext, hcolumn⟩ := @Pen.indent_of_lt (pen.write ['\\']) h
  unfold foldDouble
  by_cases hnext : next = some ' '
  · simp only [if_pos hnext, Pen.text_write, Pen.text_settle, Pen.column_write, Pen.column_settle,
      htext, hcolumn, List.append_assoc]
    exact ⟨rfl, by decide⟩
  · simp only [if_neg hnext, Pen.text_settle, Pen.column_settle, htext, hcolumn, Pen.text_write,
      List.append_assoc, List.append_nil]
    exact ⟨rfl, by decide⟩

theorem fits_of_isVerbatim {c : Char} (h : isVerbatim c = true) : (Piece.char c).Fits .double := by
  constructor
  · rintro rfl
    exact absurd h (by decide)
  · rintro rfl
    exact absurd h (by decide)

/-- Pieces behind a fold; a space at their start is escaped there. -/
theorem exists_codes_fold {ps : List Piece} (hps : ∀ p ∈ ps, p.Fits .double)
    (hspace : ∀ rest, Piece.texts ps = ' ' :: rest → ∃ qs, ps = .char ' ' :: qs) :
    ∃ qs : List Piece, (∀ q ∈ qs, q.Fits .double) ∧ Piece.texts qs = Piece.texts ps ∧
      Piece.codes qs = Piece.join.code ++
        ((if (Piece.texts ps).head? = some ' ' then ['\\'] else []) ++ Piece.codes ps) := by
  by_cases hhead : (Piece.texts ps).head? = some ' '
  · obtain ⟨rest, htext⟩ := List.head?_eq_some_iff.1 hhead
    obtain ⟨qs, rfl⟩ := hspace rest htext
    rw [List.forall_mem_cons] at hps
    refine ⟨.join :: .space :: qs, List.forall_mem_cons.2 ⟨trivial,
      List.forall_mem_cons.2 ⟨trivial, hps.2⟩⟩, rfl, ?_⟩
    rw [if_pos hhead]
    rfl
  · refine ⟨.join :: ps, List.forall_mem_cons.2 ⟨trivial, hps⟩, rfl, ?_⟩
    rw [if_neg hhead]
    rfl

/-- What is held is written first. A verbatim character comes next if there is room for it. -/
theorem writeDoubleChars_wrote (fold inside : Bool) (pen : Pen) (held t : Text) :
    ∃ ps : List Piece, (∀ p ∈ ps, p.Fits .double) ∧ Piece.texts ps = t ∧
      (writeDoubleChars fold inside pen held t).text =
        pen.text ++ (held.reverse ++ Piece.codes ps) ∧
      ∀ c rest, t = c :: rest → isVerbatim c = true →
        pen.column + held.length ≤ Pen.width → ∃ qs, ps = .char c :: qs := by
  fun_induction writeDoubleChars fold inside pen held t with
  | case1 inside pen held =>
    refine ⟨[], by simp, rfl, ?_, fun c rest h => by cases h⟩
    rw [Pen.text_write]
    exact congrArg (pen.text ++ ·) (List.append_nil _).symm
  | case2 inside pen held c rest mayFold hc hfold ih =>
    -- the line is broken in front of the character
    obtain ⟨ps, hps, rfl, hcode, -⟩ := ih
    have hcolumn : Pen.width < pen.column + held.length := by
      simp only [Bool.and_eq_true, decide_eq_true_eq] at hfold
      exact hfold.2
    obtain ⟨hpen, -⟩ := @foldDouble_of_lt (pen.write held.reverse) (some c) (by
      rw [Pen.column_write, List.length_reverse]
      unfold Pen.width at hcolumn
      unfold scalarIndent
      omega)
    obtain ⟨qs, hqs, htext, hcodes⟩ := @exists_codes_fold (.char c :: ps)
      (List.forall_mem_cons.2 ⟨fits_of_isVerbatim hc, hps⟩)
      fun rest h => ⟨ps, by rw [(List.cons.inj h).1]⟩
    refine ⟨qs, hqs, htext, ?_, fun d rest _ _ hle => absurd hle (Nat.not_le.2 hcolumn)⟩
    rw [hcode, hcodes, hpen, Pen.text_write]
    simp [Piece.texts, Piece.codes, Piece.text, Piece.code]
  | case3 inside pen held c rest mayFold hc _ ih =>
    obtain ⟨ps, hps, htext, hcode, -⟩ := ih
    refine ⟨.char c :: ps, List.forall_mem_cons.2 ⟨fits_of_isVerbatim hc, hps⟩,
      congrArg (c :: ·) htext, ?_, ?_⟩
    · rw [hcode]
      simp [Piece.codes, Piece.code]
    · intro d rest' h _ _
      cases h
      exact ⟨ps, rfl⟩
  | case4 inside pen held c rest mayFold hc pen' hfold ih =>
    -- the line is broken behind the escape
    obtain ⟨ps, hps, rfl, hcode, hnext⟩ := ih
    have hcolumn : Pen.width + 1 < pen'.column := by
      simp only [Bool.and_eq_true, decide_eq_true_eq] at hfold
      exact hfold.2
    obtain ⟨hpen, hroom⟩ := @foldDouble_of_lt pen' (Piece.texts ps).head? (by
      unfold Pen.width at hcolumn
      unfold scalarIndent
      omega)
    obtain ⟨qs, hqs, htext, hcodes⟩ := exists_codes_fold hps
      fun rest h => hnext ' ' rest h (by decide) hroom
    refine ⟨.escape c :: qs, List.forall_mem_cons.2 ⟨trivial, hqs⟩, congrArg (c :: ·) htext, ?_, ?_⟩
    · have hpen' : pen'.text = pen.text ++ held.reverse ++ escape c := by
        rw [Pen.text_write, Pen.text_write]
      have hcons : Piece.codes (.escape c :: qs) = escape c ++ Piece.codes qs := rfl
      rw [hcode, hpen, hpen', hcons, hcodes]
      simp
    · intro d rest' h hd
      exact absurd ((List.cons.inj h).1 ▸ hd) hc
  | case5 inside pen held c rest mayFold hc pen' _ ih =>
    obtain ⟨ps, hps, htext, hcode, -⟩ := ih
    refine ⟨.escape c :: ps, List.forall_mem_cons.2 ⟨trivial, hps⟩, congrArg (c :: ·) htext, ?_, ?_⟩
    · rw [hcode, Pen.text_write, Pen.text_write]
      simp [Piece.codes, Piece.code]
    · intro d rest' h hd
      exact absurd ((List.cons.inj h).1 ▸ hd) hc

/-! ## Plain texts -/

/-- What keeps a text that is written without quotes apart from what stands around it. -/
structure PlainText (t : Text) : Prop where
  reads : readsAsText t = true
  oneLine : isMultiline t = false
  loose : hasLooseEnd t = false
  indicator : startsAsIndicator t = false
  ending : endsAsKey t = false

theorem plainText_of_style {t : Text} (h : styleOf t = .plain) : PlainText t := by
  have hplain : readsAsText t = true ∧ allowsPlain t = true := by
    unfold styleOf at h
    split at h
    · next hp => exact Bool.and_eq_true_iff.1 hp
    · split at h <;> cases h
  obtain ⟨hreads, hallows⟩ := hplain
  simp only [allowsPlain, Bool.and_eq_true, Bool.not_eq_true'] at hallows
  obtain ⟨⟨⟨⟨⟨⟨-, hloose⟩, hline⟩, -⟩, hindicator⟩, hkey⟩, -⟩ := hallows
  exact ⟨hreads, hline, hloose, hindicator, hkey⟩

namespace PlainText

variable {t : Text}

theorem ne_nil (h : PlainText t) : t ≠ [] := by
  rintro rfl
  exact absurd h.reads (by decide +kernel)

theorem isBreak_eq_false (h : PlainText t) {c : Char} (hc : c ∈ t) : isBreak c = false := by
  simpa using List.any_eq_false.1 h.oneLine c hc

theorem feed_not_mem (h : PlainText t) : '\n' ∉ t :=
  fun hmem => absurd (h.isBreak_eq_false hmem) (by decide)

theorem head_ne (h : PlainText t) {c : Char}
    (hc : "#,[]\x7b\x7d&*!|>'\"%@\x60".toList.contains c = true) : t.head? ≠ some c := by
  intro hhead
  obtain ⟨rest, rfl⟩ := List.head?_eq_some_iff.1 hhead
  have hindicator := h.indicator
  rw [startsAsIndicator, hc, Bool.true_or] at hindicator
  cases hindicator

theorem unquoted (h : PlainText t) : Unquoted t := ⟨h.head_ne (by decide), h.head_ne (by decide)⟩

end PlainText

/-! ## Scalars -/

/-- A scalar is set off by a space from what stands in front of it in the line. -/
def lead (pen : Pen) : Text := if pen.spaced then [] else [' ']

theorem indicate_quote_text (pen : Pen) (c : Char) :
    (pen.indicate c true false).text = pen.text ++ (lead pen ++ [c]) := by
  rw [Pen.text_indicate]
  unfold lead
  cases pen.spaced <;> rfl

theorem settle_text (pen : Pen) :
    (if pen.spaced then pen.settle else (pen.write [' ']).settle).text = pen.text ++ lead pen := by
  unfold lead
  cases pen.spaced
  · exact Pen.text_write _ _
  · exact (List.append_nil _).symm

theorem writePlain_wrote (fold : Bool) (pen : Pen) {t : Text} (h : '\n' ∉ t) :
    ∃ ps : List Piece, (∀ p ∈ ps, p.Fits .plain) ∧ Piece.texts ps = t ∧
      (writePlain fold pen t).text = pen.text ++ (lead pen ++ Piece.codes ps) := by
  rw [← text_runs t] at h
  obtain ⟨ps, hps, htext, hcode⟩ := writePlainRuns_wrote fold
    (if pen.spaced then pen.settle else (pen.write [' ']).settle) h
  rw [text_runs] at htext
  refine ⟨ps, hps, htext, ?_⟩
  rw [writePlain, hcode, settle_text, List.append_assoc]

theorem settled_writePlain (fold : Bool) (pen : Pen) (t : Text) :
    (writePlain fold pen t).Settled := by
  refine settled_writePlainRuns ?_
  split
  · exact Pen.settled_settle _
  · exact Pen.settled_settle _

/-- Where lines are not folded, a plain scalar is its text. -/
theorem text_writePlain (pen : Pen) (t : Text) :
    (writePlain false pen t).text = pen.text ++ (lead pen ++ t) := by
  rw [writePlain, text_writePlainRuns, settle_text, text_runs, List.append_assoc]

/-- What is written between two quotes. -/
theorem text_between (pen : Pen) {pen' : Pen} {quote : Char} {inner : Text}
    (h : pen'.text = (pen.indicate quote true false).text ++ inner) :
    (pen'.indicate quote false false).text =
      pen.text ++ (lead pen ++ quote :: (inner ++ [quote])) := by
  rw [Pen.text_indicate, h, indicate_quote_text]
  simp

/-- Whatever the columns are, what is written for a scalar shows it. -/
theorem writeScalar_shown (fold : Bool) (pen : Pen) (t : Text) :
    ∃ out, Shown (styleOf t) t out ∧
      (writeScalar fold pen t).text = pen.text ++ (lead pen ++ out) ∧
      (writeScalar fold pen t).Settled ∧ (styleOf t = .plain → fold = false → out = t) := by
  unfold writeScalar
  cases hstyle : styleOf t with
  | plain =>
    have hplain := plainText_of_style hstyle
    obtain ⟨ps, hps, htext, hcode⟩ := writePlain_wrote fold pen hplain.feed_not_mem
    refine ⟨Piece.codes ps, ⟨ps, hps, htext, rfl, fun _ => hplain.unquoted⟩, hcode,
      settled_writePlain fold pen t, ?_⟩
    rintro - rfl
    rw [text_writePlain] at hcode
    exact (List.append_cancel_left (List.append_cancel_left hcode)).symm
  | single =>
    obtain ⟨ps, hps, htext, hcode⟩ := writeSingleRuns_wrote fold false
      (pen.indicate '\'' true false) (valid_runs t)
    rw [text_runs] at htext
    exact ⟨framed .single (Piece.codes ps), ⟨ps, hps, htext, rfl, fun h => Style.noConfusion h⟩,
      text_between pen hcode, Pen.settled_indicate _ _ _, fun h => Style.noConfusion h⟩
  | double =>
    obtain ⟨ps, hps, htext, hcode, -⟩ := writeDoubleChars_wrote fold false
      (pen.indicate '"' true false) [] t
    exact ⟨framed .double (Piece.codes ps), ⟨ps, hps, htext, rfl, fun h => Style.noConfusion h⟩,
      text_between pen hcode, Pen.settled_indicate _ _ _, fun h => Style.noConfusion h⟩

end LayeredSettings.Yaml
