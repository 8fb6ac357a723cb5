import LayeredSettings.Proofs.Yaml.Escape

/-!
# Written scalars

What a scalar looks like on the page, said without regard to columns: a row of pieces, each of
which stands for some text. A line may be folded at any space, or not. In every style a piece can
be told from what stands behind it (`Piece.code_append_inj`), and so can the end of the scalar, so
that a written scalar tells its style and its text (`Shown.append_inj`).
-/

namespace LayeredSettings.Yaml

/-! ## Pieces -/

/-- A piece of a written scalar. -/
inductive Piece where
  /-- A character that stands for itself. -/
  | char (c : Char)
  /-- A single quote, doubled. -/
  | quote
  /-- A space at which the line is folded. -/
  | fold
  | breaks (first : Char) (rest : Text)
  | escape (c : Char)
  /-- A line break that stands for nothing. -/
  | join
  /-- A space behind a backslash. -/
  | space

namespace Piece

/-- What a piece stands for. -/
def text : Piece → Text
  | char c => [c]
  | quote => ['\'']
  | fold => [' ']
  | breaks first rest => first :: rest
  | escape c => [c]
  | join => []
  | space => [' ']

/-- Line breaks as they are written, a line feed at their start being doubled. -/
def writtenBreaks (first : Char) (rest : Text) : Text :=
  if first = '\n' then '\n' :: first :: rest else first :: rest

/-- How a piece is written. -/
def code : Piece → Text
  | char c => [c]
  | quote => ['\'', '\'']
  | fold => ['\n', ' ', ' ']
  | breaks first rest => writtenBreaks first rest ++ [' ', ' ']
  | escape c => Yaml.escape c
  | join => ['\\', '\n', ' ', ' ']
  | space => ['\\', ' ']

/-- The pieces that a scalar of a style may be made of. -/
def Fits : Style → Piece → Prop
  | .plain, char c => c ≠ '\n'
  | .plain, fold => True
  | .single, char c => c ≠ '\'' ∧ isBreak c = false
  | .single, quote => True
  | .single, fold => True
  | .single, breaks first rest => ∀ c ∈ first :: rest, isBreak c = true
  | .double, char c => c ≠ '"' ∧ c ≠ '\\'
  | .double, escape _ => True
  | .double, join => True
  | .double, space => True
  | _, _ => False

def texts (ps : List Piece) : Text := ps.flatMap text

def codes (ps : List Piece) : Text := ps.flatMap code

/-! ### Telling pieces apart -/

variable {p q : Piece} {r r' : Text}

/-- A text up to the first stop tells what stands before and behind the stop. -/
theorem append_stop_inj {stop : Char} {t u : Text} (ht : stop ∉ t) (hu : stop ∉ u)
    (h : t ++ stop :: r = u ++ stop :: r') : t = u ∧ r = r' := by
  induction t generalizing u with
  | nil =>
    cases u with
    | nil => exact ⟨rfl, (List.cons.inj h).2⟩
    | cons d u =>
      rw [(List.cons.inj h).1] at hu
      exact absurd List.mem_cons_self hu
  | cons c t ih =>
    cases u with
    | nil =>
      rw [(List.cons.inj h).1] at ht
      exact absurd List.mem_cons_self ht
    | cons d u =>
      obtain ⟨rfl, hrest⟩ := List.cons.inj h
      obtain ⟨rfl, hr⟩ := ih (fun hm => ht (List.mem_cons_of_mem _ hm))
        (fun hm => hu (List.mem_cons_of_mem _ hm)) hrest
      exact ⟨rfl, hr⟩

theorem writtenBreaks_inj {b c : Char} {bs cs : Text}
    (h : writtenBreaks b bs = writtenBreaks c cs) : b = c ∧ bs = cs := by
  unfold writtenBreaks at h
  by_cases hb : b = '\n'
  · by_cases hc : c = '\n'
    · rw [if_pos hb, if_pos hc] at h
      exact List.cons.inj (List.cons.inj h).2
    · rw [if_pos hb, if_neg hc] at h
      exact absurd (List.cons.inj h).1.symm hc
  · by_cases hc : c = '\n'
    · rw [if_neg hb, if_pos hc] at h
      exact absurd (List.cons.inj h).1 hb
    · rw [if_neg hb, if_neg hc] at h
      exact List.cons.inj h

theorem isBreak_of_mem_writtenBreaks {b c : Char} {bs : Text}
    (h : ∀ d ∈ b :: bs, isBreak d = true) (hc : c ∈ writtenBreaks b bs) : isBreak c = true := by
  unfold writtenBreaks at hc
  split at hc
  · rcases List.mem_cons.1 hc with rfl | hc
    · rfl
    · exact h c hc
  · exact h c hc

/-- Written line breaks start with a line break, and those of one line feed with two. -/
theorem head?_writtenBreaks {b : Char} {bs : Text} (h : ∀ d ∈ b :: bs, isBreak d = true) :
    ∃ c rest, writtenBreaks b bs = c :: rest ∧ isBreak c = true ∧
      (c = '\n' → ∃ d rest', rest = d :: rest' ∧ isBreak d = true) := by
  unfold writtenBreaks
  split
  · next hb => exact ⟨'\n', b :: bs, rfl, rfl, fun _ => ⟨b, bs, rfl, h b List.mem_cons_self⟩⟩
  · next hb => exact ⟨b, bs, rfl, h b List.mem_cons_self, fun hn => absurd hn hb⟩

theorem breaks_append_inj {b c : Char} {bs cs : Text} (hb : ∀ d ∈ b :: bs, isBreak d = true)
    (hc : ∀ d ∈ c :: cs, isBreak d = true)
    (h : code (breaks b bs) ++ r = code (breaks c cs) ++ r') :
    breaks b bs = breaks c cs ∧ r = r' := by
  have hspace : isBreak ' ' = false := rfl
  have hstop : ∀ {b : Char} {bs : Text}, (∀ d ∈ b :: bs, isBreak d = true) →
      ' ' ∉ writtenBreaks b bs := by
    intro b bs hb hmem
    exact absurd (isBreak_of_mem_writtenBreaks hb hmem) (by simp [hspace])
  simp only [code, List.append_assoc, List.cons_append, List.nil_append] at h
  obtain ⟨hw, hr⟩ := append_stop_inj (hstop hb) (hstop hc) h
  obtain ⟨rfl, rfl⟩ := writtenBreaks_inj hw
  exact ⟨rfl, (List.cons.inj hr).2⟩

theorem head_ne_of_isBreak {c d : Char} (hc : isBreak c = false) (hd : isBreak d = true) :
    c ≠ d := by
  rintro rfl
  rw [hc] at hd
  cases hd

/-- A fold is not read as line breaks, which are at least two characters in front of spaces. -/
theorem fold_ne_breaks {b : Char} {bs : Text} (hb : ∀ d ∈ b :: bs, isBreak d = true) :
    code fold ++ r ≠ code (breaks b bs) ++ r' := by
  intro h
  obtain ⟨c, rest, hw, hc, hn⟩ := head?_writtenBreaks hb
  simp only [code, hw, List.append_assoc, List.cons_append, List.nil_append] at h
  obtain ⟨hhead, htail⟩ := List.cons.inj h
  obtain ⟨d, rest', rfl, hd⟩ := hn hhead.symm
  exact head_ne_of_isBreak rfl hd (List.cons.inj htail).1

theorem plain_append_inj (hp : p.Fits .plain) (hq : q.Fits .plain)
    (h : p.code ++ r = q.code ++ r') : p = q ∧ r = r' := by
  cases p <;> cases q <;> simp only [Fits] at hp hq
  case char.char c d =>
    obtain ⟨rfl, hr⟩ := List.cons.inj h
    exact ⟨rfl, hr⟩
  case char.fold c => exact absurd (List.cons.inj h).1 hp
  case fold.char c => exact absurd (List.cons.inj h).1.symm hq
  case fold.fold => exact ⟨rfl, List.append_cancel_left h⟩

theorem single_append_inj (hp : p.Fits .single) (hq : q.Fits .single)
    (h : p.code ++ r = q.code ++ r') : p = q ∧ r = r' := by
  have hchar : ∀ {c b : Char} {bs r r' : Text}, isBreak c = false →
      (∀ d ∈ b :: bs, isBreak d = true) → code (char c) ++ r ≠ code (breaks b bs) ++ r' := by
    intro c b bs r r' hc hb h
    obtain ⟨d, rest, hw, hd, -⟩ := head?_writtenBreaks hb
    simp only [code, hw, List.cons_append, List.nil_append] at h
    exact head_ne_of_isBreak hc hd (List.cons.inj h).1
  cases p <;> cases q <;> simp only [Fits] at hp hq
  case char.char c d =>
    obtain ⟨rfl, hr⟩ := List.cons.inj h
    exact ⟨rfl, hr⟩
  case char.quote c => exact absurd (List.cons.inj h).1 hp.1
  case quote.char c => exact absurd (List.cons.inj h).1.symm hq.1
  case char.fold c => exact absurd (List.cons.inj h).1 (head_ne_of_isBreak hp.2 rfl)
  case fold.char c => exact absurd (List.cons.inj h).1.symm (head_ne_of_isBreak hq.2 rfl)
  case char.breaks c b bs => exact absurd h (hchar hp.2 hq)
  case breaks.char b bs c => exact absurd h.symm (hchar hq.2 hp)
  case quote.quote => exact ⟨rfl, List.append_cancel_left h⟩
  case quote.fold => exact absurd (List.cons.inj h).1 (by decide)
  case fold.quote => exact absurd (List.cons.inj h).1 (by decide)
  case quote.breaks b bs => exact absurd h (@hchar '\'' _ _ ('\'' :: r) _ rfl hq)
  case breaks.quote b bs => exact absurd h.symm (@hchar '\'' _ _ ('\'' :: r') _ rfl hp)
  case fold.fold => exact ⟨rfl, List.append_cancel_left h⟩
  case fold.breaks b bs => exact absurd h (fold_ne_breaks hq)
  case breaks.fold b bs => exact absurd h.symm (fold_ne_breaks hp)
  case breaks.breaks b bs c cs => exact breaks_append_inj hp hq h

theorem double_append_inj (hp : p.Fits .double) (hq : q.Fits .double)
    (h : p.code ++ r = q.code ++ r') : p = q ∧ r = r' := by
  have hchar : ∀ {c d : Char} {r r' : Text}, c ≠ '\\' →
      code (char c) ++ r ≠ code (escape d) ++ r' := by
    intro c d r r' hc h
    obtain ⟨l, rest, he, -⟩ := escape_eq_cons d
    simp only [code, he, List.cons_append] at h
    exact hc (List.cons.inj h).1
  -- an escape goes on with a letter or a sign, the others with a line feed or a space
  have hescape : ∀ {c d : Char} {r r' : Text}, d = '\n' ∨ d = ' ' →
      code (escape c) ++ r ≠ '\\' :: d :: r' := by
    intro c d r r' hd h
    obtain ⟨l, rest, he, hspace, hfeed⟩ := escape_eq_cons c
    simp only [code, he, List.cons_append] at h
    rcases hd with rfl | rfl
    · exact hfeed (List.cons.inj (List.cons.inj h).2).1
    · exact hspace (List.cons.inj (List.cons.inj h).2).1
  cases p <;> cases q <;> simp only [Fits] at hp hq
  case char.char c d =>
    obtain ⟨rfl, hr⟩ := List.cons.inj h
    exact ⟨rfl, hr⟩
  case char.escape c d => exact absurd h (hchar hp.2)
  case escape.char c d => exact absurd h.symm (hchar hq.2)
  case char.join c => exact absurd (List.cons.inj h).1 hp.2
  case join.char c => exact absurd (List.cons.inj h).1.symm hq.2
  case char.space c => exact absurd (List.cons.inj h).1 hp.2
  case space.char c => exact absurd (List.cons.inj h).1.symm hq.2
  case escape.escape c d =>
    obtain ⟨rfl, hr⟩ := escape_append_inj h
    exact ⟨rfl, hr⟩
  case escape.join c => exact absurd h (hescape (.inl rfl))
  case join.escape c => exact absurd h.symm (hescape (.inl rfl))
  case escape.space c => exact absurd h (hescape (.inr rfl))
  case space.escape c => exact absurd h.symm (hescape (.inr rfl))
  case join.join => exact ⟨rfl, List.append_cancel_left h⟩
  case join.space => exact absurd (List.cons.inj (List.cons.inj h).2).1 (by decide)
  case space.join => exact absurd (List.cons.inj (List.cons.inj h).2).1 (by decide)
  case space.space => exact ⟨rfl, List.append_cancel_left h⟩

/-- In every style a piece can be told from what stands behind it. -/
theorem code_append_inj {style : Style} (hp : p.Fits style) (hq : q.Fits style)
    (h : p.code ++ r = q.code ++ r') : p = q ∧ r = r' := by
  cases style with
  | plain => exact plain_append_inj hp hq h
  | single => exact single_append_inj hp hq h
  | double => exact double_append_inj hp hq h

/-! ### Rows of pieces -/

/-- No piece of the style stands at the start of a text. -/
def Stops (style : Style) (r : Text) : Prop :=
  ∀ p : Piece, p.Fits style → ∀ rest, r ≠ p.code ++ rest

/-- A row of pieces up to where no piece stands can be told from what stands behind it. -/
theorem codes_append_inj {style : Style} {ps qs : List Piece} (hps : ∀ p ∈ ps, p.Fits style)
    (hqs : ∀ q ∈ qs, q.Fits style) (hr : Stops style r) (hr' : Stops style r')
    (h : codes ps ++ r = codes qs ++ r') : ps = qs ∧ r = r' := by
  unfold codes at h
  induction ps generalizing qs with
  | nil =>
    cases qs with
    | nil => exact ⟨rfl, h⟩
    | cons q qs =>
      rw [List.flatMap_cons, List.append_assoc] at h
      exact absurd h (hr q (hqs q List.mem_cons_self) _)
  | cons p ps ih =>
    rw [List.flatMap_cons, List.append_assoc] at h
    cases qs with
    | nil => exact absurd h.symm (hr' p (hps p List.mem_cons_self) _)
    | cons q qs =>
      rw [List.flatMap_cons, List.append_assoc] at h
      obtain ⟨rfl, hrest⟩ :=
        code_append_inj (hps p List.mem_cons_self) (hqs q List.mem_cons_self) h
      obtain ⟨rfl, hr⟩ := ih (fun x hx => hps x (List.mem_cons_of_mem _ hx))
        (fun x hx => hqs x (List.mem_cons_of_mem _ hx)) hrest
      exact ⟨rfl, hr⟩

end Piece

/-! ## Scalars -/

/-- Pieces between the quotes of their style. -/
def framed : Style → Text → Text
  | .plain, t => t
  | .single, t => '\'' :: (t ++ ['\''])
  | .double, t => '"' :: (t ++ ['"'])

/-- A text does not start with a quote of either kind. -/
def Unquoted (t : Text) : Prop := t.head? ≠ some '\'' ∧ t.head? ≠ some '"'

theorem Unquoted.of_append {t u : Text} (h : Unquoted (t ++ u)) : Unquoted t := by
  cases t with
  | nil => exact ⟨by simp, by simp⟩
  | cons c t => exact h

/-- A text is written as `out` in a style. -/
def Shown (style : Style) (t out : Text) : Prop :=
  ∃ ps : List Piece, (∀ p ∈ ps, p.Fits style) ∧ Piece.texts ps = t ∧
    out = framed style (Piece.codes ps) ∧ (style = .plain → Unquoted t)

/-- What may stand behind a scalar: the end, or a line that is not indented. -/
def Behind (r : Text) : Prop := r = [] ∨ ∃ c rest, r = '\n' :: c :: rest ∧ c ≠ ' '

section Scalars

open Piece

variable {style style' : Style} {t t' out out' r r' : Text}

theorem Behind.unquoted (h : Behind r) : Unquoted r := by
  rcases h with rfl | ⟨c, rest, rfl, -⟩
  · exact ⟨by simp, by simp⟩
  · exact ⟨by simp, by simp⟩

theorem Behind.stops (h : Behind r) : Stops .plain r := by
  rintro p hp rest rfl
  rcases h with h | ⟨c, rest', h, hc⟩
  · cases p <;> simp [Fits, code] at hp h
  · cases p <;> simp only [Fits] at hp
    case char d => exact hp (List.cons.inj h).1
    case fold => exact hc (List.cons.inj (List.cons.inj h).2).1.symm

theorem stops_single (hr : r.head? ≠ some '\'') : Stops .single ('\'' :: r) := by
  intro p hp rest h
  cases p <;> simp only [Fits] at hp
  case char c => exact hp.1 (List.cons.inj h).1.symm
  case quote => exact hr (congrArg List.head? (List.cons.inj h).2)
  case fold => exact absurd (List.cons.inj h).1 (by decide)
  case breaks b bs =>
    obtain ⟨c, rest', hw, hc, -⟩ := head?_writtenBreaks hp
    simp only [code, hw, List.cons_append] at h
    exact head_ne_of_isBreak rfl hc (List.cons.inj h).1

theorem stops_double (r : Text) : Stops .double ('"' :: r) := by
  intro p hp rest h
  cases p <;> simp only [Fits] at hp
  case char c => exact hp.1 (List.cons.inj h).1.symm
  case escape c =>
    obtain ⟨l, rest', he, -⟩ := escape_eq_cons c
    simp only [code, he, List.cons_append] at h
    exact absurd (List.cons.inj h).1 (by decide)
  case join => exact absurd (List.cons.inj h).1 (by decide)
  case space => exact absurd (List.cons.inj h).1 (by decide)

theorem framed_single_append (t r : Text) : framed .single t ++ r = '\'' :: (t ++ '\'' :: r) := by
  simp [framed]

theorem framed_double_append (t r : Text) : framed .double t ++ r = '"' :: (t ++ '"' :: r) := by
  simp [framed]

/-- A scalar between quotes can be told from what stands behind it, unless that is a quote. -/
theorem Shown.quoted_append_inj (h : Shown style t out) (h' : Shown style' t' out')
    (hs : style ≠ .plain) (hs' : style' ≠ .plain) (hr : r.head? ≠ some '\'')
    (hr' : r'.head? ≠ some '\'') (heq : out ++ r = out' ++ r') :
    style = style' ∧ t = t' ∧ r = r' := by
  obtain ⟨ps, hps, rfl, rfl, -⟩ := h
  obtain ⟨qs, hqs, rfl, rfl, -⟩ := h'
  cases style <;> cases style'
  case plain.plain => exact absurd rfl hs
  case plain.single => exact absurd rfl hs
  case plain.double => exact absurd rfl hs
  case single.plain => exact absurd rfl hs'
  case double.plain => exact absurd rfl hs'
  case single.double => exact absurd (List.cons.inj heq).1 (by decide)
  case double.single => exact absurd (List.cons.inj heq).1 (by decide)
  case single.single =>
    rw [framed_single_append, framed_single_append] at heq
    obtain ⟨rfl, hrest⟩ := codes_append_inj hps hqs (stops_single hr) (stops_single hr')
      (List.cons.inj heq).2
    exact ⟨rfl, rfl, (List.cons.inj hrest).2⟩
  case double.double =>
    rw [framed_double_append, framed_double_append] at heq
    obtain ⟨rfl, hrest⟩ := codes_append_inj hps hqs (stops_double r) (stops_double r')
      (List.cons.inj heq).2
    exact ⟨rfl, rfl, (List.cons.inj hrest).2⟩

/-- A scalar without quotes shows no quote at its start, nor does what stands behind it. -/
theorem Shown.unquoted_append (h : Shown .plain t out) (hr : Unquoted r) : Unquoted (out ++ r) := by
  obtain ⟨ps, hps, rfl, rfl, hplain⟩ := h
  cases ps with
  | nil => exact hr
  | cons p ps =>
    have hp := hps p List.mem_cons_self
    cases p <;> simp only [Fits] at hp
    case char c => exact hplain rfl
    case fold => exact ⟨by simp [framed, codes, code], by simp [framed, codes, code]⟩

theorem not_unquoted_of_ne_plain (h : Shown style t out) (hs : style ≠ .plain) :
    ¬ Unquoted (out ++ r) := by
  obtain ⟨ps, -, -, rfl, -⟩ := h
  cases style with
  | plain => exact absurd rfl hs
  | single => exact fun hu => hu.1 rfl
  | double => exact fun hu => hu.2 rfl

/-- A written scalar tells its style and its text. -/
theorem Shown.append_inj (h : Shown style t out) (h' : Shown style' t' out') (hr : Behind r)
    (hr' : Behind r') (heq : out ++ r = out' ++ r') : style = style' ∧ t = t' ∧ r = r' := by
  by_cases hs : style = .plain
  · subst hs
    by_cases hs' : style' = .plain
    · subst hs'
      obtain ⟨ps, hps, rfl, rfl, -⟩ := h
      obtain ⟨qs, hqs, rfl, rfl, -⟩ := h'
      obtain ⟨rfl, rfl⟩ := codes_append_inj hps hqs hr.stops hr'.stops heq
      exact ⟨rfl, rfl, rfl⟩
    · have hu := h.unquoted_append hr.unquoted
      rw [heq] at hu
      exact absurd hu (not_unquoted_of_ne_plain h' hs')
  · by_cases hs' : style' = .plain
    · subst hs'
      have hu := h'.unquoted_append hr'.unquoted
      rw [← heq] at hu
      exact absurd hu (not_unquoted_of_ne_plain h hs)
    · exact h.quoted_append_inj h' hs hs' hr.unquoted.1 hr'.unquoted.1 heq

end Scalars

end LayeredSettings.Yaml
