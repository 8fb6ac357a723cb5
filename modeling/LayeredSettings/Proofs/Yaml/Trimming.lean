import Mathlib.Data.List.DropRight
import Mathlib.Data.List.TakeWhile
import LayeredSettings.Proofs.Yaml.Mapping
import LayeredSettings.Text.Space

/-!
# Trimmed mappings

White space is trimmed from the end of a mapping. A key ends in a colon and a scalar between quotes
in a quote; what is trimmed can only be the end of a last value without quotes, and nothing of it
but white space (`trimEnd_renderMapping`). Two mappings therefore look the same when they are
trimmed if and only if they are equal, or differ in such an end (`trimEnd_renderMapping_eq_iff`).
-/

namespace LayeredSettings

/-! ## Trimming -/

namespace Text

variable {p : Char → Bool} {t u : Text}

theorem trimEnd_append_of_all (h : ∀ c ∈ u, p c = true) : trimEnd p (t ++ u) = trimEnd p t := by
  unfold trimEnd
  rw [List.reverse_append, List.dropWhile_append_of_pos fun c hc => h c (List.mem_reverse.1 hc)]

theorem trimEnd_concat {c : Char} (h : p c = false) : trimEnd p (t ++ [c]) = t ++ [c] := by
  simp [trimEnd, h]

/-- A trimmed text ends in a character that is not trimmed. -/
theorem trimEnd_eq_nil_or_concat (p : Char → Bool) (t : Text) :
    trimEnd p t = [] ∨ ∃ u c, trimEnd p t = u ++ [c] ∧ p c = false := by
  unfold trimEnd
  cases h : t.reverse.dropWhile p with
  | nil => exact Or.inl rfl
  | cons c rest =>
    have hc := List.head?_dropWhile_not p t.reverse
    rw [h] at hc
    exact Or.inr ⟨rest.reverse, c, List.reverse_cons, by simpa using hc⟩

theorem exists_trimEnd_append (p : Char → Bool) (t : Text) :
    ∃ u, t = trimEnd p t ++ u ∧ ∀ c ∈ u, p c = true := by
  refine ⟨(t.reverse.takeWhile p).reverse, ?_, fun c hc => ?_⟩
  · unfold trimEnd
    rw [← List.reverse_append, List.takeWhile_append_dropWhile, List.reverse_reverse]
  · exact List.mem_takeWhile_imp (List.mem_reverse.1 hc)

theorem trimEnd_trimEnd (p : Char → Bool) (t : Text) : trimEnd p (trimEnd p t) = trimEnd p t :=
  List.rdropWhile_idempotent p t

end Text

namespace Yaml

open Text (isSpace trimEnd)

/-! ## Plain scalars -/

theorem isSpace_of_isBreak {c : Char} (h : isBreak c = true) : isSpace c = true := by
  simp only [isBreak, Bool.or_eq_true, decide_eq_true_eq] at h
  rcases h with ((rfl | rfl) | rfl) | rfl <;> decide

namespace Run

/-- A character in front of runs goes into the first one or makes one of its own. -/
theorem push_cons (c : Char) (r : Run) (rs : List Run) : push c (r :: rs) = push c [r] ++ rs := by
  unfold push
  by_cases hspace : c = ' '
  · simp only [if_pos hspace]
    cases r <;> rfl
  · by_cases hbreak : isBreak c = true
    · simp only [if_neg hspace, if_pos hbreak]
      cases r <;> rfl
    · simp only [if_neg hspace, if_neg hbreak]
      cases r <;> rfl

/-- A character in front of a solid run leaves the end of the run as it is. -/
theorem push_append_solid (c : Char) (rs : List Run) (last : Text) :
    ∃ rs' last', ∀ more rest, push c (rs ++ .solid (last ++ more) :: rest) =
      rs' ++ .solid (last' ++ more) :: rest := by
  cases rs with
  | nil =>
    by_cases hspace : c = ' '
    · exact ⟨[.spaces 1], last, fun more rest => by simp [push, hspace]⟩
    · by_cases hbreak : isBreak c = true
      · exact ⟨[.breaks c []], last, fun more rest => by simp [push, hspace, hbreak]⟩
      · exact ⟨[], c :: last, fun more rest => by simp [push, hspace, hbreak]⟩
  | cons r rs =>
    refine ⟨push c [r] ++ rs, last, fun more rest => ?_⟩
    rw [List.cons_append, push_cons, List.append_assoc]

theorem push_solid {c : Char} (hspace : c ≠ ' ') (hbreak : isBreak c = false) (rs : List Run) :
    ∃ more rest, push c rs = .solid (c :: more) :: rest ∧
      more ++ rest.flatMap text = rs.flatMap text := by
  unfold push
  rw [if_neg hspace, if_neg (by simp [hbreak])]
  split
  · exact ⟨_, _, rfl, rfl⟩
  · exact ⟨[], rs, rfl, rfl⟩

end Run

/-- Text behind a character that is neither a space nor a line break leaves the runs up to there as
they are, but that the last one may go on. -/
theorem runs_concat_append {c : Char} (hspace : c ≠ ' ') (hbreak : isBreak c = false) (t u : Text) :
    ∃ rs last more rest, runs (t ++ [c]) = rs ++ [.solid last] ∧
      runs (t ++ [c] ++ u) = rs ++ .solid (last ++ more) :: rest ∧
      more ++ rest.flatMap Run.text = u := by
  obtain ⟨rs, last, hruns⟩ : ∃ rs last, ∀ u more rest, runs (c :: u) = .solid (c :: more) :: rest →
      runs (t ++ c :: u) = rs ++ .solid (last ++ more) :: rest := by
    induction t with
    | nil => exact ⟨[], [c], fun u more rest h => h⟩
    | cons d t ih =>
      obtain ⟨rs, last, ih⟩ := ih
      obtain ⟨rs', last', hpush⟩ := Run.push_append_solid d rs last
      refine ⟨rs', last', fun u more rest h => ?_⟩
      show Run.push d (runs (t ++ c :: u)) = _
      rw [ih u more rest h, hpush]
  obtain ⟨more, rest, hlong, htext⟩ := Run.push_solid hspace hbreak (runs u)
  rw [text_runs] at htext
  refine ⟨rs, last, more, rest, ?_, ?_, htext⟩
  · have hshort : runs [c] = [.solid [c]] := by
      show Run.push c [] = _
      simp [Run.push, hspace, hbreak]
    rw [hruns [] [] [] hshort, List.append_nil]
  · rw [List.append_assoc, List.singleton_append, hruns u more rest hlong]

theorem writePlainRuns_append (fold : Bool) (pen : Pen) (rs rs' : List Run) :
    writePlainRuns fold pen (rs ++ rs') =
      writePlainRuns fold (writePlainRuns fold pen rs) rs' := by
  fun_induction writePlainRuns fold pen rs with
  | case1 => rfl
  | case2 pen n rest hfold ih => rw [List.cons_append, writePlainRuns, if_pos hfold, ih]
  | case3 pen n rest hfold ih => rw [List.cons_append, writePlainRuns, if_neg hfold, ih]
  | case4 pen t rest ih => rw [List.cons_append, writePlainRuns, ih]
  | case5 pen c t rest ih => rw [List.cons_append, writePlainRuns, ih]

/-- White space is written as white space, whether a line is folded at it or not. -/
theorem writePlainRuns_blank (fold : Bool) (pen : Pen) {rs : List Run}
    (hfeed : '\n' ∉ rs.flatMap Run.text) (hblank : ∀ c ∈ rs.flatMap Run.text, isSpace c = true) :
    ∃ w, (∀ c ∈ w, isSpace c = true) ∧ (writePlainRuns fold pen rs).text = pen.text ++ w := by
  obtain ⟨ps, hps, htext, hcode⟩ := writePlainRuns_wrote fold pen hfeed
  rw [← htext] at hblank
  refine ⟨Piece.codes ps, fun c hc => ?_, hcode⟩
  obtain ⟨p, hp, hc⟩ := List.mem_flatMap.1 hc
  have hfits := hps p hp
  cases p <;> simp only [Piece.Fits] at hfits
  case char d => exact hblank c (List.mem_flatMap.2 ⟨_, hp, hc⟩)
  case fold =>
    have hall : ['\n', ' ', ' '].all isSpace = true := by decide
    exact List.all_eq_true.1 hall c hc

theorem writePlainRuns_trimEnd (fold : Bool) (pen : Pen) {t : Text} (h : '\n' ∉ t) :
    ∃ w, (∀ c ∈ w, isSpace c = true) ∧ (writePlainRuns fold pen (runs t)).text =
      (writePlainRuns fold pen (runs (trimEnd isSpace t))).text ++ w := by
  obtain ⟨u, ht, hu⟩ := Text.exists_trimEnd_append isSpace t
  rw [ht, List.mem_append, not_or] at h
  rcases Text.trimEnd_eq_nil_or_concat isSpace t with hnil | ⟨t', c, hconcat, hc⟩
  · rw [hnil]
    rw [hnil, List.nil_append] at ht
    rw [ht]
    rw [← text_runs u] at h hu
    exact writePlainRuns_blank fold pen h.2 hu
  · have hspace : c ≠ ' ' := by
      rintro rfl
      cases hc
    have hbreak : isBreak c = false := by
      rw [Bool.eq_false_iff]
      intro h
      rw [isSpace_of_isBreak h] at hc
      cases hc
    obtain ⟨rs, last, more, rest, hshort, hlong, hrest⟩ := runs_concat_append hspace hbreak t' u
    rw [← hconcat] at hshort hlong
    rw [← ht] at hlong
    rw [← hrest, List.mem_append, not_or] at h
    rw [← hrest, List.forall_mem_append] at hu
    obtain ⟨w, hw, hwritten⟩ := writePlainRuns_blank fold
      ((writePlainRuns fold pen rs).write (last ++ more)) h.2.2 hu.2
    refine ⟨more ++ w, List.forall_mem_append.2 ⟨hu.1, hw⟩, ?_⟩
    rw [hshort, hlong, writePlainRuns_append, writePlainRuns_append, writePlainRuns, hwritten]
    simp [writePlainRuns]

/-- The pieces of a plain text that ends in a character other than a space end in it. -/
theorem codes_concat {ps : List Piece} (hps : ∀ p ∈ ps, p.Fits .plain) {t : Text} {c : Char}
    (hspace : c ≠ ' ') (h : Piece.texts ps = t ++ [c]) : ∃ u, Piece.codes ps = u ++ [c] := by
  rcases List.eq_nil_or_concat ps with rfl | ⟨qs, q, rfl⟩
  · exact absurd h (by simp [Piece.texts])
  · rw [List.concat_eq_append] at hps h ⊢
    have hq := hps q (by simp)
    rw [Piece.texts, List.flatMap_append, List.flatMap_singleton] at h
    rw [Piece.codes, List.flatMap_append, List.flatMap_singleton]
    cases q <;> simp only [Piece.Fits] at hq
    case char d =>
      obtain ⟨-, hd⟩ := List.append_inj' h rfl
      obtain rfl := (List.cons.inj hd).1
      exact ⟨_, rfl⟩
    case fold =>
      obtain ⟨-, hd⟩ := List.append_inj' h rfl
      exact absurd (List.cons.inj hd).1.symm hspace

/-! ## Entries -/

theorem KeyShown.exists_concat {key k : Text} (h : KeyShown key k) : ∃ t, k = t ++ [':'] := by
  cases h with
  | @name k => exact ⟨k, rfl⟩
  | @long k => exact ⟨'?' :: ' ' :: (k ++ ['\n']), by simp⟩

/-- An item whose value is quoted has no white space at its end. -/
theorem Item.Shown.trimEnd_append {x : Item} {out : Text} (h : x.Shown out)
    (hs : x.style ≠ .plain) (t : Text) : trimEnd isSpace (t ++ out) = t ++ out := by
  obtain ⟨key, style, value⟩ := x
  obtain ⟨k, v, -, hv, rfl⟩ := h
  cases hv with
  | nothing => exact absurd rfl hs
  | scalar hv =>
    obtain ⟨ps, -, -, rfl, -⟩ := hv
    have hquote : ∀ (u : Text) (q : Char), isSpace q = false →
        trimEnd isSpace (t ++ (k ++ ' ' :: q :: (u ++ [q]))) =
          t ++ (k ++ ' ' :: q :: (u ++ [q])) := by
      intro u q hq
      have hconcat : t ++ (k ++ ' ' :: q :: (u ++ [q])) = (t ++ (k ++ ' ' :: q :: u)) ++ [q] := by
        simp
      rw [hconcat, Text.trimEnd_concat hq]
    cases style with
    | plain => exact absurd rfl hs
    | single => exact hquote _ '\'' (by decide)
    | double => exact hquote _ '"' (by decide)

theorem writeScalar_plain {pen : Pen} {t : Text} (h : styleOf t = .plain) (fold : Bool) :
    writeScalar fold pen t = writePlain fold pen t := by
  unfold writeScalar
  rw [h]

/-- The white space at the end of a plain scalar comes last on the page. -/
theorem trimEnd_writePlain (fold : Bool) (pen : Pen) {t : Text} (h : '\n' ∉ t) :
    trimEnd isSpace (writePlain fold pen t).text =
      trimEnd isSpace (writePlain fold pen (trimEnd isSpace t)).text := by
  obtain ⟨w, hw, htext⟩ := writePlainRuns_trimEnd fold
    (if pen.spaced then pen.settle else (pen.write [' ']).settle) h
  rw [writePlain, writePlain, htext, Text.trimEnd_append_of_all hw]

/-- A plain scalar ends on the page as it ends. -/
theorem writePlain_concat (fold : Bool) (pen : Pen) {t u : Text} {c : Char} (h : '\n' ∉ t)
    (ht : t = u ++ [c]) (hc : isSpace c = false) :
    ∃ ps v, (∀ p ∈ ps, p.Fits .plain) ∧ Piece.texts ps = t ∧ Piece.codes ps = v ++ [c] ∧
      (writePlain fold pen t).text = pen.text ++ (lead pen ++ Piece.codes ps) := by
  obtain ⟨ps, hps, htext, hcode⟩ := writePlain_wrote fold pen h
  have hspace : c ≠ ' ' := by
    rintro rfl
    cases hc
  obtain ⟨v, hv⟩ := codes_concat hps hspace (htext.trans ht)
  exact ⟨ps, v, hps, htext, hv, hcode⟩

/-- Of a plain value at the end of a text there is left what shows the trimmed value. -/
theorem writePlain_trimmed (fold : Bool) {pen : Pen} (hspaced : pen.spaced = false)
    (hpen : trimEnd isSpace pen.text = pen.text) {t : Text} (h : PlainText t) :
    ∃ v, ValueShown .plain (trimEnd isSpace t) v ∧
      trimEnd isSpace (writePlain fold pen t).text = pen.text ++ v := by
  have hlead : lead pen = [' '] := by
    rw [lead, hspaced]
    rfl
  rw [trimEnd_writePlain fold pen h.feed_not_mem]
  rcases Text.trimEnd_eq_nil_or_concat isSpace t with hnil | ⟨u, c, hconcat, hc⟩
  · -- nothing is left, nor is the space in front of the value
    have hnone : (writePlain fold pen []).text = pen.text ++ lead pen := settle_text pen
    have hspace : [' '].all isSpace = true := by decide
    rw [hnil, hnone, hlead, Text.trimEnd_append_of_all (List.all_eq_true.1 hspace), hpen]
    exact ⟨[], .nothing, (List.append_nil _).symm⟩
  · obtain ⟨w, hw, -⟩ := Text.exists_trimEnd_append isSpace t
    have hunquoted := h.unquoted
    have hfeed := h.feed_not_mem
    rw [hw] at hunquoted hfeed
    rw [List.mem_append, not_or] at hfeed
    obtain ⟨ps, v, hps, htext, hv, hcode⟩ := writePlain_concat fold pen hfeed.1 hconcat hc
    refine ⟨_, .scalar ⟨ps, hps, htext, rfl, fun _ => hunquoted.of_append⟩, ?_⟩
    show _ = pen.text ++ ' ' :: Piece.codes ps
    rw [hcode, hlead, List.singleton_append, hv, ← List.cons_append, ← List.append_assoc,
      Text.trimEnd_concat hc]

/-- The item that is left of an entry at the end of a mapping. -/
def trimmedItem (e : Text × Text) : Item :=
  if styleOf e.2 = .plain then ⟨e.1, .plain, trimEnd isSpace e.2⟩ else itemOf e

theorem writeEntry_trimmed {pen : Pen} (hspaced : (pen.indent 0).spaced = true)
    (e : Text × Text) :
    ∃ out, (trimmedItem e).Shown out ∧
      trimEnd isSpace (writeEntry pen e.1 e.2).text = (pen.indent 0).text ++ out := by
  unfold trimmedItem
  by_cases hplain : styleOf e.2 = .plain
  · rw [if_pos hplain, writeEntry_eq, writeScalar_plain hplain]
    obtain ⟨k, hk, hktext⟩ := keyPen_shown hspaced e.1
    have hcolon : trimEnd isSpace (keyPen pen e.1).text = (keyPen pen e.1).text := by
      obtain ⟨k', hk'⟩ := hk.exists_concat
      rw [hktext, hk', ← List.append_assoc, Text.trimEnd_concat (by decide)]
    obtain ⟨v, hv, hvtext⟩ := writePlain_trimmed true (spaced_keyPen pen e.1) hcolon
      (plainText_of_style hplain)
    exact ⟨k ++ v, ⟨k, v, hk, hv, rfl⟩, by rw [hvtext, hktext, List.append_assoc]⟩
  · rw [if_neg hplain]
    obtain ⟨out, hout, htext, -⟩ := writeEntry_shown hspaced e
    exact ⟨out, hout, by rw [htext, hout.trimEnd_append hplain]⟩

/-! ## Mappings -/

theorem trimEnd_renderMapping_concat (es : List (Text × Text)) (e : Text × Text) :
    ∃ outs, List.Forall₂ Item.Shown (es.map itemOf ++ [trimmedItem e]) outs ∧
      trimEnd isSpace (renderMapping (es ++ [e])) = mappingText outs := by
  obtain ⟨outs, houts, hspaced, htext⟩ := entriesPen_shown es
  obtain ⟨out, hout, hwritten⟩ := writeEntry_trimmed hspaced e
  exact ⟨outs ++ [out], List.rel_append houts (.cons hout .nil),
    by rw [renderMapping_concat, hwritten, htext]⟩

/-- The line feed that ends a document is trimmed. -/
theorem trimEnd_document (es : List (Text × Text)) :
    trimEnd isSpace (document es) = trimEnd isSpace (renderMapping es) := by
  have hfeed : ['\n'].all isSpace = true := by decide
  rw [document, Text.trimEnd_append_of_all (List.all_eq_true.1 hfeed)]

/-- What is left of a mapping whose last value is plain depends on the trimmed value only. -/
theorem trimEnd_renderMapping_plain (ds : List (Text × Text)) (key : Text) {value : Text}
    (h : styleOf value = .plain) :
    trimEnd isSpace (renderMapping (ds ++ [(key, value)])) =
      trimEnd isSpace
        (writePlain true (keyPen (entriesPen ds) key) (trimEnd isSpace value)).text := by
  rw [renderMapping_concat, writeEntry_eq, writeScalar_plain h,
    trimEnd_writePlain _ _ (plainText_of_style h).feed_not_mem]

/-! ## Ends of mappings -/

section Ends

variable (plain : Text → Prop) (es fs gs : List (Text × Text))

/-- The last value is plain and ends in white space. -/
def LooseEnd : Prop := ∃ e ∈ es.getLast?, plain e.2 ∧ trimEnd isSpace e.2 ≠ e.2

/-- A plain last value is plain without the white space at its end, too. -/
def PlainTrimmed : Prop := ∀ e ∈ es.getLast?, plain e.2 → plain (trimEnd isSpace e.2)

/-- Two rows of entries differ at most in the white space at the end of their last value, which is
plain. -/
def EqualButEnd : Prop :=
  ∃ ds key value value', es = ds ++ [(key, value)] ∧ fs = ds ++ [(key, value')] ∧
    plain value ∧ plain value' ∧ trimEnd isSpace value = trimEnd isSpace value'

instance [DecidablePred plain] : Decidable (LooseEnd plain es) := by
  unfold LooseEnd
  infer_instance

instance [DecidablePred plain] : Decidable (PlainTrimmed plain es) := by
  unfold PlainTrimmed
  infer_instance

variable {plain es fs gs}

theorem looseEnd_concat {ds : List (Text × Text)} {key value : Text} :
    LooseEnd plain (ds ++ [(key, value)]) ↔ plain value ∧ trimEnd isSpace value ≠ value := by
  simp [LooseEnd]

theorem EqualButEnd.symm (h : EqualButEnd plain es fs) : EqualButEnd plain fs es := by
  obtain ⟨ds, key, value, value', hes, hfs, hvalue, hvalue', htrim⟩ := h
  exact ⟨ds, key, value', value, hfs, hes, hvalue', hvalue, htrim.symm⟩

theorem EqualButEnd.trans (h : EqualButEnd plain es fs) (h' : EqualButEnd plain fs gs) :
    EqualButEnd plain es gs := by
  obtain ⟨ds, key, value, value', hes, hfs, hvalue, -, htrim⟩ := h
  obtain ⟨ds', key', value₁, value'', hfs', hgs, -, hvalue'', htrim'⟩ := h'
  obtain ⟨rfl, hlast⟩ := List.append_inj' (hfs.symm.trans hfs') rfl
  cases hlast
  exact ⟨ds, key, value, value'', hes, hgs, hvalue, hvalue'', htrim.trans htrim'⟩

/-- White space at the end of a plain last value can be taken off. -/
theorem PlainTrimmed.exists_tight (h : PlainTrimmed plain es) :
    ∃ es', ¬ LooseEnd plain es' ∧ es'.map Prod.fst = es.map Prod.fst ∧
      (es = es' ∨ EqualButEnd plain es es') := by
  by_cases hloose : LooseEnd plain es
  · obtain ⟨⟨key, value⟩, hlast, hvalue, -⟩ := hloose
    obtain ⟨ds, rfl⟩ := List.getLast?_eq_some_iff.1 hlast
    have htrim := Text.trimEnd_trimEnd isSpace value
    refine ⟨ds ++ [(key, trimEnd isSpace value)], ?_, by simp, Or.inr
      ⟨ds, key, value, trimEnd isSpace value, rfl, rfl, hvalue, h _ hlast hvalue, htrim.symm⟩⟩
    rw [looseEnd_concat]
    exact fun hne => hne.2 htrim
  · exact ⟨es, hloose, rfl, Or.inl rfl⟩

end Ends

/-- Nothing is trimmed of a mapping without white space at the end of a plain last value. -/
theorem trimEnd_renderMapping {es : List (Text × Text)}
    (h : ¬ LooseEnd (styleOf · = .plain) es) :
    trimEnd isSpace (renderMapping es) = renderMapping es := by
  rcases List.eq_nil_or_concat es with rfl | ⟨ds, ⟨key, value⟩, rfl⟩
  · decide
  · rw [List.concat_eq_append, looseEnd_concat, not_and_not_right] at h
    rw [List.concat_eq_append, renderMapping_concat]
    by_cases hplain : styleOf value = .plain
    · have htext := plainText_of_style hplain
      rcases Text.trimEnd_eq_nil_or_concat isSpace value with hnil | ⟨u, c, hconcat, hc⟩
      · rw [h hplain] at hnil
        exact absurd hnil htext.ne_nil
      · rw [h hplain] at hconcat
        obtain ⟨ps, v, -, -, hv, hcode⟩ := writePlain_concat true (keyPen (entriesPen ds) key)
          htext.feed_not_mem hconcat hc
        rw [writeEntry_eq, writeScalar_plain hplain, hcode, hv, ← List.append_assoc,
          ← List.append_assoc, Text.trimEnd_concat hc]
    · obtain ⟨-, -, hspaced, -⟩ := entriesPen_shown ds
      obtain ⟨out, hout, hwritten, -⟩ := writeEntry_shown hspaced (key, value)
      rw [hwritten, hout.trimEnd_append hplain]

theorem EqualButEnd.trimEnd_renderMapping_eq {es fs : List (Text × Text)}
    (h : EqualButEnd (styleOf · = .plain) es fs) :
    trimEnd isSpace (renderMapping es) = trimEnd isSpace (renderMapping fs) := by
  obtain ⟨ds, key, value, value', rfl, rfl, hs, hs', htrim⟩ := h
  rw [trimEnd_renderMapping_plain ds key hs, trimEnd_renderMapping_plain ds key hs', htrim]

theorem eq_or_equalButEnd_of_items {es fs : List (Text × Text)} {e f : Text × Text}
    (h : es.map itemOf ++ [trimmedItem e] = fs.map itemOf ++ [trimmedItem f]) :
    es ++ [e] = fs ++ [f] ∨ EqualButEnd (styleOf · = .plain) (es ++ [e]) (fs ++ [f]) := by
  obtain ⟨hitems, hlast⟩ := List.append_inj' h rfl
  obtain rfl := List.map_injective_iff.2 itemOf_injective hitems
  have hlast := (List.cons.inj hlast).1
  obtain ⟨key, value⟩ := e
  obtain ⟨key', value'⟩ := f
  unfold trimmedItem at hlast
  by_cases hs : styleOf value = .plain
  · by_cases hs' : styleOf value' = .plain
    · rw [if_pos hs, if_pos hs', Item.mk.injEq] at hlast
      obtain ⟨rfl, -, htrim⟩ := hlast
      exact Or.inr ⟨es, key, value, value', rfl, rfl, hs, hs', htrim⟩
    · rw [if_pos hs, if_neg hs', itemOf, Item.mk.injEq] at hlast
      exact absurd hlast.2.1.symm hs'
  · by_cases hs' : styleOf value' = .plain
    · rw [if_neg hs, if_pos hs', itemOf, Item.mk.injEq] at hlast
      exact absurd hlast.2.1 hs
    · rw [if_neg hs, if_neg hs'] at hlast
      rw [itemOf_injective hlast]
      exact Or.inl rfl

/-- A trimmed mapping tells its entries, but for the white space at the end of a last value without
quotes. -/
theorem trimEnd_renderMapping_eq_iff (es fs : List (Text × Text)) :
    trimEnd isSpace (renderMapping es) = trimEnd isSpace (renderMapping fs) ↔
      es = fs ∨ EqualButEnd (styleOf · = .plain) es fs := by
  constructor
  · intro h
    have hempty : trimEnd isSpace (renderMapping []) = mappingText [] := by decide
    rcases List.eq_nil_or_concat es with rfl | ⟨es, e, rfl⟩
    · rcases List.eq_nil_or_concat fs with rfl | ⟨fs, f, rfl⟩
      · exact Or.inl rfl
      · obtain ⟨outs, houts, hf⟩ := trimEnd_renderMapping_concat fs f
        rw [List.concat_eq_append, hempty, hf] at h
        exact absurd (mappingText_inj .nil houts h) (by simp)
    · obtain ⟨outs, houts, he⟩ := trimEnd_renderMapping_concat es e
      rw [List.concat_eq_append, he] at h
      rcases List.eq_nil_or_concat fs with rfl | ⟨fs, f, rfl⟩
      · rw [hempty] at h
        exact absurd (mappingText_inj houts .nil h) (by simp)
      · obtain ⟨outs', houts', hf⟩ := trimEnd_renderMapping_concat fs f
        rw [List.concat_eq_append, hf] at h
        rw [List.concat_eq_append, List.concat_eq_append]
        exact eq_or_equalButEnd_of_items (mappingText_inj houts houts' h)
  · rintro (rfl | h)
    · rfl
    · exact h.trimEnd_renderMapping_eq

end Yaml

end LayeredSettings
