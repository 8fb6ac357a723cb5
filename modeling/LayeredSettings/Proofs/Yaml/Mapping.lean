import Mathlib.Data.List.Forall2
import Mathlib.Data.List.Induction
import LayeredSettings.Proofs.Yaml.Writing

/-!
# Written mappings

What an entry of a mapping looks like on the page. A colon ends a key, since no key without quotes
holds a colon in front of white space (`KeyShown.append_inj`), and a line that is not indented ends
a value. The items of a mapping can therefore be read off, one behind the other
(`mappingText_inj`).
-/

namespace LayeredSettings.Yaml

/-! ## Keys -/

/-- A key on the page with its colon, behind a question mark if it cannot stand alone. -/
inductive KeyShown : Text → Text → Prop
  | name {key k : Text} : isSimpleKey key = true → Shown (styleOf key) key k →
      (styleOf key = .plain → k = key) → KeyShown key (k ++ [':'])
  | long {key k : Text} : isSimpleKey key = false → Shown (styleOf key) key k →
      KeyShown key ('?' :: ' ' :: (k ++ ['\n', ':']))

/-- What may stand behind the colon of a key. -/
def AfterColon (s : Text) : Prop := s = [] ∨ ∃ c rest, s = c :: rest ∧ isSeparator c = true

theorem neighbours_append_mem (t : Text) (c d : Char) (u : Text) :
    (c, d) ∈ neighbours (t ++ c :: d :: u) := by
  unfold neighbours
  induction t with
  | nil => exact List.mem_cons_self
  | cons x t ih =>
    cases t with
    | nil => exact List.mem_cons_of_mem _ List.mem_cons_self
    | cons y t => exact List.mem_cons_of_mem _ ih

/-- In a plain text a colon stands in front of text. -/
theorem PlainText.colon {t a b : Text} (h : PlainText t) (ht : t = a ++ ':' :: b) :
    ∃ c rest, b = c :: rest ∧ isSeparator c = false := by
  subst ht
  cases a with
  | nil =>
    have hstart := h.indicator
    cases b with
    | nil => exact absurd hstart (by decide)
    | cons c rest =>
      refine ⟨c, rest, rfl, ?_⟩
      simpa [startsAsIndicator] using hstart
  | cons x a =>
    have hend := h.ending
    simp only [endsAsKey, List.cons_append, List.tail_cons, Bool.or_eq_false_iff] at hend
    cases b with
    | nil => exact absurd hend.2 (by simp)
    | cons c rest =>
      refine ⟨c, rest, rfl, ?_⟩
      simpa using List.any_eq_false.1 hend.1 _ (neighbours_append_mem a ':' c rest)

theorem AfterColon.ne {s rest : Text} {c : Char} (h : AfterColon s) (hc : isSeparator c = false) :
    s ≠ c :: rest := by
  rintro rfl
  rcases h with h | ⟨d, rest', h, hd⟩
  · cases h
  · cases h
    rw [hc] at hd
    cases hd

/-- A plain key ends at the first colon in front of white space. -/
theorem PlainText.append_colon_inj {t u s s' : Text} (ht : PlainText t) (hu : PlainText u)
    (hs : AfterColon s) (hs' : AfterColon s') (h : t ++ ':' :: s = u ++ ':' :: s') :
    t = u ∧ s = s' := by
  have hshort : ∀ {t u s s' : Text}, PlainText u → AfterColon s →
      ∀ as, u = t ++ as → ':' :: s = as ++ ':' :: s' → as = [] := by
    intro t u s s' hu hs as hue he
    cases as with
    | nil => rfl
    | cons x as =>
      obtain ⟨rfl, hrest⟩ := List.cons.inj he
      obtain ⟨c, rest, rfl, hc⟩ := hu.colon hue
      exact absurd hrest (hs.ne hc)
  rcases List.append_eq_append_iff.1 h with ⟨as, hue, he⟩ | ⟨as, hte, he⟩
  · obtain rfl := hshort hu hs as hue he
    rw [List.append_nil] at hue
    exact ⟨hue.symm, (List.cons.inj he).2⟩
  · obtain rfl := hshort ht hs' as hte he
    rw [List.append_nil] at hte
    exact ⟨hte, (List.cons.inj he).2.symm⟩

/-- A key that stands alone does not start like the mark in front of one that does not. -/
theorem PlainText.ne_mark {t r rest : Text} (h : PlainText t) :
    t ++ ':' :: r ≠ '?' :: ' ' :: rest := by
  intro he
  have hstart := h.indicator
  cases t with
  | nil => exact h.ne_nil rfl
  | cons c t =>
    obtain ⟨rfl, htail⟩ := List.cons.inj he
    cases t with
    | nil => exact absurd (List.cons.inj htail).1 (by decide)
    | cons d t =>
      obtain ⟨rfl, -⟩ := List.cons.inj htail
      exact absurd hstart (by simp [startsAsIndicator, isSeparator])

section Keys

variable {key key' k k' s s' : Text}

/-- A key that stands alone is plain, or it stands between quotes. -/
theorem name_cases {r : Text} (h : Shown (styleOf key) key k)
    (hplain : styleOf key = .plain → k = key) :
    (PlainText key ∧ k = key ∧ Unquoted (k ++ r)) ∨
      (styleOf key ≠ .plain ∧ ¬ Unquoted (k ++ r)) := by
  by_cases hs : styleOf key = .plain
  · have htext := plainText_of_style hs
    refine Or.inl ⟨htext, hplain hs, ?_⟩
    rw [hplain hs]
    obtain ⟨c, rest, rfl⟩ := List.exists_cons_of_ne_nil htext.ne_nil
    exact htext.unquoted
  · exact Or.inr ⟨hs, not_unquoted_of_ne_plain h hs⟩

theorem name_ne_long {r rest : Text} (h : Shown (styleOf key) key k)
    (hplain : styleOf key = .plain → k = key) : k ++ ':' :: r ≠ '?' :: ' ' :: rest := by
  intro he
  rcases @name_cases key k (':' :: r) h hplain with ⟨htext, rfl, -⟩ | ⟨-, hquoted⟩
  · exact htext.ne_mark he
  · rw [he] at hquoted
    exact hquoted ⟨by simp, by simp⟩

/-- A written key tells the key and what stands behind it. -/
theorem KeyShown.append_inj (h : KeyShown key k) (h' : KeyShown key' k') (hs : AfterColon s)
    (hs' : AfterColon s') (heq : k ++ s = k' ++ s') : key = key' ∧ s = s' := by
  cases h with
  | name _ h hplain =>
    cases h' with
    | name _ h' hplain' =>
      rw [List.append_assoc, List.append_assoc, List.singleton_append, List.singleton_append] at heq
      rcases name_cases h hplain with ⟨htext, rfl, hu⟩ | ⟨hq, hu⟩
      · rcases name_cases h' hplain' with ⟨htext', rfl, -⟩ | ⟨-, hu'⟩
        · exact htext.append_colon_inj htext' hs hs' heq
        · rw [heq] at hu
          exact absurd hu hu'
      · rcases name_cases h' hplain' with ⟨-, -, hu'⟩ | ⟨hq', -⟩
        · rw [heq] at hu
          exact absurd hu' hu
        · obtain ⟨-, hkey, hrest⟩ := h.quoted_append_inj h' hq hq' (by simp) (by simp) heq
          exact ⟨hkey, (List.cons.inj hrest).2⟩
    | long _ h' =>
      rw [List.append_assoc, List.singleton_append] at heq
      exact absurd heq (name_ne_long h hplain)
  | long _ h =>
    cases h' with
    | name _ h' hplain' =>
      rw [List.append_assoc, List.singleton_append] at heq
      exact absurd heq.symm (name_ne_long h' hplain')
    | long _ h' =>
      have hbehind : ∀ r, Behind ('\n' :: ':' :: r) :=
        fun r => Or.inr ⟨':', r, rfl, by decide⟩
      simp only [List.cons_append, List.append_assoc, List.nil_append, List.cons.injEq,
        true_and] at heq
      obtain ⟨-, hkey, hrest⟩ := h.append_inj h' (hbehind s) (hbehind s') heq
      exact ⟨hkey, (List.cons.inj (List.cons.inj hrest).2).2⟩

end Keys

/-! ## Items -/

/-- A value on the page behind a space; nothing is shown of a plain value without text. -/
inductive ValueShown : Style → Text → Text → Prop
  | scalar {style : Style} {t out : Text} : Shown style t out → ValueShown style t (' ' :: out)
  | nothing : ValueShown .plain [] []

/-- An entry as it can be read off the page. -/
structure Item where
  key : Text
  style : Style
  value : Text

def Item.Shown (x : Item) (out : Text) : Prop :=
  ∃ k v, KeyShown x.key k ∧ ValueShown x.style x.value v ∧ out = k ++ v

section Items

variable {x y : Item} {out out' r r' : Text}

theorem ValueShown.append_inj {style style' : Style} {t t' v v' : Text}
    (h : ValueShown style t v) (h' : ValueShown style' t' v') (hr : Behind r) (hr' : Behind r')
    (heq : v ++ r = v' ++ r') : style = style' ∧ t = t' ∧ r = r' := by
  have hspace : ∀ {r rest : Text}, Behind r → r ≠ ' ' :: rest := by
    rintro r rest hr rfl
    rcases hr with h | ⟨c, rest', h, -⟩
    · cases h
    · cases h
  cases h with
  | scalar h =>
    cases h' with
    | scalar h' => exact h.append_inj h' hr hr' (List.cons.inj heq).2
    | nothing => exact absurd heq.symm (hspace hr')
  | nothing =>
    cases h' with
    | scalar h' => exact absurd heq (hspace hr)
    | nothing => exact ⟨rfl, rfl, heq⟩

theorem afterColon_append {style : Style} {t v : Text} (h : ValueShown style t v)
    (hr : Behind r) : AfterColon (v ++ r) := by
  cases h with
  | scalar h => exact Or.inr ⟨' ', _, rfl, rfl⟩
  | nothing =>
    rcases hr with rfl | ⟨c, rest, rfl, -⟩
    · exact Or.inl rfl
    · exact Or.inr ⟨'\n', _, rfl, rfl⟩

/-- A written item can be told from what stands behind it. -/
theorem Item.Shown.append_inj (h : x.Shown out) (h' : y.Shown out') (hr : Behind r)
    (hr' : Behind r') (heq : out ++ r = out' ++ r') : x = y ∧ r = r' := by
  obtain ⟨k, v, hk, hv, rfl⟩ := h
  obtain ⟨k', v', hk', hv', rfl⟩ := h'
  rw [List.append_assoc, List.append_assoc] at heq
  obtain ⟨hkey, hrest⟩ :=
    hk.append_inj hk' (afterColon_append hv hr) (afterColon_append hv' hr') heq
  obtain ⟨hstyle, hvalue, hr⟩ := hv.append_inj hv' hr hr' hrest
  obtain ⟨key, style, value⟩ := x
  obtain ⟨key', style', value'⟩ := y
  obtain rfl : key = key' := hkey
  obtain rfl : style = style' := hstyle
  obtain rfl : value = value' := hvalue
  exact ⟨rfl, hr⟩

theorem PlainText.head_ne_space {t : Text} (h : PlainText t) : t.head? ≠ some ' ' := by
  intro hhead
  have hloose := h.loose
  simp [hasLooseEnd, hhead] at hloose

/-- An item starts neither like an empty mapping nor like the further lines of a scalar. -/
theorem Item.Shown.exists_cons (h : x.Shown out) :
    ∃ c rest, out = c :: rest ∧ c ≠ ' ' ∧ c ≠ '\x7b' := by
  obtain ⟨k, v, hk, -, rfl⟩ := h
  cases hk with
  | @name k _ h hplain =>
    by_cases hs : styleOf x.key = .plain
    · have htext := plainText_of_style hs
      rw [hplain hs]
      obtain ⟨c, rest, he⟩ := List.exists_cons_of_ne_nil htext.ne_nil
      rw [he]
      have hhead : x.key.head? = some c := congrArg List.head? he
      refine ⟨c, _, rfl, ?_, ?_⟩
      · rintro rfl
        exact htext.head_ne_space hhead
      · rintro rfl
        exact htext.head_ne (by decide) hhead
    · obtain ⟨ps, -, -, rfl, -⟩ := h
      cases hstyle : styleOf x.key with
      | plain => exact absurd hstyle hs
      | single => exact ⟨'\'', _, rfl, by decide, by decide⟩
      | double => exact ⟨'"', _, rfl, by decide, by decide⟩
  | long _ h => exact ⟨'?', _, rfl, by decide, by decide⟩

/-! ## Mappings -/

/-- The text of a mapping, from those of its items. -/
def mappingText : List Text → Text
  | [] => ['\x7b', '\x7d']
  | out :: outs => out ++ outs.flatMap ('\n' :: ·)

theorem mappingText_concat (outs : List Text) (out out' : Text) :
    mappingText (outs ++ [out] ++ [out']) = mappingText (outs ++ [out]) ++ '\n' :: out' := by
  cases outs <;> simp [mappingText]

theorem behind_items {xs : List Item} {outs : List Text} (h : List.Forall₂ Item.Shown xs outs) :
    Behind (outs.flatMap ('\n' :: ·)) := by
  cases h with
  | nil => exact Or.inl rfl
  | cons hx _ =>
    obtain ⟨c, rest, rfl, hc, -⟩ := hx.exists_cons
    exact Or.inr ⟨c, _, rfl, hc⟩

theorem items_inj {xs ys : List Item} {outs outs' : List Text}
    (h : List.Forall₂ Item.Shown xs outs) (h' : List.Forall₂ Item.Shown ys outs')
    (heq : outs.flatMap ('\n' :: ·) = outs'.flatMap ('\n' :: ·)) : xs = ys := by
  induction h generalizing ys outs' with
  | nil =>
    cases h' with
    | nil => rfl
    | cons _ _ => cases heq
  | cons hx hxs ih =>
    cases h' with
    | nil => cases heq
    | cons hy hys =>
      rw [List.flatMap_cons, List.flatMap_cons] at heq
      obtain ⟨rfl, hrest⟩ :=
        hx.append_inj hy (behind_items hxs) (behind_items hys) (List.cons.inj heq).2
      rw [ih hys hrest]

/-- A written mapping tells its items. -/
theorem mappingText_inj {xs ys : List Item} {outs outs' : List Text}
    (h : List.Forall₂ Item.Shown xs outs) (h' : List.Forall₂ Item.Shown ys outs')
    (heq : mappingText outs = mappingText outs') : xs = ys := by
  have hempty : ∀ {x : Item} {out r : Text}, x.Shown out → out ++ r ≠ mappingText [] := by
    rintro x out r hx he
    obtain ⟨c, rest, rfl, -, hc⟩ := hx.exists_cons
    exact hc (List.cons.inj he).1
  cases h with
  | nil =>
    cases h' with
    | nil => rfl
    | cons hy _ => exact absurd heq.symm (hempty hy)
  | cons hx hxs =>
    cases h' with
    | nil => exact absurd heq (hempty hx)
    | cons hy hys =>
      obtain ⟨rfl, hrest⟩ := hx.append_inj hy (behind_items hxs) (behind_items hys) heq
      rw [items_inj hxs hys hrest]

end Items

/-! ## What the emitter writes -/

theorem Pen.indent_of_settled {pen : Pen} (h : pen.Settled) :
    pen.indent 0 = pen.breakLine '\n' := by
  unfold indent
  rw [h.2]
  rfl

/-- The pen behind a key and its colon. -/
def keyPen (pen : Pen) (key : Text) : Pen :=
  let pen := pen.indent 0
  if isSimpleKey key then (writeScalar false pen key).indicate ':' false false
  else ((writeScalar true (pen.indicate '?' true true) key).indent 0).indicate ':' true true

theorem writeEntry_eq (pen : Pen) (key value : Text) :
    writeEntry pen key value = writeScalar true (keyPen pen key) value := by
  unfold writeEntry keyPen
  by_cases hkey : isSimpleKey key = true
  · simp only [if_pos hkey]
  · simp only [if_neg hkey]

theorem spaced_keyPen (pen : Pen) (key : Text) : (keyPen pen key).spaced = false := by
  unfold keyPen
  dsimp only
  split <;> rfl

theorem keyPen_shown {pen : Pen} (hspaced : (pen.indent 0).spaced = true) (key : Text) :
    ∃ k, KeyShown key k ∧ (keyPen pen key).text = (pen.indent 0).text ++ k := by
  unfold keyPen
  generalize pen.indent 0 = pen at hspaced
  by_cases hkey : isSimpleKey key = true
  · simp only [if_pos hkey]
    obtain ⟨k, hk, htext, -, hplain⟩ := writeScalar_shown false pen key
    refine ⟨k ++ [':'], .name hkey hk fun hs => hplain hs rfl, ?_⟩
    rw [Pen.text_indicate, htext]
    simp [lead, hspaced]
  · simp only [if_neg hkey]
    obtain ⟨k, hk, htext, hsettled, -⟩ :=
      writeScalar_shown true (pen.indicate '?' true true) key
    refine ⟨'?' :: ' ' :: (k ++ ['\n', ':']), .long (Bool.eq_false_iff.2 hkey) hk, ?_⟩
    rw [Pen.text_indicate, Pen.indent_of_settled hsettled, Pen.text_breakLine, htext,
      Pen.text_indicate]
    simp [lead, hspaced, Pen.indicate, Pen.breakLine]

/-- The item that an entry is written as. -/
def itemOf (e : Text × Text) : Item := ⟨e.1, styleOf e.2, e.2⟩

theorem itemOf_injective : Function.Injective itemOf := fun _ _ h =>
  Prod.ext (congrArg Item.key h) (congrArg Item.value h)

theorem writeEntry_shown {pen : Pen} (hspaced : (pen.indent 0).spaced = true) (e : Text × Text) :
    ∃ out, (itemOf e).Shown out ∧
      (writeEntry pen e.1 e.2).text = (pen.indent 0).text ++ out ∧
      (writeEntry pen e.1 e.2).Settled := by
  obtain ⟨k, hk, hktext⟩ := keyPen_shown hspaced e.1
  obtain ⟨v, hv, hvtext, hsettled, -⟩ := writeScalar_shown true (keyPen pen e.1) e.2
  rw [writeEntry_eq]
  refine ⟨k ++ ' ' :: v, ⟨k, _, hk, .scalar hv, rfl⟩, ?_, hsettled⟩
  rw [hvtext, hktext, lead, spaced_keyPen]
  simp

/-- The pen behind a row of entries. -/
def entriesPen (es : List (Text × Text)) : Pen :=
  es.foldl (fun pen e => writeEntry pen e.1 e.2) {}

theorem entriesPen_concat (es : List (Text × Text)) (e : Text × Text) :
    entriesPen (es ++ [e]) = writeEntry (entriesPen es) e.1 e.2 := by
  unfold entriesPen
  rw [List.foldl_append]
  rfl

theorem renderMapping_concat (es : List (Text × Text)) (e : Text × Text) :
    renderMapping (es ++ [e]) = (writeEntry (entriesPen es) e.1 e.2).text := by
  rw [← entriesPen_concat, renderMapping, if_neg (by simp)]
  rfl

/-- Behind a row of entries the pen is where a further item goes. -/
theorem entriesPen_shown (es : List (Text × Text)) :
    ∃ outs, List.Forall₂ Item.Shown (es.map itemOf) outs ∧
      ((entriesPen es).indent 0).spaced = true ∧
      ∀ out, ((entriesPen es).indent 0).text ++ out = mappingText (outs ++ [out]) := by
  induction es using List.reverseRecOn with
  | nil => exact ⟨[], .nil, rfl, fun out => (List.append_nil out).symm⟩
  | append_singleton es e ih =>
    obtain ⟨outs, houts, hspaced, htext⟩ := ih
    obtain ⟨out, hout, hwritten, hsettled⟩ := writeEntry_shown hspaced e
    rw [entriesPen_concat, Pen.indent_of_settled hsettled, Pen.text_breakLine, hwritten, htext]
    refine ⟨outs ++ [out], ?_, rfl, fun out' => ?_⟩
    · rw [List.map_append]
      exact List.rel_append houts (.cons hout .nil)
    · rw [mappingText_concat, List.append_assoc]
      rfl

/-- A mapping is written as the text of its items. -/
theorem renderMapping_shown (es : List (Text × Text)) :
    ∃ outs, List.Forall₂ Item.Shown (es.map itemOf) outs ∧
      renderMapping es = mappingText outs := by
  rcases List.eq_nil_or_concat es with rfl | ⟨es, e, rfl⟩
  · exact ⟨[], .nil, rfl⟩
  · obtain ⟨outs, houts, hspaced, htext⟩ := entriesPen_shown es
    obtain ⟨out, hout, hwritten, -⟩ := writeEntry_shown hspaced e
    refine ⟨outs ++ [out], ?_, ?_⟩
    · rw [List.concat_eq_append, List.map_append]
      exact List.rel_append houts (.cons hout .nil)
    · rw [List.concat_eq_append, renderMapping_concat, hwritten, htext]

/-- Before its end is trimmed, the text of a mapping tells its entries. -/
theorem renderMapping_injective : Function.Injective renderMapping := by
  intro es fs h
  obtain ⟨outs, houts, he⟩ := renderMapping_shown es
  obtain ⟨outs', houts', hf⟩ := renderMapping_shown fs
  rw [he, hf] at h
  exact List.map_injective_iff.2 itemOf_injective (mappingText_inj houts houts' h)

end LayeredSettings.Yaml
