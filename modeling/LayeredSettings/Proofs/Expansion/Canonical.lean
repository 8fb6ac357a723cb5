import LayeredSettings.Proofs.Expansion.Stack
import Mathlib.Data.List.Chain

/-!
# Canonical tokens

A template that is read to its end is a row of units (`Units`), and its tokens are canonical: a run
of text is not empty and no run stands behind another one. Canonical tokens and templates determine
each other (`tokens_eq_iff_written`).

1. A run of text is as long as it can be, so that no run starts behind it (`textRun_textRun`).
2. Canonical tokens are read off what is written for them, one after another (`tokens_written`).
3. A unit in front of a template makes its first run of text longer, or starts one (`pushChar`).
-/

namespace LayeredSettings.Template

/-- A row of units: characters other than dollars, doubled dollars, and markers, whose keys reach
to the first closing brace. -/
inductive Units : Text → Prop
  | nil : Units []
  | plain {c : Char} {t : Text} : c ≠ '$' → Units t → Units (c :: t)
  | dollar {t : Text} : Units t → Units ('$' :: '$' :: t)
  | marker {key t : Text} : '\x7d' ∉ key → Units t →
      Units ('$' :: '\x7b' :: (key ++ '\x7d' :: t))

def Token.isText : Token → Bool
  | text _ => true
  | marker _ => false

/-- Tokens as they are read: no run of text is empty, no run stands behind another one, and no key
has a closing brace. -/
structure Canonical (ts : List Token) : Prop where
  nonempty : .text [] ∉ ts
  apart : ts.IsChain fun a b => a.isText = true → b.isText = false
  writable : ∀ token ∈ ts, token.Writable

/-! ## Runs of text -/

/-- No run of text starts where one has ended. -/
theorem textRun_textRun (t : Text) : textRun (textRun t).2 = ([], (textRun t).2) := by
  fun_induction textRun t with
  | case1 => rfl
  | case2 rest r ih => exact ih
  | case3 rest h => rw [textRun.eq_3 _ _ h, if_pos rfl]
  | case4 c rest _ _ r ih => exact ih

theorem textRun_cons {c : Char} (hc : c ≠ '$') (t : Text) :
    textRun (c :: t) = (c :: (textRun t).1, (textRun t).2) := by
  rw [textRun.eq_3, if_neg hc]
  exact fun _ h _ => hc h

/-- Where no run of text starts, one that stands in front is read to its end. -/
theorem textRun_doubled_append {left : Text} (h : textRun left = ([], left)) (t : Text) :
    textRun (doubled t ++ left) = (t, left) := by
  induction t with
  | nil => exact h
  | cons c t ih =>
    by_cases hc : c = '$'
    · subst hc
      rw [doubled_dollar_cons, List.cons_append, List.cons_append, textRun, ih]
    · rw [doubled_cons hc, List.cons_append, textRun_cons hc, ih]

theorem textRun_of_next {t left u : Text} (h : next t = .ok (some (.text u, left))) :
    textRun t = (u, left) ∧ u ≠ [] := by
  unfold next at h
  split at h
  · cases h
  · split at h <;> cases h
  · cases h
    exact ⟨rfl, List.cons_ne_nil _ _⟩
  · split at h
    · cases h
    · next hc =>
      cases h
      exact ⟨textRun_cons hc _, List.cons_ne_nil _ _⟩

/-- A run of text that is not empty is read as a token. -/
theorem next_of_textRun {t left u : Text} (h : textRun t = (u, left)) (hu : u ≠ []) :
    next t = .ok (some (.text u, left)) := by
  unfold textRun at h
  split at h
  · cases h
    exact absurd rfl hu
  · cases h
    rfl
  · next c rest hdouble =>
    split at h
    · cases h
      exact absurd rfl hu
    · next hc =>
      cases h
      rw [next.eq_4, if_neg hc]
      · exact fun _ h _ => hc h
      · exact fun _ h _ => hc h

theorem next_markerText_append {key : Text} (h : '\x7d' ∉ key) (left : Text) :
    next (markerText key ++ left) = .ok (some (.marker key, left)) := by
  have hkey : markerKey? (key ++ '\x7d' :: left) = some (key, left) :=
    markerKey?_eq_some_iff.2 ⟨rfl, h⟩
  have hwritten : markerText key ++ left = '$' :: '\x7b' :: (key ++ '\x7d' :: left) := by
    simp [markerText]
  rw [hwritten, next, hkey]

/-! ## Canonical tokens are read -/

/-- What is written for tokens. -/
def written (ts : List Token) : Text := ts.flatMap Token.written

theorem Canonical.tail {token : Token} {ts : List Token} (h : Canonical (token :: ts)) :
    Canonical ts :=
  ⟨fun hm => h.nonempty (List.mem_cons_of_mem _ hm), h.apart.of_cons,
    fun other ho => h.writable other (List.mem_cons_of_mem _ ho)⟩

/-- No run of text starts behind a run of text. -/
theorem Canonical.textRun_behind {t : Text} {ts : List Token} (h : Canonical (.text t :: ts)) :
    textRun (written ts) = ([], written ts) := by
  cases ts with
  | nil => rfl
  | cons token ts =>
    cases token with
    | text u => exact absurd ((List.isChain_cons_cons.1 h.apart).1 rfl) (by simp [Token.isText])
    | marker key => rfl

/-- Canonical tokens are read off what is written for them. -/
theorem tokens_written {ts : List Token} (h : Canonical ts) : tokens (written ts) = (ts, none) := by
  induction ts with
  | nil => exact tokens_none rfl
  | cons token ts ih =>
    have hnext : next (written (token :: ts)) = .ok (some (token, written ts)) := by
      cases token with
      | text t =>
        refine next_of_textRun (textRun_doubled_append h.textRun_behind t) ?_
        rintro rfl
        exact h.nonempty List.mem_cons_self
      | marker key => exact next_markerText_append (h.writable _ List.mem_cons_self) _
    rw [tokens_some hnext, ih h.tail]

/-! ## Tokens that are read are canonical -/

theorem next_of_head?_tokens {t : Text} {token : Token} (h : token ∈ (tokens t).1.head?) :
    ∃ left, next t = .ok (some (token, left)) := by
  rw [tokens] at h
  split at h
  · cases h
  · cases h
  · next token' left hn =>
    cases h
    exact ⟨left, hn⟩

/-- The tokens of a template that is read to its end are canonical, and nothing is lost. -/
theorem canonical_of_tokens {t : Text} (h : (tokens t).2 = none) :
    Canonical (tokens t).1 ∧ t = written (tokens t).1 := by
  fun_induction tokens t with
  | case1 t e hn => cases h
  | case2 t hn => exact ⟨⟨List.not_mem_nil, .nil, by simp⟩, eq_nil_of_next hn⟩
  | case3 t token left hn r ih =>
    obtain ⟨hcanonical, hleft⟩ := ih h
    obtain ⟨ht, hwritable⟩ := eq_written_append_of_next hn
    refine ⟨⟨?_, ?_, List.forall_mem_cons.2 ⟨hwritable, hcanonical.writable⟩⟩, ?_⟩
    · intro hm
      rcases List.mem_cons.1 hm with rfl | hm
      · exact (textRun_of_next hn).2 rfl
      · exact hcanonical.nonempty hm
    · refine List.isChain_cons.2 ⟨?_, hcanonical.apart⟩
      intro b hb htoken
      obtain ⟨rest, hrest⟩ := next_of_head?_tokens hb
      cases token with
      | marker key => cases htoken
      | text u =>
        cases b with
        | marker key => rfl
        | text v =>
          -- the run `u` has ended where the run `v` starts
          obtain ⟨hrun, hv⟩ := textRun_of_next hrest
          have hend := textRun_textRun t
          rw [(textRun_of_next hn).1, hrun] at hend
          exact absurd (congrArg Prod.fst hend) hv
    · rw [ht]
      exact congrArg (token.written ++ ·) hleft

theorem tokens_eq_iff_written {t : Text} {ts : List Token} :
    tokens t = (ts, none) ↔ Canonical ts ∧ t = written ts := by
  constructor
  · intro h
    have hread := canonical_of_tokens (congrArg Prod.snd h)
    rw [h] at hread
    exact hread
  · rintro ⟨h, rfl⟩
    exact tokens_written h

/-! ## Units -/

/-- Tokens with one more character of text in front. -/
def pushChar (c : Char) : List Token → List Token
  | .text t :: ts => .text (c :: t) :: ts
  | ts => .text [c] :: ts

theorem written_pushChar (c : Char) (ts : List Token) :
    written (pushChar c ts) = doubled [c] ++ written ts := by
  unfold pushChar
  split
  · next t ts =>
    show doubled (c :: t) ++ written ts = doubled [c] ++ (doubled t ++ written ts)
    rw [← List.append_assoc, ← doubled_append]
    rfl
  · rfl

theorem Canonical.pushChar {ts : List Token} (h : Canonical ts) (c : Char) :
    Canonical (pushChar c ts) := by
  unfold Template.pushChar
  split
  · next t ts =>
    refine ⟨?_, ?_, List.forall_mem_cons.2 ⟨trivial, h.tail.writable⟩⟩
    · intro hm
      exact h.tail.nonempty ((List.mem_cons.1 hm).resolve_left (by simp))
    · have hcons := List.isChain_cons.1 h.apart
      exact List.isChain_cons.2 hcons
  · next hts =>
    refine ⟨?_, ?_, List.forall_mem_cons.2 ⟨trivial, h.writable⟩⟩
    · intro hm
      exact h.nonempty ((List.mem_cons.1 hm).resolve_left (by simp))
    · refine List.isChain_cons.2 ⟨?_, h.apart⟩
      intro b hb _
      cases b with
      | marker key => rfl
      | text u =>
        obtain ⟨ts', rfl⟩ := List.head?_eq_some_iff.1 hb
        exact absurd rfl (hts u ts')

theorem Units.doubled_append {t : Text} (h : Units t) (u : Text) : Units (doubled u ++ t) := by
  induction u with
  | nil => exact h
  | cons c u ih =>
    by_cases hc : c = '$'
    · subst hc
      exact .dollar ih
    · rw [doubled_cons hc]
      exact .plain hc ih

/-- What is written for tokens is a row of units. -/
theorem units_written {ts : List Token} (h : ∀ token ∈ ts, token.Writable) :
    Units (written ts) := by
  induction ts with
  | nil => exact .nil
  | cons token ts ih =>
    obtain ⟨htoken, hts⟩ := List.forall_mem_cons.1 h
    cases token with
    | text t => exact (ih hts).doubled_append t
    | marker key =>
      have hunits := Units.marker htoken (ih hts)
      show Units (markerText key ++ written ts)
      simpa [markerText] using hunits

theorem Units.exists_canonical {t : Text} (h : Units t) : ∃ ts, Canonical ts ∧ t = written ts := by
  induction h with
  | nil => exact ⟨[], ⟨List.not_mem_nil, .nil, by simp⟩, rfl⟩
  | @plain c t hc _ ih =>
    obtain ⟨ts, hts, rfl⟩ := ih
    refine ⟨pushChar c ts, hts.pushChar c, ?_⟩
    rw [written_pushChar, doubled_cons hc]
    rfl
  | dollar _ ih =>
    obtain ⟨ts, hts, rfl⟩ := ih
    exact ⟨pushChar '$' ts, hts.pushChar '$', (written_pushChar '$' ts).symm⟩
  | @marker key t hkey _ ih =>
    obtain ⟨ts, hts, rfl⟩ := ih
    refine ⟨.marker key :: ts, ⟨?_, ?_, List.forall_mem_cons.2 ⟨hkey, hts.writable⟩⟩, ?_⟩
    · intro hm
      exact hts.nonempty ((List.mem_cons.1 hm).resolve_left (by simp))
    · refine List.isChain_cons.2 ⟨?_, hts.apart⟩
      intro b _ hmarker
      cases hmarker
    · show _ = markerText key ++ written ts
      simp [markerText]

theorem units_iff {t : Text} : Units t ↔ ∃ ts, tokens t = (ts, none) := by
  simp only [tokens_eq_iff_written]
  constructor
  · exact Units.exists_canonical
  · rintro ⟨ts, hts, rfl⟩
    exact units_written hts.writable

theorem wellFormed_iff_units {t : Text} : WellFormed t ↔ Units t := by
  rw [units_iff, WellFormed]
  constructor
  · exact fun h => ⟨(tokens t).1, by rw [← h]⟩
  · rintro ⟨ts, hts⟩
    rw [hts]

/-- A template is read to its end exactly if it is a row of units. Its tokens are then canonical and
are written as the template is, and canonical tokens are read off what is written for them. Text
with its dollars doubled is expanded to itself, and no key is looked up for it. -/
theorem tokens_lossless :
    (∀ t, WellFormed t ↔ Units t) ∧
    (∀ t ts, tokens t = (ts, none) ↔ Canonical ts ∧ t = written ts) ∧
    ∀ {σ ε : Type} [Expansion.Faults ε] (resolve : Expansion.Resolver σ ε)
      (ceiling : Expansion.Ceiling) (scope : σ) (t : Text),
      Expansion.expand resolve ceiling scope (doubled t) = ⟨[], .ok t⟩ := by
  refine ⟨fun _ => wellFormed_iff_units, fun _ _ => tokens_eq_iff_written, ?_⟩
  intro σ ε _ resolve ceiling scope t
  rw [Expansion.expand_eq_meaning, Expansion.meaning_ofText, Expansion.evaluate_doubled]

/-- Dollars in a row, and a dollar and a brace inside a marker. -/
example : tokens "$$$$a$$$\x7b$\x7bk\x7d".toList =
    ([.text "$$a$".toList, .marker "$\x7bk".toList], none) := by
  decide +kernel

end LayeredSettings.Template
