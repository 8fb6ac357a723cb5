import LayeredSettings.Expansion.Template

/-!
# The tokens of a template

A template as the run of its tokens and the fault, if any, that ends the run. The markers of a
well-formed template are the only places where its expansion asks for a setting. A token is read
off what is written for it (`eq_written_append_of_next`).
-/

namespace LayeredSettings.Template

/-- A marker's key is what stands before the first brace. -/
theorem markerKey?_eq_some_iff {t key left : Text} :
    markerKey? t = some (key, left) ↔ t = key ++ '\x7d' :: left ∧ '\x7d' ∉ key := by
  induction t generalizing key with
  | nil => simp [markerKey?]
  | cons c rest ih =>
    unfold markerKey?
    by_cases hc : c = '\x7d'
    · subst hc
      rw [if_pos rfl]
      constructor
      · intro h
        cases h
        exact ⟨rfl, List.not_mem_nil⟩
      · rintro ⟨h, hk⟩
        cases key with
        | nil => cases h; rfl
        | cons d key => cases h; exact absurd List.mem_cons_self hk
    · rw [if_neg hc, Option.map_eq_some_iff]
      constructor
      · rintro ⟨⟨k, l⟩, hr, he⟩
        cases he
        obtain ⟨rfl, hk⟩ := ih.1 hr
        exact ⟨rfl, by simp [hk, Ne.symm hc]⟩
      · rintro ⟨h, hk⟩
        cases key with
        | nil => cases h; exact absurd rfl hc
        | cons d key =>
          cases h
          exact ⟨(key, left), ih.2 ⟨rfl, fun hm => hk (List.mem_cons_of_mem _ hm)⟩, rfl⟩

theorem markerKey?_eq_none_iff {t : Text} : markerKey? t = none ↔ '\x7d' ∉ t := by
  induction t with
  | nil => simp [markerKey?]
  | cons c rest ih =>
    unfold markerKey?
    by_cases hc : c = '\x7d'
    · simp [hc]
    · rw [if_neg hc, Option.map_eq_none_iff, ih]
      simp [Ne.symm hc]

/-! ## Runs of tokens -/

/-- The tokens of a template up to its end or its first fault, and that fault. -/
def tokens (t : Text) : List Token × Option Fault :=
  match _h : next t with
  | .error e => ([], some e)
  | .ok none => ([], none)
  | .ok (some (token, left)) =>
    let r := tokens left
    (token :: r.1, r.2)
termination_by t.length
decreasing_by exact length_next_lt _h

theorem tokens_none {t : Text} (h : next t = .ok none) : tokens t = ([], none) := by
  rw [tokens]
  split <;> simp_all

theorem tokens_some {t left : Text} {token : Token} (h : next t = .ok (some (token, left))) :
    tokens t = (token :: (tokens left).1, (tokens left).2) := by
  rw [tokens]
  split <;> simp_all

/-- Every dollar of the template is doubled or opens a marker that is closed. -/
def WellFormed (t : Text) : Prop := (tokens t).2 = none

/-- The keys of the markers among some tokens. -/
def keys : List Token → List Text
  | [] => []
  | .text _ :: ts => keys ts
  | .marker key :: ts => key :: keys ts

def markers (t : Text) : List Text := keys (tokens t).1

/-! ## Written forms -/

/-- Text as it is written in a template, with its dollars doubled. -/
def doubled (t : Text) : Text := t.flatMap fun c => if c = '$' then ['$', '$'] else [c]

theorem doubled_dollar_cons (t : Text) : doubled ('$' :: t) = '$' :: '$' :: doubled t := rfl

theorem doubled_cons {c : Char} (hc : c ≠ '$') (t : Text) : doubled (c :: t) = c :: doubled t := by
  rw [doubled, List.flatMap_cons, if_neg hc]
  rfl

theorem doubled_append (t u : Text) : doubled (t ++ u) = doubled t ++ doubled u :=
  List.flatMap_append

/-- A marker as it is written. -/
def markerText (key : Text) : Text := '$' :: '\x7b' :: (key ++ ['\x7d'])

namespace Token

/-- A token as it is written. -/
def written : Token → Text
  | text t => doubled t
  | marker key => markerText key

/-- The key of a marker does not go beyond a closing brace. -/
def Writable : Token → Prop
  | text _ => True
  | marker key => '\x7d' ∉ key

end Token

theorem doubled_textRun (t : Text) : doubled (textRun t).1 ++ (textRun t).2 = t := by
  fun_induction textRun t with
  | case1 => rfl
  | case2 rest r ih => exact congrArg ('$' :: '$' :: ·) ih
  | case3 rest _ => rfl
  | case4 c rest _ hc r ih =>
    rw [doubled_cons hc]
    exact congrArg (c :: ·) ih

theorem eq_nil_of_next {t : Text} (h : next t = .ok none) : t = [] := by
  unfold next at h
  split at h
  · rfl
  · split at h <;> cases h
  · cases h
  · split at h <;> cases h

/-- A token is read off its written form. -/
theorem eq_written_append_of_next {t left : Text} {token : Token}
    (h : next t = .ok (some (token, left))) : t = token.written ++ left ∧ token.Writable := by
  unfold next at h
  split at h
  · cases h
  · split at h
    · next hk =>
      cases h
      obtain ⟨rfl, hkey⟩ := markerKey?_eq_some_iff.1 hk
      exact ⟨by simp [Token.written, markerText], hkey⟩
    · cases h
  · next rest =>
    cases h
    exact ⟨(congrArg ('$' :: '$' :: ·) (doubled_textRun rest)).symm, trivial⟩
  · next c rest _ _ =>
    split at h
    · cases h
    · next hc =>
      cases h
      refine ⟨?_, trivial⟩
      rw [Token.written, doubled_cons hc, List.cons_append, doubled_textRun]

/-! ### A marker alone -/

theorem tokens_markerText {key : Text} (h : '\x7d' ∉ key) :
    tokens (markerText key) = ([.marker key], none) := by
  have hkey : markerKey? (key ++ ['\x7d']) = some (key, []) := markerKey?_eq_some_iff.2 ⟨rfl, h⟩
  have hnext : next (markerText key) = .ok (some (.marker key, [])) := by
    rw [markerText, next, hkey]
  rw [tokens_some hnext, tokens_none rfl]

theorem wellFormed_markerText {key : Text} (h : '\x7d' ∉ key) : WellFormed (markerText key) := by
  rw [WellFormed, tokens_markerText h]

theorem markers_markerText {key : Text} (h : '\x7d' ∉ key) : markers (markerText key) = [key] := by
  rw [markers, tokens_markerText h]
  rfl

end LayeredSettings.Template
