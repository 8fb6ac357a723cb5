import LayeredSettings.Text.Basic

/-!
# Templates

A template is text with markers: `${key}` stands for a setting and `$$` for a dollar. Any other
dollar is malformed. There is no escape inside the braces: a key reaches to the next brace.
`length_next_lt` says that a template has finitely many tokens.
-/

namespace LayeredSettings.Template

/-- A run of text with its dollars undoubled, or a marker with its key. -/
inductive Token where
  | text (t : Text)
  | marker (key : Text)
  deriving DecidableEq, Repr

inductive Fault where
  | malformed
  | unterminated
  deriving DecidableEq, Repr

/-- The longest run of text, and what is left. A run ends before a dollar that is not doubled. -/
def textRun : Text → Text × Text
  | [] => ([], [])
  | '$' :: '$' :: rest =>
    let r := textRun rest
    ('$' :: r.1, r.2)
  | c :: rest =>
    if c = '$' then ([], c :: rest)
    else
      let r := textRun rest
      (c :: r.1, r.2)

/-- The key of a marker whose opening is taken, and what is left behind its closing brace. -/
def markerKey? : Text → Option (Text × Text)
  | [] => none
  | c :: rest =>
    if c = '\x7d' then some ([], rest)
    else (markerKey? rest).map fun r => (c :: r.1, r.2)

/-- The next token with what is left behind it, or none at the end of the template. -/
def next : Text → Except Fault (Option (Token × Text))
  | [] => .ok none
  | '$' :: '\x7b' :: rest =>
    match markerKey? rest with
    | some (key, left) => .ok (some (.marker key, left))
    | none => .error .unterminated
  | '$' :: '$' :: rest =>
    let r := textRun rest
    .ok (some (.text ('$' :: r.1), r.2))
  | c :: rest =>
    if c = '$' then .error .malformed
    else
      let r := textRun rest
      .ok (some (.text (c :: r.1), r.2))

/-! ## Progress -/

theorem length_textRun_le (t : Text) : (textRun t).2.length ≤ t.length := by
  fun_induction textRun t <;> simp_all +zetaDelta <;> omega

theorem length_markerKey_lt {t key left : Text} (h : markerKey? t = some (key, left)) :
    left.length < t.length := by
  induction t generalizing key left with
  | nil => cases h
  | cons c rest ih =>
    unfold markerKey? at h
    split at h
    · cases h
      simp
    · obtain ⟨r, hr, he⟩ := Option.map_eq_some_iff.1 h
      cases he
      have := ih hr
      simp only [List.length_cons]
      omega

/-- Every token takes at least one character. -/
theorem length_next_lt {t left : Text} {token : Token} (h : next t = .ok (some (token, left))) :
    left.length < t.length := by
  unfold next at h
  split at h
  · cases h
  · split at h
    · next hk =>
      cases h
      have := length_markerKey_lt hk
      simp only [List.length_cons]
      omega
    · cases h
  · cases h
    exact Nat.lt_of_le_of_lt (length_textRun_le _) (by simp only [List.length_cons]; omega)
  · split at h
    · cases h
    · cases h
      exact Nat.lt_succ_of_le (length_textRun_le _)

end LayeredSettings.Template
