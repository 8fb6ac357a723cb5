import LayeredSettings.Text.Quoted

/-!
# The language of quoted literals

The body of a literal stands for a text: six characters may be escaped, and quotes and backslashes
must be (`Body`). A literal is read to its closing quote exactly if what stands before that quote is
a body (`Body.scan_append`, `exists_body_of_scan`).
-/

namespace LayeredSettings.Quoted

/-- The signs that may stand behind a backslash, each with the character it stands for. -/
def escapes : List (Char × Char) :=
  [('b', '\x08'), ('t', '\t'), ('n', '\n'), ('r', '\r'), ('"', '"'), ('\\', '\\')]

/-- The body of a literal, and the text it stands for. -/
inductive Body : Text → Text → Prop
  | nil : Body [] []
  | plain {c : Char} {b t : Text} : c ≠ '"' → c ≠ '\\' → Body b t → Body (c :: b) (c :: t)
  | escape {e c : Char} {b t : Text} : (e, c) ∈ escapes → Body b t →
      Body ('\\' :: e :: b) (c :: t)

theorem unescape?_eq_some_iff {e c : Char} : unescape? e = some c ↔ (e, c) ∈ escapes := by
  constructor
  · intro h
    unfold unescape? at h
    repeat' split at h
    all_goals first
      | (cases h; subst_vars; decide)
      | cases h
  · intro h
    simp only [escapes, List.mem_cons, List.not_mem_nil, or_false, Prod.mk.injEq] at h
    rcases h with ⟨rfl, rfl⟩ | ⟨rfl, rfl⟩ | ⟨rfl, rfl⟩ | ⟨rfl, rfl⟩ | ⟨rfl, rfl⟩ | ⟨rfl, rfl⟩ <;>
      decide

/-- A body is read to the quote behind it, whatever follows. -/
theorem Body.scan_append {b t : Text} (h : Body b t) (rest : Text) :
    scan (b ++ '"' :: rest) = ⟨t, b ++ ['"'], rest, .closed⟩ := by
  induction h with
  | nil => rfl
  | plain hq hb _ ih => rw [List.cons_append, scan_other hq hb, ih]; rfl
  | escape he _ ih =>
    rw [List.cons_append, List.cons_append, scan, unescape?_eq_some_iff.2 he]
    simp only [ih]
    rfl

/-- What is read up to a closing quote is a body. -/
theorem exists_body_of_scan {t : Text} (h : (scan t).close = .closed) :
    ∃ b, Body b (scan t).decoded ∧ (scan t).taken = b ++ ['"'] := by
  fun_induction scan t with
  | case1 => cases h
  | case2 rest => exact ⟨[], .nil, rfl⟩
  | case3 => cases h
  | case4 e rest c hc ih =>
    obtain ⟨b, hb, htaken⟩ := ih h
    refine ⟨'\\' :: e :: b, .escape (unescape?_eq_some_iff.1 hc) hb, ?_⟩
    simp only [Scan.cons, htaken]
    rfl
  | case5 e rest hc => cases h
  | case6 c rest hq hend hescape ih =>
    have hc : c ≠ '\\' := by
      intro hc
      cases rest with
      | nil => exact hend hc rfl
      | cons e rest => exact hescape e rest hc rfl
    obtain ⟨b, hb, htaken⟩ := ih h
    refine ⟨c :: b, .plain hq hc hb, ?_⟩
    simp only [Scan.cons, htaken]
    rfl

end LayeredSettings.Quoted
