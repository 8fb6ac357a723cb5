import LayeredSettings.Proofs.Expansion.Renaming
import LayeredSettings.Proofs.Expansion.Stack

/-!
# Templates in a row

A well-formed template is read to its end whatever stands behind it. The text around the seam may
be read as one run, but it means what its two parts mean (`evaluate_append`). Two templates in a
row are therefore expanded one after the other (`expand_append`). What an error quotes is the whole
row where it would quote the second template (`evaluate_requoted`).
-/

namespace LayeredSettings.Expansion

variable {σ ε : Type} [Faults ε]

/-- Two traces that are equal but for the template that an error quotes. -/
inductive Requoted (t t' : Text) : Trace σ ε → Trace σ ε → Prop
  | same (r : Trace σ ε) : Requoted t t' r r
  | quoted (calls : List (σ × Text)) (fault : Template.Fault) :
      Requoted t t' ⟨calls, .error (Faults.ofTemplate t fault)⟩
        ⟨calls, .error (Faults.ofTemplate t' fault)⟩

namespace Requoted

variable {t t' : Text} {r r' : Trace σ ε}

theorem calls_eq (h : Requoted t t' r r') : r'.calls = r.calls := by
  cases h <;> rfl

theorem result_eq_ok_iff (h : Requoted t t' r r') (y : Text) :
    r'.result = .ok y ↔ r.result = .ok y := by
  cases h with
  | same => rfl
  | quoted calls fault => exact iff_of_false (by simp) (by simp)

theorem result_eq_error (h : Requoted t t' r r') {e : ε} (hr : r.result = .error e) :
    r'.result = .error e ∨
      ∃ fault, e = Faults.ofTemplate t fault ∧
        r'.result = .error (Faults.ofTemplate t' fault) := by
  cases h with
  | same => exact .inl hr
  | quoted calls fault => exact .inr ⟨fault, (Except.error.inj hr).symm, rfl⟩

end Requoted

section Evaluate

variable (resolve : Resolver σ ε) (ceiling depth : Nat) (scope : σ) (template : Text)

/-- The text in front of a seam means what it means alone, and so does the text behind it. -/
theorem evaluate_append {t : Text} (h : Template.WellFormed t) (u : Text) :
    evaluate resolve ceiling depth scope template (t ++ u) =
      (evaluate resolve ceiling depth scope template t).andThen
        (evaluate resolve ceiling depth scope template u) := by
  unfold Template.WellFormed at h
  fun_induction Template.tokens t with
  | case1 t e hn => cases h
  | case2 t hn =>
    obtain rfl := Template.eq_nil_of_next hn
    rw [evaluate_none _ _ _ _ _ hn, Trace.done_andThen, List.nil_append]
  | case3 t token left hn r ih =>
    obtain ⟨rfl, hwritable⟩ := Template.eq_written_append_of_next hn
    rw [List.append_assoc]
    cases token with
    | text v =>
      rw [Template.Token.written, evaluate_doubled_append, evaluate_doubled_append, ih h,
        Trace.write_andThen]
    | marker key =>
      rw [Template.Token.written, evaluate_markerText_append _ _ _ _ _ hwritable,
        evaluate_markerText_append _ _ _ _ _ hwritable, ih h, Trace.andThen_assoc]

/-- A template with an expansion is well formed. -/
theorem wellFormed_of_result_eq_ok {t x : Text}
    (h : (evaluate resolve ceiling depth scope template t).result = .ok x) :
    Template.WellFormed t := by
  rw [evaluate_eq_fill_andThen, Trace.result_andThen] at h
  unfold Template.WellFormed
  cases hfault : (Template.tokens t).2 with
  | none => rfl
  | some fault =>
    rw [hfault] at h
    cases hfill : (fill (enter resolve ceiling depth scope) (Template.tokens t).1).result with
    | error e => rw [hfill] at h; cases h
    | ok v => rw [hfill] at h; cases h

/-- The template that text is read in shows in nothing but the errors that quote it. -/
theorem evaluate_requoted (template' left : Text) :
    Requoted template template' (evaluate resolve ceiling depth scope template left)
      (evaluate resolve ceiling depth scope template' left) := by
  rw [evaluate_eq_fill_andThen, evaluate_eq_fill_andThen]
  cases (Template.tokens left).2 with
  | none => exact .same _
  | some fault =>
    rcases fill (enter resolve ceiling depth scope) (Template.tokens left).1 with ⟨calls, e | x⟩
    · exact .same _
    · exact .quoted (calls ++ []) fault

end Evaluate

variable (resolve : Resolver σ ε) (ceiling : Ceiling) (scope : σ)

/-- A template with an expansion, and any other one behind it: the row makes the calls of the first
and then those of the second. It has an expansion if and only if the second has one, and it is then
the two texts in a row. Otherwise the row ends in the error of the second, unless that quotes the
second template; then it may quote the row instead. -/
theorem expand_append {t x : Text} (ht : (expand resolve ceiling scope t).result = .ok x)
    (u : Text) :
    (expand resolve ceiling scope (t ++ u)).calls =
      (expand resolve ceiling scope t).calls ++ (expand resolve ceiling scope u).calls ∧
    (∀ z, (expand resolve ceiling scope (t ++ u)).result = .ok z ↔
      ∃ y, (expand resolve ceiling scope u).result = .ok y ∧ x ++ y = z) ∧
    ∀ e, (expand resolve ceiling scope u).result = .error e →
      (expand resolve ceiling scope (t ++ u)).result = .error e ∨
      ∃ fault, e = Faults.ofTemplate u fault ∧
        (expand resolve ceiling scope (t ++ u)).result =
          .error (Faults.ofTemplate (t ++ u) fault) := by
  have hwell : Template.WellFormed t := by
    rw [expand_eq_meaning, meaning_ofText] at ht
    exact wellFormed_of_result_eq_ok _ _ _ _ _ ht
  have hrow : expand resolve ceiling scope (t ++ u) =
      (expand resolve ceiling scope t).andThen
        (evaluate resolve ceiling.depth 1 scope (t ++ u) u) := by
    rw [expand_eq_meaning, meaning_ofText, expand_eq_meaning, meaning_ofText,
      evaluate_append _ _ _ _ _ hwell,
      evaluate_eq_fill _ _ _ _ _ hwell, evaluate_eq_fill _ _ _ _ _ hwell]
  have hsecond := evaluate_requoted resolve ceiling.depth 1 scope u (t ++ u) u
  rw [← meaning_ofText, ← expand_eq_meaning] at hsecond
  have hresult : (expand resolve ceiling scope (t ++ u)).result =
      ((evaluate resolve ceiling.depth 1 scope (t ++ u) u).write x).result := by
    rw [hrow, Trace.andThen_of_ok ht]
    rfl
  refine ⟨?_, fun z => ?_, fun e he => ?_⟩
  · rw [hrow, Trace.andThen_of_ok ht, ← hsecond.calls_eq]
    rfl
  · rw [hresult, Trace.result_write_eq_ok_iff]
    exact exists_congr fun y => and_congr_left fun _ => hsecond.result_eq_ok_iff y
  · rw [hresult, Trace.write]
    rcases hsecond.result_eq_error he with hsame | ⟨fault, rfl, hquoted⟩
    · rw [hsame]
      exact .inl rfl
    · rw [hquoted]
      exact .inr ⟨fault, rfl, rfl⟩

/-- Every marker stands for its own key. -/
def echo : Resolver Unit := fun _ key => .ok (key, ())

/-- A doubled dollar in front of the seam opens no marker behind it, and leaves the markers behind
it as they are. -/
theorem expand_append_doubled :
    (expand echo .standard () "a$$".toList).result = .ok "a$".toList ∧
    (expand echo .standard () ("a$$".toList ++ "\x7bk\x7d".toList)).result =
      .ok "a$\x7bk\x7d".toList ∧
    (expand echo .standard () ("a$$".toList ++ "$\x7bk\x7d$".toList)).calls =
      [((), "k".toList)] := by
  have hfirst : expand echo .standard () "a$$".toList = ⟨[], .ok "a$".toList⟩ := by
    rw [expand_eq_meaning, meaning_ofText]
    exact evaluate_doubled _ _ _ _ _ "a$".toList
  have hbrace : expand echo .standard () "\x7bk\x7d".toList = ⟨[], .ok "\x7bk\x7d".toList⟩ := by
    rw [expand_eq_meaning, meaning_ofText]
    exact evaluate_doubled _ _ _ _ _ "\x7bk\x7d".toList
  have hmarker : (expand echo .standard () "$\x7bk\x7d$".toList).calls = [((), "k".toList)] := by
    have hk : '\x7d' ∉ "k".toList := by decide
    have hvalue : enter echo 16 1 () "k".toList = ⟨[((), "k".toList)], .ok "k".toList⟩ :=
      congrArg (Trace.record [((), "k".toList)]) (evaluate_doubled _ _ _ _ _ "k".toList)
    rw [expand_eq_meaning, meaning_ofText]
    show (evaluate echo 16 1 () _ (Template.markerText "k".toList ++ ['$'])).calls = _
    rw [evaluate_markerText_append _ _ _ _ _ hk, hvalue, evaluate_error _ _ _ _ _ rfl]
    rfl
  have ht := congrArg Trace.result hfirst
  refine ⟨ht, ?_, ?_⟩
  · exact ((expand_append echo .standard () ht _).2.1 _).2 ⟨_, congrArg Trace.result hbrace, rfl⟩
  · rw [(expand_append echo .standard () ht _).1, hfirst, hmarker]
    rfl

end LayeredSettings.Expansion
