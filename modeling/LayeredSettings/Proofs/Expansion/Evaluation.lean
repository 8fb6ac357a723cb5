import LayeredSettings.Expansion.Evaluation
import LayeredSettings.Proofs.Expansion.Template

/-!
# Evaluation by tokens

`evaluate` reads characters and the frames read tokens. `evaluate_doubled_append` and
`evaluate_markerText_append` say what a written token contributes to the meaning of the template it
starts, and `evaluate_text` and `evaluate_marker` what a token that was read does; with the laws of
traces they are all that the other modules use of `evaluate`. `evaluate_eq_fill` puts them together
for a well-formed template: its meaning depends on the meanings of its markers and on nothing else.
-/

namespace LayeredSettings.Expansion

variable {σ ε : Type}

/-! ## Traces -/

namespace Trace

/-- A trace that calls nothing and ends in an error. -/
abbrev fail (e : ε) : Trace σ ε := ⟨[], .error e⟩

abbrev done : Trace σ ε := ⟨[], .ok []⟩

@[simp] theorem write_nil (r : Trace σ ε) : r.write [] = r := by
  rcases r with ⟨calls, e | t⟩ <;> rfl

@[simp] theorem write_fail (t : Text) (e : ε) : (fail e : Trace σ ε).write t = fail e := rfl

theorem write_write (t u : Text) (r : Trace σ ε) : (r.write u).write t = r.write (t ++ u) := by
  rcases r with ⟨calls, e | v⟩
  · rfl
  · simp only [write, Except.map, List.append_assoc]

@[simp] theorem record_nil (r : Trace σ ε) : r.record [] = r := rfl

theorem record_record (cs ds : List (σ × Text)) (r : Trace σ ε) :
    (r.record ds).record cs = r.record (cs ++ ds) := by
  simp only [record, List.append_assoc]

theorem record_write (t : Text) (cs : List (σ × Text)) (r : Trace σ ε) :
    (r.write t).record cs = (r.record cs).write t := rfl

theorem andThen_of_error {r : Trace σ ε} {e : ε} (h : r.result = .error e) (next : Trace σ ε) :
    r.andThen next = r := by
  unfold andThen
  rw [h]

theorem andThen_of_ok {r : Trace σ ε} {t : Text} (h : r.result = .ok t) (next : Trace σ ε) :
    r.andThen next = (next.write t).record r.calls := by
  unfold andThen
  rw [h]

@[simp] theorem fail_andThen (e : ε) (r : Trace σ ε) : (fail e).andThen r = fail e := rfl

@[simp] theorem done_andThen (r : Trace σ ε) : done.andThen r = r := by
  show (r.write []).record [] = r
  rw [write_nil, record_nil]

@[simp] theorem andThen_done (r : Trace σ ε) : r.andThen done = r := by
  rcases r with ⟨calls, e | t⟩
  · rfl
  · simp [andThen, write, record, Except.map]

theorem write_andThen (t : Text) (r next : Trace σ ε) :
    (r.write t).andThen next = (r.andThen next).write t := by
  rcases r with ⟨calls, e | u⟩
  · rfl
  · show (next.write (t ++ u)).record calls = ((next.write u).record calls).write t
    rw [← record_write, write_write]

theorem record_andThen (cs : List (σ × Text)) (r next : Trace σ ε) :
    (r.record cs).andThen next = (r.andThen next).record cs := by
  rcases r with ⟨calls, e | u⟩
  · rfl
  · show (next.write u).record (cs ++ calls) = ((next.write u).record calls).record cs
    rw [record_record]

theorem andThen_assoc (r s t : Trace σ ε) : (r.andThen s).andThen t = r.andThen (s.andThen t) := by
  rcases r with ⟨calls, e | u⟩
  · rfl
  · show ((s.write u).record calls).andThen t = ((s.andThen t).write u).record calls
    rw [record_andThen, write_andThen]

theorem result_write_eq_ok_iff {t u : Text} {r : Trace σ ε} :
    (r.write t).result = .ok u ↔ ∃ v, r.result = .ok v ∧ t ++ v = u := by
  rcases r with ⟨calls, e | v⟩
  · exact iff_of_false (by simp [write, Except.map]) (by simp)
  · simp [write, Except.map]

/-- What two traces in a row end in. -/
theorem result_andThen (r next : Trace σ ε) :
    (r.andThen next).result = r.result.bind fun t => next.result.map (t ++ ·) := by
  rcases r with ⟨calls, e | u⟩ <;> rfl

end Trace

section Evaluate

variable [Faults ε] (resolve : Resolver σ ε) (ceiling depth : Nat) (scope : σ) (template : Text)

/-- What a marker contributes at the given depth. -/
def enter (key : Text) : Trace σ ε :=
  if depth < ceiling then
    match resolve scope key with
    | .error e => ⟨[(scope, key)], .error e⟩
    | .ok (value, inner) =>
      (evaluate resolve ceiling (depth + 1) inner value value).record [(scope, key)]
  else .fail (Faults.depthLimit ceiling)

/-- A marker stands for what `enter` gives, and the template goes on behind it. -/
theorem evaluate_markerText_append {key : Text} (hk : '\x7d' ∉ key) (left : Text) :
    evaluate resolve ceiling depth scope template (Template.markerText key ++ left) =
      (enter resolve ceiling depth scope key).andThen
        (evaluate resolve ceiling depth scope template left) := by
  have hp : ∀ c ∈ key, decide (c ≠ '\x7d') = true := by
    intro c hc
    exact decide_eq_true fun h => hk (h ▸ hc)
  have htake : (key ++ '\x7d' :: left).takeWhile (· ≠ '\x7d') = key := by
    rw [List.takeWhile_append_of_pos hp]
    simp
  have hdrop : ((key ++ '\x7d' :: left).dropWhile (· ≠ '\x7d')).tail = left := by
    rw [List.dropWhile_append_of_pos hp]
    simp
  have hwritten : Template.markerText key ++ left = '$' :: '\x7b' :: (key ++ '\x7d' :: left) := by
    simp [Template.markerText]
  rw [hwritten, evaluate, dif_pos (by simp)]
  simp only [htake, hdrop]
  unfold enter
  by_cases hd : depth < ceiling
  · cases resolve scope key <;> rw [dif_pos hd, if_pos hd]
  · rw [dif_neg hd, if_neg hd]

/-- Text with its dollars doubled stands for itself. -/
theorem evaluate_doubled_append (t left : Text) :
    evaluate resolve ceiling depth scope template (Template.doubled t ++ left) =
      (evaluate resolve ceiling depth scope template left).write t := by
  induction t with
  | nil => exact (Trace.write_nil _).symm
  | cons c t ih =>
    by_cases hc : c = '$'
    · subst hc
      rw [Template.doubled_dollar_cons, List.cons_append, List.cons_append, evaluate, ih,
        Trace.write_write]
      rfl
    · rw [Template.doubled_cons hc, List.cons_append, evaluate, if_neg hc, ih, Trace.write_write]
      · rfl
      · intro _ h _
        exact hc h
      · intro _ h _
        exact hc h

theorem evaluate_markerText {key : Text} (hk : '\x7d' ∉ key) :
    evaluate resolve ceiling depth scope template (Template.markerText key) =
      enter resolve ceiling depth scope key := by
  have h := evaluate_markerText_append resolve ceiling depth scope template hk []
  rw [List.append_nil, evaluate] at h
  exact h.trans (Trace.andThen_done _)

theorem evaluate_doubled (t : Text) :
    evaluate resolve ceiling depth scope template (Template.doubled t) = ⟨[], .ok t⟩ := by
  have h := evaluate_doubled_append resolve ceiling depth scope template t []
  rw [List.append_nil, evaluate] at h
  simp [h, Trace.write, Except.map]

variable {left left' : Text}

theorem evaluate_error {e : Template.Fault} (h : Template.next left = .error e) :
    evaluate resolve ceiling depth scope template left = .fail (Faults.ofTemplate template e) := by
  unfold Template.next at h
  split at h
  · cases h
  · next rest =>
    split at h
    · cases h
    · next hk =>
      cases h
      rw [evaluate, dif_neg (Template.markerKey?_eq_none_iff.1 hk)]
  · cases h
  · next c rest h₁ h₂ =>
    split at h
    · next hc =>
      cases h
      rw [evaluate, if_pos hc]
      · intro r h₃ h₄
        exact h₂ r h₃ h₄
      · intro r h₃ h₄
        exact h₁ r h₃ h₄
    · cases h

theorem evaluate_none (h : Template.next left = .ok none) :
    evaluate resolve ceiling depth scope template left = .done := by
  unfold Template.next at h
  split at h
  · rw [evaluate]
  · split at h <;> cases h
  · cases h
  · split at h <;> cases h

/-- A run of text stands for itself, its dollars undoubled. -/
theorem evaluate_text {t : Text} (h : Template.next left = .ok (some (.text t, left'))) :
    evaluate resolve ceiling depth scope template left =
      (evaluate resolve ceiling depth scope template left').write t := by
  obtain ⟨rfl, -⟩ := Template.eq_written_append_of_next h
  exact evaluate_doubled_append resolve ceiling depth scope template t left'

theorem evaluate_marker {key : Text}
    (h : Template.next left = .ok (some (.marker key, left'))) :
    evaluate resolve ceiling depth scope template left =
      (enter resolve ceiling depth scope key).andThen
        (evaluate resolve ceiling depth scope template left') := by
  obtain ⟨rfl, hk⟩ := Template.eq_written_append_of_next h
  exact evaluate_markerText_append resolve ceiling depth scope template hk left'

/-! ## Templates with their markers filled in -/

/-- Tokens with a meaning given to the markers. -/
def fill (mean : Text → Trace σ ε) : List Template.Token → Trace σ ε
  | [] => .done
  | .text t :: ts => (fill mean ts).write t
  | .marker key :: ts => (mean key).andThen (fill mean ts)

theorem evaluate_eq_fill (h : Template.WellFormed left) :
    evaluate resolve ceiling depth scope template left =
      fill (enter resolve ceiling depth scope) (Template.tokens left).1 := by
  unfold Template.WellFormed at h
  fun_induction Template.tokens left with
  | case1 left e hn => cases h
  | case2 left hn => exact evaluate_none _ _ _ _ _ hn
  | case3 left token left' hn r ih =>
    cases token with
    | text t => rw [evaluate_text _ _ _ _ _ hn, ih h, fill]
    | marker key => rw [evaluate_marker _ _ _ _ _ hn, ih h, fill]

end Evaluate

section Fill

variable {mean mean' : Text → Trace σ ε} {ts : List Template.Token}

/-- If every marker has a text then so have the tokens. -/
theorem fill_eq_ok (h : ∀ key ∈ Template.keys ts, ∃ u, (mean key).result = .ok u) :
    ∃ t, (fill mean ts).result = .ok t := by
  fun_induction Template.keys ts with
  | case1 => exact ⟨[], rfl⟩
  | case2 t ts ih =>
    obtain ⟨v, hv⟩ := ih h
    refine ⟨t ++ v, ?_⟩
    rw [fill, Trace.write, hv]
    rfl
  | case3 key ts ih =>
    obtain ⟨u, hu⟩ := h key List.mem_cons_self
    obtain ⟨v, hv⟩ := ih fun k hk => h k (List.mem_cons_of_mem _ hk)
    refine ⟨u ++ v, ?_⟩
    rw [fill, Trace.result_andThen, hu, hv]
    rfl

/-- If the tokens have a text then so has every marker. -/
theorem ok_of_fill_eq_ok {t : Text} (h : (fill mean ts).result = .ok t) {key : Text}
    (hk : key ∈ Template.keys ts) : ∃ u, (mean key).result = .ok u := by
  fun_induction Template.keys ts generalizing t with
  | case1 => cases hk
  | case2 u ts ih =>
    rw [fill, Trace.write] at h
    cases hr : (fill mean ts).result with
    | error e => rw [hr] at h; cases h
    | ok v => exact ih hr hk
  | case3 key' ts ih =>
    rw [fill, Trace.result_andThen] at h
    cases hr : (mean key').result with
    | error e => rw [hr] at h; cases h
    | ok u =>
      cases hs : (fill mean ts).result with
      | error e => rw [hr, hs] at h; cases h
      | ok v =>
        rcases List.mem_cons.1 hk with rfl | hk
        · exact ⟨u, hr⟩
        · exact ih hs hk

/-- An error of the tokens is the error of one of their markers. -/
theorem error_of_fill_eq_error {e : ε} (h : (fill mean ts).result = .error e) :
    ∃ key ∈ Template.keys ts, (mean key).result = .error e := by
  fun_induction Template.keys ts with
  | case1 => cases h
  | case2 u ts ih =>
    rw [fill, Trace.write] at h
    cases hr : (fill mean ts).result with
    | error e' => rw [hr] at h; cases h; exact ih hr
    | ok v => rw [hr] at h; cases h
  | case3 key ts ih =>
    rw [fill, Trace.result_andThen] at h
    cases hr : (mean key).result with
    | error e' => rw [hr] at h; cases h; exact ⟨key, List.mem_cons_self, hr⟩
    | ok u =>
      cases hs : (fill mean ts).result with
      | error e' =>
        rw [hr, hs] at h
        cases h
        obtain ⟨k, hk, hke⟩ := ih hs
        exact ⟨k, List.mem_cons_of_mem _ hk, hke⟩
      | ok v => rw [hr, hs] at h; cases h

/-- Markers that end alike make tokens that end alike. -/
theorem result_fill_congr
    (h : ∀ key ∈ Template.keys ts, (mean key).result = (mean' key).result) :
    (fill mean ts).result = (fill mean' ts).result := by
  fun_induction Template.keys ts with
  | case1 => rfl
  | case2 t ts ih => rw [fill, fill, Trace.write, Trace.write, ih h]
  | case3 key ts ih =>
    rw [fill, fill, Trace.result_andThen, Trace.result_andThen, h key List.mem_cons_self,
      ih fun k hk => h k (List.mem_cons_of_mem _ hk)]

end Fill

end LayeredSettings.Expansion
