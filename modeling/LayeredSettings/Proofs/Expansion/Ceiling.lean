import LayeredSettings.Proofs.Expansion.Renaming
import LayeredSettings.Proofs.Expansion.Stack

/-!
# Raising the ceiling

Under two ceilings a template is expanded alike up to the marker at which the lower one is met.
There the lower expansion ends, and the higher one goes on (`Trace.CutShort`). An expansion that
does not end at its ceiling is therefore the same under every higher one, and the calls of an
expansion that does are the first calls of the others (`expand_of_ceiling_le`).
-/

namespace LayeredSettings.Expansion

variable {σ ε : Type}

/-! ## Traces that are cut short -/

namespace Trace

/-- The first trace is the second one, or an error `e` ended it on the way. -/
inductive CutShort (e : ε) : Trace σ ε → Trace σ ε → Prop
  | same (r : Trace σ ε) : CutShort e r r
  | cut {r r' : Trace σ ε} : r.result = .error e → r.calls <+: r'.calls → CutShort e r r'

theorem calls_andThen (r next : Trace σ ε) : r.calls <+: (r.andThen next).calls := by
  rcases r with ⟨calls, e | t⟩
  · exact List.prefix_rfl
  · exact List.prefix_append calls next.calls

namespace CutShort

variable {e : ε} {r r' s s' : Trace σ ε}

theorem write (h : CutShort e r r') (t : Text) : CutShort e (r.write t) (r'.write t) := by
  cases h with
  | same => exact .same _
  | cut hresult hcalls =>
    refine .cut ?_ hcalls
    rw [Trace.write, hresult]
    rfl

theorem record (h : CutShort e r r') (calls : List (σ × Text)) :
    CutShort e (r.record calls) (r'.record calls) := by
  cases h with
  | same => exact .same _
  | cut hresult hcalls => exact .cut hresult ((List.prefix_append_right_inj calls).2 hcalls)

theorem andThen (h : CutShort e r r') (hnext : CutShort e s s') :
    CutShort e (r.andThen s) (r'.andThen s') := by
  cases h with
  | same =>
    rcases r with ⟨calls, e' | t⟩
    · exact .same _
    · exact (hnext.write t).record calls
  | cut hresult hcalls =>
    rw [andThen_of_error hresult]
    exact .cut hresult (hcalls.trans (calls_andThen r' s'))

/-- A trace that does not end in `e` is not cut short. -/
theorem eq_of_ne (h : CutShort e r r') (hr : r.result ≠ .error e) : r' = r := by
  cases h with
  | same => rfl
  | cut hresult _ => exact absurd hresult hr

theorem calls (h : CutShort e r r') : r.calls <+: r'.calls := by
  cases h with
  | same => exact List.prefix_rfl
  | cut _ hcalls => exact hcalls

end CutShort

end Trace

theorem fill_cutShort {e : ε} {mean mean' : Text → Trace σ ε} {ts : List Template.Token}
    (h : ∀ key, Trace.CutShort e (mean key) (mean' key)) :
    Trace.CutShort e (fill mean ts) (fill mean' ts) := by
  induction ts with
  | nil => exact .same _
  | cons token ts ih =>
    cases token with
    | text t => exact ih.write t
    | marker key => exact (h key).andThen ih

/-! ## Expansions -/

variable [Faults ε]

/-- The lower evaluation is cut short where a marker stands as deep as its ceiling. -/
theorem evaluate_cutShort (resolve : Resolver σ ε) {low high : Nat} (h : low ≤ high)
    (depth : Nat) (scope : σ) (template left : Text) :
    Trace.CutShort (Faults.depthLimit low) (evaluate resolve low depth scope template left)
      (evaluate resolve high depth scope template left) := by
  -- on the room that is left under the lower ceiling
  induction hroom : low - depth using Nat.strongRecOn generalizing depth scope template left with
  | ind room ih =>
    rw [evaluate_eq_fill_andThen, evaluate_eq_fill_andThen]
    refine (fill_cutShort fun key => ?_).andThen (.same _)
    unfold enter
    by_cases hd : depth < low
    · rw [if_pos hd, if_pos (Nat.lt_of_lt_of_le hd h)]
      cases resolve scope key with
      | error e => exact .same _
      | ok r => exact (ih (low - (depth + 1)) (by omega) _ _ _ _ rfl).record _
    · rw [if_neg hd]
      exact .cut rfl ⟨_, rfl⟩

/-- Under a higher ceiling an expansion makes the calls that it makes under a lower one, in the
same order, and then perhaps others. Unless it ends at the lower ceiling, it makes no others and
ends in the same way. -/
theorem expand_of_ceiling_le (resolve : Resolver σ ε) {low high : Ceiling}
    (h : low.depth ≤ high.depth) (scope : σ) (template : Text) :
    ((expand resolve low scope template).result ≠ .error (Faults.depthLimit low.depth) →
      expand resolve high scope template = expand resolve low scope template) ∧
    (expand resolve low scope template).calls <+: (expand resolve high scope template).calls := by
  have hcut := evaluate_cutShort resolve h 1 scope template template
  rw [← meaning_ofText, ← expand_eq_meaning, ← meaning_ofText, ← expand_eq_meaning] at hcut
  exact ⟨hcut.eq_of_ne, hcut.calls⟩

/-- Every scope refers to the one below it, and the lowest one lacks the key. -/
def countdown : Resolver Nat
  | 0, key => .error (.missing key)
  | n + 1, key => .ok (Template.markerText key, n)

/-- Three references come to the same end under the ceilings 5 and 16. Seven end at the lower one,
and what it has called by then is called first under the higher one. -/
theorem expand_countdown_of_ceiling_le :
    Ceiling.depth ⟨5, by decide⟩ ≤ Ceiling.standard.depth ∧
    expand countdown .standard 3 (Template.markerText ['k']) =
      expand countdown ⟨5, by decide⟩ 3 (Template.markerText ['k']) ∧
    (expand countdown ⟨5, by decide⟩ 7 (Template.markerText ['k'])).result =
      .error (.depthLimit 5) ∧
    (expand countdown ⟨5, by decide⟩ 7 (Template.markerText ['k'])).calls <+:
      (expand countdown .standard 7 (Template.markerText ['k'])).calls := by
  have h : Ceiling.depth ⟨5, by decide⟩ ≤ Ceiling.standard.depth := by decide
  have hmissing : (expand countdown ⟨5, by decide⟩ 3 (Template.markerText ['k'])).result =
      .error (.missing ['k']) := by
    rw [expand_eq_meaning, meaning_ofText]
    simp [evaluate_markerText, enter, countdown, Trace.record]
  have hlimit : (expand countdown ⟨5, by decide⟩ 7 (Template.markerText ['k'])).result =
      .error (.depthLimit 5) := by
    rw [expand_eq_meaning, meaning_ofText]
    show _ = Except.error (Faults.depthLimit 5)
    simp [evaluate_markerText, enter, countdown, Trace.record]
  refine ⟨h, (expand_of_ceiling_le countdown h 3 _).1 ?_, hlimit,
    (expand_of_ceiling_le countdown h 7 _).2⟩
  intro hsame
  cases hmissing.symm.trans hsame

end LayeredSettings.Expansion
