import LayeredSettings.Expansion.Frames
import LayeredSettings.Proofs.Expansion.Evaluation

/-!
# Frames against evaluation

`runFrames_eq`: a run of frames writes and calls what it had written and called before, and then
what the frames mean one after another, innermost first. A frame with `n` frames around it means
what evaluating the rest of its template at depth `n + 1` means. Expansion, which starts from one
frame, is therefore evaluation at depth one (`expand_eq_evaluate`).
-/

namespace LayeredSettings.Expansion

variable {σ ε : Type} [Faults ε]

/-- The meaning of the open frames: that of the innermost one, then that of those around it. -/
def meaning (resolve : Resolver σ ε) (ceiling : Nat) : List (Frame σ) → Trace σ ε
  | [] => .done
  | f :: outer =>
    (evaluate resolve ceiling (outer.length + 1) f.scope f.template f.left).andThen
      (meaning resolve ceiling outer)

/-- The invariant of the loop. What is written and called so far stands in front of the meaning
of the frames that are open. -/
theorem runFrames_eq (resolve : Resolver σ ε) (ceiling : Nat) (output : Text)
    (calls : List (σ × Text)) (frames : List (Frame σ)) :
    runFrames resolve ceiling output calls frames =
      ((meaning resolve ceiling frames).write output.reverse).record calls.reverse := by
  -- along the steps of the loop; each reads one token of the innermost frame
  fun_induction runFrames resolve ceiling output calls frames with
  | case1 output calls =>
    simp [meaning, Trace.write, Trace.record, Except.map]
  | case2 output calls f outer e h =>
    rw [meaning, evaluate_error _ _ _ _ _ h, Trace.fail_andThen, Trace.write_fail]
    simp only [Trace.record, List.append_nil]
  | case3 output calls f outer h ih =>
    rw [ih, meaning, evaluate_none _ _ _ _ _ h, Trace.done_andThen]
  | case4 output calls f outer t left h ih =>
    rw [ih, meaning, meaning, evaluate_text _ _ _ _ _ h, Trace.write_andThen, Trace.write_write,
      List.reverse_append, List.reverse_reverse]
  | case5 output calls f outer key left h hd e hr =>
    rw [meaning, evaluate_marker _ _ _ _ _ h, enter, if_pos hd, hr]
    simp [Trace.andThen, Trace.write, Trace.record, Except.map]
  | case6 output calls f outer key left h hd value scope hr ih =>
    have hin : enter resolve ceiling (outer.length + 1) f.scope key =
        (evaluate resolve ceiling (outer.length + 1 + 1) scope value value).record
          [(f.scope, key)] := by
      rw [enter, if_pos hd, hr]
    rw [ih, meaning, meaning, meaning, evaluate_marker _ _ _ _ _ h, hin]
    simp only [Frame.ofText, List.length_cons]
    rw [Trace.record_andThen, Trace.record_andThen, Trace.andThen_assoc, ← Trace.record_write,
      Trace.record_record, List.reverse_cons]
  | case7 output calls f outer key left h hd =>
    rw [meaning, evaluate_marker _ _ _ _ _ h, enter, if_neg hd, Trace.fail_andThen,
      Trace.fail_andThen, Trace.write_fail]
    simp only [Trace.record, List.append_nil]

theorem expand_eq_meaning (resolve : Resolver σ ε) (ceiling : Ceiling) (scope : σ)
    (template : Text) :
    expand resolve ceiling scope template =
      meaning resolve ceiling.depth [.ofText scope template] := by
  unfold expand
  rw [runFrames_eq, List.reverse_nil, List.reverse_nil, Trace.write_nil, Trace.record_nil]

@[simp] theorem meaning_singleton (resolve : Resolver σ ε) (ceiling : Nat) (f : Frame σ) :
    meaning resolve ceiling [f] = evaluate resolve ceiling 1 f.scope f.template f.left :=
  Trace.andThen_done _

theorem meaning_ofText (resolve : Resolver σ ε) (ceiling : Nat) (scope : σ) (template : Text) :
    meaning resolve ceiling [.ofText scope template] =
      evaluate resolve ceiling 1 scope template template :=
  meaning_singleton resolve ceiling (.ofText scope template)

/-- Replacing the markers of a template by frames is evaluating it: the calls are the same in the
same order, and so is the text or the first error. -/
theorem expand_eq_evaluate (resolve : Resolver σ ε) (ceiling : Ceiling) (scope : σ)
    (template : Text) :
    expand resolve ceiling scope template =
      evaluate resolve ceiling.depth 1 scope template template := by
  rw [expand_eq_meaning, meaning_ofText]

end LayeredSettings.Expansion
