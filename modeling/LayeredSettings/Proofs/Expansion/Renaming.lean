import LayeredSettings.Proofs.Expansion.Evaluation

/-!
# Expansion under a renaming

Two resolvers may differ in what they call scopes and errors and yet answer every marker alike
(`Renaming`). Two evaluations with the same room under their ceilings then go step by step alike:
one trace is the other with its scopes and its error renamed (`evaluate_rename`).
-/

namespace LayeredSettings.Expansion

variable {σ σ' ε ε' : Type}

/-! ## Renamed traces -/

namespace Trace

def rename (f : σ → σ') (g : ε → ε') (r : Trace σ ε) : Trace σ' ε' :=
  ⟨r.calls.map fun call => (f call.1, call.2), r.result.mapError g⟩

variable (f : σ → σ') (g : ε → ε')

@[simp] theorem result_rename (r : Trace σ ε) : (r.rename f g).result = r.result.mapError g := rfl

@[simp] theorem rename_fail (e : ε) : (fail e : Trace σ ε).rename f g = fail (g e) := rfl

theorem rename_write (t : Text) (r : Trace σ ε) :
    (r.write t).rename f g = (r.rename f g).write t := by
  rcases r with ⟨calls, e | u⟩ <;> rfl

theorem rename_record (cs : List (σ × Text)) (r : Trace σ ε) :
    (r.record cs).rename f g =
      (r.rename f g).record (cs.map fun call => (f call.1, call.2)) := by
  unfold rename record
  rw [List.map_append]

theorem rename_andThen (r next : Trace σ ε) :
    (r.andThen next).rename f g = (r.rename f g).andThen (next.rename f g) := by
  rcases r with ⟨calls, e | u⟩
  · rfl
  · show ((next.write u).record calls).rename f g = ((next.rename f g).write u).record _
    rw [rename_record, rename_write]
    rfl

end Trace

theorem rename_fill (f : σ → σ') (g : ε → ε') {mean : Text → Trace σ ε}
    {mean' : Text → Trace σ' ε'} {ts : List Template.Token}
    (h : ∀ key ∈ Template.keys ts, mean' key = (mean key).rename f g) :
    fill mean' ts = (fill mean ts).rename f g := by
  fun_induction Template.keys ts with
  | case1 => rfl
  | case2 t ts ih => rw [fill, fill, ih h, Trace.rename_write]
  | case3 key ts ih =>
    rw [fill, fill, h key List.mem_cons_self, ih fun k hk => h k (List.mem_cons_of_mem _ hk),
      Trace.rename_andThen]

/-! ## Templates with a fault -/

section Ending

variable [Faults ε] (template : Text)

/-- What stands behind the tokens of a template. -/
def ending : Option Template.Fault → Trace σ ε
  | none => .done
  | some e => .fail (Faults.ofTemplate template e)

/-- A template means what its tokens mean, and then that it is at fault if it is. -/
theorem evaluate_eq_fill_andThen (resolve : Resolver σ ε) (ceiling depth : Nat) (scope : σ)
    (left : Text) :
    evaluate resolve ceiling depth scope template left =
      (fill (enter resolve ceiling depth scope) (Template.tokens left).1).andThen
        (ending template (Template.tokens left).2) := by
  fun_induction Template.tokens left with
  | case1 left e hn => rw [evaluate_error _ _ _ _ _ hn, fill, ending, Trace.done_andThen]
  | case2 left hn => rw [evaluate_none _ _ _ _ _ hn, fill, ending, Trace.done_andThen]
  | case3 left token left' hn r ih =>
    cases token with
    | text t => rw [evaluate_text _ _ _ _ _ hn, ih, fill, Trace.write_andThen]
    | marker key => rw [evaluate_marker _ _ _ _ _ hn, ih, fill, Trace.andThen_assoc]

end Ending

/-! ## Renamed resolvers -/

section Renaming

variable [Faults ε] [Faults ε']

/-- One resolver answers as another one does, with the scopes renamed by `f` and the errors by
`g`. The markers need only be those of templates that stand in their scopes as `inv` says. -/
structure Renaming (resolve : Resolver σ ε) (resolve' : Resolver σ' ε') (f : σ → σ')
    (g : ε → ε') (inv : σ → Text → Prop) : Prop where
  ofTemplate : ∀ template e, g (Faults.ofTemplate template e) = Faults.ofTemplate template e
  answer : ∀ {scope template}, inv scope template → ∀ marker ∈ Template.markers template,
    resolve' (f scope) marker = ((resolve scope marker).map fun r => (r.1, f r.2)).mapError g
  keeps : ∀ {scope template}, inv scope template → ∀ marker ∈ Template.markers template,
    ∀ {value inner}, resolve scope marker = .ok (value, inner) → inv inner value

variable {resolve : Resolver σ ε} {resolve' : Resolver σ' ε'} {f : σ → σ'} {g : ε → ε'}
  {inv : σ → Text → Prop}

theorem Renaming.ending (h : Renaming resolve resolve' f g inv) (template : Text)
    (fault : Option Template.Fault) :
    Expansion.ending template fault = (Expansion.ending template fault).rename f g := by
  cases fault with
  | none => rfl
  | some e =>
    show Trace.fail (Faults.ofTemplate template e) = Trace.fail (g (Faults.ofTemplate template e))
    rw [h.ofTemplate]

variable {ceiling ceiling' depth depth' : Nat} {scope : σ} {template : Text}

/-- A template means the same up to the renaming if its markers do. -/
theorem Renaming.evaluate_of_enter (h : Renaming resolve resolve' f g inv)
    (henter : ∀ marker ∈ Template.markers template,
      enter resolve' ceiling' depth' (f scope) marker =
        (enter resolve ceiling depth scope marker).rename f g) :
    evaluate resolve' ceiling' depth' (f scope) template template =
      (evaluate resolve ceiling depth scope template template).rename f g := by
  rw [evaluate_eq_fill_andThen, evaluate_eq_fill_andThen, Trace.rename_andThen, ← h.ending]
  exact congrArg (Trace.andThen · _) (rename_fill f g henter)

/-- Resolvers that differ by a renaming make traces that differ by it. The two evaluations may
stand at different depths if the same room is left to them. -/
theorem evaluate_rename (h : Renaming resolve resolve' f g inv)
    (hlimit : g (Faults.depthLimit ceiling) = Faults.depthLimit ceiling')
    (hroom : ceiling - depth = ceiling' - depth') (hinv : inv scope template) :
    evaluate resolve' ceiling' depth' (f scope) template template =
      (evaluate resolve ceiling depth scope template template).rename f g := by
  induction hr : ceiling - depth generalizing depth depth' scope template with
  | zero =>
    refine h.evaluate_of_enter fun marker _ => ?_
    rw [enter, enter, if_neg (by omega), if_neg (by omega), Trace.rename_fail, hlimit]
  | succ room ih =>
    refine h.evaluate_of_enter fun marker hm => ?_
    rw [enter, enter, if_pos (by omega), if_pos (by omega), h.answer hinv marker hm]
    cases hres : resolve scope marker with
    | error e => rfl
    | ok r =>
      obtain ⟨value, inner⟩ := r
      have hroom' : ceiling - (depth + 1) = ceiling' - (depth' + 1) := by omega
      have hinner := ih hroom' (h.keeps hinv marker hm hres) (by omega)
      show (evaluate resolve' ceiling' (depth' + 1) (f inner) value value).record _ = _
      rw [hinner, Trace.rename_record]
      rfl

end Renaming

end LayeredSettings.Expansion
