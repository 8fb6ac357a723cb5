import LayeredSettings.Expansion.Basic

/-!
# Expansion by evaluation

The meaning of a template, read off its characters from left to right: a character stands for
itself, a doubled dollar for one dollar, and a marker for the meaning of its value one level
deeper. The text that comes out is never read again.
-/

namespace LayeredSettings.Expansion

namespace Trace

/-- A trace with text in front of its output. -/
def write {σ ε : Type} (t : Text) (r : Trace σ ε) : Trace σ ε :=
  { r with result := r.result.map (t ++ ·) }

/-- A trace with calls in front of its own. -/
def record {σ ε : Type} (calls : List (σ × Text)) (r : Trace σ ε) : Trace σ ε :=
  { r with calls := calls ++ r.calls }

/-- One trace and, unless it ends in an error, another one behind it. -/
def andThen {σ ε : Type} (r next : Trace σ ε) : Trace σ ε :=
  match r.result with
  | .error _ => r
  | .ok t => (next.write t).record r.calls

end Trace

theorem length_behind_marker_lt {t : Text} (h : '\x7d' ∈ t) :
    (t.dropWhile (· ≠ '\x7d')).tail.length < t.length := by
  rw [List.length_tail]
  have hle := (List.dropWhile_sublist (p := fun c => decide (c ≠ '\x7d')) (l := t)).length_le
  have hpos := List.length_pos_of_mem h
  omega

/-- The meaning of what is left of a template at the given depth, the outermost template having
depth one. -/
def evaluate {σ ε : Type} [Faults ε] (resolve : Resolver σ ε) (ceiling depth : Nat) (scope : σ)
    (template : Text) : Text → Trace σ ε
  | [] => ⟨[], .ok []⟩
  | '$' :: '$' :: rest => (evaluate resolve ceiling depth scope template rest).write ['$']
  | '$' :: '\x7b' :: rest =>
    if _h : '\x7d' ∈ rest then
      let key := rest.takeWhile (· ≠ '\x7d')
      let marker : Trace σ ε :=
        if _hd : depth < ceiling then
          match resolve scope key with
          | .error e => ⟨[(scope, key)], .error e⟩
          | .ok (value, inner) =>
            (evaluate resolve ceiling (depth + 1) inner value value).record [(scope, key)]
        else ⟨[], .error (Faults.depthLimit ceiling)⟩
      marker.andThen
        (evaluate resolve ceiling depth scope template (rest.dropWhile (· ≠ '\x7d')).tail)
    else ⟨[], .error (Faults.ofTemplate template .unterminated)⟩
  | c :: rest =>
    if c = '$' then ⟨[], .error (Faults.ofTemplate template .malformed)⟩
    else (evaluate resolve ceiling depth scope template rest).write [c]
termination_by left => (ceiling - depth, left.length)
decreasing_by
  · exact Prod.Lex.right _ (by simp only [List.length_cons]; omega)
  · exact Prod.Lex.left _ _ (by omega)
  · refine Prod.Lex.right _ ?_
    have := length_behind_marker_lt _h
    simp only [List.length_cons]
    omega
  · exact Prod.Lex.right _ (Nat.lt_succ_self _)

end LayeredSettings.Expansion
