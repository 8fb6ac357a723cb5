import LayeredSettings.Proofs.Expansion.Renaming
import LayeredSettings.Proofs.Key
import LayeredSettings.Proofs.Store.References

/-!
# Resolving a key

Resolving a key expands its value at depth one. Expanding a marker of the key expands the same
value at depth two, and under a ceiling that is one higher it has the same room there
(`evaluate_succ`). The two agree but for the number of the ceiling (`expand_markerText`).
-/

namespace LayeredSettings

open Expansion

/-- The ceiling one level above. -/
def Expansion.Ceiling.succ (ceiling : Ceiling) : Ceiling :=
  ⟨ceiling.depth + 1, Nat.le_succ_of_le ceiling.five_le⟩

/-- The error as it is under the ceiling one level above. -/
def Expansion.Error.raised : Error → Error
  | .depthLimit ceiling => .depthLimit (ceiling + 1)
  | e => e

namespace Store

section Raised

variable (host : Host) (s : Store)

/-- What a store answers has nothing to do with ceilings. -/
theorem resolver_mapError_raised (base marker : Text) :
    (s.resolver host base marker).mapError .raised = s.resolver host base marker := by
  unfold resolver
  cases Key.relative base marker with
  | error fault => rfl
  | ok key =>
    unfold get
    cases h : s.query host key <;> simp only [h] <;> rfl

theorem renaming_raised :
    Renaming (s.resolver host) (s.resolver host) id Error.raised fun _ _ => True where
  ofTemplate := by
    intro template e
    cases e <;> rfl
  answer := by
    intro base template _ marker _
    show s.resolver host base marker = ((s.resolver host base marker).map id).mapError .raised
    rw [Except.map_id]
    exact (resolver_mapError_raised host s base marker).symm
  keeps := by
    intros
    exact trivial

/-- One level down, under the ceiling one level above, a template means the same. -/
theorem evaluate_succ (ceiling depth : Nat) (base template : Text) :
    evaluate (s.resolver host) (ceiling + 1) (depth + 1) base template template =
      (evaluate (s.resolver host) ceiling depth base template template).rename id .raised :=
  evaluate_rename (renaming_raised host s) rfl (Nat.add_sub_add_right ceiling 1 depth).symm trivial

end Raised

variable {host : Host} {s : Store} {key : Text}

theorem result_enter_of_missing {ceiling depth : Nat} {base marker : Text} (hd : depth < ceiling)
    (hk : Key.relative base marker = .ok key) (hv : s.query host key = none) :
    (enter (s.resolver host) ceiling depth base marker).result = .error (.missing key) := by
  rw [enter, if_pos hd, resolver, hk]
  simp only [get, hv]
  rfl

/-- A key that is absolute and can stand in a marker is resolved as its marker is expanded under
the ceiling one level above: to the same text or the same error, in which only the ceiling is
another. -/
theorem expand_markerText (hdot : key.head? ≠ some '.') (hbrace : '\x7d' ∉ key)
    (ceiling : Ceiling) :
    s.expand host ceiling.succ (Template.markerText key) =
      (s.resolve host ceiling key).mapError .raised := by
  have hd : 1 < ceiling.succ.depth := Nat.lt_of_lt_of_le (by decide) ceiling.succ.five_le
  have hk := Key.relative_of_head?_ne_dot hdot []
  rw [expand_eq_result, evaluate_markerText _ _ _ _ _ hbrace, resolve, get]
  cases hv : s.query host key with
  | none => exact result_enter_of_missing hd hk hv
  | some value =>
    rw [result_enter hd hk hv]
    show (evaluate _ (ceiling.depth + 1) (1 + 1) key value value).result = _
    rw [evaluate_succ, Trace.result_rename, ← meaning_ofText, ← expand_eq_meaning]

/-- The value of `a.b` is that of its neighbour, and `d`, which refers to itself, meets whichever
ceiling there is. -/
theorem expand_markerText_neighbours :
    ("a.b".toList.head? ≠ some '.' ∧ '\x7d' ∉ "a.b".toList) ∧
    neighbours.expand ⟨.empty, .empty⟩ ⟨6, by decide⟩ (Template.markerText "a.b".toList) =
      .ok "x".toList ∧
    ("d".toList.head? ≠ some '.' ∧ '\x7d' ∉ "d".toList) ∧
    neighbours.expand ⟨.empty, .empty⟩ ⟨6, by decide⟩ (Template.markerText "d".toList) =
      .error (.depthLimit 6) := by
  have htext : neighbours.resolve ⟨.empty, .empty⟩ ⟨5, by decide⟩ "a.b".toList =
      .ok "x".toList := by
    have hrelative : Key.relative "a.b".toList ".c".toList = .ok "a.c".toList := rfl
    show (Expansion.expand _ _ "a.b".toList (Template.markerText ".c".toList)).result = _
    rw [expand_eq_meaning, meaning_ofText, evaluate_markerText _ _ _ _ _ (by decide),
      result_enter (by decide) hrelative rfl]
    exact congrArg Trace.result (evaluate_doubled _ _ _ _ _ "x".toList)
  have hloop : neighbours.resolve ⟨.empty, .empty⟩ ⟨5, by decide⟩ "d".toList =
      .error (.depthLimit 5) := by
    have hd : '\x7d' ∉ "d".toList := by decide
    show (Expansion.expand _ _ "d".toList (Template.markerText "d".toList)).result = _
    rw [expand_eq_meaning, meaning_ofText]
    repeat rw [evaluate_markerText _ _ _ _ _ hd, result_enter (by decide) rfl rfl]
    rw [evaluate_markerText _ _ _ _ _ hd, result_enter_of_le (by decide)]
  refine ⟨⟨by decide, by decide⟩, ?_, ⟨by decide, by decide⟩, ?_⟩
  · refine (expand_markerText (by decide) (by decide) ⟨5, by decide⟩).trans ?_
    rw [htext]
    rfl
  · refine (expand_markerText (by decide) (by decide) ⟨5, by decide⟩).trans ?_
    rw [hloop]
    rfl

end Store

end LayeredSettings
