import LayeredSettings.Expansion.Basic

/-!
# Expansion by frames

A frame is a template that is being read. A marker suspends its frame and opens one for the value
it stands for, and the suspended frame goes on when that one is read to its end. No more frames
are open than the ceiling allows; `Pending.wellFounded` concludes that every expansion ends, also
when settings refer to each other in a cycle.
-/

namespace LayeredSettings.Expansion

/-- A template being read: the scope of its markers, the whole text and what is unread. -/
structure Frame (σ : Type) where
  scope : σ
  template : Text
  left : Text

def Frame.ofText {σ : Type} (scope : σ) (template : Text) : Frame σ := ⟨scope, template, template⟩

/-! ## Termination -/

/-- What is pending: the unread lengths of the open frames, innermost first, under a ceiling. -/
structure Pending where
  ceiling : Nat
  lengths : List Nat

namespace Pending

/-- One step of an expansion, from the second list of unread lengths to the first. -/
inductive Step (ceiling : Nat) : List Nat → List Nat → Prop
  /-- The innermost frame is read on. -/
  | advance {m n : Nat} {outer : List Nat} : m < n → Step ceiling (m :: outer) (n :: outer)
  /-- A marker is read and its value opened. -/
  | enter {k m n : Nat} {outer : List Nat} :
      m < n → outer.length + 1 < ceiling → Step ceiling (k :: m :: outer) (n :: outer)
  /-- The innermost frame ends. -/
  | leave {n : Nat} {outer : List Nat} : Step ceiling outer (n :: outer)

theorem acc_cons {ceiling budget : Nat} {outer : List Nat}
    (hb : ceiling ≤ outer.length + budget) (h : Acc (Step ceiling) outer) (n : Nat) :
    Acc (Step ceiling) (n :: outer) := by
  induction budget generalizing outer n with
  | zero =>
    induction n using Nat.strongRecOn with
    | ind n ih =>
      refine Acc.intro _ fun next hs => ?_
      cases hs with
      | advance hm => exact ih _ hm
      | enter _ hc => omega
      | leave => exact h
  | succ budget ihb =>
    induction n using Nat.strongRecOn with
    | ind n ih =>
      refine Acc.intro _ fun next hs => ?_
      cases hs with
      | advance hm => exact ih _ hm
      | enter hm _ =>
        exact ihb (by simp only [List.length_cons]; omega) (ih _ hm) _
      | leave => exact h

theorem acc (ceiling : Nat) (lengths : List Nat) : Acc (Step ceiling) lengths := by
  induction lengths with
  | nil => exact Acc.intro _ fun _ hs => by cases hs
  | cons n outer ih => exact acc_cons (Nat.le_add_left ceiling outer.length) ih n

/-- A step keeps the ceiling. -/
def Before (p q : Pending) : Prop := p.ceiling = q.ceiling ∧ Step q.ceiling p.lengths q.lengths

/-- No expansion goes on for ever. -/
theorem wellFounded : WellFounded Before := by
  refine ⟨fun p => ?_⟩
  obtain ⟨ceiling, lengths⟩ := p
  induction acc ceiling lengths with
  | intro lengths _ ih =>
    refine Acc.intro _ fun q hq => ?_
    obtain ⟨ceiling', lengths'⟩ := q
    obtain ⟨hc, hs⟩ := hq
    cases hc
    exact ih lengths' hs

instance : WellFoundedRelation Pending := ⟨Before, wellFounded⟩

end Pending

/-! ## The machine -/

/-- Runs the frames, innermost first, to their end. The output and the calls so far are kept last
first. -/
def runFrames {σ ε : Type} [Faults ε] (resolve : Resolver σ ε) (ceiling : Nat) (output : Text)
    (calls : List (σ × Text)) : List (Frame σ) → Trace σ ε
  | [] => ⟨calls.reverse, .ok output.reverse⟩
  | f :: outer =>
    match _h : Template.next f.left with
    | .error e => ⟨calls.reverse, .error (Faults.ofTemplate f.template e)⟩
    | .ok none => runFrames resolve ceiling output calls outer
    | .ok (some (.text t, left)) =>
      runFrames resolve ceiling (t.reverse ++ output) calls ({ f with left } :: outer)
    | .ok (some (.marker key, left)) =>
      if _hd : outer.length + 1 < ceiling then
        match resolve f.scope key with
        | .error e => ⟨((f.scope, key) :: calls).reverse, .error e⟩
        | .ok (value, scope) =>
          runFrames resolve ceiling output ((f.scope, key) :: calls)
            (.ofText scope value :: { f with left } :: outer)
      else ⟨calls.reverse, .error (Faults.depthLimit ceiling)⟩
termination_by frames => Pending.mk ceiling (frames.map (·.left.length))
decreasing_by
  · exact ⟨rfl, .leave⟩
  · exact ⟨rfl, .advance (Template.length_next_lt _h)⟩
  · exact ⟨rfl, .enter (Template.length_next_lt _h) (by simpa using _hd)⟩

/-- Replaces every marker of a template by the expansion of its value. -/
def expand {σ ε : Type} [Faults ε] (resolve : Resolver σ ε) (ceiling : Ceiling) (scope : σ)
    (template : Text) : Trace σ ε :=
  runFrames resolve ceiling.depth [] [] [.ofText scope template]

end LayeredSettings.Expansion
