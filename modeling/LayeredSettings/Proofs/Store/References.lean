import LayeredSettings.Proofs.Expansion.Stack
import LayeredSettings.Proofs.Store.Entries
import LayeredSettings.Store.Lookup
import Mathlib.Data.Set.Card
import Mathlib.Logic.Relation

/-!
# References between settings

The markers of a template reach keys, their values reach further keys, and so on. What a key's
value expands to does not depend on how the key was reached: its markers are read relative to the
key itself.

1. Along an acyclic way from the template no key comes twice, so that with `n` keys reached no
   marker stands deeper than `n` (`expand_of_acyclic`).
2. If an expansion has a text then so has, one level deeper, every value it refers to
   (`Settled.step`). Around a cycle that goes on for ever, below every ceiling
   (`not_settled_of_cycle`).
3. Nothing but the ceiling stops the expansion of a template whose references all lead somewhere
   (`eq_depthLimit_of_error`).
-/

namespace LayeredSettings.Store

open Expansion
open Relation (TransGen ReflTransGen)

section References

variable (host : Host) (s : Store)

/-- A marker in the value of `key` names `target`. -/
def Refers (key target : Text) : Prop :=
  ∃ value, s.query host key = some value ∧
    ∃ marker ∈ Template.markers value, Key.relative key marker = .ok target

/-- The keys that the markers of a template reach, directly or through the values of others. -/
inductive Reached (template : Text) : Text → Prop
  | marker {marker key : Text} :
      marker ∈ Template.markers template → Key.relative [] marker = .ok key → Reached template key
  | refers {key target : Text} :
      Reached template key → Refers host s key target → Reached template target

/-- A template is well formed and its markers, read relative to `base`, name keys. -/
structure Readable (base template : Text) : Prop where
  wellFormed : Template.WellFormed template
  named : ∀ marker ∈ Template.markers template, ∃ key, Key.relative base marker = .ok key

/-- The template can be read, and every key it reaches has a value that can be read. -/
structure Closed (template : Text) : Prop where
  readable : Readable [] template
  present : ∀ key, Reached host s template key →
    ∃ value, s.query host key = some value ∧ Readable key value

end References

variable {host : Host} {s : Store} {template : Text}

/-! ## Looking up a marker -/

section Marker

variable {ceiling depth : Nat} {base marker key value : Text}

theorem resolver_eq_ok (hk : Key.relative base marker = .ok key)
    (hv : s.query host key = some value) : s.resolver host base marker = .ok (value, key) := by
  unfold resolver get
  rw [hk]
  simp only [hv]
  rfl

/-- Below the ceiling a marker ends as the value it names, one level deeper. -/
theorem result_enter (hd : depth < ceiling) (hk : Key.relative base marker = .ok key)
    (hv : s.query host key = some value) :
    (enter (s.resolver host) ceiling depth base marker).result =
      (evaluate (s.resolver host) ceiling (depth + 1) key value value).result := by
  rw [enter, if_pos hd, resolver_eq_ok hk hv]
  rfl

theorem result_enter_of_le (hd : ceiling ≤ depth) :
    (enter (s.resolver host) ceiling depth base marker).result =
      .error (.depthLimit ceiling) := by
  rw [enter, if_neg (Nat.not_lt.2 hd)]
  rfl

end Marker

/-! ## Reached keys -/

theorem finite_reached (h : Closed host s template) :
    {key | Reached host s template key}.Finite := by
  refine (List.finite_toSet ((s.entries host).map Prod.fst)).subset fun key hk => ?_
  obtain ⟨value, hv, -⟩ := h.present key hk
  rw [query_eq_valueOf?] at hv
  exact List.mem_map.2 ⟨_, Settings.mem_of_valueOf?_eq_some hv, rfl⟩

/-- There are no more different keys on a way than there are reached keys. -/
theorem length_le_ncard (h : Closed host s template) {path : List Text} (hd : path.Nodup)
    (hp : ∀ key ∈ path, Reached host s template key) :
    path.length ≤ {key | Reached host s template key}.ncard := by
  classical
  have hsub : (↑path.toFinset : Set Text) ⊆ {key | Reached host s template key} := by
    intro key hk
    exact hp key (List.mem_toFinset.1 hk)
  calc path.length = path.toFinset.card := (List.toFinset_card_of_nodup hd).symm
    _ = (↑path.toFinset : Set Text).ncard := (Set.ncard_coe_finset _).symm
    _ ≤ _ := Set.ncard_le_ncard hsub (finite_reached h)

/-- What a marker in a reached value names is reached, and it can be read. -/
theorem reached_of_marker (h : Closed host s template) {key value marker : Text}
    (hk : Reached host s template key) (hv : s.query host key = some value)
    (hm : marker ∈ Template.markers value) :
    ∃ target value', Key.relative key marker = .ok target ∧ Refers host s key target ∧
      Reached host s template target ∧ s.query host target = some value' := by
  obtain ⟨v, hv', hread⟩ := h.present key hk
  rw [hv] at hv'
  cases hv'
  obtain ⟨target, ht⟩ := hread.named marker hm
  have href : Refers host s key target := ⟨value, hv, marker, hm, ht⟩
  obtain ⟨value', hq, -⟩ := h.present target (.refers hk href)
  exact ⟨target, value', ht, href, .refers hk href, hq⟩

/-! ## Acyclic references -/

section Acyclic

variable (host s) in
/-- The template has one and the same text under every ceiling above `n`. -/
def Expands (n depth : Nat) (base template : Text) : Prop :=
  ∃ t, ∀ ceiling, n < ceiling →
    (evaluate (s.resolver host) ceiling depth base template template).result = .ok t

/-- A template expands if it stands no deeper than `n` and the values of its markers expand. -/
theorem expands_of_markers {n depth : Nat} {base value : Text}
    (hw : Template.WellFormed value)
    (h : ∀ marker ∈ Template.markers value, depth ≤ n ∧ ∃ key v,
      Key.relative base marker = .ok key ∧ s.query host key = some v ∧
        Expands host s n (depth + 1) key v) :
    Expands host s n depth base value := by
  have hmarker : ∀ marker ∈ Template.markers value, ∃ u, ∀ ceiling, n < ceiling →
      (enter (s.resolver host) ceiling depth base marker).result = .ok u := by
    intro marker hm
    obtain ⟨hd, key, v, hk, hv, u, hu⟩ := h marker hm
    refine ⟨u, fun ceiling hn => ?_⟩
    rw [result_enter (by omega) hk hv, hu ceiling hn]
  obtain ⟨t, ht⟩ := fill_eq_ok fun marker hm =>
    (hmarker marker hm).imp fun u hu => hu (n + 1) (Nat.lt_succ_self n)
  refine ⟨t, fun ceiling hn => ?_⟩
  rw [evaluate_eq_fill _ _ _ _ _ hw, ← ht]
  refine result_fill_congr fun marker hm => ?_
  obtain ⟨u, hu⟩ := hmarker marker hm
  rw [hu ceiling hn, hu (n + 1) (Nat.lt_succ_self n)]

/-- The values of reached keys expand. The keys on the way from the template to `key` are
different and lead to `key`, so that no reference goes back to one of them. -/
theorem expands_of_path (h : Closed host s template)
    (hacyclic : ∀ key, Reached host s template key → ¬ TransGen (Refers host s) key key) {n : Nat}
    (hn : n = {key | Reached host s template key}.ncard) (room : Nat) :
    ∀ (path : List Text) (key value : Text), n < room + path.length + 1 →
      (key :: path).Nodup → (∀ k ∈ key :: path, Reached host s template k) →
      (∀ k ∈ key :: path, ReflTransGen (Refers host s) k key) →
      s.query host key = some value → Expands host s n (path.length + 2) key value := by
  -- on the room that is left for new keys
  induction room with
  | zero =>
    intro path key value hroom hnodup hreached _ _
    have hle := length_le_ncard h hnodup hreached
    rw [List.length_cons] at hle
    omega
  | succ room ih =>
    intro path key value hroom hnodup hreached hlead hv
    have hkey := hreached key List.mem_cons_self
    obtain ⟨v, hv', hread⟩ := h.present key hkey
    obtain rfl : value = v := Option.some.inj (hv.symm.trans hv')
    refine expands_of_markers hread.wellFormed fun marker hm => ?_
    obtain ⟨target, value', ht, href, htarget, hq⟩ := reached_of_marker h hkey hv hm
    have hnew : target ∉ key :: path := fun hmem =>
      hacyclic target htarget (TransGen.tail' (hlead target hmem) href)
    have hnodup' : (target :: key :: path).Nodup := List.nodup_cons.2 ⟨hnew, hnodup⟩
    have hreached' : ∀ k ∈ target :: key :: path, Reached host s template k :=
      List.forall_mem_cons.2 ⟨htarget, hreached⟩
    have hlead' : ∀ k ∈ target :: key :: path, ReflTransGen (Refers host s) k target :=
      List.forall_mem_cons.2 ⟨.refl, fun k hk => (hlead k hk).tail href⟩
    have hle := length_le_ncard h hnodup' hreached'
    refine ⟨?_, target, value', ht, hq, ?_⟩
    · simp only [List.length_cons] at hle
      omega
    · refine ih (key :: path) target value' ?_ hnodup' hreached' hlead' hq
      simp only [List.length_cons]
      omega

theorem expands_of_acyclic (h : Closed host s template)
    (hacyclic : ∀ key, Reached host s template key → ¬ TransGen (Refers host s) key key) :
    Expands host s {key | Reached host s template key}.ncard 1 [] template := by
  refine expands_of_markers h.readable.wellFormed fun marker hm => ?_
  obtain ⟨key, hk⟩ := h.readable.named marker hm
  have hkey : Reached host s template key := .marker hm hk
  obtain ⟨value, hv, -⟩ := h.present key hkey
  have hnodup : [key].Nodup := List.nodup_singleton key
  have hreached : ∀ k ∈ [key], Reached host s template k := List.forall_mem_singleton.2 hkey
  have hle := length_le_ncard h hnodup hreached
  refine ⟨hle, key, value, hk, hv, ?_⟩
  exact expands_of_path h hacyclic rfl _ [] key value (Nat.lt_succ_self _) hnodup hreached
    (List.forall_mem_singleton.2 .refl) hv

end Acyclic

/-! ## Cyclic references -/

section Cyclic

variable (host s) in
/-- The value of `key`, standing at the given depth, has a text. -/
def Settled (ceiling depth : Nat) (key : Text) : Prop :=
  ∃ value, s.query host key = some value ∧
    ∃ t, (evaluate (s.resolver host) ceiling depth key value value).result = .ok t

variable {ceiling depth : Nat}

/-- What the markers of a settled template name is settled one level deeper. -/
theorem settled_of_marker {base value marker key : Text} {t : Text}
    (hw : Template.WellFormed value)
    (ht : (evaluate (s.resolver host) ceiling depth base value value).result = .ok t)
    (hm : marker ∈ Template.markers value) (hk : Key.relative base marker = .ok key)
    {v : Text} (hv : s.query host key = some v) :
    depth < ceiling ∧ Settled host s ceiling (depth + 1) key := by
  rw [evaluate_eq_fill _ _ _ _ _ hw] at ht
  obtain ⟨u, hu⟩ := ok_of_fill_eq_ok ht hm
  by_cases hd : depth < ceiling
  · rw [result_enter hd hk hv] at hu
    exact ⟨hd, v, hv, u, hu⟩
  · rw [result_enter_of_le (Nat.not_lt.1 hd)] at hu
    cases hu

/-- A settled value refers to settled values only. -/
theorem Settled.step (h : Closed host s template) {key target : Text}
    (hkey : Reached host s template key) (href : Refers host s key target)
    (hs : Settled host s ceiling depth key) :
    depth < ceiling ∧ Settled host s ceiling (depth + 1) target := by
  obtain ⟨value, hv, t, ht⟩ := hs
  obtain ⟨v, hv', hread⟩ := h.present key hkey
  obtain rfl : value = v := Option.some.inj (hv.symm.trans hv')
  obtain ⟨w, hw, marker, hm, hk⟩ := href
  obtain rfl : value = w := Option.some.inj (hv.symm.trans hw)
  obtain ⟨v', hq, -⟩ := h.present target (.refers hkey ⟨value, hv, marker, hm, hk⟩)
  exact settled_of_marker hread.wellFormed ht hm hk hq

theorem reached_of_transGen {key target : Text} (hkey : Reached host s template key)
    (hway : TransGen (Refers host s) key target) : Reached host s template target := by
  induction hway with
  | single href => exact .refers hkey href
  | tail _ href ih => exact .refers ih href

/-- Along references a settled value leads to settled values at greater depths. -/
theorem Settled.way (h : Closed host s template) {key target : Text}
    (hkey : Reached host s template key) (hway : TransGen (Refers host s) key target)
    (hs : Settled host s ceiling depth key) :
    depth < ceiling ∧ ∃ deeper, depth < deeper ∧ Settled host s ceiling deeper target := by
  induction hway with
  | single href =>
    obtain ⟨hd, hs'⟩ := hs.step h hkey href
    exact ⟨hd, depth + 1, Nat.lt_succ_self depth, hs'⟩
  | tail hway href ih =>
    obtain ⟨hd, deeper, hlt, hs'⟩ := ih
    obtain ⟨-, hs''⟩ := hs'.step h (reached_of_transGen hkey hway) href
    exact ⟨hd, deeper + 1, Nat.lt_succ_of_lt hlt, hs''⟩

/-- A value that leads back to itself is settled at no depth. -/
theorem not_settled_of_cycle (h : Closed host s template) {key : Text}
    (hkey : Reached host s template key) (hcycle : TransGen (Refers host s) key key) :
    ¬ Settled host s ceiling depth key := by
  -- each way round the cycle takes away from the room under the ceiling
  induction hr : ceiling - depth using Nat.strongRecOn generalizing depth with
  | ind room ih =>
    intro hs
    obtain ⟨hd, deeper, hlt, hs'⟩ := hs.way h hkey hcycle
    exact ih (ceiling - deeper) (by omega) rfl hs'

/-- If the template has a text then every reached key is settled somewhere. -/
theorem exists_settled_of_reached (h : Closed host s template) {t : Text}
    (ht : (evaluate (s.resolver host) ceiling 1 [] template template).result = .ok t)
    {key : Text} (hkey : Reached host s template key) :
    ∃ depth, Settled host s ceiling depth key := by
  induction hkey with
  | marker hm hk =>
    obtain ⟨v, hv, -⟩ := h.present _ (.marker hm hk)
    exact ⟨2, (settled_of_marker h.readable.wellFormed ht hm hk hv).2⟩
  | refers hkey href ih =>
    obtain ⟨depth, hs⟩ := ih
    exact ⟨depth + 1, (hs.step h hkey href).2⟩

end Cyclic

/-! ## The ceiling -/

/-- If all markers reach keys then an expansion fails at the ceiling and nowhere else. -/
theorem eq_depthLimit_of_error (h : Closed host s template) {ceiling depth : Nat}
    {base value : Text} {e : Error} (hw : Template.WellFormed value)
    (hm : ∀ marker ∈ Template.markers value,
      ∃ key, Key.relative base marker = .ok key ∧ Reached host s template key)
    (he : (evaluate (s.resolver host) ceiling depth base value value).result = .error e) :
    e = .depthLimit ceiling := by
  induction hr : ceiling - depth using Nat.strongRecOn generalizing depth base value with
  | ind room ih =>
    rw [evaluate_eq_fill _ _ _ _ _ hw] at he
    obtain ⟨marker, hmem, he⟩ := error_of_fill_eq_error he
    obtain ⟨key, hk, hkey⟩ := hm marker hmem
    obtain ⟨v, hv, hread⟩ := h.present key hkey
    by_cases hd : depth < ceiling
    · rw [result_enter hd hk hv] at he
      refine ih (ceiling - (depth + 1)) (by omega) hread.wellFormed ?_ he rfl
      intro marker' hm'
      obtain ⟨target, -, ht, -, htarget, -⟩ := reached_of_marker h hkey hv hm'
      exact ⟨target, ht, htarget⟩
    · rw [result_enter_of_le (Nat.not_lt.1 hd)] at he
      cases he
      rfl

theorem expand_eq_result (ceiling : Ceiling) (template : Text) :
    s.expand host ceiling template =
      (evaluate (s.resolver host) ceiling.depth 1 [] template template).result := by
  rw [Store.expand, expand_eq_meaning, meaning_singleton]
  rfl

/-- If every reference of a template leads to a value that can be read, then finitely many keys
are reached, and the ceiling tells cycles apart: without one the template has one text under every
ceiling above the number of reached keys, and with one it has none under any ceiling. -/
theorem expand_of_closed (host : Host) (s : Store) (template : Text)
    (h : Closed host s template) :
    {key | Reached host s template key}.Finite ∧
      ((∀ key, Reached host s template key → ¬ TransGen (Refers host s) key key) →
        ∃ t, ∀ ceiling : Ceiling, {key | Reached host s template key}.ncard + 1 ≤ ceiling.depth →
          s.expand host ceiling template = .ok t) ∧
      ((∃ key, Reached host s template key ∧ TransGen (Refers host s) key key) →
        ∀ ceiling : Ceiling,
          s.expand host ceiling template = .error (.depthLimit ceiling.depth)) := by
  refine ⟨finite_reached h, ?_, ?_⟩
  · intro hacyclic
    obtain ⟨t, ht⟩ := expands_of_acyclic h hacyclic
    refine ⟨t, fun ceiling hc => ?_⟩
    rw [expand_eq_result]
    exact ht ceiling.depth hc
  · rintro ⟨key, hkey, hcycle⟩ ceiling
    rw [expand_eq_result]
    cases hr : (evaluate (s.resolver host) ceiling.depth 1 [] template template).result with
    | error e =>
      refine congrArg Except.error (eq_depthLimit_of_error h h.readable.wellFormed ?_ hr)
      intro marker hm
      obtain ⟨k, hk⟩ := h.readable.named marker hm
      exact ⟨k, hk, .marker hm hk⟩
    | ok t =>
      obtain ⟨depth, hs⟩ := exists_settled_of_reached h hr hkey
      exact absurd hs (not_settled_of_cycle h hkey hcycle)

/-! ### A reference and a loop -/

section Neighbours

/-- A store where `a.b` refers to its neighbour `a.c`, and `d` to itself. -/
def neighbours : Store :=
  .mapped (.ofList [("a.b".toList, Template.markerText ".c".toList), ("a.c".toList, "x".toList),
    ("d".toList, Template.markerText "d".toList)])

variable {host : Host} {key target : Text}

private theorem tokens_plain : Template.tokens "x".toList = ([.text "x".toList], none) := by
  decide +kernel

private theorem refers_neighbours (h : Refers host neighbours key target) :
    (key = "a.b".toList ∧ target = "a.c".toList) ∨ (key = "d".toList ∧ target = "d".toList) := by
  obtain ⟨value, hv, marker, hm, hk⟩ := h
  have hmem : (key, value) ∈ neighbours.entries host := by
    rw [query_eq_valueOf?] at hv
    exact Settings.mem_of_valueOf?_eq_some hv
  rcases hmem with _ | ⟨_, _ | ⟨_, _ | ⟨_, hnil⟩⟩⟩
  · rw [Template.markers_markerText (by decide)] at hm
    obtain rfl := List.mem_singleton.1 hm
    cases hk
    exact Or.inl ⟨rfl, rfl⟩
  · rw [Template.markers, tokens_plain] at hm
    cases hm
  · rw [Template.markers_markerText (by decide)] at hm
    obtain rfl := List.mem_singleton.1 hm
    cases hk
    exact Or.inr ⟨rfl, rfl⟩
  · cases hnil

private theorem reached_neighbours
    (h : Reached host neighbours (Template.markerText "a.b".toList) key) :
    key = "a.b".toList ∨ key = "a.c".toList := by
  induction h with
  | marker hm hk =>
    rw [Template.markers_markerText (by decide)] at hm
    obtain rfl := List.mem_singleton.1 hm
    cases hk
    exact Or.inl rfl
  | refers _ href ih =>
    rcases refers_neighbours href with ⟨-, rfl⟩ | ⟨rfl, rfl⟩
    · exact Or.inr rfl
    · rcases ih with h | h <;> exact absurd h (by decide)

private theorem reached_loop (h : Reached host neighbours (Template.markerText "d".toList) key) :
    key = "d".toList := by
  induction h with
  | marker hm hk =>
    rw [Template.markers_markerText (by decide)] at hm
    obtain rfl := List.mem_singleton.1 hm
    cases hk
    rfl
  | refers _ href ih =>
    subst ih
    rcases refers_neighbours href with ⟨h, -⟩ | ⟨-, h⟩
    · exact absurd h (by decide)
    · exact h

private theorem readable_markerText {base marker : Text} (hm : '\x7d' ∉ marker)
    (hk : Key.relative base marker = .ok key) : Readable base (Template.markerText marker) := by
  refine ⟨Template.wellFormed_markerText hm, fun m hmem => ⟨key, ?_⟩⟩
  rw [Template.markers_markerText hm] at hmem
  rw [List.mem_singleton.1 hmem, hk]

private theorem closed_neighbours (host : Host) :
    Closed host neighbours (Template.markerText "a.b".toList) where
  readable := readable_markerText (by decide) rfl
  present := by
    intro key hk
    rcases reached_neighbours hk with rfl | rfl
    · exact ⟨_, rfl, readable_markerText (by decide) rfl⟩
    · refine ⟨_, rfl, ?_, ?_⟩
      · exact congrArg Prod.snd tokens_plain
      · rw [Template.markers, tokens_plain]
        exact fun _ hm => absurd hm List.not_mem_nil

private theorem closed_loop (host : Host) :
    Closed host neighbours (Template.markerText "d".toList) where
  readable := readable_markerText (by decide) rfl
  present := by
    intro key hk
    rw [reached_loop hk]
    exact ⟨_, rfl, readable_markerText (by decide) rfl⟩

private theorem acyclic_neighbours
    (hk : Reached host neighbours (Template.markerText "a.b".toList) key) :
    ¬ TransGen (Refers host neighbours) key key := by
  intro h
  obtain ⟨x, hx, -⟩ := TransGen.head'_iff.1 h
  obtain ⟨y, -, hy⟩ := TransGen.tail'_iff.1 h
  rcases reached_neighbours hk with rfl | rfl
  · rcases refers_neighbours hy with ⟨-, h⟩ | ⟨-, h⟩ <;> exact absurd h (by decide)
  · rcases refers_neighbours hx with ⟨h, -⟩ | ⟨h, -⟩ <;> exact absurd h (by decide)

/-- `a.b` has a text under every ceiling that is high enough, and `d` under none. -/
theorem expand_neighbours_and_loop :
    (Closed ⟨.empty, .empty⟩ neighbours (Template.markerText "a.b".toList) ∧
      ∃ t, ∀ ceiling : Ceiling,
        {key | Reached ⟨.empty, .empty⟩ neighbours (Template.markerText "a.b".toList) key}.ncard
            + 1 ≤ ceiling.depth →
        neighbours.expand ⟨.empty, .empty⟩ ceiling (Template.markerText "a.b".toList) = .ok t) ∧
      (Closed ⟨.empty, .empty⟩ neighbours (Template.markerText "d".toList) ∧
        ∀ ceiling : Ceiling,
          neighbours.expand ⟨.empty, .empty⟩ ceiling (Template.markerText "d".toList) =
            .error (.depthLimit ceiling.depth)) := by
  refine ⟨⟨closed_neighbours _, ?_⟩, closed_loop _, ?_⟩
  · exact (expand_of_closed _ _ _ (closed_neighbours _)).2.1 fun key hk => acyclic_neighbours hk
  · have hmarker : "d".toList ∈ Template.markers (Template.markerText "d".toList) := by
      rw [Template.markers_markerText (by decide)]
      exact List.mem_singleton_self _
    have hd : Reached ⟨.empty, .empty⟩ neighbours (Template.markerText "d".toList) "d".toList :=
      .marker hmarker rfl
    have hcycle : Refers ⟨.empty, .empty⟩ neighbours "d".toList "d".toList :=
      ⟨Template.markerText "d".toList, rfl, "d".toList, hmarker, rfl⟩
    exact (expand_of_closed _ _ _ (closed_loop _)).2.2 ⟨_, hd, .single hcycle⟩

end Neighbours

end LayeredSettings.Store
